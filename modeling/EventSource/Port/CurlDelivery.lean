import EventSource.Port.CurlRing
import EventSource.Port.HeaderLines

/-!
# What libcurl Delivers

libcurl hands over the header lines of the answer to a request in order, then its body, and completes
without error only after the last header line. The context then is what the lines so far make of it,
and the ring has got the body unless the lines make the answer a redirect.
-/

namespace EventSource.Port

open EventSource.CMemory
open EventSource.Parser
open EventSource.Client
open EventSource.RingBuffer
open EventSource.Trace

variable {env : CurlEnv} {w v : CurlWorld} {served : Nat → Answer}

/-! ## §1 The Current Request -/

/-- The URLs that have been requested. -/
def requests (log : CurlLog) : List Mem :=
  log.filterMap fun e =>
    match e.obs with
    | .request url _ => some url
    | _ => none

/-- What has been handed over since the last request: the header lines, and the chunks that `on_body`
has not refused. -/
structure Delivery where
  lines : List HeaderLine
  body : Bytes
  deriving DecidableEq

def Delivery.enter (d : Delivery) (e : CurlEntry) : Delivery :=
  match e.obs with
  | .teardown | .request _ _ => ⟨[], []⟩
  | .header ptr n => { d with lines := d.lines ++ [(ptr, n)] }
  | .body _ .refused => d
  | .body chunk _ => { d with body := d.body ++ chunk }
  | _ => d

def deliveryOf (log : CurlLog) : Delivery :=
  log.foldl Delivery.enter ⟨[], []⟩

theorem requests_snoc (log : CurlLog) (e : CurlEntry) :
    requests (log ++ [e]) = requests log ++ requests [e] := by
  unfold requests
  rw [List.filterMap_append]

theorem deliveryOf_snoc (log : CurlLog) (e : CurlEntry) :
    deliveryOf (log ++ [e]) = (deliveryOf log).enter e := by
  unfold deliveryOf
  rw [List.foldl_append]
  rfl

/-! ## §2 Delivery in Order -/

/-- What libcurl may hand over next of an answer. -/
def Answer.Allows (a : Answer) (ls : List HeaderLine) : CurlObs → Prop
  | .header ptr n => ls ++ [(ptr, n)] <+: a.lines
  | .body _ _ => ls = a.lines
  | .done result => result = curleOk → ls = a.lines
  | _ => True

instance (a : Answer) (ls : List HeaderLine) : DecidablePred (a.Allows ls)
  | .header ptr n => inferInstanceAs (Decidable (ls ++ [(ptr, n)] <+: a.lines))
  | .body _ _ => inferInstanceAs (Decidable (ls = a.lines))
  | .done result => inferInstanceAs (Decidable (result = curleOk → ls = a.lines))
  | .teardown | .request _ _ | .clock _ | .resume | .wait _ | .perform | .took _ =>
    inferInstanceAs (Decidable True)

/-- So far libcurl has delivered, for each request by its number, the answer that the request was
served, or a first part of it. -/
def Delivers (served : Nat → Answer) (log : CurlLog) : Prop :=
  Always (fun pre e => (served (requests pre).length).Allows (deliveryOf pre).lines e.obs) log

instance (served : Nat → Answer) (log : CurlLog) : Decidable (Delivers served log) :=
  inferInstanceAs (Decidable (Always _ _))

/-! ## §3 The Context and the Delivery -/

/-- What the context owes to the delivery: three fields are what has been heard of the lines; nothing
else begins or ends before the lines are complete; and the body is in the ring, or thrown away if the
lines so far make the answer a redirect. -/
structure Owes (t : CurlCtx) (d : Delivery) (accepted : Bytes) (a : Answer) : Prop where
  heard : t.heard = hear d.lines
  part : d.lines <+: a.lines
  started : t.bodyStarted = true ∨ d.body ≠ [] → d.lines = a.lines
  ended : t.transferDone = true → t.transferResult = curleOk → d.lines = a.lines
  accepted : accepted = if isRedirectStatus t.headerBlockStatus then [] else d.body

theorem owes_fresh {t : CurlCtx} (a : Answer) (hheard : t.heard = ⟨0, -1, false⟩)
    (hbody : t.bodyStarted = false) (hended : t.transferDone = false) :
    Owes t ⟨[], []⟩ [] a where
  heard := hheard
  part := List.nil_prefix
  started h := by simp [hbody] at h
  ended h _ := by simp [hended] at h
  accepted := (ite_self _).symm

/-- Only six fields matter. -/
theorem Owes.congr {t u : CurlCtx} {d : Delivery} {bytes : Bytes} {a : Answer} (h : Owes t d bytes a)
    (hheard : u.heard = t.heard) (hbody : u.bodyStarted = t.bodyStarted)
    (hended : u.transferDone = t.transferDone) (hresult : u.transferResult = t.transferResult) :
    Owes u d bytes a where
  heard := hheard.trans h.heard
  part := h.part
  started hu := h.started (hbody ▸ hu)
  ended hu hr := h.ended (hended.symm.trans hu) (hresult.symm.trans hr)
  accepted := by
    have hstatus : u.headerBlockStatus = t.headerBlockStatus := congrArg Heard.status hheard
    rw [hstatus]
    exact h.accepted

/-- While header lines come, there is no body and no completion without error. -/
theorem Owes.header {t : CurlCtx} {d : Delivery} {bytes : Bytes} {a : Answer} (h : Owes t d bytes a)
    {ptr : Mem} {n : Nat} (hallow : d.lines ++ [(ptr, n)] <+: a.lines) :
    Owes (onHeader t ptr n) { d with lines := d.lines ++ [(ptr, n)] } bytes a := by
  obtain ⟨hbody, hended, hresult⟩ := onHeader_spares t ptr n
  -- this line was still to come, so the lines were not complete
  have hmore : d.lines ≠ a.lines := by
    intro hall
    have hlen := hallow.length_le
    rw [hall, List.length_append, List.length_singleton] at hlen
    omega
  -- hence no byte of a body has come, and the ring has taken none
  have hempty : d.body = [] := by
    by_contra hne
    exact hmore (h.started (.inr hne))
  have haccepted : bytes = [] := by
    rw [h.accepted, hempty, ite_self]
  refine ⟨?_, hallow, ?_, ?_, ?_⟩
  · rw [onHeader_heard, h.heard]
    unfold hear
    rw [List.foldl_append]
    rfl
  · intro hstarted
    rw [hbody] at hstarted
    exact absurd (h.started hstarted) hmore
  · intro hdone hok
    rw [hended] at hdone
    rw [hresult] at hok
    exact absurd (h.ended hdone hok) hmore
  · rw [haccepted, hempty, ite_self]

/-- The context owes to the current delivery, of the answer to the last request. -/
def OpenOk (served : Nat → Answer) (w : CurlWorld) : Prop :=
  Owes w.ctx (deliveryOf w.log) (ledger w.log).accepted (served (requests w.log).length)

theorem callBack_openOk (h : OpenOk served w) (c : CurlCallback)
    (hallows : ∀ o, (callBack w c).log = w.log ++ [⟨o, (callBack w c).ctx⟩] →
      (served (requests w.log).length).Allows (deliveryOf w.log).lines o) :
    OpenOk served (callBack w c) := by
  cases c with
  | header ptr n =>
    have hlog : (callBack w (.header ptr n)).log =
        w.log ++ [⟨.header ptr n, onHeader w.ctx ptr n⟩] := rfl
    unfold OpenOk
    rw [hlog, requests_snoc, deliveryOf_snoc, ledger_snoc]
    show Owes (onHeader w.ctx ptr n) _ _ (served (requests w.log ++ []).length)
    rw [List.append_nil]
    exact Owes.header h (hallows (.header ptr n) rfl)
  | body chunk =>
    have hall : (deliveryOf w.log).lines = (served (requests w.log).length).lines :=
      hallows (.body chunk (onBody w.ctx chunk).2) rfl
    have hkept := h.accepted
    -- a chunk comes after the last line, whatever becomes of it
    have hopen : ∀ {u : CurlWorld} {result : BodyResult} (body : Bytes),
        u.log = w.log ++ [⟨.body chunk result, u.ctx⟩] → u.ctx.heard = w.ctx.heard →
        (deliveryOf w.log).enter ⟨.body chunk result, u.ctx⟩ = { deliveryOf w.log with body := body } →
        ((ledger w.log).enter ⟨.body chunk result, u.ctx⟩).accepted =
          (if isRedirectStatus u.ctx.headerBlockStatus then [] else body) → OpenOk served u := by
      intro u result body hlog hheard hdelivery haccepted
      unfold OpenOk
      rw [hlog, requests_snoc, deliveryOf_snoc, ledger_snoc, hdelivery]
      show Owes u.ctx _ _ (served (requests w.log ++ []).length)
      rw [List.append_nil]
      exact ⟨hheard.trans h.heard, h.part, fun _ => hall, fun _ _ => hall, haccepted⟩
    rcases callBack_body_cases w chunk with ⟨hs, heq⟩ | ⟨hs, -, heq⟩ | ⟨hs, -, heq⟩
    · rw [heq]
      -- thrown away: it is part of the body, and the ring stays empty
      refine hopen ((deliveryOf w.log).body ++ chunk) rfl rfl rfl ?_
      rw [if_pos hs] at hkept
      exact hkept.trans (if_pos hs).symm
    · rw [heq]
      -- refused: libcurl holds it back, and it is no part of the body yet
      exact hopen (deliveryOf w.log).body rfl rfl rfl hkept
    · -- nothing has been thrown away before, since the lines are complete
      rw [heq]
      refine hopen ((deliveryOf w.log).body ++ chunk) rfl rfl rfl ?_
      have hs' : ¬ isRedirectStatus w.ctx.headerBlockStatus = true := by
        rw [hs]
        exact Bool.false_ne_true
      rw [if_neg hs'] at hkept
      exact (congrArg (· ++ chunk) hkept).trans (if_neg hs').symm

theorem PumpStep.openOk (h : PumpStep w v) (hw : OpenOk served w)
    (hallows : ∀ o, v.log = w.log ++ [⟨o, v.ctx⟩] →
      (served (requests w.log).length).Allows (deliveryOf w.log).lines o) : OpenOk served v := by
  have hquiet : ∀ {u : CurlWorld} {o : CurlObs}, u.log = w.log ++ [⟨o, u.ctx⟩] →
      requests [⟨o, u.ctx⟩] = [] → (∀ d : Delivery, d.enter ⟨o, u.ctx⟩ = d) →
      (∀ l : Ledger, (l.enter ⟨o, u.ctx⟩).accepted = l.accepted) →
      Owes u.ctx (deliveryOf w.log) (ledger w.log).accepted (served (requests w.log).length) →
      OpenOk served u := by
    intro u o hlog hrequests hdelivery hledger hctx
    unfold OpenOk
    rw [hlog, requests_snoc, hrequests, List.append_nil, deliveryOf_snoc, hdelivery, ledger_snoc,
      hledger]
    exact hctx
  cases h with
  | callBack c => exact callBack_openOk hw c hallows
  | done r =>
    refine hquiet rfl rfl (fun _ => rfl) (fun _ => rfl) ?_
    have hallow : r = curleOk →
      (deliveryOf w.log).lines = (served (requests w.log).length).lines := hallows (.done r) rfl
    exact ⟨hw.heard, hw.part, hw.started, fun _ => hallow, hw.accepted⟩
  | _ => exact hquiet rfl rfl (fun _ => rfl) (fun _ => rfl) (hw.congr rfl rfl rfl rfl)

/-- **Every step keeps the context up to date**, as long as libcurl delivers the answers. -/
theorem CurlStep.openOk (h : CurlStep w v) (hw : OpenOk served w)
    (hallows : ∀ o, v.log = w.log ++ [⟨o, v.ctx⟩] →
      (served (requests w.log).length).Allows (deliveryOf w.log).lines o) : OpenOk served v := by
  -- a transfer that starts or ends has delivered nothing yet
  have hreset : ∀ {u : CurlWorld} {o : CurlObs}, u.log = w.log ++ [⟨o, u.ctx⟩] →
      (∀ d : Delivery, d.enter ⟨o, u.ctx⟩ = ⟨[], []⟩) →
      (∀ l : Ledger, l.enter ⟨o, u.ctx⟩ = ⟨[], []⟩) → u.ctx.heard = ⟨0, -1, false⟩ →
      u.ctx.bodyStarted = false → u.ctx.transferDone = false → OpenOk served u := by
    intro u o hlog hdelivery hledger hheard hbody hended
    unfold OpenOk
    rw [hlog, deliveryOf_snoc, ledger_snoc, hdelivery, hledger]
    exact owes_fresh _ hheard hbody hended
  cases h with
  | pump h => exact h.openOk hw hallows
  | teardown => exact hreset rfl (fun _ => rfl) (fun _ => rfl) rfl rfl rfl
  | handles easy' multi' hdrs' hctx =>
    refine Owes.congr hw ?_ ?_ ?_ ?_ <;> rw [hctx] <;> rfl
  | first url hctx =>
    refine hreset rfl (fun _ => rfl) (fun _ => rfl) ?_ ?_ ?_
    · show w.ctx.heard = _
      rw [hctx]
      rfl
    · show w.ctx.bodyStarted = false
      rw [hctx]
      rfl
    · show w.ctx.transferDone = false
      rw [hctx]
      rfl
  | again redir => exact hreset rfl (fun _ => rfl) (fun _ => rfl) rfl rfl rfl
  | took hn =>
    unfold OpenOk removeBytes
    rw [curlPush_log, requests_snoc, deliveryOf_snoc, ledger_snoc]
    show Owes _ _ _ (served (requests w.log ++ []).length)
    rw [List.append_nil]
    exact Owes.congr hw rfl rfl rfl rfl

theorem CurlSteps.openOk (h : CurlSteps curlNew w) (hdelivers : Delivers served w.log) :
    OpenOk served w := by
  refine invariant_of_steps (I := fun u : CurlWorld => Delivers served u.log → OpenOk served u) ?_ h
    (fun _ => owes_fresh _ rfl rfl rfl) hdelivers
  intro s t hst hs ht
  rcases hst.log with heq | ⟨o, heq⟩
  · rw [heq] at ht
    refine hst.openOk (hs ht) ?_
    intro o hlog
    rw [heq] at hlog
    exact absurd hlog (by simp)
  · rw [heq] at ht
    obtain ⟨hbefore, hallow⟩ := always_snoc.mp ht
    refine hst.openOk (hs hbefore) ?_
    intro o' hlog
    rw [heq] at hlog
    obtain rfl := congrArg CurlEntry.obs (List.cons.inj (List.append_cancel_left hlog)).1
    exact hallow

theorem Delivers.earlier (h : Delivers served v.log) (hle : w.log <+: v.log) :
    Delivers served w.log := by
  obtain ⟨es, hes⟩ := hle
  unfold Delivers at h
  rw [← hes] at h
  exact h.of_append

/-! ## §4 What a Wait Leaves Alone -/

/-- Nothing is requested during a wait, and header lines are only added. -/
theorem PumpStep.spares (h : PumpStep w v) :
    requests v.log = requests w.log ∧
      (deliveryOf w.log).lines <+: (deliveryOf v.log).lines := by
  obtain ⟨o, hlog⟩ := h.log
  -- only a header line changes the list, and it is added at the end
  have hquiet : requests [⟨o, v.ctx⟩] = [] ∧
      ∀ d : Delivery, d.lines <+: (d.enter ⟨o, v.ctx⟩).lines := by
    cases h with
    | callBack c =>
      cases c with
      | header ptr n =>
        obtain rfl := congrArg CurlEntry.obs (List.cons.inj (List.append_cancel_left hlog)).1
        exact ⟨rfl, fun d => List.prefix_append _ _⟩
      | body chunk =>
        obtain rfl := congrArg CurlEntry.obs (List.cons.inj (List.append_cancel_left hlog)).1
        refine ⟨rfl, fun d => ?_⟩
        show d.lines <+: (d.enter ⟨.body chunk (onBody w.ctx chunk).2, _⟩).lines
        cases (onBody w.ctx chunk).2 <;> exact List.prefix_rfl
    | _ =>
      obtain rfl := congrArg CurlEntry.obs (List.cons.inj (List.append_cancel_left hlog)).1
      exact ⟨rfl, fun d => List.prefix_rfl⟩
  rw [hlog, requests_snoc, deliveryOf_snoc, hquiet.1]
  exact ⟨List.append_nil _, hquiet.2 _⟩

theorem PumpSteps.spares (h : PumpSteps w v) :
    requests v.log = requests w.log ∧
      (deliveryOf w.log).lines <+: (deliveryOf v.log).lines := by
  refine invariant_of_steps (I := fun u : CurlWorld => requests u.log = requests w.log ∧
    (deliveryOf w.log).lines <+: (deliveryOf u.log).lines) ?_ h ⟨rfl, List.prefix_rfl⟩
  rintro s t hst ⟨hrequests, hlines⟩
  exact ⟨hst.spares.1.trans hrequests, hlines.trans hst.spares.2⟩

end EventSource.Port
