import EventSource.Lib.Trace
import EventSource.Port.CurlTransport

/-!
# The curl Transport in Small Steps

What one step does to the context and the log, and every call of the transport as a run of such
steps, whatever libcurl does inside it.
-/

namespace EventSource.Port

open EventSource.CMemory
open EventSource.Parser
open EventSource.Client
open EventSource.RingBuffer
open EventSource.Trace

variable {env : CurlEnv} {w v : CurlWorld}

/-! ## §1 Steps -/

/-- A zeroed context with handles and a header list. -/
def freshCtx (easy multi : Bool) (hdrs : List Mem) : CurlCtx :=
  { emptyCtx with
    easy := easy
    multi := multi
    hdrs := hdrs }

/-- The first `n` bytes of the ring are copied out. -/
def removeBytes (w : CurlWorld) (n : Nat) : CurlWorld :=
  (w.update fun t =>
    { t with
      rHead := (t.rHead + n) % ringCap
      rLen := t.rLen - n }).push (.took (contents w.ctx.ring w.ctx.rHead n))

/-- A step of a wait: the clock is read, or libcurl runs and calls back. A transfer is resumed only
when there is room in the ring. -/
inductive PumpStep : CurlWorld → CurlWorld → Prop where
  | clock (w : CurlWorld) (t : Nat) : PumpStep w (w.push (.clock t))
  | resume (w : CurlWorld) (hroom : w.ctx.rLen < ringCap / 2) :
      PumpStep w ((w.update fun t => { t with paused := false }).push .resume)
  | wait (w : CurlWorld) (ms : Int) : PumpStep w (w.push (.wait ms))
  | perform (w : CurlWorld) : PumpStep w (w.push .perform)
  | callBack (w : CurlWorld) (c : CurlCallback) : PumpStep w (callBack w c)
  | done (w : CurlWorld) (r : Int) : PumpStep w (harvest w (some r))

/-- One step of the transport. No more is copied out of the ring than there is. -/
inductive CurlStep : CurlWorld → CurlWorld → Prop where
  | pump {w v : CurlWorld} (h : PumpStep w v) : CurlStep w v
  | teardown (w : CurlWorld) : CurlStep w (teardown w)
  | handles (w : CurlWorld) {easy multi : Bool} {hdrs : List Mem} (easy' multi' : Bool)
      (hdrs' : List Mem) (h : w.ctx = freshCtx easy multi hdrs) :
      CurlStep w (w.update fun _ => freshCtx easy' multi' hdrs')
  | first (w : CurlWorld) (url : Mem) {easy multi : Bool} {hdrs : List Mem}
      (h : w.ctx = freshCtx easy multi hdrs) : CurlStep w (addHandle w url)
  | again (w : CurlWorld) (redir : Mem) : CurlStep w (reissue w redir)
  | took (w : CurlWorld) {n : Nat} (hn : n ≤ w.ctx.rLen) : CurlStep w (removeBytes w n)

abbrev PumpSteps : CurlWorld → CurlWorld → Prop :=
  Relation.ReflTransGen PumpStep

abbrev CurlSteps : CurlWorld → CurlWorld → Prop :=
  Relation.ReflTransGen CurlStep

theorem PumpSteps.steps (h : PumpSteps w v) : CurlSteps w v :=
  h.lift id fun _ _ => .pump

theorem PumpStep.log (h : PumpStep w v) : ∃ o, v.log = w.log ++ [⟨o, v.ctx⟩] := by
  cases h with
  | callBack c => cases c <;> exact ⟨_, rfl⟩
  | _ => exact ⟨_, rfl⟩

/-- A step records what it does, with the context that it leaves, if it is more than an assignment. -/
theorem CurlStep.log (h : CurlStep w v) : v.log = w.log ∨ ∃ o, v.log = w.log ++ [⟨o, v.ctx⟩] := by
  cases h with
  | pump h => exact .inr h.log
  | handles => exact .inl rfl
  | _ => exact .inr ⟨_, rfl⟩

theorem CurlSteps.log (h : CurlSteps w v) : w.log <+: v.log := by
  refine invariant_of_steps (I := fun u => w.log <+: u.log) ?_ h List.prefix_rfl
  intro s t hst hs
  rcases hst.log with heq | ⟨o, heq⟩
  · rw [heq]
    exact hs
  · rw [heq]
    exact hs.trans (List.prefix_append _ _)

/-! ## §2 Running libcurl -/

theorem callBacks_steps (w : CurlWorld) (cs : List CurlCallback) :
    PumpSteps w (cs.foldl callBack w) :=
  foldl_steps (e := id) (fun u c => .single (.callBack u c)) w cs

theorem resumeIfRoom_steps (env : CurlEnv) (w : CurlWorld) : PumpSteps w (resumeIfRoom env w) := by
  unfold resumeIfRoom
  split
  · next h =>
    rw [Bool.and_eq_true, decide_eq_true_eq] at h
    exact .head (.resume w h.2) (callBacks_steps _ _)
  · exact .refl

theorem harvests_steps (w : CurlWorld) (ms : List (Option Int)) :
    PumpSteps w (ms.foldl harvest w) := by
  refine foldl_steps (e := id) ?_ w ms
  intro u m
  cases m with
  | none => exact .refl
  | some r => exact .single (.done u r)

theorem pump_steps (env : CurlEnv) (w : CurlWorld) (waitMs : Int) :
    PumpSteps w (pump env w waitMs).2 := by
  have hwait : PumpSteps w ((resumeIfRoom env w).push (.wait waitMs)) :=
    (resumeIfRoom_steps env w).tail (.wait _ _)
  unfold pump
  simp only
  split
  · exact hwait
  · have hperform := fun cs => (hwait.tail (.perform _)).trans (callBacks_steps _ cs)
    split
    · exact hperform _
    · exact (hperform _).trans (harvests_steps _ _)

/-! ## §3 Opening -/

theorem waitLoop_steps (env : CurlEnv) (stop : CurlCtx → Bool) (start : UInt32) (rounds : Nat)
    (w : CurlWorld) : PumpSteps w (waitLoop env stop start rounds w).2 := by
  induction rounds generalizing w with
  | zero => exact .refl
  | succ rounds ih =>
    unfold waitLoop
    simp only
    split
    · exact .refl
    · have hclock : PumpSteps w (nowMsPosix env w).2 := .single (.clock w _)
      split
      · have hpump := hclock.trans (pump_steps env (nowMsPosix env w).2 100)
        split
        · exact hpump.trans (ih _)
        · exact hpump
      · exact hclock

theorem waitFor_steps (env : CurlEnv) (stop : CurlCtx → Bool) (w : CurlWorld) :
    PumpSteps w (waitFor env stop w).2 :=
  .head (.clock w _) (waitLoop_steps env stop _ _ _)

theorem awaitResponse_snd (env : CurlEnv) (w : CurlWorld) :
    (awaitResponse env w).2 = (waitFor env answered w).2 := by
  unfold awaitResponse
  simp only
  split <;> rfl

theorem awaitResponse_steps (env : CurlEnv) (w : CurlWorld) :
    PumpSteps w (awaitResponse env w).2 := by
  rw [awaitResponse_snd]
  exact waitFor_steps env answered w

theorem drain_steps (env : CurlEnv) (w : CurlWorld) : PumpSteps w (drain env w).2 :=
  waitFor_steps env _ w

theorem hopLoop_steps (env : CurlEnv) (left : Nat) (w : CurlWorld) :
    CurlSteps w (hopLoop env left w).2 := by
  induction left generalizing w with
  | zero =>
    unfold hopLoop
    simp only
    have hawait := (awaitResponse_steps env w).steps
    split
    · exact hawait
    · split
      · exact hawait
      · split <;> exact hawait.trans (drain_steps env _).steps
  | succ left ih =>
    unfold hopLoop
    simp only
    have hawait := (awaitResponse_steps env w).steps
    split
    · exact hawait
    · split
      · exact hawait
      · have hdrain := hawait.trans (drain_steps env (awaitResponse env w).2).steps
        split
        · exact hdrain
        · split
          · exact hdrain
          -- a followed hop is a wait, the new request, and the hops left
          · exact (hdrain.tail (.again _ _)).trans (ih _)

/-- The header list grows, and nothing else happens. -/
theorem appendHeaders_spec (env : CurlEnv) {easy multi : Bool} {hdrs : List Mem}
    (h : w.ctx = freshCtx easy multi hdrs) (headers : List Mem) :
    CurlSteps w (appendHeaders env w headers).2 ∧
      ∃ hdrs', (appendHeaders env w headers).2.ctx = freshCtx easy multi hdrs' := by
  induction headers generalizing w hdrs with
  | nil => exact ⟨.refl, hdrs, h⟩
  | cons x headers ih =>
    unfold appendHeaders
    split
    · have hset : (w.update fun t => { t with hdrs := t.hdrs ++ [x] }) =
          w.update fun _ => freshCtx easy multi (hdrs ++ [x]) := by
        unfold CurlWorld.update
        rw [h]
        rfl
      rw [hset]
      obtain ⟨hsteps, hdrs', hctx⟩ := @ih (w.update fun _ => freshCtx easy multi (hdrs ++ [x]))
        (hdrs ++ [x]) rfl
      exact ⟨.head (.handles w easy multi (hdrs ++ [x]) h) hsteps, hdrs', hctx⟩
    · exact ⟨.refl, hdrs, h⟩

/-- Whatever comes of it, the context is as good as new. -/
theorem setUp_spec (env : CurlEnv) (w : CurlWorld) (headers : List Mem) :
    CurlSteps w (setUp env w headers).2 ∧
      ∃ easy multi hdrs, (setUp env w headers).2.ctx = freshCtx easy multi hdrs := by
  have htorn : CurlSteps w (teardown w) := .single (.teardown w)
  have hhandles : ∀ easy multi, CurlSteps w
      ((teardown w).update fun t => { t with easy := easy, multi := multi }) := fun easy multi =>
    htorn.tail (@CurlStep.handles (teardown w) false false [] easy multi [] rfl)
  unfold setUp
  simp only
  split
  · exact ⟨hhandles _ _, _, _, _, rfl⟩
  · let u := (teardown w).update fun t =>
      { t with
        easy := env.easyInit (teardown w).log
        multi := env.multiInit (teardown w).log }
    have hu : u.ctx = freshCtx u.ctx.easy u.ctx.multi [] := rfl
    obtain ⟨hsteps, hdrs, hctx⟩ := appendHeaders_spec env hu headers
    exact ⟨(hhandles _ _).trans hsteps, _, _, hdrs, hctx⟩

theorem curlOpenFn_steps (env : CurlEnv) (w : CurlWorld) (req : SseRequest)
    (out : SseResponseInfo) : CurlSteps w (curlOpenFn env w req out).2.2 := by
  obtain ⟨hset, easy, multi, hdrs, hctx⟩ := setUp_spec env w req.headers
  unfold curlOpenFn
  simp only
  split
  · exact hset.tail (.teardown _)
  · have hloop := (hset.tail (.first _ req.url hctx)).trans (hopLoop_steps env maxRedirectHops _)
    split
    · exact hloop.tail (.teardown _)
    · exact hloop

/-! ## §4 Reading -/

theorem takeBytes_steps (env : CurlEnv) (w : CurlWorld) (len : Nat) :
    CurlSteps w (takeBytes env w len).2.2 := by
  have hn : (if w.ctx.rLen < len then w.ctx.rLen else len) ≤ w.ctx.rLen := by
    split <;> omega
  exact .head (.took w hn) (resumeIfRoom_steps env _).steps

theorem curlReadFn_steps (env : CurlEnv) (w : CurlWorld) (len : Nat) (timeoutMs : UInt32) :
    CurlSteps w (curlReadFn env w len timeoutMs).2.2 := by
  unfold curlReadFn
  simp only
  split
  · split
    · exact .refl
    · have hpump := (pump_steps env w timeoutMs.toInt32.toInt).steps
      split
      · exact hpump
      · split
        · split <;> exact hpump
        · exact hpump.trans (takeBytes_steps env _ len)
  · exact takeBytes_steps env w len

/-- **Every call of the transport is a run of its steps.** -/
theorem runTransport_steps (env : CurlEnv) (w : CurlWorld) (c : TransportCall) :
    CurlSteps w (runTransport env w c) := by
  cases c with
  | openFn req out => exact curlOpenFn_steps env w req out
  | readFn len timeoutMs => exact curlReadFn_steps env w len timeoutMs
  | closeFn => exact .single (.teardown w)

theorem CurlReachable.steps (h : CurlReachable env w) : CurlSteps curlNew w := by
  obtain ⟨calls, rfl⟩ := h
  exact foldl_steps (e := id) (fun u c => runTransport_steps env u c) curlNew calls

end EventSource.Port
