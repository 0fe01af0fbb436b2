import EventSource.Port.CurlSteps

/-!
# The Ring of the curl Transport

The ring is a lossless FIFO: what reads have returned, followed by what is still in the ring, is what
`on_body` has accepted, in every interleaving of libcurl's callbacks with the client's calls. Since
libcurl is resumed only when half of the ring is free, it finds room for the chunk that was refused.
-/

namespace EventSource.Port

open EventSource.CMemory
open EventSource.Parser
open EventSource.Client
open EventSource.RingBuffer
open EventSource.Trace

variable {env : CurlEnv} {w v : CurlWorld} {log : CurlLog}

/-! ## §1 The Ledger -/

/-- The bytes that the current transfer has put into the ring and that reads have returned. -/
structure Ledger where
  accepted : Bytes
  returned : Bytes
  deriving DecidableEq, Repr

/-- A transfer begins with an empty ring; a discarded or refused chunk is not in it. -/
def Ledger.enter (l : Ledger) (e : CurlEntry) : Ledger :=
  match e.obs with
  | .teardown | .request _ _ => ⟨[], []⟩
  | .body chunk .stored => { l with accepted := l.accepted ++ chunk }
  | .took bytes => { l with returned := l.returned ++ bytes }
  | _ => l

def ledger (log : CurlLog) : Ledger :=
  log.foldl Ledger.enter ⟨[], []⟩

theorem ledger_snoc (log : CurlLog) (e : CurlEntry) :
    ledger (log ++ [e]) = (ledger log).enter e := by
  unfold ledger
  rw [List.foldl_append]
  rfl

/-- What is in the ring. -/
def CurlCtx.ringContents (t : CurlCtx) : Bytes :=
  contents t.ring t.rHead t.rLen

/-- The indices are in range, and the ring holds what was accepted and not returned yet. -/
structure RingInv (l : Ledger) (t : CurlCtx) : Prop where
  len : t.rLen ≤ ringCap
  head : t.rHead < ringCap
  fifo : l.accepted = l.returned ++ t.ringContents

theorem ringInv_empty {t : CurlCtx} (hlen : t.rLen = 0) (hhead : t.rHead = 0) :
    RingInv ⟨[], []⟩ t where
  len := by
    rw [hlen]
    exact Nat.zero_le _
  head := by
    rw [hhead]
    decide
  fifo := by
    unfold CurlCtx.ringContents
    rw [hlen]
    rfl

/-- Only the ring and its indices matter. -/
theorem RingInv.congr {l : Ledger} {t u : CurlCtx} (h : RingInv l t) (hring : u.ring = t.ring)
    (hhead : u.rHead = t.rHead) (hlen : u.rLen = t.rLen) : RingInv l u where
  len := by
    rw [hlen]
    exact h.len
  head := by
    rw [hhead]
    exact h.head
  fifo := by
    unfold CurlCtx.ringContents
    rw [hring, hhead, hlen]
    exact h.fifo

/-! ## §2 Chunks and Reads -/

/-- A header line does not touch the ring. -/
theorem onHeader_ring (t : CurlCtx) (ptr : Mem) (n : Nat) :
    (onHeader t ptr n).ring = t.ring ∧ (onHeader t ptr n).rHead = t.rHead ∧
      (onHeader t ptr n).rLen = t.rLen := by
  unfold onHeader
  split
  · exact ⟨rfl, rfl, rfl⟩
  · split
    · split <;> exact ⟨rfl, rfl, rfl⟩
    · split <;> exact ⟨rfl, rfl, rfl⟩

/-- The three ways in which a chunk is answered. -/
theorem onBody_cases (t : CurlCtx) (chunk : Bytes) :
    (isRedirectStatus t.headerBlockStatus = true ∧ onBody t chunk = (t, .discarded)) ∨
    (isRedirectStatus t.headerBlockStatus = false ∧ ringCap - t.rLen < chunk.length ∧
      onBody t chunk = ({ t with bodyStarted := true, paused := true }, .refused)) ∨
    (isRedirectStatus t.headerBlockStatus = false ∧ chunk.length ≤ ringCap - t.rLen ∧
      onBody t chunk =
        ({ t with
          bodyStarted := true
          ring := putAll t.ring (t.rHead + t.rLen) chunk
          rLen := t.rLen + chunk.length }, .stored)) := by
  unfold onBody
  cases hs : isRedirectStatus t.headerBlockStatus with
  | true => exact .inl ⟨rfl, rfl⟩
  | false =>
    by_cases hfull : ringCap - t.rLen < chunk.length
    · refine .inr (.inl ⟨rfl, hfull, ?_⟩)
      show (if chunk.length > ringCap - t.rLen then _ else _) = _
      rw [if_pos hfull]
    · refine .inr (.inr ⟨rfl, Nat.le_of_not_lt hfull, ?_⟩)
      show (if chunk.length > ringCap - t.rLen then _ else _) = _
      rw [if_neg hfull]

/-- What the write callback makes of a world, in these three ways. -/
theorem callBack_body_cases (w : CurlWorld) (chunk : Bytes) :
    (isRedirectStatus w.ctx.headerBlockStatus = true ∧
      callBack w (.body chunk) = w.push (.body chunk .discarded)) ∨
    (isRedirectStatus w.ctx.headerBlockStatus = false ∧ ringCap - w.ctx.rLen < chunk.length ∧
      callBack w (.body chunk) = (w.update fun t =>
        { t with bodyStarted := true, paused := true }).push (.body chunk .refused)) ∨
    (isRedirectStatus w.ctx.headerBlockStatus = false ∧ chunk.length ≤ ringCap - w.ctx.rLen ∧
      callBack w (.body chunk) = (w.update fun t =>
        { t with
          bodyStarted := true
          ring := putAll t.ring (t.rHead + t.rLen) chunk
          rLen := t.rLen + chunk.length }).push (.body chunk .stored)) := by
  have hbody : callBack w (.body chunk) =
      (w.update fun _ => (onBody w.ctx chunk).1).push (.body chunk (onBody w.ctx chunk).2) := rfl
  -- the world is the context with the answer written to the log
  rcases onBody_cases w.ctx chunk with ⟨hs, heq⟩ | ⟨hs, hfull, heq⟩ | ⟨hs, hfit, heq⟩
  · refine .inl ⟨hs, ?_⟩
    rw [hbody, heq]
    rfl
  · refine .inr (.inl ⟨hs, hfull, ?_⟩)
    rw [hbody, heq]
    rfl
  · refine .inr (.inr ⟨hs, hfit, ?_⟩)
    rw [hbody, heq]
    rfl

/-- What the write callback makes of a chunk for which there is room. -/
theorem callBack_of_fit {chunk : Bytes} (hs : isRedirectStatus w.ctx.headerBlockStatus = false)
    (hfit : chunk.length ≤ ringCap - w.ctx.rLen) :
    callBack w (.body chunk) = (w.update fun t =>
      { t with
        bodyStarted := true
        ring := putAll t.ring (t.rHead + t.rLen) chunk
        rLen := t.rLen + chunk.length }).push (.body chunk .stored) := by
  rcases callBack_body_cases w chunk with ⟨hs', -⟩ | ⟨-, hfull, -⟩ | ⟨-, -, heq⟩
  · rw [hs] at hs'
    cases hs'
  · omega
  · exact heq

/-- And of one for which there is none. -/
theorem callBack_of_full {chunk : Bytes} (hs : isRedirectStatus w.ctx.headerBlockStatus = false)
    (hfull : ringCap - w.ctx.rLen < chunk.length) :
    callBack w (.body chunk) = (w.update fun t =>
      { t with bodyStarted := true, paused := true }).push (.body chunk .refused) := by
  rcases callBack_body_cases w chunk with ⟨hs', -⟩ | ⟨-, -, heq⟩ | ⟨-, hfit, -⟩
  · rw [hs] at hs'
    cases hs'
  · exact heq
  · omega

/-- Only the body of a redirect is thrown away. -/
theorem onBody_discarded_iff (t : CurlCtx) (chunk : Bytes) :
    (onBody t chunk).2 = .discarded ↔ isRedirectStatus t.headerBlockStatus = true := by
  rcases onBody_cases t chunk with ⟨hs, heq⟩ | ⟨hs, -, heq⟩ | ⟨hs, -, heq⟩ <;> simp [heq, hs]

/-- Only a chunk for which there is no room is refused, and it leaves the ring alone. -/
theorem onBody_refused_iff (t : CurlCtx) (chunk : Bytes) :
    ((onBody t chunk).2 = .refused ↔
        isRedirectStatus t.headerBlockStatus = false ∧ ringCap - t.rLen < chunk.length) ∧
      ((onBody t chunk).2 = .refused →
        (onBody t chunk).1.ring = t.ring ∧ (onBody t chunk).1.rHead = t.rHead ∧
          (onBody t chunk).1.rLen = t.rLen) := by
  rcases onBody_cases t chunk with ⟨hs, heq⟩ | ⟨hs, hfull, heq⟩ | ⟨hs, hfit, heq⟩
  · simp [heq, hs]
  · simp [heq, hs, hfull]
  · simp [heq, hfit]

/-- A chunk is stored whole behind what is in the ring. -/
theorem RingInv.store {l : Ledger} {t u : CurlCtx} (h : RingInv l t) {chunk : Bytes}
    (hfit : chunk.length ≤ ringCap - t.rLen) (hring : u.ring = putAll t.ring (t.rHead + t.rLen) chunk)
    (hhead : u.rHead = t.rHead) (hlen : u.rLen = t.rLen + chunk.length) :
    RingInv { l with accepted := l.accepted ++ chunk } u where
  len := by
    have hle := h.len
    rw [hlen]
    omega
  head := by
    rw [hhead]
    exact h.head
  fifo := by
    have hle := h.len
    have hstored := contents_putAll t.ring t.rHead t.rLen chunk (by omega)
    unfold CurlCtx.ringContents
    rw [hring, hhead, hlen, hstored, ← List.append_assoc]
    exact congrArg (· ++ chunk) h.fifo

/-- A read returns the oldest bytes, and the ring keeps the rest. -/
theorem RingInv.remove {l : Ledger} {t u : CurlCtx} (h : RingInv l t) {n : Nat} (hn : n ≤ t.rLen)
    (hring : u.ring = t.ring) (hhead : u.rHead = (t.rHead + n) % ringCap)
    (hlen : u.rLen = t.rLen - n) :
    RingInv { l with returned := l.returned ++ contents t.ring t.rHead n } u where
  len := by
    have hle := h.len
    rw [hlen]
    omega
  head := by
    rw [hhead]
    exact Nat.mod_lt _ (by decide)
  fifo := by
    have hsplit := contents_add t.ring t.rHead n (t.rLen - n)
    rw [Nat.add_sub_cancel' hn] at hsplit
    have hfifo := h.fifo
    unfold CurlCtx.ringContents at hfifo ⊢
    rw [hring, hhead, hlen, contents_mod, List.append_assoc, ← hsplit]
    exact hfifo

/-! ## §3 The Invariant -/

/-- The invariant of a world: it holds of the context, after what has happened. -/
def RingOk (w : CurlWorld) : Prop :=
  RingInv (ledger w.log) w.ctx

/-- An entry that the ledger does not look at, next to a ring that stays as it is. -/
theorem RingOk.quiet (h : RingOk w) {u : CurlWorld} {o : CurlObs}
    (hlog : u.log = w.log ++ [⟨o, u.ctx⟩])
    (hquiet : ∀ l : Ledger, l.enter ⟨o, u.ctx⟩ = l)
    (hring : u.ctx.ring = w.ctx.ring ∧ u.ctx.rHead = w.ctx.rHead ∧ u.ctx.rLen = w.ctx.rLen) :
    RingOk u := by
  unfold RingOk
  rw [hlog, ledger_snoc, hquiet]
  exact RingInv.congr h hring.1 hring.2.1 hring.2.2

theorem callBack_ringOk (h : RingOk w) (c : CurlCallback) : RingOk (callBack w c) := by
  cases c with
  | header ptr n => exact h.quiet rfl (fun l => rfl) (onHeader_ring w.ctx ptr n)
  | body chunk =>
    rcases callBack_body_cases w chunk with ⟨-, hbody⟩ | ⟨-, -, hbody⟩ | ⟨-, hfit, hbody⟩
    · rw [hbody]
      exact h.quiet rfl (fun l => rfl) ⟨rfl, rfl, rfl⟩
    · rw [hbody]
      exact h.quiet rfl (fun l => rfl) ⟨rfl, rfl, rfl⟩
    · -- the only chunk that the ledger knows
      rw [hbody]
      unfold RingOk
      rw [curlPush_log, ledger_snoc]
      exact RingInv.store h hfit rfl rfl rfl

theorem PumpStep.ringOk (h : PumpStep w v) (hw : RingOk w) : RingOk v := by
  cases h with
  | callBack c => exact callBack_ringOk hw c
  | _ => exact hw.quiet rfl (fun l => rfl) ⟨rfl, rfl, rfl⟩

/-- **Every step keeps the ring a FIFO.** -/
theorem CurlStep.ringOk (h : CurlStep w v) (hw : RingOk w) : RingOk v := by
  -- a new transfer starts with an empty ring and nothing accepted
  have hempty : ∀ {u : CurlWorld} {o : CurlObs}, u.log = w.log ++ [⟨o, u.ctx⟩] →
      (∀ l : Ledger, l.enter ⟨o, u.ctx⟩ = ⟨[], []⟩) → u.ctx.rLen = 0 → u.ctx.rHead = 0 →
      RingOk u := by
    intro u o hlog henter hlen hhead
    unfold RingOk
    rw [hlog, ledger_snoc, henter]
    exact ringInv_empty hlen hhead
  cases h with
  | pump h => exact h.ringOk hw
  | teardown => exact hempty rfl (fun l => rfl) rfl rfl
  | handles easy' multi' hdrs' hctx =>
    unfold RingOk at hw
    rw [hctx] at hw
    exact RingInv.congr hw rfl rfl rfl
  | first url hctx =>
    refine hempty rfl (fun l => rfl) ?_ ?_
    · show w.ctx.rLen = 0
      rw [hctx]
      rfl
    · show w.ctx.rHead = 0
      rw [hctx]
      rfl
  | again redir => exact hempty rfl (fun l => rfl) rfl rfl
  | took hn =>
    unfold RingOk removeBytes
    rw [curlPush_log, ledger_snoc]
    exact RingInv.remove hw hn rfl rfl rfl

theorem curlNew_ringOk : RingOk curlNew :=
  ringInv_empty rfl rfl

/-- And so does every run, in every state on its way. -/
theorem CurlSteps.ringOk (h : CurlSteps curlNew w) :
    RingOk w ∧ Always (fun pre e => RingInv (ledger (pre ++ [e])) e.ctx) w.log := by
  refine invariant_of_steps
    (I := fun u : CurlWorld =>
      RingOk u ∧ Always (fun pre e => RingInv (ledger (pre ++ [e])) e.ctx) u.log)
    ?_ h ⟨curlNew_ringOk, always_nil _⟩
  rintro s t hst ⟨hs, halways⟩
  have ht := hst.ringOk hs
  refine ⟨ht, ?_⟩
  rcases hst.log with heq | ⟨o, heq⟩
  · rw [heq]
    exact halways
  · rw [heq]
    refine always_snoc.mpr ⟨halways, ?_⟩
    unfold RingOk at ht
    rw [heq] at ht
    exact ht

/-! ## §4 What Is Thrown Away -/

/-- A chunk that `on_body` threw away belongs to a redirect, by the status of its header block, and
one that it kept or refused does not. -/
def SparesResponses (e : CurlEntry) : Prop :=
  ∀ chunk result, e.obs = .body chunk result →
    (result = .discarded ↔ isRedirectStatus e.ctx.headerBlockStatus = true)

/-- Only a callback records a chunk. -/
theorem CurlStep.body (h : CurlStep w v) {chunk : Bytes} {result : BodyResult} {t : CurlCtx}
    (hlog : v.log = w.log ++ [⟨.body chunk result, t⟩]) : ∃ c, v = callBack w (.body c) := by
  cases h with
  | pump h =>
    cases h with
    | callBack c =>
      cases c with
      | header ptr n => exact absurd (List.append_cancel_left hlog) (by simp)
      | body c => exact ⟨c, rfl⟩
    | _ => exact absurd (List.append_cancel_left hlog) (by simp)
  | handles => exact absurd hlog (by simp)
  | _ => exact absurd (List.append_cancel_left hlog) (by simp)

/-- **No byte of another response is thrown away.** -/
theorem CurlSteps.sparesResponses (h : CurlSteps curlNew w) :
    Always (fun _ e => SparesResponses e) w.log := by
  refine invariant_of_steps (I := fun u : CurlWorld => Always (fun _ e => SparesResponses e) u.log)
    ?_ h (always_nil _)
  intro s t hst hs
  rcases hst.log with heq | ⟨o, heq⟩
  · rw [heq]
    exact hs
  · rw [heq]
    refine always_snoc.mpr ⟨hs, fun chunk result hobs => ?_⟩
    obtain rfl : o = .body chunk result := hobs
    obtain ⟨chunk', rfl⟩ := hst.body heq
    -- the status that the callback looked at is the one it left
    rcases callBack_body_cases s chunk' with ⟨hs, hbody⟩ | ⟨hs, -, hbody⟩ | ⟨hs, -, hbody⟩ <;>
      rw [hbody] at heq ⊢ <;>
      obtain ⟨-, rfl⟩ := CurlObs.body.inj
        (congrArg CurlEntry.obs (List.cons.inj (List.append_cancel_left heq)).1) <;>
      simp [CurlWorld.push, CurlWorld.update, hs]

/-! ## §5 Pauses -/

/-- libcurl's side of a pause. -/
inductive Pause where
  | running
  | waiting (chunk : Bytes)
  | resumed (chunk : Bytes)
  deriving DecidableEq, Repr

def Pause.enter (p : Pause) (e : CurlEntry) : Pause :=
  match e.obs with
  | .teardown | .request _ _ => .running
  | .body chunk .refused => .waiting chunk
  | .body _ _ => .running
  | .resume =>
    match p with
    | .waiting chunk => .resumed chunk
    | p => p
  | _ => p

def pauseOf (log : CurlLog) : Pause :=
  log.foldl Pause.enter .running

theorem pauseOf_snoc (log : CurlLog) (e : CurlEntry) :
    pauseOf (log ++ [e]) = (pauseOf log).enter e := by
  unfold pauseOf
  rw [List.foldl_append]
  rfl

/-- `CURL_MAX_WRITE_SIZE`. -/
def curlMaxWriteSize : Nat := 16 * 1024

/-- What libcurl promises of chunks and pauses: chunks are small, a paused transfer is silent and
does not complete, and the refused chunk comes first when it is resumed. -/
def Pause.Allows (p : Pause) : CurlObs → Prop
  | .body chunk _ =>
    chunk.length ≤ curlMaxWriteSize ∧
      match p with
      | .running => True
      | .waiting _ => False
      | .resumed refused => chunk = refused
  | .done _ => p = .running
  | _ => True

/-- libcurl has kept its promise so far. -/
def PausesProperly (log : CurlLog) : Prop :=
  Always (fun pre e => (pauseOf pre).Allows e.obs) log

instance (p : Pause) : DecidablePred p.Allows
  | .body chunk _ =>
    match p with
    | .running => inferInstanceAs (Decidable (chunk.length ≤ curlMaxWriteSize ∧ True))
    | .waiting _ => inferInstanceAs (Decidable (chunk.length ≤ curlMaxWriteSize ∧ False))
    | .resumed refused =>
      inferInstanceAs (Decidable (chunk.length ≤ curlMaxWriteSize ∧ chunk = refused))
  | .done _ => inferInstanceAs (Decidable (p = .running))
  | .teardown | .request _ _ | .clock _ | .resume | .wait _ | .perform | .header _ _ | .took _ =>
    inferInstanceAs (Decidable True)

instance (log : CurlLog) : Decidable (PausesProperly log) :=
  inferInstanceAs (Decidable (Always _ _))

/-- One more entry that libcurl may make. -/
theorem pauses_snoc {log : CurlLog} {p : Pause} (h : PausesProperly log ∧ pauseOf log = p)
    (o : CurlObs) {t : CurlCtx} (hallows : p.Allows o) :
    PausesProperly (log ++ [⟨o, t⟩]) ∧ pauseOf (log ++ [⟨o, t⟩]) = p.enter ⟨o, t⟩ := by
  obtain ⟨hproper, rfl⟩ := h
  exact ⟨always_snoc.mpr ⟨hproper, hallows⟩, pauseOf_snoc log ⟨o, t⟩⟩

/-- The chunk after a resume is the refused one, and is accepted unless it belongs to a redirect. -/
def Redelivers (pre : CurlLog) (e : CurlEntry) : Prop :=
  ∀ refused chunk result, pauseOf pre = .resumed refused → e.obs = .body chunk result →
    chunk = refused ∧
      result = if isRedirectStatus e.ctx.headerBlockStatus then .discarded else .stored

/-- Between a resume and the next chunk there is room. -/
def RoomAfterResume (w : CurlWorld) : Prop :=
  ∀ refused, pauseOf w.log = .resumed refused → w.ctx.rLen < ringCap / 2

/-- Something that is no chunk, next to a ring that has not grown. -/
theorem RoomAfterResume.quiet (h : RoomAfterResume w) {u : CurlWorld} {o : CurlObs}
    (hlog : u.log = w.log ++ [⟨o, u.ctx⟩]) (hquiet : ∀ p : Pause, p.enter ⟨o, u.ctx⟩ = p)
    (hlen : u.ctx.rLen ≤ w.ctx.rLen) : RoomAfterResume u := by
  intro refused hpause
  rw [hlog, pauseOf_snoc, hquiet] at hpause
  have hroom := h refused hpause
  omega

/-- After a chunk, or when a transfer begins, nothing has been resumed. -/
theorem RoomAfterResume.reset {u : CurlWorld} {o : CurlObs} (hlog : u.log = w.log ++ [⟨o, u.ctx⟩])
    (henter : ∀ p : Pause, ∀ refused, p.enter ⟨o, u.ctx⟩ ≠ .resumed refused) :
    RoomAfterResume u := by
  intro refused hpause
  rw [hlog, pauseOf_snoc] at hpause
  exact absurd hpause (henter _ _)

theorem PumpStep.room (h : PumpStep w v) (hw : RoomAfterResume w) : RoomAfterResume v := by
  cases h with
  | resume hroom => exact fun refused hpause => hroom
  | callBack c =>
    cases c with
    | header ptr n =>
      exact hw.quiet rfl (fun p => rfl) (Nat.le_of_eq (onHeader_ring w.ctx ptr n).2.2)
    | body chunk =>
      refine RoomAfterResume.reset (w := w) rfl ?_
      intro p refused
      show Pause.enter p ⟨.body chunk (onBody w.ctx chunk).2, _⟩ ≠ _
      cases (onBody w.ctx chunk).2 <;> exact Pause.noConfusion
  | _ => exact hw.quiet rfl (fun p => rfl) (Nat.le_refl _)

theorem CurlStep.room (h : CurlStep w v) (hw : RoomAfterResume w) : RoomAfterResume v := by
  cases h with
  | pump h => exact h.room hw
  | handles easy' multi' hdrs' hctx =>
    intro refused hpause
    have hroom := hw refused hpause
    rw [hctx] at hroom
    exact hroom
  | took hn => exact hw.quiet rfl (fun p => rfl) (Nat.sub_le _ _)
  | _ => exact RoomAfterResume.reset (w := w) rfl (fun p refused => Pause.noConfusion)

/-- Half of the ring takes every chunk. -/
theorem onBody_of_room {t : CurlCtx} {chunk : Bytes} (hroom : t.rLen < ringCap / 2)
    (hsmall : chunk.length ≤ curlMaxWriteSize) :
    (onBody t chunk).2 =
      if isRedirectStatus (onBody t chunk).1.headerBlockStatus then .discarded else .stored := by
  have hhalf : ringCap / 2 + curlMaxWriteSize ≤ ringCap := by decide
  rcases onBody_cases t chunk with ⟨hs, heq⟩ | ⟨-, hfull, -⟩ | ⟨hs, -, heq⟩
  · rw [heq, hs]
    rfl
  · omega
  · rw [heq]
    exact (if_neg (by rw [hs]; exact Bool.false_ne_true)).symm

/-- **A resumed transfer gets its chunk accepted.** -/
theorem CurlSteps.redelivers (h : CurlSteps curlNew w) (hproper : PausesProperly w.log) :
    Always Redelivers w.log := by
  refine (invariant_of_steps
    (I := fun u : CurlWorld =>
      RoomAfterResume u ∧ (PausesProperly u.log → Always Redelivers u.log))
    ?_ h ⟨fun refused hpause => Pause.noConfusion hpause, fun _ => always_nil _⟩).2 hproper
  -- the room that the resume made is still there when the chunk comes again
  rintro s t hst ⟨hroom, halways⟩
  refine ⟨hst.room hroom, ?_⟩
  intro ht
  rcases hst.log with heq | ⟨o, heq⟩
  · rw [heq] at ht ⊢
    exact halways ht
  · rw [heq] at ht ⊢
    obtain ⟨hs, hallows⟩ := always_snoc.mp ht
    refine always_snoc.mpr ⟨halways hs, ?_⟩
    intro refused chunk result hpause hobs
    subst hobs
    rw [hpause] at hallows
    refine ⟨hallows.2, ?_⟩
    obtain ⟨chunk', rfl⟩ := hst.body heq
    have hlast := (List.cons.inj (List.append_cancel_left heq)).1
    have hbody := CurlObs.body.inj (congrArg CurlEntry.obs hlast)
    have hsmall : chunk'.length ≤ curlMaxWriteSize := by
      rw [hbody.1]
      exact hallows.1
    rw [← hbody.2]
    exact onBody_of_room (hroom refused hpause) hsmall

/-! ## §6 Reads -/

/-- A call of libcurl's multi interface failed between two logs. -/
def MultiFailed (env : CurlEnv) (before after : CurlLog) : Prop :=
  ∃ log, before <+: log ∧ log <+: after ∧ (env.waitOk log = false ∨ env.performOk log = false)

theorem pump_failed (env : CurlEnv) (w : CurlWorld) (waitMs : Int)
    (h : (pump env w waitMs).1 = false) : MultiFailed env w.log (pump env w waitMs).2.log := by
  -- the two points at which a call can fail
  let u := (resumeIfRoom env w).push (.wait waitMs)
  have hu : w.log <+: u.log :=
    (resumeIfRoom_steps env w).steps.log.trans (List.prefix_append _ _)
  let p := (env.performed (u.push .perform).log).foldl callBack (u.push .perform)
  have hp : w.log <+: p.log :=
    (hu.trans (List.prefix_append _ _)).trans (callBacks_steps (u.push .perform) _).steps.log
  have hpump : pump env w waitMs =
      if !env.waitOk u.log then (false, u)
      else if !env.performOk p.log then (false, p)
      else (true, (env.messages p.log).foldl harvest p) := rfl
  rw [hpump] at h ⊢
  cases hwait : env.waitOk u.log with
  | false => exact ⟨u.log, hu, List.prefix_rfl, .inl hwait⟩
  | true =>
    rw [hwait] at h
    cases hperform : env.performOk p.log with
    | false => exact ⟨p.log, hp, List.prefix_rfl, .inr hperform⟩
    | true =>
      rw [hperform] at h
      cases h

/-- Running libcurl returns nothing to the client. -/
theorem PumpStep.returned (h : PumpStep w v) :
    (ledger v.log).returned = (ledger w.log).returned := by
  obtain ⟨o, hlog⟩ := h.log
  rw [hlog, ledger_snoc]
  cases h with
  | callBack c =>
    cases c with
    | header ptr n =>
      obtain rfl := congrArg CurlEntry.obs (List.cons.inj (List.append_cancel_left hlog)).1
      rfl
    | body chunk =>
      obtain rfl := congrArg CurlEntry.obs (List.cons.inj (List.append_cancel_left hlog)).1
      show (Ledger.enter _ ⟨.body chunk (onBody w.ctx chunk).2, _⟩).returned = _
      cases (onBody w.ctx chunk).2 <;> rfl
  | _ =>
    obtain rfl := congrArg CurlEntry.obs (List.cons.inj (List.append_cancel_left hlog)).1
    rfl

theorem PumpSteps.returned (h : PumpSteps w v) :
    (ledger v.log).returned = (ledger w.log).returned :=
  invariant_of_steps (I := fun u => (ledger u.log).returned = (ledger w.log).returned)
    (fun _ _ hst hs => hst.returned.trans hs) h rfl

/-- What a read returns, and where the ring stands then. -/
theorem takeBytes_spec (env : CurlEnv) (w : CurlWorld) (len : Nat) :
    (takeBytes env w len).1 = (min w.ctx.rLen len : Nat) ∧
      (takeBytes env w len).2.1 = contents w.ctx.ring w.ctx.rHead (min w.ctx.rLen len) ∧
      (ledger (takeBytes env w len).2.2.log).returned =
        (ledger w.log).returned ++ (takeBytes env w len).2.1 := by
  have hmin : (if w.ctx.rLen < len then w.ctx.rLen else len) = min w.ctx.rLen len := by
    split <;> omega
  have htake : takeBytes env w len = (((min w.ctx.rLen len : Nat) : Int),
      contents w.ctx.ring w.ctx.rHead (min w.ctx.rLen len),
      resumeIfRoom env (removeBytes w (min w.ctx.rLen len))) := by
    simp only [takeBytes, hmin, removeBytes]
  rw [htake]
  refine ⟨rfl, rfl, ?_⟩
  show (ledger (resumeIfRoom env (removeBytes w _)).log).returned = _
  rw [(resumeIfRoom_steps env _).returned, removeBytes, curlPush_log, ledger_snoc]
  rfl

/-- A read returns the number of bytes that it has written, also when it had to wait for them. -/
theorem curlReadFn_counts (env : CurlEnv) (w : CurlWorld) (len : Nat) (timeoutMs : UInt32) :
    (curlReadFn env w len timeoutMs).2.1.length = (curlReadFn env w len timeoutMs).1.toNat ∧
      (curlReadFn env w len timeoutMs).2.1.length ≤ len := by
  -- a read comes back from the ring, or from the end of the transfer with nothing
  have htake : ∀ u, (takeBytes env u len).2.1.length = (takeBytes env u len).1.toNat ∧
      (takeBytes env u len).2.1.length ≤ len := by
    intro u
    obtain ⟨hcount, hbytes, -⟩ := takeBytes_spec env u len
    rw [hbytes, hcount, length_contents, Int.toNat_natCast]
    exact ⟨rfl, Nat.min_le_right _ _⟩
  have hend : ∀ t : CurlCtx, ([] : Bytes).length = (endOfTransfer t).toNat ∧
      ([] : Bytes).length ≤ len := by
    intro t
    unfold endOfTransfer
    split <;> exact ⟨rfl, Nat.zero_le _⟩
  unfold curlReadFn
  simp only
  split
  · split
    · exact hend _
    · split
      · exact ⟨rfl, Nat.zero_le _⟩
      · split
        · split
          · exact hend _
          · exact ⟨rfl, Nat.zero_le _⟩
        · exact htake _
  · exact htake _

/-- With bytes in the ring, a read returns at least one of them. -/
theorem curlReadFn_nonempty (env : CurlEnv) {w : CurlWorld} {len : Nat} (timeoutMs : UInt32)
    (hlen : 0 < len) (hring : 0 < w.ctx.rLen) :
    1 ≤ (curlReadFn env w len timeoutMs).1 ∧ (curlReadFn env w len timeoutMs).1 ≤ len := by
  have hread : curlReadFn env w len timeoutMs = takeBytes env w len :=
    if_neg (Nat.pos_iff_ne_zero.mp hring)
  obtain ⟨hresult, -, -⟩ := takeBytes_spec env w len
  rw [hread, hresult]
  omega

/-- What the client gets is what the ledger says. -/
theorem curlReadFn_returned (env : CurlEnv) (w : CurlWorld) (len : Nat) (timeoutMs : UInt32) :
    (ledger (curlReadFn env w len timeoutMs).2.2.log).returned =
      (ledger w.log).returned ++ (curlReadFn env w len timeoutMs).2.1 := by
  have hpump := (pump_steps env w timeoutMs.toInt32.toInt).returned
  unfold curlReadFn
  simp only
  split
  · split
    · exact (List.append_nil _).symm
    · split
      · exact hpump.trans (List.append_nil _).symm
      · split
        · split <;> exact hpump.trans (List.append_nil _).symm
        · rw [(takeBytes_spec env _ len).2.2, hpump]
  · exact (takeBytes_spec env w len).2.2

/-- A negative result means that the transfer is over and everything has been read, unless libcurl
itself failed. -/
theorem curlReadFn_negative (env : CurlEnv) (w : CurlWorld) (len : Nat) (timeoutMs : UInt32)
    (h : (curlReadFn env w len timeoutMs).1 < 0) :
    ((curlReadFn env w len timeoutMs).2.2.ctx.rLen = 0 ∧
        (curlReadFn env w len timeoutMs).2.2.ctx.transferDone = true) ∨
      MultiFailed env w.log (curlReadFn env w len timeoutMs).2.2.log := by
  -- what is taken from the ring is counted, and no count is negative
  have htake : ∀ u, ¬ (takeBytes env u len).1 < 0 := by
    intro u
    rw [(takeBytes_spec env u len).1]
    omega
  by_cases hempty : w.ctx.rLen = 0
  · by_cases hdone : w.ctx.transferDone = true
    · have hread : curlReadFn env w len timeoutMs = (endOfTransfer w.ctx, [], w) := by
        unfold curlReadFn
        rw [if_pos hempty, if_pos hdone]
      rw [hread]
      exact .inl ⟨hempty, hdone⟩
    · let r := pump env w timeoutMs.toInt32.toInt
      have hread : curlReadFn env w len timeoutMs =
          if !r.1 then (readError, [], r.2)
          else if r.2.ctx.rLen = 0 then
            if r.2.ctx.transferDone then (endOfTransfer r.2.ctx, [], r.2)
            else (readTimeout, [], r.2)
          else takeBytes env r.2 len := by
        unfold curlReadFn
        rw [if_pos hempty, if_neg hdone]
      rw [hread] at h ⊢
      cases hok : r.1 with
      | false => exact .inr (pump_failed env w _ hok)
      | true =>
        rw [hok] at h
        by_cases hempty' : r.2.ctx.rLen = 0
        · by_cases hdone' : r.2.ctx.transferDone = true
          · simp only [Bool.not_true, Bool.false_eq_true, if_false, hempty', hdone', if_true]
            exact .inl ⟨trivial, trivial⟩
          · simp only [Bool.not_true, Bool.false_eq_true, if_false, hempty', hdone', if_true] at h
            exact absurd h (by decide)
        · simp only [Bool.not_true, Bool.false_eq_true, if_false, hempty'] at h
          exact absurd h (htake _)
  · have hread : curlReadFn env w len timeoutMs = takeBytes env w len := if_neg hempty
    rw [hread] at h
    exact absurd h (htake _)

/-- A read from an empty ring takes what libcurl puts there while it runs. -/
theorem curlReadFn_pumped {env : CurlEnv} {w : CurlWorld} {cs : List CurlCallback} {len : Nat}
    {timeoutMs : UInt32} (hempty : w.ctx.rLen = 0) (hdone : w.ctx.transferDone = false)
    (hpaused : w.ctx.paused = false) (hwait : ∀ log, env.waitOk log = true)
    (hperform : ∀ log, env.performOk log = true) (hmessages : ∀ log, env.messages log = [])
    (hcs : env.performed ((w.push (.wait timeoutMs.toInt32.toInt)).push .perform).log = cs)
    (hfilled : (cs.foldl callBack
      ((w.push (.wait timeoutMs.toInt32.toInt)).push .perform)).ctx.rLen ≠ 0) :
    curlReadFn env w len timeoutMs =
      takeBytes env
        (cs.foldl callBack ((w.push (.wait timeoutMs.toInt32.toInt)).push .perform)) len := by
  have hresume : resumeIfRoom env w = w := by
    unfold resumeIfRoom
    rw [hpaused]
    rfl
  have hpump : pump env w timeoutMs.toInt32.toInt =
      (true, cs.foldl callBack ((w.push (.wait timeoutMs.toInt32.toInt)).push .perform)) := by
    unfold pump
    simp only [hresume, hwait, hperform, hmessages, hcs, Bool.not_true, Bool.false_eq_true, if_false,
      List.foldl_nil]
  unfold curlReadFn
  rw [if_pos hempty, hdone, hpump]
  simp only [Bool.not_true, Bool.false_eq_true, if_false, hfilled]

/-- An idle transport with an empty ring, in the body of a response that is no redirect. -/
structure AwaitsBody (w : CurlWorld) : Prop where
  empty : w.ctx.rLen = 0
  head : w.ctx.rHead = 0
  running : w.ctx.paused = false
  goesOn : w.ctx.transferDone = false
  status : isRedirectStatus w.ctx.headerBlockStatus = false

/-- **More than the ring holds.** Two chunks fill the ring and the third is refused. A read of more
than half of the ring resumes the transfer, and the third chunk is stored around the end of the
ring. -/
theorem curlReadFn_overfull {env : CurlEnv} {w : CurlWorld} {a b c : Bytes} {timeoutMs : UInt32}
    (hw : AwaitsBody w) (ha : a.length = curlMaxWriteSize) (hb : b.length = curlMaxWriteSize)
    (hc : c.length = curlMaxWriteSize) (hwait : ∀ log, env.waitOk log = true)
    (hperform : ∀ log, env.performOk log = true) (hmessages : ∀ log, env.messages log = [])
    (hcs : env.performed ((w.push (.wait timeoutMs.toInt32.toInt)).push .perform).log =
      [.body a, .body b, .body c])
    (hresumed : ∀ log, env.resumed log = [.body c]) :
    let v := (curlReadFn env w (curlMaxWriteSize + 1) timeoutMs).2.2
    v.ctx.rHead = curlMaxWriteSize + 1 ∧ v.ctx.rLen = ringCap - 1 ∧
      (ledger v.log).accepted = (ledger w.log).accepted ++ a ++ b ++ c ∧
      (pauseOf w.log = .running → PausesProperly w.log → PausesProperly v.log) := by
  intro v
  have hmax : curlMaxWriteSize = 16384 := rfl
  have hcap : ringCap = 32768 := rfl
  have hhalf : ringCap / 2 = 16384 := rfl
  have hempty := hw.empty
  let store := fun (chunk : Bytes) (w : CurlWorld) => (w.update fun t =>
    { t with
      bodyStarted := true
      ring := putAll t.ring (t.rHead + t.rLen) chunk
      rLen := t.rLen + chunk.length }).push (.body chunk .stored)
  let u := (w.push (.wait timeoutMs.toInt32.toInt)).push .perform
  let full := store b (store a u)
  have hfull : full.ctx.rLen = ringCap := by
    show w.ctx.rLen + a.length + b.length = _
    omega
  have hA : callBack u (.body a) = store a u := by
    refine callBack_of_fit hw.status ?_
    show a.length ≤ ringCap - w.ctx.rLen
    omega
  have hB : callBack (store a u) (.body b) = full := by
    refine callBack_of_fit hw.status ?_
    show b.length ≤ ringCap - (w.ctx.rLen + a.length)
    omega
  let waiting := (full.update fun t =>
    { t with bodyStarted := true, paused := true }).push (.body c .refused)
  have hC : callBack full (.body c) = waiting := by
    refine callBack_of_full hw.status ?_
    omega
  have hpumped : [CurlCallback.body a, .body b, .body c].foldl callBack u = waiting := by
    simp only [List.foldl_cons, List.foldl_nil, hA, hB, hC]
  have hread : curlReadFn env w (curlMaxWriteSize + 1) timeoutMs =
      takeBytes env waiting (curlMaxWriteSize + 1) := by
    rw [← hpumped]
    refine curlReadFn_pumped hw.empty hw.goesOn hw.running hwait hperform hmessages hcs ?_
    show ([CurlCallback.body a, .body b, .body c].foldl callBack u).ctx.rLen ≠ 0
    rw [hpumped]
    show full.ctx.rLen ≠ 0
    omega
  -- what is left is less than half of the ring
  let room := ((removeBytes waiting (curlMaxWriteSize + 1)).update fun t =>
    { t with paused := false }).push .resume
  have hroom : room.ctx.rLen = full.ctx.rLen - (curlMaxWriteSize + 1) := rfl
  have hlast : v = store c room := by
    have hn : (if waiting.ctx.rLen < curlMaxWriteSize + 1 then waiting.ctx.rLen
        else curlMaxWriteSize + 1) = curlMaxWriteSize + 1 := by
      refine if_neg ?_
      show ¬ full.ctx.rLen < _
      omega
    have htake : (takeBytes env waiting (curlMaxWriteSize + 1)).2.2 =
        resumeIfRoom env (removeBytes waiting (curlMaxWriteSize + 1)) := by
      unfold takeBytes
      simp only [hn]
      rfl
    have hresume : resumeIfRoom env (removeBytes waiting (curlMaxWriteSize + 1)) =
        [CurlCallback.body c].foldl callBack room := by
      unfold resumeIfRoom
      rw [if_pos]
      · exact congrArg (List.foldl callBack room) (hresumed room.log)
      · rw [Bool.and_eq_true, decide_eq_true_eq]
        have hleft : (removeBytes waiting (curlMaxWriteSize + 1)).ctx.rLen =
            full.ctx.rLen - (curlMaxWriteSize + 1) := rfl
        exact ⟨rfl, by omega⟩
    show (curlReadFn env w (curlMaxWriteSize + 1) timeoutMs).2.2 = _
    rw [hread, htake, hresume]
    refine callBack_of_fit hw.status ?_
    omega
  rw [hlast]
  refine ⟨?_, ?_, ?_, ?_⟩
  · show (w.ctx.rHead + (curlMaxWriteSize + 1)) % ringCap = _
    rw [hw.head, Nat.zero_add, Nat.mod_eq_of_lt (by omega)]
  · show room.ctx.rLen + c.length = _
    omega
  · have hbegun : (ledger u.log).accepted = (ledger w.log).accepted := by
      show (ledger ((w.log ++ [_]) ++ [_])).accepted = _
      simp only [ledger_snoc, Ledger.enter]
    have hfilled : (ledger full.log).accepted = (ledger u.log).accepted ++ a ++ b := by
      show (ledger ((u.log ++ [_]) ++ [_])).accepted = _
      simp only [ledger_snoc, Ledger.enter]
    have hready : (ledger room.log).accepted = (ledger full.log).accepted := by
      show (ledger (((full.log ++ [_]) ++ [_]) ++ [_])).accepted = _
      simp only [ledger_snoc, Ledger.enter]
    show (ledger (room.log ++ [_])).accepted = _
    rw [ledger_snoc]
    show (ledger room.log).accepted ++ c = _
    rw [hready, hfilled, hbegun]
  · intro hrunning hproper
    have hbegun : PausesProperly u.log ∧ pauseOf u.log = .running :=
      pauses_snoc (pauses_snoc ⟨hproper, hrunning⟩ (.wait _) trivial) .perform trivial
    have hstored : PausesProperly (store a u).log ∧ pauseOf (store a u).log = .running :=
      pauses_snoc hbegun (.body a .stored) ⟨by omega, trivial⟩
    have hfilled : PausesProperly full.log ∧ pauseOf full.log = .running :=
      pauses_snoc hstored (.body b .stored) ⟨by omega, trivial⟩
    -- the third chunk is refused, and the same one comes again
    have hwaiting : PausesProperly waiting.log ∧ pauseOf waiting.log = .waiting c :=
      pauses_snoc hfilled (.body c .refused) ⟨by omega, trivial⟩
    have htaken : PausesProperly (removeBytes waiting (curlMaxWriteSize + 1)).log ∧
        pauseOf (removeBytes waiting (curlMaxWriteSize + 1)).log = .waiting c :=
      pauses_snoc hwaiting (.took _) trivial
    have hready : PausesProperly room.log ∧ pauseOf room.log = .resumed c :=
      pauses_snoc htaken .resume trivial
    exact (pauses_snoc hready (.body c .stored) ⟨by omega, rfl⟩).1

/-! ## §7 The Ring -/

/-- What a read of `len` bytes at most makes of the transport `w`: what it returns goes to the end of
what has been returned, and its result counts it; from a ring that is not empty it returns something;
and if it reports an end, the transfer is done and the ring is empty, unless libcurl failed. -/
structure ReadsRing (env : CurlEnv) (w : CurlWorld) (len : Nat) (r : Int × Bytes × CurlWorld) :
    Prop where
  returned : (ledger r.2.2.log).returned = (ledger w.log).returned ++ r.2.1
  counted : 0 ≤ r.1 → (r.2.1.length : Int) = r.1
  bounded : r.2.1.length ≤ len
  nonempty : 0 < w.ctx.rLen → 1 ≤ r.1 ∧ r.1 ≤ len
  ended : r.1 < 0 → r.2.1 = [] ∧
    ((r.2.2.ctx.rLen = 0 ∧ r.2.2.ctx.transferDone = true) ∨ MultiFailed env w.log r.2.2.log)

theorem curlReadFn_readsRing (env : CurlEnv) (w : CurlWorld) {len : Nat} (timeoutMs : UInt32)
    (hlen : 0 < len) : ReadsRing env w len (curlReadFn env w len timeoutMs) := by
  obtain ⟨hcount, hbound⟩ := curlReadFn_counts env w len timeoutMs
  refine ⟨curlReadFn_returned env w len timeoutMs, ?_, hbound,
    curlReadFn_nonempty env timeoutMs hlen, ?_⟩
  · intro hpos
    rw [hcount, Int.toNat_of_nonneg hpos]
  · intro hneg
    refine ⟨?_, curlReadFn_negative env w len timeoutMs hneg⟩
    rw [← List.length_eq_zero_iff, hcount, Int.toNat_of_nonpos (Int.le_of_lt hneg)]

/-- **The ring is a lossless FIFO with the end of the stream last.** In every run of the transport,
and at every moment of it: the indices are in range, what reads have returned, followed by what is
in the ring, is what was accepted, and nothing was thrown away but the bodies of redirects. A chunk
is thrown away exactly if it belongs to a redirect, and refused, with the ring as it was, exactly if
there is no room for it. A read returns the next bytes of the ring. And if libcurl pauses properly,
the chunk of a resumed transfer is accepted. -/
theorem ring_is_fifo (h : CurlReachable env w) :
    RingInv (ledger w.log) w.ctx ∧
      Always (fun pre e => RingInv (ledger (pre ++ [e])) e.ctx) w.log ∧
      Always (fun _ e => SparesResponses e) w.log ∧
      (∀ t chunk, (onBody t chunk).2 = .discarded ↔ isRedirectStatus t.headerBlockStatus = true) ∧
      (∀ t chunk, ((onBody t chunk).2 = .refused ↔
          isRedirectStatus t.headerBlockStatus = false ∧ ringCap - t.rLen < chunk.length) ∧
        ((onBody t chunk).2 = .refused →
          (onBody t chunk).1.ring = t.ring ∧ (onBody t chunk).1.rHead = t.rHead ∧
            (onBody t chunk).1.rLen = t.rLen)) ∧
      (∀ len timeoutMs, 0 < len → ReadsRing env w len (curlReadFn env w len timeoutMs)) ∧
      (PausesProperly w.log → Always Redelivers w.log) := by
  obtain ⟨hok, halways⟩ := h.steps.ringOk
  exact ⟨hok, halways, h.steps.sparesResponses, onBody_discarded_iff, onBody_refused_iff,
    fun len timeoutMs => curlReadFn_readsRing env w timeoutMs, h.steps.redelivers⟩

/-- A server that answers a request with a complete header block and two bytes, and then stays
silent. -/
def twoByteEnv : CurlEnv where
  easyInit _ := true
  multiInit _ := true
  slistAppend _ _ := true
  time _ := 0
  patience _ := 1
  resumed _ := []
  waitOk _ := true
  performed log :=
    if (ledger log).accepted = [] then
      [.header (ascii "HTTP/1.1 200 OK\r\n".toList) 17, .header (ascii "\r\n".toList) 2,
        .body [0x68, 0x69]]
    else []
  performOk _ := true
  messages _ := []
  redirectUrl _ := none
  effectiveUrl _ := none
  responseCode _ := 200
  contentType _ := none
  urlHandles _ := true
  parseUrl _ := none

/-- The largest chunk that libcurl delivers, all of one byte. -/
def largeChunk (b : UInt8) : Bytes :=
  List.replicate curlMaxWriteSize b

/-- A server that answers at once and then sends more than the ring holds. Its last chunk is refused,
and comes again when the transfer is resumed. -/
def overfullEnv : CurlEnv :=
  { twoByteEnv with
    performed := fun log =>
      if log.countP (fun e => e.obs = .perform) = 1 then
        [.header (ascii "HTTP/1.1 200 OK\r\n".toList) 17, .header (ascii "\r\n".toList) 2]
      else [.body (largeChunk 0x61), .body (largeChunk 0x62), .body (largeChunk 0x63)]
    resumed := fun _ => [.body (largeChunk 0x63)] }

/-- The transport after it has been opened. -/
def overfullOpen : CurlWorld :=
  runTransport overfullEnv curlNew (.openFn ⟨ascii "http://a/".toList, []⟩ ⟨0, [0], -1⟩)

/-- And after a read that makes room for a last chunk in a full ring. -/
def overfullRead : CurlWorld :=
  runTransport overfullEnv overfullOpen (.readFn (curlMaxWriteSize + 1) 100)

theorem overfullOpen_awaitsBody :
    AwaitsBody overfullOpen ∧ ledger overfullOpen.log = ⟨[], []⟩ ∧
      pauseOf overfullOpen.log = .running ∧ PausesProperly overfullOpen.log ∧
      overfullOpen.log.countP (fun e => e.obs = .perform) = 1 := by
  refine ⟨⟨?_, ?_, ?_, ?_, ?_⟩, ?_, ?_, ?_, ?_⟩ <;> decide +kernel

theorem overfullEnv_performed {log : CurlLog} (h : log.countP (fun e => e.obs = .perform) ≠ 1) :
    overfullEnv.performed log =
      [.body (largeChunk 0x61), .body (largeChunk 0x62), .body (largeChunk 0x63)] :=
  if_neg h

theorem overfullRead_reachable : CurlReachable overfullEnv overfullRead := by
  refine ⟨[.openFn ⟨ascii "http://a/".toList, []⟩ ⟨0, [0], -1⟩,
    .readFn (curlMaxWriteSize + 1) 100], ?_⟩
  rw [List.foldl_cons, List.foldl_cons, List.foldl_nil, overfullRead, overfullOpen]

/-- The last chunk is refused, comes again and is stored around the end of the ring, and the next
read gets everything that is left. -/
theorem ring_is_fifo_of_overfull :
    let r := curlReadFn overfullEnv overfullRead ringCap 100
    let sent := largeChunk 0x61 ++ largeChunk 0x62 ++ largeChunk 0x63
    ringCap < overfullRead.ctx.rHead + overfullRead.ctx.rLen ∧
      PausesProperly overfullRead.log ∧ Always Redelivers overfullRead.log ∧
      (ledger overfullRead.log).accepted = sent ∧
      (ledger overfullRead.log).returned ++ r.2.1 = sent ∧ r.1 = (ringCap - 1 : Nat) := by
  intro r sent
  have hmax : curlMaxWriteSize = 16384 := rfl
  have hcap : ringCap = 32768 := rfl
  have hsize : ∀ b, (largeChunk b).length = curlMaxWriteSize := fun b => List.length_replicate
  obtain ⟨hawaits, hledger, hrunning, hproper, hcount⟩ := overfullOpen_awaitsBody
  have hperformed : overfullEnv.performed
      ((overfullOpen.push (.wait (100 : UInt32).toInt32.toInt)).push .perform).log = _ :=
    overfullEnv_performed (by
      show (overfullOpen.log ++ [_] ++ [_]).countP _ ≠ 1
      rw [List.countP_append, List.countP_append, hcount]
      simp)
  obtain ⟨hhead, hlen, haccepted, hkept⟩ := curlReadFn_overfull hawaits (hsize 0x61) (hsize 0x62)
    (hsize 0x63) (fun _ => rfl) (fun _ => rfl) (fun _ => rfl) hperformed (fun _ => rfl)
  have hread : (curlReadFn overfullEnv overfullOpen (curlMaxWriteSize + 1) 100).2.2 =
      overfullRead := by
    rw [overfullRead, runTransport]
  rw [hread] at hhead hlen haccepted hkept
  rw [hledger, List.nil_append] at haccepted
  obtain ⟨hring, -, -, -, -, hreads, hredelivers⟩ := ring_is_fifo overfullRead_reachable
  have hr : ReadsRing overfullEnv overfullRead ringCap r := hreads ringCap 100 (by omega)
  have hpaused : PausesProperly overfullRead.log := hkept hrunning hproper
  -- the read gets the whole ring
  have htake : r = takeBytes overfullEnv overfullRead ringCap := if_neg (by omega)
  have hmin : min overfullRead.ctx.rLen ringCap = overfullRead.ctx.rLen := by omega
  obtain ⟨-, hbytes, -⟩ := takeBytes_spec overfullEnv overfullRead ringCap
  rw [hmin] at hbytes
  refine ⟨by omega, hpaused, hredelivers hpaused, haccepted, ?_, ?_⟩
  · rw [htake, hbytes]
    exact hring.fifo.symm.trans haccepted
  · obtain ⟨hpos, -⟩ := hr.nonempty (by omega)
    rw [← hr.counted (by omega), htake, hbytes, length_contents, hlen]

end EventSource.Port
