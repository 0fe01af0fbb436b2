import EventSource.Client.Simulation

/-!
# CLOSED Is Final

What no step of the protocol can undo. Once a client has been seen CLOSED it stays CLOSED, its
resume position and retry state are frozen, and no callback starts; `on_closed` has been called
exactly when the client is CLOSED, and never twice.
-/

namespace EventSource.Client

open EventSource.CMemory
open EventSource.Parser
open EventSource.Trace

variable {cb : SseClientCallbacks} {cfg : SseClientConfig} {w : World}

/-! ## §1 Later Clients -/

/-- A call into the application. -/
def Obs.isUserCall : Obs → Bool
  | .onOpen _ | .onMessage _ | .onError _ | .onClosed | .reconnectPolicy _ => true
  | _ => false

/-- `b` is CLOSED, with everything that CLOSED freezes as in `a`. -/
structure Frozen (a b : SseClient) : Prop where
  state : b.state = .closed
  lastEventId : b.lastEventId = a.lastEventId
  lastEventIdLen : b.lastEventIdLen = a.lastEventIdLen
  baseRetryMs : b.baseRetryMs = a.baseRetryMs
  attempts : b.attempts = a.attempts
  retryDeadline : b.retryDeadline = a.retryDeadline

/-- Everything that CLOSED freezes. -/
def SseClient.kept (c : SseClient) : ClientState × Mem × Nat × UInt32 × UInt32 × UInt32 :=
  (c.state, c.lastEventId, c.lastEventIdLen, c.baseRetryMs, c.attempts, c.retryDeadline)

/-- Client `b` can come after client `a`. -/
def Later (a b : SseClient) : Prop :=
  a.state = .closed → Frozen a b

theorem Later.refl (a : SseClient) : Later a a :=
  fun h => ⟨h, rfl, rfl, rfl, rfl, rfl⟩

theorem Later.trans {a b c : SseClient} (hab : Later a b) (hbc : Later b c) : Later a c := by
  intro ha
  have hb := hab ha
  have hc := hbc hb.state
  exact ⟨hc.state, hc.lastEventId.trans hb.lastEventId,
    hc.lastEventIdLen.trans hb.lastEventIdLen, hc.baseRetryMs.trans hb.baseRetryMs,
    hc.attempts.trans hb.attempts, hc.retryDeadline.trans hb.retryDeadline⟩

/-- A client that is not CLOSED freezes nothing. -/
theorem Later.of_alive {a b : SseClient} (h : a.state ≠ .closed) : Later a b :=
  fun ha => absurd ha h

/-- `on_closed` has been called. -/
def Fired (log : Log) : Prop :=
  ∃ e ∈ log, e.obs = .onClosed

theorem fired_snoc (log : Log) (e : Entry) :
    Fired (log ++ [e]) ↔ Fired log ∨ e.obs = .onClosed := by
  unfold Fired
  constructor
  · rintro ⟨x, hx, hobs⟩
    rcases List.mem_append.mp hx with hx | hx
    · exact .inl ⟨x, hx, hobs⟩
    · rw [List.mem_singleton] at hx
      exact .inr (hx ▸ hobs)
  · rintro (⟨x, hx, hobs⟩ | hobs)
    · exact ⟨x, List.mem_append_left _ hx, hobs⟩
    · exact ⟨e, by simp, hobs⟩

/-! ## §2 The Invariant -/

/-- What holds of an entry of the log, given the entries before it. -/
structure LifeEntry (cb : SseClientCallbacks) (pre : Log) (e : Entry) : Prop where
  later : ∀ x ∈ pre, Later x.client e.client
  alive : e.obs.isUserCall = true → e.obs ≠ .onClosed → e.client.state ≠ .closed
  once : e.obs = .onClosed → ¬ Fired pre
  fired : Fired (pre ++ [e]) ↔ e.client.state = .closed ∧ cb.onClosed = true

/-- The invariant of every step: besides, the configuration never changes. -/
structure Life (cfg : SseClientConfig) (w : World) : Prop where
  config : w.client.cfg = cfg
  past : ∀ x ∈ w.log, Later x.client w.client
  entries : Always (LifeEntry cfg.callbacks) w.log
  fired : Fired w.log ↔ w.client.state = .closed ∧ cfg.callbacks.onClosed = true

/-- Anything but `on_closed` may be recorded, a callback only while the client is not CLOSED. -/
theorem Life.push (h : Life cfg w) {o : Obs} (ho : o ≠ .onClosed)
    (halive : o.isUserCall = true → w.client.state ≠ .closed) : Life cfg (w.push o) := by
  have hfired : Fired (w.log ++ [⟨o, w.client⟩]) ↔
      w.client.state = .closed ∧ cfg.callbacks.onClosed = true := by
    rw [fired_snoc, ← h.fired]
    exact or_iff_left ho
  refine ⟨h.config, ?_, ?_, hfired⟩
  · intro x hx
    rcases List.mem_append.mp hx with hx | hx
    · exact h.past x hx
    · rw [List.mem_singleton] at hx
      subst hx
      exact Later.refl _
  · rw [push_log]
    exact always_snoc.mpr
      ⟨h.entries, h.past, fun huser _ => halive huser, fun heq => absurd heq ho, hfired⟩

/-- An entry that calls no code of the user may come in every state. -/
theorem Life.pushOther (h : Life cfg w) {o : Obs} (ho : o.isUserCall = false) :
    Life cfg (w.push o) := by
  refine h.push ?_ fun hcall => absurd (ho.symm.trans hcall) Bool.false_ne_true
  intro heq
  rw [heq] at ho
  exact absurd ho.symm Bool.false_ne_true

/-- The client may change in ways that CLOSED allows. -/
theorem Life.update (h : Life cfg w) {f : SseClient → SseClient}
    (hcfg : (f w.client).cfg = w.client.cfg)
    (hlater : Later w.client (f w.client))
    (hs : (f w.client).state = .closed → w.client.state = .closed) : Life cfg (w.update f) := by
  refine ⟨hcfg.trans h.config, fun x hx => (h.past x hx).trans hlater, h.entries, ?_⟩
  show Fired w.log ↔ (f w.client).state = .closed ∧ cfg.callbacks.onClosed = true
  rw [h.fired]
  constructor
  · exact fun ⟨hclosed, hset⟩ => ⟨(hlater hclosed).state, hset⟩
  · exact fun ⟨hclosed, hset⟩ => ⟨hs hclosed, hset⟩

/-- A change to neither the configuration nor anything that CLOSED freezes. -/
theorem Life.update_same (h : Life cfg w) {f : SseClient → SseClient}
    (hcfg : (f w.client).cfg = w.client.cfg)
    (hkept : (f w.client).kept = w.client.kept) : Life cfg (w.update f) := by
  simp only [SseClient.kept, Prod.mk.injEq] at hkept
  obtain ⟨hs, hid, hlen, hbase, hatt, hdead⟩ := hkept
  apply h.update hcfg
  · exact fun hclosed => ⟨hs.trans hclosed, hid, hlen, hbase, hatt, hdead⟩
  · exact fun hclosed => hs.symm.trans hclosed

/-- A client that is not CLOSED may change freely, short of becoming CLOSED. -/
theorem Life.update_alive (h : Life cfg w) {f : SseClient → SseClient}
    (hcfg : (f w.client).cfg = w.client.cfg)
    (hs : w.client.state ≠ .closed) (hs' : (f w.client).state ≠ .closed) :
    Life cfg (w.update f) :=
  h.update hcfg (Later.of_alive hs) fun hclosed => absurd hclosed hs'

theorem Life.closeTransport (h : Life cfg w) : Life cfg (closeTransport w) := by
  rcases closeTransport_cases w with ⟨-, heq⟩ | ⟨-, heq⟩
  · rw [heq]
    exact h
  · rw [heq]
    exact (h.pushOther rfl).update_same rfl rfl

/-- Becoming CLOSED calls `on_closed`, for the first time. -/
theorem Life.closing (h : Life cfg w) : Life cfg (closing w) := by
  have hc := h.closeTransport
  have hstate := closeTransport_client_state w
  rcases closing_cases w with ⟨-, heq⟩ | ⟨hs, ⟨hset, heq⟩ | ⟨hset, heq⟩⟩
  · rw [heq]
    exact hc
  · -- the state changes and `on_closed` is recorded in one go
    rw [← hstate] at hs
    rw [hc.config] at hset
    have hnot : ¬ Fired (Client.closeTransport w).log := fun hf => hs (hc.fired.mp hf).1
    have hfired : ∀ e : Entry, e.obs = .onClosed →
        Fired ((Client.closeTransport w).log ++ [e]) := by
      intro e he
      rw [fired_snoc]
      exact .inr he
    have hpast : ∀ x ∈ (Client.closeTransport w).log,
        Later x.client { (Client.closeTransport w).client with state := .closed } :=
      fun x hx => (hc.past x hx).trans (Later.of_alive hs)
    rw [heq]
    refine ⟨hc.config, ?_, ?_, ?_⟩
    · intro x hx
      rcases List.mem_append.mp hx with hx | hx
      · exact hpast x hx
      · rw [List.mem_singleton] at hx
        subst hx
        exact Later.refl _
    · refine (always_snoc (P := LifeEntry cfg.callbacks)).mpr
        ⟨hc.entries, hpast, ?_, fun _ => hnot, ?_⟩
      · exact fun _ hne => absurd rfl hne
      · exact iff_of_true (hfired _ rfl) ⟨rfl, hset⟩
    · exact iff_of_true (hfired _ rfl) ⟨rfl, hset⟩
  · rw [← hstate] at hs
    rw [hc.config] at hset
    rw [heq]
    refine ⟨hc.config, fun x hx => (hc.past x hx).trans (Later.of_alive hs), hc.entries, ?_⟩
    -- nobody listens: CLOSED is reached without a call
    refine iff_of_false (fun hf => hs (hc.fired.mp hf).1) ?_
    rintro ⟨-, hyes⟩
    rw [hset] at hyes
    exact absurd hyes (by simp)

theorem Life.delivered (h : Life cfg w) (c : Callback) : Life cfg (delivered w c) := by
  have hp : Life cfg (w.push (.parser c)) := h.pushOther rfl
  unfold Client.delivered
  rcases bridged_cases (w.push (.parser c)) c with heq | ⟨hs, hcases⟩
  · rw [heq]
    exact hp
  · have hne : (w.push (.parser c)).client.state ≠ .closed := by
      rw [hs]
      decide
    have hopen : w.client.state ≠ .closed := hne
    -- a message sets the failures in a row to zero
    have hzero : Life cfg ((w.push (.parser c)).update fun c => { c with attempts := 0 }) :=
      hp.update_alive rfl hne hne
    rcases hcases with ⟨_, _, heq⟩ | ⟨_, heq⟩ | heq | ⟨_, heq⟩ | ⟨_, -, heq⟩
    · rw [heq]
      exact hp.update_alive rfl hne hne
    · rw [heq]
      exact hp.update_alive rfl hne hne
    · rw [heq]
      exact hzero
    · rw [heq]
      exact hzero.push (by simp) fun _ => hne
    · rw [heq]
      exact hp.push (by simp) fun _ => hne

/-- A connection attempt starts from a client that is not CLOSED. -/
theorem Life.attempt (h : Life cfg w) (hs : w.client.state ≠ .closed) (extra : List Mem)
    (result : Int) (stop : Bool) : Life cfg (attempt w extra result stop) := by
  have hbuilt : Life cfg (w.update fun c => buildHeaders { c with state := .connecting } extra) := by
    obtain ⟨_, _, _, heq⟩ := buildHeaders_frame { w.client with state := .connecting } extra
    apply h.update_alive
    · rw [heq]
    · exact hs
    · rw [heq]
      simp
  exact Life.update_same (f := fun c => { c with stopRequested := c.stopRequested || stop })
    (hbuilt.pushOther (o := .transportOpen _ _ _) rfl) rfl rfl

theorem Life.openConnection (h : Life cfg w) (hs : w.client.state ≠ .closed) (t : Nat) :
    Life cfg (openConnection w t) := by
  have hreset : Life cfg (w.update fun c => { c with parser := sseParserReset c.parser }) :=
    h.update_same rfl rfl
  have hclock := hreset.pushOther (o := .clock t) rfl
  have hopen := hclock.update_alive (f := fun c => { c with lastRxMs := .ofNat t, state := .opened })
    rfl hs (by simp)
  unfold Client.openConnection
  simp only
  split
  · exact hopen.push (by simp) fun _ => by simp
  · exact hopen

theorem Life.schedule (h : Life cfg w) (hs : w.client.state ≠ .closed) (e : SseError)
    (retryAfterS : Int32) (t : Nat) : Life cfg (schedule w e retryAfterS t) := by
  obtain ⟨x, heq⟩ := retryDelay_frame w.client retryAfterS
  have hcount : Life cfg (w.update fun _ => { (retryDelay w.client retryAfterS).2 with
      attempts := (retryDelay w.client retryAfterS).2.attempts + 1 }) := by
    apply h.update_alive
    · rw [heq]
    · exact hs
    · rw [heq]
      exact hs
  have hclock := hcount.pushOther (o := .clock t) rfl
  have hwait := hclock.update_alive (f := fun c => { c with
    retryDeadline := .ofNat t + (retryDelay w.client retryAfterS).1
    state := .waitingRetry }) rfl (by rw [push_client, update_client, heq]; exact hs) (by simp)
  unfold Client.schedule
  simp only
  split
  · exact hwait.push (by simp) fun _ => by simp
  · exact hwait

/-! ## §3 Every Step and Every Run -/

/-- **No step undoes CLOSED.** -/
theorem life_step {env : Env} {s t : Phase × World} (h : Step env s t)
    (hok : PhaseOk s.2.client s.1) (hl : Life cfg s.2) : Life cfg t.2 := by
  -- no step starts from CLOSED but those that leave it alone
  cases h with
  | call w c => exact hl.pushOther rfl
  | stop ph w => exact Life.update_same (f := fun c => { c with stopRequested := true }) hl rfl rfl
  | close ph w hph => exact hl.closing
  | tick w => exact hl.pushOther rfl
  | connect w stop hs =>
    have hne : w.client.state ≠ .closed := by rcases hs with hs | hs <;> simp [hs]
    exact Life.update_same (f := fun c => { c with transportOpen := true })
      (hl.attempt hne _ 0 stop) rfl rfl
  | connectFail w result stop hs hr =>
    have hne : w.client.state ≠ .closed := by rcases hs with hs | hs <;> simp [hs]
    exact (hl.attempt hne _ result stop).closeTransport
  | reject w => exact hl.closeTransport
  | accept w =>
    -- an answer is judged while CONNECTING
    have hs : w.client.state = .connecting := hok.2
    exact hl.openConnection (by simp [hs]) _
  | read w result bytes stop hs =>
    have hread := hl.pushOther (o := .transportRead w.client.rxBuf.length w.client.cfg.readTimeoutMs
      result) rfl
    exact Life.update_same (f := fun c =>
      { c with
        rxBuf := fillBuffer c.rxBuf bytes
        stopRequested := c.stopRequested || stop }) hread rfl rfl
  | drop w hs => exact hl.closeTransport
  | receive w hs =>
    have hclock := hl.pushOther (o := .clock (env.time w.log)) rfl
    exact Life.update_same (f := fun c => { c with lastRxMs := .ofNat (env.time w.log) }) hclock rfl rfl
  | byte w b hs hread =>
    have hbyte := hl.pushOther (o := .byte b) rfl
    exact Life.update_same (f := fun c => { c with parser := (processByte c.parser b).1 })
      hbyte rfl rfl
  | deliver w c rest called => exact hl.delivered c
  | parsed w called => exact hl
  | consult w e hs => exact hl.push (by simp) fun _ => hs
  | refuse w e hs hr =>
    show Life cfg (refusal w e)
    unfold refusal
    split
    · exact hl.push (by simp) fun _ => hs
    · exact hl
  | retry w e retryAfterS hs hr ha => exact hl.schedule hs e retryAfterS _
  | abandon ph w hph hs => exact hl
  | due w hs =>
    have hclock := hl.pushOther (o := .clock (env.time w.log)) rfl
    have hne : w.client.state ≠ .closed := by simp [hs]
    exact Life.update_alive (f := fun c => { c with state := .connecting }) hclock rfl hne (by simp)
  | finish ph w hph => exact hl

/-- A fresh client is IDLE, without a connection and without a past. -/
theorem init_ready {env : Env} (h : sseClientInit env cfg = some w) :
    PhaseOk w.client .between ∧ Life (withDefaults cfg) w := by
  unfold sseClientInit at h
  split at h
  · obtain rfl := Option.some.inj h
    refine ⟨iff_of_false (by simp [initClient]) (by simp [initClient]), rfl, by simp,
      always_nil _, ?_⟩
    exact iff_of_false (by simp [Fired]) (by simp [initClient])
  · exact absurd h (by simp)

/-- What holds of a fresh client and is kept by every step that respects the phases holds after any
number of calls. -/
theorem reachable_invariant {env : Env} {I : Phase × World → Prop}
    (hinit : ∀ w, sseClientInit env cfg = some w → I (.between, w))
    (hstep : ∀ s t : Phase × World, Step env s t → PhaseOk s.2.client s.1 → I s → I t)
    (h : Reachable env cfg w) : PhaseOk w.client .between ∧ I (.between, w) := by
  obtain ⟨w₀, calls, hw₀, rfl⟩ := h
  refine invariant_of_steps (I := fun p : Phase × World => PhaseOk p.2.client p.1 ∧ I p) ?_
    (runCalls_steps env w₀ calls) ⟨(init_ready hw₀).1, hinit w₀ hw₀⟩
  rintro s t hst ⟨hok, hi⟩
  exact ⟨phaseOk_step hst hok, hstep s t hst hok hi⟩

theorem reachable_life {env : Env} (h : Reachable env cfg w) :
    Life (withDefaults cfg) w :=
  (reachable_invariant (I := fun p => Life (withDefaults cfg) p.2) (fun _ hw => (init_ready hw).2)
    (fun _ _ hst hok => life_step hst hok) h).2

/-- A fresh client has no past. -/
theorem init_log {env : Env} (h : sseClientInit env cfg = some w) :
    w.log = [] := by
  unfold sseClientInit at h
  split at h
  · obtain rfl := Option.some.inj h
    rfl
  · exact absurd h (by simp)

/-! ## §4 CLOSED Is Final -/

/-- After an entry whose client is CLOSED, no callback starts. -/
theorem LifeEntry.silent {pre : Log} {e x : Entry} (hx : LifeEntry cb pre x)
    (he : e ∈ pre) (hclosed : e.client.state = .closed)
    (hfired : cb.onClosed = true → Fired pre) (hset : x.obs = .onClosed → cb.onClosed = true) :
    x.obs.isUserCall = false := by
  have hstate := (hx.later e he hclosed).state
  by_contra huser
  rw [Bool.not_eq_false] at huser
  by_cases hobs : x.obs = .onClosed
  · exact hx.once hobs (hfired (hset hobs))
  · exact hx.alive huser hobs hstate

/-- **CLOSED is final.** Whatever the transport, the clock and the callbacks do: `on_closed` is
called at most once, and has been called exactly when the client is CLOSED (and the callback is
set), at every moment of the run and at its end. From a moment on at which the client is CLOSED, no
callback starts, and the state, the resume position and the retry state stay as they are. -/
theorem closed_is_final {env : Env} (h : Reachable env cfg w) :
    w.log.countP (fun e => decide (e.obs = .onClosed)) ≤ 1 ∧
      (∀ pre e post, w.log = pre ++ e :: post →
        (Fired (pre ++ [e]) ↔ e.client.state = .closed ∧ cfg.callbacks.onClosed = true)) ∧
      (Fired w.log ↔ w.client.state = .closed ∧ cfg.callbacks.onClosed = true) ∧
      ∀ pre e post, w.log = pre ++ e :: post → e.client.state = .closed →
        (∀ x ∈ post, x.obs.isUserCall = false ∧ Frozen e.client x.client) ∧
          Frozen e.client w.client := by
  have hlife := reachable_life h
  refine ⟨Always.countP_le_one (hlife.entries.mono ?_), ?_, hlife.fired, ?_⟩
  · intro pre e he hobs x hx hfired
    exact he.once (of_decide_eq_true hobs) ⟨x, hx, of_decide_eq_true hfired⟩
  · intro pre e post hlog
    exact (hlife.entries pre e post hlog).fired
  · intro pre e post hlog hclosed
    have hmem : e ∈ w.log := by rw [hlog]; simp
    -- split the log once more, at the later entry
    refine ⟨?_, hlife.past e hmem hclosed⟩
    intro x hx
    obtain ⟨mid, post', rfl⟩ := List.append_of_mem hx
    have hlog' : w.log = (pre ++ e :: mid) ++ x :: post' := by rw [hlog]; simp
    have hentry := hlife.entries _ _ _ hlog'
    have hbefore : e ∈ pre ++ e :: mid := by simp
    refine ⟨?_, hentry.later e hbefore hclosed⟩
    apply hentry.silent hbefore hclosed
    -- `on_closed` has been called by then
    · intro hset
      obtain ⟨y, hy, hobs⟩ := (hlife.entries pre e _ hlog).fired.mpr ⟨hclosed, hset⟩
      refine ⟨y, ?_, hobs⟩
      rcases List.mem_append.mp hy with hy | hy
      · exact List.mem_append_left _ hy
      · rw [List.mem_singleton.mp hy]
        exact hbefore
    -- and the entry itself is no second one
    · intro hobs
      have hfired : Fired ((pre ++ e :: mid) ++ [x]) := ⟨x, by simp, hobs⟩
      exact (hentry.fired.mp hfired).2

/-- A client with small buffers and every callback set. -/
def smallConfig : SseClientConfig :=
  { url := some [0x75, 0]
    extraHeaders := none
    defaultRetryMs := 0
    maxRetryMs := 0
    jitterPct := 0
    idleTimeoutMs := 0
    readTimeoutMs := 0
    skipContentTypeCheck := false
    dataBuf := some [0, 0]
    idBuf := some [0, 0]
    eventBuf := some [0, 0]
    rxBuf := some [0]
    transport := some ⟨true, true, true⟩
    nowMs := true
    callbacks := ⟨true, true, true, true⟩
    reconnectPolicy := false }

/-- A server that accepts every connection and sends nothing. -/
def quietEnv : Env :=
  { openReply := fun _ => ⟨0, fun _ => ⟨200, eventStreamType ++ [0], -1⟩, false⟩
    readReply := fun _ => ⟨0, [], false⟩
    time := fun log => log.length
    reentry := fun _ => []
    policy := fun _ => true
    extraHeaders := fun _ => [] }

/-- The fresh client of `smallConfig`. -/
def smallClient : World :=
  ⟨initClient smallConfig 0, []⟩

theorem smallClient_reachable (calls : List ApiCall) :
    Reachable quietEnv smallConfig (runCalls quietEnv smallClient calls) :=
  ⟨smallClient, calls, rfl, rfl⟩

theorem closed_is_final_of_close :
    let w := runCalls quietEnv smallClient [.poll, .close, .poll]
    w.client.state = .closed ∧
      w.log.countP (fun e => decide (e.obs = .onClosed)) ≤ 1 ∧
      (∀ pre e post, w.log = pre ++ e :: post →
        (Fired (pre ++ [e]) ↔ e.client.state = .closed ∧ smallConfig.callbacks.onClosed = true)) ∧
      (Fired w.log ↔ w.client.state = .closed ∧ smallConfig.callbacks.onClosed = true) ∧
      ∀ pre e post, w.log = pre ++ e :: post → e.client.state = .closed →
        (∀ x ∈ post, x.obs.isUserCall = false ∧ Frozen e.client x.client) ∧
          Frozen e.client w.client :=
  ⟨by decide +kernel, closed_is_final (smallClient_reachable [.poll, .close, .poll])⟩

end EventSource.Client
