import EventSource.Client.PollParts

/-!
# The Order of the Callbacks

What an application can rely on when its callbacks are called, as an automaton over the calls. A
connection is opened, tells messages and lost messages, and fails; each failure is put to the
reconnect policy and then reported, once; a failure without a retry is followed by the end; after the
end comes nothing. Callbacks that are not set are left out of the sequence.
-/

namespace EventSource.Client

open EventSource.CMemory
open EventSource.Parser
open EventSource.Trace

/-! ## §1 The Automaton -/

/-- Where the application is in the sequence of its callbacks. -/
inductive Stage where
  /-- No connection has been opened since the last failure. -/
  | down
  /-- A connection has been opened. -/
  | up
  /-- The policy has been asked about a failure that is still to be reported. -/
  | asked (e : SseError)
  /-- A failure without a retry has been reported. -/
  | over
  | closed
  deriving DecidableEq, Repr

variable {env : Env} {cfg c₀ : SseClientConfig} {w : World} {q r : Stage}

/-- The report of a failure, given what the policy was asked about: the same failure, with the final
decision. Without a policy hook that is the default. -/
def reportsFailure (hook : Bool) (asked e : SseError) : Bool :=
  e.reason = asked.reason && e.httpStatus = asked.httpStatus &&
    (hook || e.willRetry = asked.willRetry) && (e.willRetry || e.retryInMs = 0)

/-- The question about a failure: no decision about a time has been made yet. -/
def asksAbout (e : SseError) : Bool :=
  !e.reason.isLoss && e.retryInMs = 0

/-- What may be called at a stage, and the stage that follows. -/
def Stage.next (hook : Bool) : Stage → Obs → Option Stage
  | .down, .onOpen _ => some .up
  | .up, .onMessage _ => some .up
  -- a lost message
  | .up, .onError e =>
    if e.reason.isLoss && e.willRetry && e.retryInMs = 0 then some .up else none
  | .down, .reconnectPolicy e => if asksAbout e then some (.asked e) else none
  | .up, .reconnectPolicy e => if asksAbout e then some (.asked e) else none
  | .asked a, .onError e =>
    if reportsFailure hook a e then some (if e.willRetry then .down else .over) else none
  | .closed, .onClosed => none
  | _, .onClosed => some .closed
  | _, _ => none

/-- The stage that a sequence of calls leads to, if they may come in this order. -/
def stageAfter (hook : Bool) (calls : List Obs) : Option Stage :=
  calls.foldlM (Stage.next hook) .down

/-- Whether the callback is set. -/
def SseClientConfig.sets (cfg : SseClientConfig) : Obs → Bool
  | .onOpen _ => cfg.callbacks.onOpen
  | .onMessage _ => cfg.callbacks.onMessage
  | .onError _ => cfg.callbacks.onError
  | .onClosed => cfg.callbacks.onClosed
  | .reconnectPolicy _ => cfg.reconnectPolicy
  | _ => false

/-- The calls into the application in a log. -/
def userCalls (log : Log) : List Obs :=
  (log.map Entry.obs).filter Obs.isUserCall

/-- The calls in a log are those of a sequence in the right order, less those of callbacks that are
not set. -/
def InOrder (cfg : SseClientConfig) (log : Log) (q : Stage) : Prop :=
  ∃ calls, stageAfter cfg.reconnectPolicy calls = some q ∧ userCalls log = calls.filter cfg.sets

theorem stageAfter_snoc {hook : Bool} {calls : List Obs} {o : Obs}
    (hq : stageAfter hook calls = some q) (hr : q.next hook o = some r) :
    stageAfter hook (calls ++ [o]) = some r := by
  unfold stageAfter at hq ⊢
  rw [List.foldlM_append, hq]
  show (q.next hook o).bind pure = some r
  rw [hr]
  rfl

theorem userCalls_snoc (log : Log) (e : Entry) :
    userCalls (log ++ [e]) = userCalls log ++ if e.obs.isUserCall then [e.obs] else [] := by
  unfold userCalls
  rw [List.map_append, List.filter_append]
  cases h : e.obs.isUserCall <;> simp [h]

theorem InOrder.other {log : Log} (h : InOrder cfg log q) {e : Entry}
    (he : e.obs.isUserCall = false) : InOrder cfg (log ++ [e]) q := by
  obtain ⟨calls, hq, hcalls⟩ := h
  refine ⟨calls, hq, ?_⟩
  rw [userCalls_snoc, he, hcalls]
  exact List.append_nil _

/-- A callback that is set is called. -/
theorem InOrder.called {log : Log} (h : InOrder cfg log q) {e : Entry}
    (he : e.obs.isUserCall = true) (hset : cfg.sets e.obs = true)
    (hr : q.next cfg.reconnectPolicy e.obs = some r) : InOrder cfg (log ++ [e]) r := by
  obtain ⟨calls, hq, hcalls⟩ := h
  refine ⟨calls ++ [e.obs], stageAfter_snoc hq hr, ?_⟩
  rw [userCalls_snoc, he, hcalls, List.filter_append, List.filter_cons_of_pos hset]
  rfl

/-- One that is not set is left out. -/
theorem InOrder.skipped {log : Log} (h : InOrder cfg log q) {o : Obs} (hset : cfg.sets o = false)
    (hr : q.next cfg.reconnectPolicy o = some r) : InOrder cfg log r := by
  obtain ⟨calls, hq, hcalls⟩ := h
  refine ⟨calls ++ [o], stageAfter_snoc hq hr, ?_⟩
  have hno : ¬ cfg.sets o = true := by
    rw [hset]
    exact Bool.false_ne_true
  rw [hcalls, List.filter_append, List.filter_cons_of_neg hno]
  exact (List.append_nil _).symm

/-! ## §2 Closing and Callbacks -/

/-- The client is at a stage. Its configuration is `c₀`, and it is CLOSED exactly at the end. -/
structure At (c₀ : SseClientConfig) (w : World) (q : Stage) : Prop where
  config : w.client.cfg = c₀
  order : InOrder c₀ w.log q
  closed : w.client.state = .closed ↔ q = .closed

theorem At.push (h : At c₀ w q) {o : Obs} (ho : o.isUserCall = false) : At c₀ (w.push o) q :=
  ⟨h.config, h.order.other ho, h.closed⟩

theorem At.update (h : At c₀ w q) {f : SseClient → SseClient}
    (hcfg : (f w.client).cfg = w.client.cfg)
    (hs : (f w.client).state = .closed ↔ w.client.state = .closed) : At c₀ (w.update f) q :=
  ⟨hcfg.trans h.config, h.order, hs.trans h.closed⟩

theorem At.closeTransport (h : At c₀ w q) : At c₀ (closeTransport w) q := by
  unfold Client.closeTransport
  split
  · exact (h.push (o := .transportClose) rfl).update rfl Iff.rfl
  · exact h

theorem At.requestStop (h : At c₀ w q) : At c₀ (sseClientRequestStop w) q :=
  ⟨h.config, h.order, h.closed⟩

/-- What `on_closed` does in turn. -/
theorem At.actsClosed (h : At c₀ w .closed) (acts : List Reentry) :
    At c₀ (acts.foldl actClosed w) .closed := by
  induction acts generalizing w with
  | nil => exact h
  | cons a acts ih =>
    cases a with
    | close => exact ih h.closeTransport
    | requestStop => exact ih h.requestStop

theorem next_onClosed {hook : Bool} (hq : q ≠ .closed) : q.next hook .onClosed = some .closed := by
  cases q with
  | closed => exact absurd rfl hq
  | _ => rfl

/-- **Closing leads to the end from every stage.** -/
theorem At.toClosed (h : At c₀ w q) (env : Env) : At c₀ (toClosed env w) .closed := by
  have hdown := h.closeTransport
  unfold Client.toClosed
  by_cases hs : (Client.closeTransport w).client.state = .closed
  · -- a client that is CLOSED already says nothing
    simp only [hs, if_true]
    rwa [hdown.closed.mp hs] at hdown
  · have hq : q ≠ .closed := fun heq => hs (hdown.closed.mpr heq)
    simp only [hs, if_false]
    cases hset : c₀.callbacks.onClosed with
    | true =>
      have hcb : (Client.closeTransport w).client.cfg.callbacks.onClosed = true := by
        rw [hdown.config, hset]
      -- whatever `on_closed` calls, the client is CLOSED already
      simp only [update_client, hcb, if_true]
      apply At.actsClosed
      exact ⟨hdown.config, hdown.order.called rfl hset (next_onClosed hq), iff_of_true rfl rfl⟩
    | false =>
      have hcb : ¬ (Client.closeTransport w).client.cfg.callbacks.onClosed = true := by
        rw [hdown.config, hset]
        exact Bool.false_ne_true
      simp only [update_client, hcb]
      exact ⟨hdown.config, hdown.order.skipped (o := .onClosed) hset (next_onClosed hq),
        iff_of_true rfl rfl⟩

/-- The client is at the stage `q` in the state `s`, or it has been closed meanwhile. -/
def AtOrClosed (c₀ : SseClientConfig) (w : World) (q : Stage) (s : ClientState) : Prop :=
  (At c₀ w q ∧ w.client.state = s) ∨ At c₀ w .closed

theorem AtOrClosed.act {s : ClientState} (h : AtOrClosed c₀ w q s) (a : Reentry) :
    AtOrClosed c₀ (Client.act env w a) q s := by
  cases a with
  | close =>
    rcases h with ⟨h, -⟩ | h
    · exact .inr (h.toClosed env)
    · exact .inr (h.toClosed env)
  | requestStop =>
    rcases h with ⟨h, hs⟩ | h
    · exact .inl ⟨h.requestStop, hs⟩
    · exact .inr h.requestStop

theorem AtOrClosed.acts {s : ClientState} (h : AtOrClosed c₀ w q s) (acts : List Reentry) :
    AtOrClosed c₀ (acts.foldl (Client.act env) w) q s := by
  induction acts generalizing w with
  | nil => exact h
  | cons a acts ih => exact ih (h.act a)

/-- **One call of the application.** If the callback may come next, it is called or left out, and the
client goes on at the next stage unless the callback closes it. -/
theorem At.tell (h : At c₀ w q) (env : Env) {o : Obs} (ho : o.isUserCall = true)
    (hr : q.next c₀.reconnectPolicy o = some r) (hq : q ≠ .closed) (hne : r ≠ .closed) :
    AtOrClosed c₀ (if c₀.sets o then callUser env w o else w) r w.client.state := by
  have halive : w.client.state ≠ .closed := fun hs => hq (h.closed.mp hs)
  by_cases hset : c₀.sets o = true
  · rw [if_pos hset]
    apply AtOrClosed.acts
    exact .inl ⟨⟨h.config, h.order.called ho hset hr, iff_of_false halive hne⟩, rfl⟩
  · rw [if_neg hset]
    rw [Bool.not_eq_true] at hset
    exact .inl ⟨⟨h.config, h.order.skipped hset hr, iff_of_false halive hne⟩, rfl⟩

/-! ## §3 Failures -/

theorem At.refuseRetry {a e : SseError} (h : At c₀ w (.asked a))
    (hreport : reportsFailure c₀.reconnectPolicy a { e with willRetry := false } = true) :
    At c₀ (refuseRetry env w e) .closed := by
  have hnext : Stage.next c₀.reconnectPolicy (.asked a) (.onError { e with willRetry := false }) =
      some .over := if_pos hreport
  have htold := h.tell env (o := .onError { e with willRetry := false }) rfl hnext
    Stage.noConfusion Stage.noConfusion
  unfold Client.refuseRetry
  rw [h.config]
  rcases htold with ⟨hover, -⟩ | hclosed
  · exact hover.toClosed env
  · exact hclosed.toClosed env

theorem At.scheduleRetry {a e : SseError} (h : At c₀ w (.asked a)) (retryAfterS : Int32)
    (hreport : ∀ ms, reportsFailure c₀.reconnectPolicy a
      { e with willRetry := true, retryInMs := ms } = true) :
    AtOrClosed c₀ (scheduleRetry env w e retryAfterS) .down .waitingRetry := by
  obtain ⟨x, hx⟩ := retryDelay_frame w.client retryAfterS
  have halive : w.client.state ≠ .closed := fun hs => Stage.noConfusion (h.closed.mp hs)
  let ms := (retryDelay w.client retryAfterS).1
  let v := ((w.update fun _ => { (retryDelay w.client retryAfterS).2 with
      attempts := (retryDelay w.client retryAfterS).2.attempts + 1 }).push
    (.clock (env.time w.log))).update fun c =>
      { c with retryDeadline := .ofNat (env.time w.log) + ms, state := .waitingRetry }
  -- counting the attempt, reading the clock and setting the deadline call nobody
  have hcount : At c₀ (w.update fun _ => { (retryDelay w.client retryAfterS).2 with
      attempts := (retryDelay w.client retryAfterS).2.attempts + 1 }) (.asked a) := by
    apply h.update
    · rw [hx]
    · rw [hx]
  have hclock : At c₀ _ (.asked a) := hcount.push (o := .clock (env.time w.log)) rfl
  have hwait : At c₀ v (.asked a) := by
    refine hclock.update rfl (iff_of_false (by simp) ?_)
    rw [push_client, update_client, hx]
    exact halive
  have hnext : Stage.next c₀.reconnectPolicy (.asked a)
      (.onError { e with willRetry := true, retryInMs := ms }) = some .down := if_pos (hreport ms)
  have htold := hwait.tell env (o := .onError { e with willRetry := true, retryInMs := ms })
    rfl hnext Stage.noConfusion Stage.noConfusion
  have heq : Client.scheduleRetry env w e retryAfterS =
      if v.client.cfg.callbacks.onError then
        callUser env v (.onError { e with willRetry := true, retryInMs := ms })
      else v := rfl
  rw [heq, hwait.config]
  exact htold

/-- What is reported in the end differs from what the policy was asked in the decision only, and from
the default decision only if there is a hook. -/
theorem reportsFailure_decision {hook b : Bool} {e : SseError} {ms : UInt32}
    (hb : hook = false → b = e.willRetry) (hms : b = true ∨ ms = 0) :
    reportsFailure hook e { e with willRetry := b, retryInMs := ms } = true := by
  unfold reportsFailure
  cases hook with
  | true => rcases hms with rfl | rfl <;> simp
  | false =>
    rw [hb rfl] at hms ⊢
    rcases hms with hms | rfl
    · simp [hms]
    · simp

/-- The decision, which is the default one without a hook. -/
theorem At.decideRetry {e : SseError} (h : At c₀ w (.asked e)) (hnone : e.retryInMs = 0)
    (retryAfterS : Int32) (decision : Bool)
    (hdefault : c₀.reconnectPolicy = false → decision = e.willRetry) :
    AtOrClosed c₀ (decideRetry env w e retryAfterS decision) .down .waitingRetry := by
  cases decision with
  | true => exact h.scheduleRetry retryAfterS fun ms => reportsFailure_decision hdefault (.inl rfl)
  | false => exact .inr (h.refuseRetry (reportsFailure_decision hdefault (.inr hnone)))

/-- **A failure is put to the policy and reported, once each.** -/
theorem At.failConn (h : At c₀ w q) (hq : q = .down ∨ q = .up) {reason : ErrorReason}
    (hr : reason.isLoss = false) (status : Int) (retryAfterS : Int32) :
    AtOrClosed c₀ (failConn env w reason status retryAfterS) .down .waitingRetry := by
  let retry := defaultShouldRetry reason status retryAfterS
  let e : SseError := ⟨reason, status, retry, 0⟩
  have hasks : asksAbout e = true := by
    unfold asksAbout
    rw [hr]
    rfl
  have hne : q ≠ .closed := by
    rintro rfl
    rcases hq with hq | hq <;> cases hq
  have hnext : q.next c₀.reconnectPolicy (.reconnectPolicy e) = some (.asked e) := by
    rcases hq with rfl | rfl
    · exact if_pos hasks
    · exact if_pos hasks
  have htold := h.closeTransport.tell env (o := .reconnectPolicy e) rfl hnext hne
    Stage.noConfusion
  unfold Client.failConn
  simp only [h.closeTransport.config]
  by_cases hook : c₀.reconnectPolicy = true
  · have hset : c₀.sets (.reconnectPolicy e) = true := hook
    rw [if_pos hset] at htold
    rw [if_pos hook]
    -- the hook may have closed the client, and then nothing is reported
    rcases htold with ⟨hasked, -⟩ | hclosed
    · have halive : ¬ (callUser env (Client.closeTransport w) (.reconnectPolicy e)).client.state =
          .closed := fun hs => Stage.noConfusion (hasked.closed.mp hs)
      rw [if_neg halive]
      apply hasked.decideRetry rfl
      exact fun hno => absurd (hook.symm.trans hno) (by simp)
    · rw [if_pos (hclosed.closed.mpr rfl)]
      exact .inr hclosed
  · have hset : ¬ c₀.sets (.reconnectPolicy e) = true := hook
    rw [if_neg hset] at htold
    rw [if_neg hook]
    rcases htold with ⟨hasked, -⟩ | hclosed
    · exact hasked.decideRetry rfl _ _ fun _ => rfl
    · exact absurd (h.closeTransport.closed.mp (hclosed.closed.mpr rfl)) hne

/-! ## §4 Polls -/

/-- The stage of a client that is between two calls. -/
def stageOf : ClientState → Stage
  | .opened => .up
  | .closed => .closed
  | .idle | .connecting | .waitingRetry => .down

/-- The callbacks have been called in order, and the client's state says where they stand. -/
def InStep (c₀ : SseClientConfig) (w : World) : Prop :=
  At c₀ w (stageOf w.client.state)

theorem AtOrClosed.inStep {s : ClientState} (h : AtOrClosed c₀ w (stageOf s) s) :
    InStep c₀ w := by
  unfold InStep
  rcases h with ⟨h, rfl⟩ | h
  · exact h
  · rw [h.closed.mpr rfl]
    exact h

theorem At.acceptResponse (h : At c₀ w .down) : InStep c₀ (acceptResponse env w) := by
  have halive : w.client.state ≠ .closed := fun hs => Stage.noConfusion (h.closed.mp hs)
  let v := ((w.update fun c => { c with parser := sseParserReset c.parser }).push
    (.clock (env.time w.log))).update fun c =>
      { c with lastRxMs := .ofNat (env.time w.log), state := .opened }
  -- nobody is called before the client is OPEN
  have hreset : At c₀ (w.update fun c => { c with parser := sseParserReset c.parser }) .down :=
    h.update rfl Iff.rfl
  have hclock : At c₀ _ .down := hreset.push (o := .clock (env.time w.log)) rfl
  have hopen : At c₀ v .down := hclock.update rfl (iff_of_false (by simp) halive)
  have htold := hopen.tell env (o := .onOpen v.client.attempts) (r := .up) rfl rfl
    Stage.noConfusion Stage.noConfusion
  have heq : Client.acceptResponse env w =
      if v.client.cfg.callbacks.onOpen then callUser env v (.onOpen v.client.attempts) else v := rfl
  rw [heq, hopen.config]
  exact AtOrClosed.inStep (s := .opened) htold

theorem At.judgeResponse (h : At c₀ w .down) (info : SseResponseInfo) :
    InStep c₀ (judgeResponse env w info) := by
  have hfail : ∀ (reason : ErrorReason) status retryAfterS, reason.isLoss = false →
      InStep c₀ (Client.failConn env w reason status retryAfterS) :=
    fun _ status retryAfterS hr => AtOrClosed.inStep (s := .waitingRetry)
      (h.failConn (.inl rfl) hr status retryAfterS)
  unfold Client.judgeResponse
  split
  · exact hfail _ _ _ rfl
  · split
    · exact hfail _ _ _ rfl
    · split
      · exact hfail _ _ _ rfl
      · exact h.acceptResponse

theorem At.doConnect (h : At c₀ w .down) : InStep c₀ (doConnect env w) := by
  have halive : w.client.state ≠ .closed := fun hs => Stage.noConfusion (h.closed.mp hs)
  -- only the headers are built and `open` is called, which the order does not see
  have hattempt : ∀ extra result stop, At c₀ (attempt w extra result stop) .down := by
    intro extra result stop
    obtain ⟨x, hs, oob, heq⟩ := buildHeaders_frame { w.client with state := .connecting } extra
    have hbuilt : At c₀ (w.update fun c => buildHeaders { c with state := .connecting } extra)
        .down := by
      apply h.update
      · rw [heq]
      · rw [heq]
        exact iff_of_false (by simp) halive
    let v := w.update fun c => buildHeaders { c with state := .connecting } extra
    have hopened : At c₀ (v.push (.transportOpen (v.client.cfg.url.getD []) v.client.headers result))
        .down := hbuilt.push rfl
    exact ⟨hopened.config, hopened.order, hopened.closed⟩
  unfold Client.doConnect
  simp only
  split
  · exact AtOrClosed.inStep (s := .waitingRetry) ((hattempt _ _ _).failConn (.inl rfl) rfl _ _)
  -- a successful `open` is judged by its response
  · have hopened := hattempt (env.extraHeaders w.log) (env.openReply w.log).result
      (env.openReply w.log).stop
    apply At.judgeResponse
    exact ⟨hopened.config, hopened.order, hopened.closed⟩

theorem lossReason_isLoss {err : ParseError} {reason : ErrorReason}
    (h : lossReason err = some reason) : reason.isLoss = true := by
  cases err <;> simp only [lossReason, Option.some.injEq, reduceCtorEq] at h <;> rw [← h] <;> rfl

/-- An event is told as a message. -/
theorem At.bridgeOnEvent (h : At c₀ w .up) (hs : w.client.state = .opened) (ev : ParserEvent) :
    AtOrClosed c₀ (bridgeOnEvent env w ev) .up .opened := by
  let v := w.update fun c => { c with attempts := 0 }
  have hv : At c₀ v .up := h.update rfl Iff.rfl
  have htold := hv.tell env (o := .onMessage (messageOf v.client ev)) (r := .up) rfl rfl
    Stage.noConfusion Stage.noConfusion
  rw [show v.client.state = .opened from hs] at htold
  unfold Client.bridgeOnEvent
  rw [if_neg (not_not_intro hs)]
  show AtOrClosed c₀ (if v.client.cfg.callbacks.onMessage then
    callUser env v (.onMessage (messageOf v.client ev)) else v) .up .opened
  rw [show v.client.cfg = c₀ from hv.config]
  exact htold

/-- A lost message is reported, and the connection goes on. -/
theorem At.bridgeOnPerr (h : At c₀ w .up) (hs : w.client.state = .opened) (err : ParseError) :
    AtOrClosed c₀ (bridgeOnPerr env w err) .up .opened := by
  unfold Client.bridgeOnPerr
  rw [if_neg (not_not_intro hs)]
  cases hloss : lossReason err with
  | none => exact .inl ⟨h, hs⟩
  | some reason =>
    have hnext : Stage.next c₀.reconnectPolicy .up (.onError ⟨reason, 0, true, 0⟩) = some .up :=
      if_pos (by simp [lossReason_isLoss hloss])
    have htold := h.tell env (o := .onError ⟨reason, 0, true, 0⟩) rfl hnext
      Stage.noConfusion Stage.noConfusion
    rw [hs] at htold
    simp only
    rw [h.config]
    exact htold

/-- A report of the parser tells the application at most one thing. -/
theorem AtOrClosed.deliver (h : AtOrClosed c₀ w .up .opened) (c : Callback) :
    AtOrClosed c₀ (deliver env w c) .up .opened := by
  have hparsed : AtOrClosed c₀ (w.push (.parser c)) .up .opened := by
    rcases h with ⟨h, hs⟩ | h
    · exact .inl ⟨h.push rfl, hs⟩
    · exact .inr (h.push rfl)
  by_cases hs : (w.push (.parser c)).client.state = .opened
  -- an OPEN client is not at the end
  · have hup : At c₀ (w.push (.parser c)) .up := by
      rcases hparsed with ⟨hup, -⟩ | hclosed
      · exact hup
      · have hend := hclosed.closed.mpr rfl
        rw [hs] at hend
        cases hend
    -- an id or a retry time is kept in silence
    have hsame : ∀ f : SseClient → SseClient, (f w.client).cfg = w.client.cfg →
        (f w.client).state = w.client.state →
        AtOrClosed c₀ ((w.push (.parser c)).update f) .up .opened := fun f hcfg hstate =>
      .inl ⟨hup.update hcfg (by rw [push_client, hstate]), hstate.trans hs⟩
    unfold Client.deliver
    cases c with
    | onId id len =>
      simp only [bridgeOnId, hs, ne_eq, not_true_eq_false, if_false]
      split
      · exact hsame _ rfl rfl
      · exact hparsed
    | onRetry ms =>
      simp only [bridgeOnRetry, hs, ne_eq, not_true_eq_false, if_false]
      exact hsame _ rfl rfl
    | onEvent ev => exact hup.bridgeOnEvent hs ev
    | onError err => exact hup.bridgeOnPerr hs err
  · -- what a client that is not OPEN is told it drops
    have hdrop : Client.deliver env w c = w.push (.parser c) := by
      unfold Client.deliver
      cases c <;>
        simp only [bridgeOnId, bridgeOnRetry, bridgeOnEvent, bridgeOnPerr, hs, ne_eq,
          not_false_eq_true, if_true]
    rw [hdrop]
    exact hparsed

theorem AtOrClosed.clientFeed (h : AtOrClosed c₀ w .up .opened) (env : Env) (bytes : List UInt8) :
    AtOrClosed c₀ (clientFeed env w bytes) .up .opened := by
  apply clientFeed_keeps (P := fun v => AtOrClosed c₀ v .up .opened) _ _ h
  · rintro v b (⟨hv, hs⟩ | hv)
    · exact .inl ⟨(hv.push (o := .byte b) rfl).update rfl Iff.rfl, hs⟩
    · exact .inr ((hv.push (o := .byte b) rfl).update rfl Iff.rfl)
  · exact fun v c hv => hv.deliver c

theorem InStep.failUp (h : At c₀ w .up) {reason : ErrorReason} (hr : reason.isLoss = false)
    (status : Int) (retryAfterS : Int32) : InStep c₀ (failConn env w reason status retryAfterS) :=
  AtOrClosed.inStep (s := .waitingRetry) (h.failConn (.inr rfl) hr status retryAfterS)

theorem At.pollTimeout (h : At c₀ w .up) (hs : w.client.state = .opened) :
    InStep c₀ (pollTimeout env w).2 := by
  have hstay : ∀ v, At c₀ v .up → v.client.state = .opened → InStep c₀ v := by
    intro v hv hopen
    unfold InStep
    rw [hopen]
    exact hv
  have hclock : At c₀ (w.push (.clock (env.time w.log))) .up := h.push rfl
  unfold Client.pollTimeout
  simp only
  split
  · split
    · exact InStep.failUp hclock rfl _ _
    · exact hstay _ hclock hs
  · exact hstay _ h hs

theorem At.pollRead (h : At c₀ w .up) (hs : w.client.state = .opened) (r : Int) :
    InStep c₀ (pollRead env w r).2 := by
  unfold Client.pollRead
  split
  · exact AtOrClosed.inStep (s := .closed) (.inr (h.toClosed env))
  · split
    · split
      · exact InStep.failUp h rfl _ _
      · have hclock : At c₀ (w.push (.clock (env.time w.log))) .up := h.push rfl
        have hreceived : At c₀ (receive w (env.time w.log)) .up := hclock.update rfl Iff.rfl
        have hfed := AtOrClosed.clientFeed (.inl ⟨hreceived, hs⟩) env
          ((receive w (env.time w.log)).client.rxBuf.take r.toNat)
        exact AtOrClosed.inStep (s := .opened) hfed
    · split
      · exact h.pollTimeout hs
      · exact InStep.failUp h rfl _ _

theorem At.pollWaiting (h : At c₀ w .down) (hs : w.client.state = .waitingRetry) :
    InStep c₀ (pollWaiting env w).2 := by
  have hclock : At c₀ (w.push (.clock (env.time w.log))) .down := h.push rfl
  unfold Client.pollWaiting nowMs
  simp only
  split
  · exact ⟨hclock.config, hclock.order, iff_of_false (by simp) Stage.noConfusion⟩
  · show At c₀ _ (stageOf w.client.state)
    rw [hs]
    exact hclock

theorem InStep.push (h : InStep c₀ w) {o : Obs} (ho : o.isUserCall = false) :
    InStep c₀ (w.push o) :=
  At.push h ho

/-- **A poll keeps the order.** -/
theorem InStep.poll (h : InStep c₀ w) : InStep c₀ (sseClientPoll env w).2 := by
  have hat : At c₀ w (stageOf w.client.state) := h
  cases pollCase env w with
  | stopped hstop heq =>
    rw [heq]
    exact AtOrClosed.inStep (s := .closed) (.inr (h.toClosed env))
  | closed hs heq =>
    rw [heq]
    exact h
  | connect hs heq =>
    have hdown : At c₀ w .down := by
      rcases hs with hs | hs
      · rwa [hs] at hat
      · rwa [hs] at hat
    rw [heq]
    exact hdown.doConnect
  | waiting hs heq =>
    rw [hs] at hat
    rw [heq]
    exact hat.pollWaiting hs
  | opened hs heq =>
    rw [hs] at hat
    rw [heq]
    -- the read itself calls nobody
    let reply := env.readReply w.log
    have hasked : At c₀ (w.push (.transportRead w.client.rxBuf.length
      w.client.cfg.readTimeoutMs reply.result)) .up := hat.push rfl
    have hread : At c₀ (readOnce w reply.result reply.bytes reply.stop) .up :=
      ⟨hasked.config, hasked.order, hasked.closed⟩
    exact hread.pollRead hs reply.result

theorem InStep.call (h : InStep c₀ w) (call : ApiCall) : InStep c₀ (apply env w call) := by
  have hcall : InStep c₀ (w.push (.call call)) := h.push rfl
  cases call with
  | poll => exact hcall.poll
  | close => exact AtOrClosed.inStep (s := .closed) (.inr (At.toClosed hcall env))
  | requestStop => exact At.requestStop hcall

theorem inStep_init (h : sseClientInit env cfg = some w) : InStep (withDefaults cfg) w := by
  unfold sseClientInit at h
  split at h
  · cases h
    exact ⟨rfl, ⟨[], rfl, rfl⟩, iff_of_false (by simp [initClient]) Stage.noConfusion⟩
  · cases h

theorem reachable_inStep (h : Reachable env cfg w) : InStep (withDefaults cfg) w :=
  reachable_induction (fun _ hw => inStep_init hw) (fun _ call _ hs => hs.call call) h

/-! ## §5 The Order -/

/-- **The callbacks are called in order.** After any calls of the interface, the calls into the
application are those of a run of the automaton, less those of callbacks that are not set, and the
client's state says at which stage the run has arrived: OPEN between an opening and the next failure,
CLOSED at the end, and everything else with no connection. -/
theorem callbacks_in_order (h : Reachable env cfg w) :
    ∃ calls, stageAfter cfg.reconnectPolicy calls = some (stageOf w.client.state) ∧
      userCalls w.log = calls.filter cfg.sets :=
  (reachable_inStep h).order

theorem callbacks_in_order_of_one :
    (userCalls oneEventClient.log).length = 2 ∧
      stageAfter smallConfig.reconnectPolicy (userCalls oneEventClient.log) = some .up ∧
      ∃ calls, stageAfter smallConfig.reconnectPolicy calls =
          some (stageOf oneEventClient.client.state) ∧
        userCalls oneEventClient.log = calls.filter smallConfig.sets :=
  ⟨by decide +kernel, by decide +kernel, callbacks_in_order oneEventClient_reachable⟩

end EventSource.Client
