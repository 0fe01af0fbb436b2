import EventSource.Client.Protocol

/-!
# Every Call Is a Run of Steps

The functions of the client against the abstract client: each call of the interface, with whatever
the callbacks inside it do, is a run of `Step` from `between` to `between`. The same is shown for
every function below the interface, from the phase in which it is called.
-/

namespace EventSource.Client

open EventSource.CMemory
open EventSource.Parser
open EventSource.Trace

variable {env : Env} {w : World} {ph : Phase}

/-! ## §1 Closing -/

/-- On a CLOSED client `to_closed` is `close_transport`. -/
theorem closing_of_closed (h : w.client.state = .closed) : closing w = closeTransport w := by
  unfold closing
  simp only [closeTransport_client_state, h, if_true]

/-- What `on_closed` does to its client leaves it CLOSED. -/
theorem actClosed_state (h : w.client.state = .closed) (a : Reentry) :
    (actClosed w a).client.state = .closed := by
  cases a with
  | close => exact (closeTransport_client_state w).trans h
  | requestStop => exact h

theorem foldl_actClosed (acts : List Reentry) (h : w.client.state = .closed) :
    (acts.foldl actClosed w).client.state = .closed := by
  induction acts generalizing w with
  | nil => exact h
  | cons a acts ih => exact ih (actClosed_state h a)

/-- `to_closed` closes, and then `on_closed` may act on the closed client. -/
theorem toClosed_eq_closing (env : Env) (w : World) :
    ∃ acts : List Reentry, toClosed env w = acts.foldl actClosed (closing w) := by
  unfold toClosed closing
  by_cases h : (closeTransport w).client.state = .closed
  · exact ⟨[], by simp only [h, if_true, List.foldl_nil]⟩
  · simp only [h, if_false]
    split
    · exact ⟨_, rfl⟩
    · exact ⟨[], rfl⟩

theorem toClosed_state (env : Env) (w : World) : (toClosed env w).client.state = .closed := by
  obtain ⟨acts, h⟩ := toClosed_eq_closing env w
  rw [h]
  exact foldl_actClosed acts (closing_state w)

/-- **The recursion of `to_closed`.** It is the source's body, in which `on_closed` may call
`to_closed` again. -/
theorem toClosed_eq (env : Env) (w : World) :
    toClosed env w =
      let w := closeTransport w
      if w.client.state = .closed then w
      else
        let w := w.update fun c => { c with state := .closed }
        if w.client.cfg.callbacks.onClosed then callUser env w .onClosed else w := by
  -- on a closed client without a connection, the two kinds of reentry agree
  have hact : ∀ (acts : List Reentry) (v : World), v.client.state = .closed →
      v.client.transportOpen = false → acts.foldl actClosed v = acts.foldl (act env) v := by
    intro acts
    induction acts with
    | nil => intro v _ _; rfl
    | cons a acts ih =>
      intro v hs ht
      have hsame : actClosed v a = act env v a := by
        cases a with
        | requestStop => rfl
        | close =>
          show closeTransport v = toClosed env v
          unfold toClosed
          simp only [closeTransport_client_state, hs, if_true]
      rw [List.foldl_cons, List.foldl_cons, ← hsame]
      apply ih
      · exact actClosed_state hs a
      · cases a with
        | requestStop => exact ht
        | close => exact transportOpen_closeTransport v
  by_cases hs : (closeTransport w).client.state = .closed
  · simp only [toClosed, hs, if_true]
  · simp only [toClosed, hs, if_false]
    split
    · exact hact _ _ rfl (transportOpen_closeTransport w)
    · rfl

theorem actClosed_steps (env : Env) (hph : ph.yields = true) (h : w.client.state = .closed) (a : Reentry) :
    Steps env (ph, w) (ph, actClosed w a) := by
  cases a with
  | requestStop => exact (Step.stop ph w).steps
  | close =>
    have hstep : Step env (ph, w) (ph, closing w) := Step.close ph w hph
    rw [closing_of_closed h] at hstep
    exact hstep.steps

theorem foldl_actClosed_steps (env : Env) (hph : ph.yields = true) (acts : List Reentry)
    (h : w.client.state = .closed) : Steps env (ph, w) (ph, acts.foldl actClosed w) := by
  induction acts generalizing w with
  | nil => exact .refl
  | cons a acts ih => exact (actClosed_steps env hph h a).trans (ih (actClosed_state h a))

theorem toClosed_steps (env : Env) (hph : ph.yields = true) :
    Steps env (ph, w) (ph, toClosed env w) := by
  obtain ⟨acts, h⟩ := toClosed_eq_closing env w
  rw [h]
  exact .head (Step.close ph w hph) (foldl_actClosed_steps env hph acts (closing_state w))

/-! ## §2 Callbacks -/

theorem act_steps (hph : ph.yields = true) (w : World) (a : Reentry) :
    Steps env (ph, w) (ph, act env w a) := by
  cases a with
  | close => exact toClosed_steps env hph
  | requestStop => exact (Step.stop ph w).steps

/-- Whatever a callback does, if the phase lets it act. -/
theorem acts_steps (hph : ph.yields = true) (w : World) (acts : List Reentry) :
    Steps env (ph, w) (ph, acts.foldl (act env) w) :=
  foldl_steps (e := fun v => (ph, v)) (act_steps hph) w acts

/-- Once a call of the application is recorded, the rest of it is what the application does. -/
theorem callUser_steps (env : Env) (hph : ph.yields = true) (w : World) (o : Obs) :
    Steps env (ph, w.push o) (ph, callUser env w o) :=
  acts_steps hph _ _

theorem bridgeOnEvent_eq (env : Env) (w : World) (ev : ParserEvent) :
    bridgeOnEvent env w ev =
      (if callsUser w.client (.onEvent ev) then env.reentry (bridged w (.onEvent ev)).log
        else []).foldl (act env) (bridged w (.onEvent ev)) := by
  unfold bridgeOnEvent bridged callsUser
  by_cases hs : w.client.state = .opened
  · cases hcb : w.client.cfg.callbacks.onMessage with
    | true =>
      simp only [hs, hcb, update_client, ne_eq, not_true_eq_false, if_false, if_true, decide_true,
        Bool.and_self]
      rfl
    | false =>
      simp only [hs, hcb, update_client, ne_eq, not_true_eq_false, if_false, Bool.false_eq_true,
        Bool.and_false, List.foldl_nil]
  · simp only [hs, ne_eq, not_false_eq_true, if_true, decide_false, Bool.false_and,
      Bool.false_eq_true, if_false, List.foldl_nil]

theorem bridgeOnPerr_eq (env : Env) (w : World) (err : ParseError) :
    bridgeOnPerr env w err =
      (if callsUser w.client (.onError err) then env.reentry (bridged w (.onError err)).log
        else []).foldl (act env) (bridged w (.onError err)) := by
  unfold bridgeOnPerr bridged callsUser
  by_cases hs : w.client.state = .opened
  · cases hloss : lossReason err with
    | none =>
      simp only [hs, hloss, ne_eq, not_true_eq_false, if_false, Option.isSome_none, Bool.and_false,
        Bool.false_and, Bool.false_eq_true, List.foldl_nil]
    | some reason =>
      cases hcb : w.client.cfg.callbacks.onError with
      | true =>
        simp only [hs, hloss, ne_eq, not_true_eq_false, if_false, if_true, decide_true,
          Option.isSome_some, Bool.and_self]
        rfl
      | false =>
        simp only [hs, hloss, ne_eq, not_true_eq_false, if_false, Bool.false_eq_true,
          Bool.and_false, List.foldl_nil]
  · simp only [hs, ne_eq, not_false_eq_true, if_true, decide_false, Bool.false_and,
      Bool.false_eq_true, if_false, List.foldl_nil]

/-- Delivering a parser callback is its effect on the client, then what the application does if it
is called. -/
theorem deliver_eq (env : Env) (w : World) (c : Callback) :
    deliver env w c =
      (if callsUser w.client c then env.reentry (delivered w c).log else []).foldl (act env)
        (delivered w c) := by
  cases c with
  | onId id len => rfl
  | onRetry ms => rfl
  | onEvent ev => exact bridgeOnEvent_eq env _ ev
  | onError err => exact bridgeOnPerr_eq env _ err

theorem deliver_steps (w : World) (c : Callback) (rest : List Callback) (called : Bool) :
    Steps env (.parsing (c :: rest) called, w)
      (.parsing rest (callsUser w.client c), deliver env w c) := by
  refine .head (Step.deliver w c rest called) ?_
  rw [deliver_eq]
  cases hcall : callsUser w.client c with
  | false => exact .refl
  | true => exact acts_steps rfl _ _

/-- All callbacks of a byte are delivered. -/
theorem delivers_steps (w : World) (cbs : List Callback) (called : Bool) :
    Steps env (.parsing cbs called, w) (.ready, cbs.foldl (deliver env) w) := by
  induction cbs generalizing w called with
  | nil => exact (Step.parsed w called).steps
  | cons c rest ih => exact (deliver_steps w c rest called).trans (ih _ _)

/-- What survives closing and a stop request survives whatever a callback does. -/
theorem SurvivesClosing.act {P : World → Prop} (hP : SurvivesClosing P)
    (hstop : ∀ v, P v → P (sseClientRequestStop v)) (env : Env) (h : P w) (a : Reentry) :
    P (act env w a) := by
  have hacts : ∀ (acts : List Reentry) (v : World), P v → P (acts.foldl actClosed v) := by
    intro acts
    induction acts with
    | nil => exact fun v hv => hv
    | cons a acts ih =>
      intro v hv
      apply ih
      cases a with
      | close => exact hP.closeTransport hv
      | requestStop => exact hstop v hv
  cases a with
  | requestStop => exact hstop w h
  | close =>
    obtain ⟨acts, heq⟩ := toClosed_eq_closing env w
    show P (toClosed env w)
    rw [heq]
    exact hacts acts _ (hP.closing h)

theorem SurvivesClosing.acts {P : World → Prop} (hP : SurvivesClosing P)
    (hstop : ∀ v, P v → P (sseClientRequestStop v)) (env : Env) (acts : List Reentry) (h : P w) :
    P (acts.foldl (Client.act env) w) := by
  induction acts generalizing w with
  | nil => exact h
  | cons a acts ih => exact ih (hP.act hstop env h a)

/-- Calls of `open` apart, the last response stays what it is. -/
theorem beforeOpen_snoc (log : Log) {e : Entry} (he : e.obs.opens = false) :
    beforeOpen (log ++ [e]) = beforeOpen log := by
  unfold beforeOpen
  rw [List.reverse_append, List.reverse_singleton, List.singleton_append, List.dropWhile_cons, he]
  rfl

theorem beforeOpen_open (log : Log) {e : Entry} (he : e.obs.opens = true) :
    beforeOpen (log ++ [e]) = log := by
  unfold beforeOpen
  rw [List.reverse_append, List.reverse_singleton, List.singleton_append, List.dropWhile_cons, he]
  exact List.reverse_reverse log

theorem survives_beforeOpen (log : Log) : SurvivesClosing fun v => beforeOpen v.log = log where
  transport := fun _ h => (beforeOpen_snoc _ rfl).trans h
  closed := fun _ h => h
  onClosed := fun _ h => (beforeOpen_snoc _ rfl).trans h

theorem beforeOpen_callUser (env : Env) (w : World) {o : Obs} (ho : o.opens = false) :
    beforeOpen (callUser env w o).log = beforeOpen w.log :=
  (survives_beforeOpen _).acts (fun _ h => h) env _ (beforeOpen_snoc _ ho)

/-- The Retry-After of a failure only depends on the last response. -/
theorem RetryAfterOf.congr {a b : Log} {d e : SseError} {retryAfterS : Int32}
    (h : RetryAfterOf env a d retryAfterS) (hlog : beforeOpen b = beforeOpen a)
    (hreason : e.reason = d.reason) (hstatus : e.httpStatus = d.httpStatus) :
    RetryAfterOf env b e retryAfterS := by
  unfold RetryAfterOf lastResponse at *
  rw [hlog, hreason, hstatus]
  exact h

/-! ## §3 Feeding -/

/-- What holds while a read result is fed to the parser. -/
structure Feeding (w : World) : Prop where
  state : w.client.state = .opened ∨ w.client.state = .closed
  read : ReadFits w.log

theorem ReadFits.push {log : Log} {e : Entry} (h : ReadFits log)
    (he : ∀ len ms r, e.obs ≠ .transportRead len ms r) : ReadFits (log ++ [e]) := by
  have hsame : lastRead (log ++ [e]) = lastRead log := by
    unfold lastRead
    rw [List.foldl_append, List.foldl_cons, List.foldl_nil]
    split
    · next len ms r heq => exact absurd heq (he len ms r)
    · rfl
  unfold ReadFits
  rw [hsame]
  exact h

theorem Feeding.push (h : Feeding w) {o : Obs} (ho : ∀ len ms r, o ≠ .transportRead len ms r) :
    Feeding (w.push o) :=
  ⟨h.state, h.read.push ho⟩

theorem Feeding.of_eq (h : Feeding w) {v : World} (hs : v.client.state = w.client.state)
    (hl : v.log = w.log) : Feeding v :=
  ⟨hs ▸ h.state, hl ▸ h.read⟩

theorem Feeding.of_closed (h : Feeding w) {v : World} (hs : v.client.state = .closed)
    (hl : v.log = w.log) : Feeding v :=
  ⟨.inr hs, hl ▸ h.read⟩

theorem survives_feeding : SurvivesClosing Feeding where
  transport := fun _ h => (h.push (by simp)).of_eq rfl rfl
  closed := fun _ h => h.of_closed rfl rfl
  onClosed := fun _ h => h.push (by simp)

theorem Feeding.foldl {ι : Type} {f : World → ι → World} (hf : ∀ v i, Feeding v → Feeding (f v i))
    (h : Feeding w) (is : List ι) : Feeding (is.foldl f w) := by
  induction is generalizing w with
  | nil => exact h
  | cons i is ih => exact ih (hf w i h)

theorem Feeding.act (env : Env) (h : Feeding w) (a : Reentry) : Feeding (act env w a) :=
  survives_feeding.act (fun _ hv => hv.of_eq rfl rfl) env h a

theorem Feeding.delivered (h : Feeding w) (c : Callback) : Feeding (delivered w c) := by
  have hp : Feeding (w.push (.parser c)) := h.push (by simp)
  unfold Client.delivered
  rcases bridged_cases (w.push (.parser c)) c with heq | ⟨-, ⟨_, _, heq⟩ | ⟨_, heq⟩ | heq |
    ⟨_, heq⟩ | ⟨_, -, heq⟩⟩
  · rw [heq]
    exact hp
  · rw [heq]
    exact hp.of_eq rfl rfl
  · rw [heq]
    exact hp.of_eq rfl rfl
  · rw [heq]
    exact hp.of_eq rfl rfl
  · have hzero : Feeding ((w.push (.parser c)).update fun c => { c with attempts := 0 }) :=
      hp.of_eq rfl rfl
    rw [heq]
    exact hzero.push (by simp)
  · rw [heq]
    exact hp.push (by simp)

theorem Feeding.feedByte (env : Env) (h : Feeding w) (b : UInt8) : Feeding (feedByte env w b) := by
  have hb : Feeding (w.push (.byte b)) := h.push (by simp)
  have hparsed : Feeding (parseByte w b) := hb.of_eq rfl rfl
  refine hparsed.foldl ?_ (processByte w.client.parser b).2
  intro v c hv
  rw [deliver_eq]
  exact (hv.delivered c).foldl (fun _ a hu => hu.act env a) _

theorem feedByte_steps (h : Feeding w) (b : UInt8) :
    Steps env (.ready, w) (.ready, feedByte env w b) :=
  .head (Step.byte w b h.state h.read) (delivers_steps _ _ _)

theorem clientFeed_steps (h : Feeding w) (bytes : List UInt8) :
    Steps env (.ready, w) (.ready, clientFeed env w bytes) := by
  induction bytes generalizing w with
  | nil => exact .refl
  | cons b bytes ih => exact (feedByte_steps h b).trans (ih (h.feedByte env b))

/-! ## §4 Failures -/

theorem finish_steps (env : Env) (hph : ph = .ready ∨ ph = .scheduled) (w : World) :
    Steps env (ph, w) (.between, w) :=
  (Step.finish ph w hph).steps

theorem refuseRetry_steps (hs : w.client.state ≠ .closed) {e : SseError}
    (hr : e.reason.isLoss = false) :
    Steps env (.failing, w) (.between, refuseRetry env w e) := by
  refine .head (Step.refuse w e hs hr) ?_
  have hacts : Steps env (.refused, refusal w e)
      (.refused, if w.client.cfg.callbacks.onError then
        callUser env w (.onError { e with willRetry := false }) else w) := by
    unfold refusal
    split
    · exact callUser_steps env rfl _ _
    · exact .refl
  refine hacts.trans (.trans (toClosed_steps env rfl) ?_)
  exact .head (Step.abandon .refused _ (.inr rfl) (toClosed_state env _))
    (finish_steps env (.inl rfl) _)

/-- Scheduling a retry is its effect on the client, then what the application does. -/
theorem scheduleRetry_eq (env : Env) (w : World) (e : SseError) (retryAfterS : Int32) :
    ∃ acts : List Reentry, scheduleRetry env w e retryAfterS =
      acts.foldl (act env) (schedule w e retryAfterS (env.time w.log)) := by
  unfold schedule scheduleRetry nowMs
  cases hcb : (retryDelay w.client retryAfterS).2.cfg.callbacks.onError with
  | true =>
    simp only [update_client, push_client, update_log, hcb, if_true]
    exact ⟨_, rfl⟩
  | false =>
    simp only [update_client, push_client, update_log, hcb, Bool.false_eq_true, if_false]
    exact ⟨[], rfl⟩

theorem scheduleRetry_steps (hs : w.client.state ≠ .closed) {e : SseError}
    (hr : e.reason.isLoss = false) {retryAfterS : Int32}
    (ha : RetryAfterOf env w.log e retryAfterS) :
    Steps env (.failing, w) (.between, scheduleRetry env w e retryAfterS) := by
  obtain ⟨acts, heq⟩ := scheduleRetry_eq env w e retryAfterS
  rw [heq]
  exact .head (Step.retry w e retryAfterS hs hr ha)
    ((acts_steps rfl _ acts).trans (finish_steps env (.inr rfl) _))

theorem decideRetry_steps (hs : w.client.state ≠ .closed) {e : SseError}
    (hr : e.reason.isLoss = false) {retryAfterS : Int32}
    (ha : RetryAfterOf env w.log e retryAfterS) (retry : Bool) :
    Steps env (.failing, w) (.between, decideRetry env w e retryAfterS retry) := by
  cases retry with
  | true => exact scheduleRetry_steps hs hr ha
  | false => exact refuseRetry_steps hs hr

/-- A failure that is not a lost message ends in a refusal or a scheduled retry. -/
theorem failConn_steps (env : Env) (hs : w.client.state ≠ .closed) {reason : ErrorReason}
    (hr : reason.isLoss = false) {status : Int} {retryAfterS : Int32}
    (ha : RetryAfterOf env w.log ⟨reason, status, false, 0⟩ retryAfterS) :
    Steps env (.failing, closeTransport w)
      (.between, failConn env w reason status retryAfterS) := by
  have hdown : beforeOpen (closeTransport w).log = beforeOpen w.log :=
    (survives_beforeOpen _).closeTransport rfl
  have hs' : (closeTransport w).client.state ≠ .closed := by
    rwa [closeTransport_client_state]
  unfold failConn
  simp only
  split
  -- with a hook the default decision is put to it first
  · let e : SseError := ⟨reason, status, defaultShouldRetry reason status retryAfterS, 0⟩
    have hhook : Steps env (.failing, closeTransport w)
        (.failing, callUser env (closeTransport w) (.reconnectPolicy e)) :=
      .head (Step.consult _ e hs') (callUser_steps env rfl _ _)
    refine hhook.trans ?_
    split
    -- the hook has closed the client, so nothing is decided
    · next hclosed =>
      exact .head (Step.abandon .failing _ (.inl rfl) hclosed) (finish_steps env (.inl rfl) _)
    · next hopen =>
      have hlog : beforeOpen (callUser env (closeTransport w) (.reconnectPolicy e)).log =
          beforeOpen w.log := (beforeOpen_callUser env _ rfl).trans hdown
      exact decideRetry_steps hopen hr (ha.congr hlog rfl rfl) _
  · exact decideRetry_steps hs' hr (ha.congr hdown rfl rfl) _

/-! ## §5 The Interface -/

theorem acceptResponse_steps (w : World) :
    Steps env (.answered, w) (.between, acceptResponse env w) := by
  have hacts : Steps env (.ready, openConnection w (env.time w.log))
      (.ready, acceptResponse env w) := by
    unfold openConnection acceptResponse nowMs
    cases hcb : w.client.cfg.callbacks.onOpen with
    | true =>
      simp only [update_client, push_client, update_log, hcb, if_true]
      exact callUser_steps env rfl _ _
    | false =>
      simp only [update_client, push_client, update_log, hcb, Bool.false_eq_true, if_false]
      exact .refl
  exact .head (Step.accept w) (hacts.trans (finish_steps env (.inl rfl) _))

theorem judgeResponse_steps (hs : w.client.state ≠ .closed) :
    Steps env (.answered, w) (.between, judgeResponse env w (lastResponse env w.log)) := by
  unfold judgeResponse
  split
  · exact .head (Step.reject w) (failConn_steps env hs rfl rfl)
  · split
    · exact .head (Step.reject w) (failConn_steps env hs rfl ⟨rfl, rfl⟩)
    · split
      · exact .head (Step.reject w) (failConn_steps env hs rfl rfl)
      · exact acceptResponse_steps w

/-- What `open` has filled in is the last response. -/
theorem answer_eq (env : Env) (w : World) (result : Int) (stop : Bool) :
    (env.openReply w.log).fill ⟨0, [0], -1⟩ =
      lastResponse env ((attempt w (env.extraHeaders w.log) result stop).update fun c =>
        { c with transportOpen := true }).log := by
  have hlog : beforeOpen (attempt w (env.extraHeaders w.log) result stop).log = w.log :=
    beforeOpen_open w.log rfl
  unfold lastResponse
  rw [update_log, hlog]

theorem doConnect_steps (hs : w.client.state = .idle ∨ w.client.state = .connecting) :
    Steps env (.ready, w) (.between, doConnect env w) := by
  have hstate : ∀ result stop,
      (attempt w (env.extraHeaders w.log) result stop).client.state ≠ .closed := by
    intro result stop
    rw [attempt_state]
    simp
  have hopen : ∀ stop, ((attempt w (env.extraHeaders w.log) 0 stop).update fun c =>
      { c with transportOpen := true }).client.state ≠ .closed := fun stop => hstate 0 stop
  unfold doConnect
  simp only
  split
  · next hr => exact .head (Step.connectFail w _ _ hs hr) (failConn_steps env (hstate _ _) rfl rfl)
  · next hr =>
    rw [not_not.mp hr, answer_eq]
    exact .head (Step.connect w _ hs) (judgeResponse_steps (hopen _))

theorem pollTimeout_steps (hs : w.client.state = .opened) :
    Steps env (.ready, w) (.between, (pollTimeout env w).2) := by
  have htick : Step env (.ready, w) (.ready, w.push (.clock (env.time w.log))) := Step.tick w
  have hne : (w.push (.clock (env.time w.log))).client.state ≠ .closed := by
    show w.client.state ≠ .closed
    simp [hs]
  have hfail : Steps env (.failing, closeTransport (w.push (.clock (env.time w.log))))
      (.between, failConn env (w.push (.clock (env.time w.log))) .idleTimeout 0 (-1)) :=
    failConn_steps env hne rfl rfl
  unfold pollTimeout
  simp only
  split
  · split
    · exact .head htick (.head (Step.drop _ hs) hfail)
    · exact .head htick (finish_steps env (.inl rfl) _)
  · exact finish_steps env (.inl rfl) _

theorem length_fillBuffer (buf bytes : Mem) : (fillBuffer buf bytes).length = buf.length := by
  unfold fillBuffer
  rw [List.length_take, List.length_append, List.length_drop]
  omega

/-- The read is the last one recorded, with the length of the buffer that it filled. -/
theorem lastRead_readOnce (w : World) (r : Int) (bytes : Mem) (stop : Bool) :
    lastRead (readOnce w r bytes stop).log =
      some ((readOnce w r bytes stop).client.rxBuf.length, r) := by
  show lastRead (w.log ++ [_]) = some ((fillBuffer w.client.rxBuf bytes).length, r)
  rw [length_fillBuffer, lastRead, List.foldl_append]
  rfl

/-- Bytes that fit the buffer may be fed. -/
theorem feeding_receive (hs : w.client.state = .opened) {r : Int}
    (hr : lastRead w.log = some (w.client.rxBuf.length, r)) (hpos : 0 < r)
    (hfit : ¬ w.client.rxBuf.length < r.toNat) (t : Nat) : Feeding (receive w t) := by
  have hread : ReadFits w.log := ⟨w.client.rxBuf.length, r, hr, hpos, by omega⟩
  exact ⟨.inl hs, hread.push (by simp)⟩

theorem Feeding.clientFeed (env : Env) (h : Feeding w) (bytes : List UInt8) :
    Feeding (clientFeed env w bytes) :=
  h.foldl (fun _ b hv => hv.feedByte env b) bytes

theorem pollRead_steps (env : Env) (hs : w.client.state = .opened) (r : Int)
    (hr : lastRead w.log = some (w.client.rxBuf.length, r)) :
    Steps env (.ready, w) (.between, (pollRead env w r).2) := by
  have hne : w.client.state ≠ .closed := by simp [hs]
  unfold pollRead
  split
  · exact (toClosed_steps env rfl).trans (finish_steps env (.inl rfl) _)
  · split
    · next hpos =>
      split
      · exact .head (Step.drop w hs) (failConn_steps env hne rfl rfl)
      · next hfit =>
        have hfeed := feeding_receive hs hr hpos hfit (env.time w.log)
        exact .head (Step.receive w hs) ((clientFeed_steps hfeed _).trans (finish_steps env (.inl rfl) _))
    · split
      · exact pollTimeout_steps hs
      · exact .head (Step.drop w hs) (failConn_steps env hne rfl rfl)

theorem pollOpen_steps (hs : w.client.state = .opened) :
    Steps env (.ready, w) (.between, (pollOpen env w).2) := by
  have hpoll := fun r bytes stop => pollRead_steps env (w := readOnce w r bytes stop) hs r
    (lastRead_readOnce w r bytes stop)
  exact .head (Step.read w _ _ _ hs) (hpoll _ _ _)

theorem pollWaiting_steps (hs : w.client.state = .waitingRetry) :
    Steps env (.ready, w) (.between, (pollWaiting env w).2) := by
  unfold pollWaiting nowMs
  simp only
  split
  · exact .head (Step.due w hs) (finish_steps env (.inl rfl) _)
  · exact .head (Step.tick w) (finish_steps env (.inl rfl) _)

/-- **A poll is a run.** -/
theorem poll_steps (env : Env) (w : World) :
    Steps env (.ready, w) (.between, (sseClientPoll env w).2) := by
  have hstop : Steps env (.ready, w)
      (.ready, if w.client.stopRequested && w.client.state ≠ .closed then toClosed env w else w) := by
    split
    · exact toClosed_steps env rfl
    · exact .refl
  refine hstop.trans ?_
  unfold sseClientPoll
  simp only
  generalize (if (w.client.stopRequested && decide (w.client.state ≠ .closed)) = true then
    toClosed env w else w) = v
  cases hs : v.client.state with
  | closed => exact finish_steps env (.inl rfl) _
  | idle => exact doConnect_steps (.inl hs)
  | connecting => exact doConnect_steps (.inr hs)
  | waitingRetry => exact pollWaiting_steps hs
  | opened => exact pollOpen_steps hs

theorem apply_steps (env : Env) (w : World) (call : ApiCall) :
    Steps env (.between, w) (.between, apply env w call) := by
  refine .head (Step.call w call) ?_
  cases call with
  | poll => exact poll_steps env _
  | close => exact (toClosed_steps env rfl).trans (finish_steps env (.inl rfl) _)
  | requestStop => exact .head (Step.stop .ready _) (finish_steps env (.inl rfl) _)

/-- **The client refines the protocol.** Any number of calls is a run of steps. -/
theorem runCalls_steps (env : Env) (w : World) (calls : List ApiCall) :
    Steps env (.between, w) (.between, runCalls env w calls) :=
  foldl_steps (e := fun v => (Phase.between, v)) (apply_steps env) w calls

end EventSource.Client
