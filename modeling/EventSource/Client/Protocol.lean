import EventSource.Client.Machine
import EventSource.Lib.Trace

/-!
# The Client as a Protocol

An abstract client: a few phases between which single steps lead, each with what must hold before
it and what it changes. The surroundings are free here, the clock, the borrowed headers and the
Retry-After of a response apart: any step that is enabled may be taken, with any reply.
`EventSource.Client.Simulation` shows that every call of the client is a run of these steps; whatever
all runs have in common is shown once, for the steps.
-/

namespace EventSource.Client

open EventSource.CMemory
open EventSource.Parser

/-! ## §1 Phases -/

/-- Where the client stands inside a call of its interface. -/
inductive Phase where
  /-- Between two calls. -/
  | between
  /-- Inside a call, between two of its parts. -/
  | ready
  /-- `open` succeeded and its response is being judged. -/
  | answered
  /-- The connection is down and the decision about a retry is due. -/
  | failing
  /-- The application has been told that there will be no retry. -/
  | refused
  /-- The application has been told when the retry comes; the call has nothing left to do. -/
  | scheduled
  /-- Callbacks of the byte being parsed are still due; `called` when the last one delivered has
  called the application. -/
  | parsing (rest : List Callback) (called : Bool)
  deriving DecidableEq, Repr

/-- The application has control, so it may close the client. -/
def Phase.yields : Phase → Bool
  | .ready | .failing | .refused | .scheduled => true
  | .between | .answered => false
  | .parsing _ called => called

/-! ## §2 Effects -/

/-- Closing the client, without what `on_closed` does in turn. -/
def closing (w : World) : World :=
  let w := closeTransport w
  if w.client.state = .closed then w
  else
    let w := w.update fun c => { c with state := .closed }
    if w.client.cfg.callbacks.onClosed then w.push .onClosed else w

/-- The connection becomes OPEN, without what `on_open` does. -/
def openConnection (w : World) (t : Nat) : World :=
  let w := w.update fun c => { c with parser := sseParserReset c.parser }
  let w := w.push (.clock t)
  let w := w.update fun c => { c with lastRxMs := .ofNat t, state := .opened }
  if w.client.cfg.callbacks.onOpen then w.push (.onOpen w.client.attempts) else w

/-- What a parser callback does to the client, without what the application does in turn. -/
def bridged (w : World) : Callback → World
  | .onId id len => bridgeOnId w id len
  | .onRetry ms => bridgeOnRetry w ms
  | .onEvent ev =>
    if w.client.state ≠ .opened then w
    else
      let w := w.update fun c => { c with attempts := 0 }
      if w.client.cfg.callbacks.onMessage then w.push (.onMessage (messageOf w.client ev)) else w
  | .onError err =>
    if w.client.state ≠ .opened then w
    else
      match lossReason err with
      | none => w
      | some reason =>
        if w.client.cfg.callbacks.onError then w.push (.onError ⟨reason, 0, true, 0⟩) else w

/-- A callback of the parser is delivered. -/
def delivered (w : World) (c : Callback) : World :=
  bridged (w.push (.parser c)) c

/-- Whether the delivery of a parser callback calls the application. -/
def callsUser (c : SseClient) : Callback → Bool
  | .onEvent _ => c.state = .opened && c.cfg.callbacks.onMessage
  | .onError err => c.state = .opened && (lossReason err).isSome && c.cfg.callbacks.onError
  | _ => false

/-- The reasons that announce a lost message and no failure of the connection. -/
def ErrorReason.isLoss : ErrorReason → Bool
  | .messageTooLarge | .eventTypeInvalid => true
  | _ => false

/-- The application is told that there will be no retry. -/
def refusal (w : World) (e : SseError) : World :=
  if w.client.cfg.callbacks.onError then w.push (.onError { e with willRetry := false }) else w

/-- The retry is scheduled by a reading `t` of the clock, and the application told. -/
def schedule (w : World) (e : SseError) (retryAfterS : Int32) (t : Nat) : World :=
  let r := retryDelay w.client retryAfterS
  let w := w.update fun _ => { r.2 with attempts := r.2.attempts + 1 }
  let w := (w.push (.clock t)).update fun c =>
    { c with
      retryDeadline := .ofNat t + r.1
      state := .waitingRetry }
  if w.client.cfg.callbacks.onError then
    w.push (.onError { e with willRetry := true, retryInMs := r.1 })
  else w

/-! ## §3 What the Effects Can Do -/

/-- Either there is no connection to close, or its close is recorded and the flag cleared. -/
theorem closeTransport_cases (w : World) :
    (w.client.transportOpen = false ∧ closeTransport w = w) ∨
      (w.client.transportOpen = true ∧
        closeTransport w =
          (w.push .transportClose).update fun c => { c with transportOpen := false }) := by
  unfold closeTransport
  cases h : w.client.transportOpen with
  | false => exact .inl ⟨rfl, rfl⟩
  | true => exact .inr ⟨rfl, rfl⟩

theorem closeTransport_client_state (w : World) :
    (closeTransport w).client.state = w.client.state := by
  unfold closeTransport
  split <;> rfl

theorem transportOpen_closeTransport (w : World) :
    (closeTransport w).client.transportOpen = false := by
  unfold closeTransport
  split
  · rfl
  · next h => simpa using h

/-- Either the client was CLOSED, or it becomes so and `on_closed` is called if it is set. -/
theorem closing_cases (w : World) :
    (w.client.state = .closed ∧ closing w = closeTransport w) ∨
      (w.client.state ≠ .closed ∧
        (((closeTransport w).client.cfg.callbacks.onClosed = true ∧
            closing w = ((closeTransport w).update fun c => { c with state := .closed }).push
              .onClosed) ∨
          ((closeTransport w).client.cfg.callbacks.onClosed = false ∧
            closing w = (closeTransport w).update fun c => { c with state := .closed }))) := by
  have hstate := closeTransport_client_state w
  unfold closing
  by_cases hs : w.client.state = .closed
  · exact .inl ⟨hs, by simp only [hstate, hs, if_true]⟩
  · refine .inr ⟨hs, ?_⟩
    simp only [hstate, hs, if_false]
    cases hcb : (closeTransport w).client.cfg.callbacks.onClosed with
    | true => exact .inl ⟨rfl, by simp only [update_client, hcb, if_true]⟩
    | false =>
      exact .inr ⟨rfl, by simp only [update_client, hcb, Bool.false_eq_true, if_false]⟩

/-- `P` survives each single thing that closing does to a client. -/
structure SurvivesClosing (P : World → Prop) : Prop where
  transport : ∀ w, P w →
    P ((w.push .transportClose).update fun c => { c with transportOpen := false })
  closed : ∀ w, P w → P (w.update fun c => { c with state := .closed })
  onClosed : ∀ w, P w → P (w.push .onClosed)

theorem SurvivesClosing.closeTransport {P : World → Prop} (hP : SurvivesClosing P) {w : World}
    (h : P w) : P (closeTransport w) := by
  rcases closeTransport_cases w with ⟨-, heq⟩ | ⟨-, heq⟩
  · rwa [heq]
  · rw [heq]
    exact hP.transport w h

theorem SurvivesClosing.closing {P : World → Prop} (hP : SurvivesClosing P) {w : World} (h : P w) :
    P (closing w) := by
  have hc := hP.closeTransport h
  rcases closing_cases w with ⟨-, heq⟩ | ⟨-, ⟨-, heq⟩ | ⟨-, heq⟩⟩
  · rwa [heq]
  · rw [heq]
    exact hP.onClosed _ (hP.closed _ hc)
  · rw [heq]
    exact hP.closed _ hc

theorem closing_state (w : World) : (closing w).client.state = .closed := by
  unfold closing
  by_cases h : (closeTransport w).client.state = .closed
  · simp only [h, if_true]
  · simp only [h, if_false]
    split <;> rfl

theorem transportOpen_closing (w : World) : (closing w).client.transportOpen = false := by
  have h := transportOpen_closeTransport w
  unfold closing
  by_cases hs : (closeTransport w).client.state = .closed
  · simp only [hs, if_true]
    exact h
  · simp only [hs, if_false]
    split <;> exact h

/-- The bridge drops what the parser reports to a client that is not OPEN. -/
theorem bridged_of_not_opened (hs : w.client.state ≠ .opened) (c : Callback) : bridged w c = w := by
  cases c <;> simp only [bridged, bridgeOnId, bridgeOnRetry, hs, ne_eq, not_false_eq_true, if_true]

/-- What a parser callback can do to the client and its past: nothing unless the client is OPEN, and
then one of five things. -/
theorem bridged_cases (w : World) (c : Callback) :
    bridged w c = w ∨
      (w.client.state = .opened ∧
        ((∃ id len, bridged w c = w.update fun c =>
            { c with
              lastEventId := memcpy c.lastEventId id (len + 1)
              lastEventIdLen := len
              oob := c.oob || c.lastEventId.length < len + 1 || id.length < len + 1 }) ∨
          (∃ ms, bridged w c = w.update fun c => { c with baseRetryMs := ms }) ∨
          bridged w c = (w.update fun c => { c with attempts := 0 }) ∨
          (∃ m, bridged w c = (w.update fun c => { c with attempts := 0 }).push (.onMessage m)) ∨
          (∃ reason, (reason = .messageTooLarge ∨ reason = .eventTypeInvalid) ∧
            bridged w c = w.push (.onError ⟨reason, 0, true, 0⟩)))) := by
  by_cases hs : w.client.state = .opened
  · cases c with
    | onId id len =>
      simp only [bridged, bridgeOnId, hs, ne_eq, not_true_eq_false, if_false]
      split
      · exact .inr ⟨trivial, .inl ⟨id, len, rfl⟩⟩
      · exact .inl rfl
    | onRetry ms =>
      simp only [bridged, bridgeOnRetry, hs, ne_eq, not_true_eq_false, if_false]
      exact .inr ⟨trivial, .inr (.inl ⟨ms, rfl⟩)⟩
    | onEvent ev =>
      simp only [bridged, hs, ne_eq, not_true_eq_false, if_false]
      split
      · exact .inr ⟨trivial, .inr (.inr (.inr (.inl ⟨_, rfl⟩)))⟩
      · exact .inr ⟨trivial, .inr (.inr (.inl rfl))⟩
    | onError err =>
      simp only [bridged, hs, ne_eq, not_true_eq_false, if_false]
      -- three errors are losses, the other three are dropped
      cases err with
      | dataTooLarge =>
        simp only [lossReason]
        split
        · exact .inr ⟨trivial, .inr (.inr (.inr (.inr ⟨_, .inl rfl, rfl⟩)))⟩
        · exact .inl rfl
      | eventTypeTooLarge =>
        simp only [lossReason]
        split
        · exact .inr ⟨trivial, .inr (.inr (.inr (.inr ⟨_, .inr rfl, rfl⟩)))⟩
        · exact .inl rfl
      | eventTypeInvalid =>
        simp only [lossReason]
        split
        · exact .inr ⟨trivial, .inr (.inr (.inr (.inr ⟨_, .inr rfl, rfl⟩)))⟩
        · exact .inl rfl
      | idInvalid => exact .inl rfl
      | invalidRetry => exact .inl rfl
      | unknownField => exact .inl rfl
  · exact .inl (bridged_of_not_opened hs c)

/-- An error of the parser is told as a lost message, or not at all. -/
theorem bridged_error (w : World) (err : ParseError) :
    bridged w (.onError err) = w ∨
      ∃ e, e.reason.isLoss = true ∧ bridged w (.onError err) = w.push (.onError e) := by
  simp only [bridged]
  by_cases hs : w.client.state = .opened
  · rw [if_neg (not_not_intro hs)]
    cases hloss : lossReason err with
    | none => exact .inl rfl
    | some reason =>
      have hreason : reason.isLoss = true := by
        cases err <;> simp only [lossReason, Option.some.injEq, reduceCtorEq] at hloss <;>
          rw [← hloss] <;> rfl
      simp only
      split
      · exact .inr ⟨_, hreason, rfl⟩
      · exact .inl rfl
  · exact .inl (if_pos hs)

/-- The headers are built in the client's arrays; nothing else changes. -/
theorem buildHeaders_frame (c : SseClient) (extra : List Mem) :
    ∃ h hs oob, buildHeaders c extra = { c with idHeader := h, headers := hs, oob := oob } := by
  -- any sequence of stores to the two arrays
  let Frame (a b : SseClient) : Prop :=
    ∃ h hs oob, b = { a with idHeader := h, headers := hs, oob := oob }
  have hrefl : ∀ a : SseClient, Frame a a := fun a => ⟨a.idHeader, a.headers, a.oob, rfl⟩
  have htrans : ∀ {a b d : SseClient}, Frame a b → Frame b d → Frame a d := by
    rintro a b d ⟨_, _, _, rfl⟩ ⟨h, hs, oob, rfl⟩
    exact ⟨h, hs, oob, rfl⟩
  have hput : ∀ (a : SseClient) (n : Nat) (h : Option Mem), Frame a (putHeader a n h) :=
    fun a _ _ => ⟨a.idHeader, _, _, rfl⟩
  have hid : ∀ (a : SseClient) (n : Nat), Frame a (putIdHeader a n).1 := by
    intro a n
    unfold putIdHeader
    split
    · exact ⟨_, _, _, rfl⟩
    · exact hrefl a
  have hextra : ∀ (l : List Mem) (a : SseClient) (n : Nat), Frame a (putExtraHeaders a n l).1 := by
    intro l
    induction l with
    | nil => exact fun a _ => hrefl a
    | cons h l ih => exact fun a n => htrans (hput a n (some h)) (ih _ _)
  have hfixed := htrans (hput c 0 (some acceptHeader)) (hput _ 1 (some cacheHeader))
  unfold buildHeaders
  refine htrans (htrans hfixed (hid _ 2)) (htrans ?_ (hput _ _ _))
  split
  · exact hextra _ _ _
  · exact hrefl _

theorem attempt_state (w : World) (extra : List Mem) (result : Int) (stop : Bool) :
    (attempt w extra result stop).client.state = .connecting := by
  obtain ⟨h, hs, oob, heq⟩ := buildHeaders_frame { w.client with state := .connecting } extra
  show (buildHeaders _ _).state = _
  rw [heq]

/-- Only the generator changes. -/
theorem retryDelay_frame (c : SseClient) (retryAfterS : Int32) :
    ∃ x, (retryDelay c retryAfterS).2 = { c with prng := x } := by
  unfold retryDelay
  simp only
  split
  · exact ⟨_, rfl⟩
  · exact ⟨c.prng, rfl⟩

/-! ## §4 Steps -/

/-- The last read recorded in a log: the length offered and the result. -/
def lastRead (log : Log) : Option (Nat × Int) :=
  log.foldl
    (fun acc e =>
      match e.obs with
      | .transportRead len _ r => some (len, r)
      | _ => acc)
    none

/-- The last read returned bytes, and no more than the buffer holds. -/
def ReadFits (log : Log) : Prop :=
  ∃ len r, lastRead log = some (len, r) ∧ 0 < r ∧ r ≤ len

def Obs.opens : Obs → Bool
  | .transportOpen _ _ _ => true
  | _ => false

/-- The log before the last call of `open`. -/
def beforeOpen (log : Log) : Log :=
  ((log.reverse.dropWhile fun e => !e.obs.opens).drop 1).reverse

/-- The response to the last call of `open`. -/
def lastResponse (env : Env) (log : Log) : SseResponseInfo :=
  (env.openReply (beforeOpen log)).fill ⟨0, [0], -1⟩

/-- The Retry-After of a failure is that of the last response, and only a rejected status has one. -/
def RetryAfterOf (env : Env) (log : Log) (e : SseError) (retryAfterS : Int32) : Prop :=
  if e.reason = .httpStatus then
    e.httpStatus = (lastResponse env log).statusCode ∧
      retryAfterS = (lastResponse env log).retryAfterS
  else retryAfterS = -1

/-- One step of the abstract client, under the clock, the borrowed headers and the responses of
`env`. -/
inductive Step (env : Env) : Phase × World → Phase × World → Prop where
  | call (w : World) (c : ApiCall) : Step env (.between, w) (.ready, w.push (.call c))
  | stop (ph : Phase) (w : World) : Step env (ph, w) (ph, sseClientRequestStop w)
  | close (ph : Phase) (w : World) (hph : ph.yields = true) : Step env (ph, w) (ph, closing w)
  | tick (w : World) : Step env (.ready, w) (.ready, w.push (.clock (env.time w.log)))
  | connect (w : World) (stop : Bool)
      (hs : w.client.state = .idle ∨ w.client.state = .connecting) :
      Step env (.ready, w)
        (.answered, (attempt w (env.extraHeaders w.log) 0 stop).update fun c =>
          { c with transportOpen := true })
  | connectFail (w : World) (result : Int) (stop : Bool)
      (hs : w.client.state = .idle ∨ w.client.state = .connecting) (hr : result ≠ 0) :
      Step env (.ready, w)
        (.failing, closeTransport (attempt w (env.extraHeaders w.log) result stop))
  | reject (w : World) : Step env (.answered, w) (.failing, closeTransport w)
  | accept (w : World) : Step env (.answered, w) (.ready, openConnection w (env.time w.log))
  | read (w : World) (result : Int) (bytes : Mem) (stop : Bool) (hs : w.client.state = .opened) :
      Step env (.ready, w) (.ready, readOnce w result bytes stop)
  | drop (w : World) (hs : w.client.state = .opened) :
      Step env (.ready, w) (.failing, closeTransport w)
  | receive (w : World) (hs : w.client.state = .opened) :
      Step env (.ready, w) (.ready, receive w (env.time w.log))
  | byte (w : World) (b : UInt8) (hs : w.client.state = .opened ∨ w.client.state = .closed)
      (hread : ReadFits w.log) :
      Step env (.ready, w) (.parsing (processByte w.client.parser b).2 false, parseByte w b)
  | deliver (w : World) (c : Callback) (rest : List Callback) (called : Bool) :
      Step env (.parsing (c :: rest) called, w)
        (.parsing rest (callsUser w.client c), delivered w c)
  | parsed (w : World) (called : Bool) : Step env (.parsing [] called, w) (.ready, w)
  | consult (w : World) (e : SseError) (hs : w.client.state ≠ .closed) :
      Step env (.failing, w) (.failing, w.push (.reconnectPolicy e))
  | refuse (w : World) (e : SseError) (hs : w.client.state ≠ .closed)
      (hr : e.reason.isLoss = false) :
      Step env (.failing, w) (.refused, refusal w e)
  | retry (w : World) (e : SseError) (retryAfterS : Int32) (hs : w.client.state ≠ .closed)
      (hr : e.reason.isLoss = false) (ha : RetryAfterOf env w.log e retryAfterS) :
      Step env (.failing, w) (.scheduled, schedule w e retryAfterS (env.time w.log))
  | abandon (ph : Phase) (w : World) (hph : ph = .failing ∨ ph = .refused)
      (hs : w.client.state = .closed) : Step env (ph, w) (.ready, w)
  | due (w : World) (hs : w.client.state = .waitingRetry) :
      Step env (.ready, w)
        (.ready, (w.push (.clock (env.time w.log))).update fun c => { c with state := .connecting })
  | finish (ph : Phase) (w : World) (hph : ph = .ready ∨ ph = .scheduled) :
      Step env (ph, w) (.between, w)

/-- Any number of steps. -/
abbrev Steps (env : Env) : Phase × World → Phase × World → Prop :=
  Relation.ReflTransGen (Step env)

theorem Step.steps {env : Env} {s t : Phase × World} (h : Step env s t) :
    Steps env s t := .single h

/-! ## §5 The Connection in Each Phase -/

/-- What a phase says about the connection and the state. -/
def PhaseOk (c : SseClient) : Phase → Prop
  | .between | .ready | .scheduled | .parsing _ _ => c.transportOpen = true ↔ c.state = .opened
  | .answered => c.transportOpen = true ∧ c.state = .connecting
  | .failing | .refused => c.transportOpen = false

theorem PhaseOk.of_eq {a b : SseClient} {ph : Phase} (h : PhaseOk a ph)
    (ht : b.transportOpen = a.transportOpen) (hs : b.state = a.state) : PhaseOk b ph := by
  cases ph <;> simp only [PhaseOk, ht, hs] at h ⊢ <;> exact h

/-- A closed connection and a state that is not OPEN suit every phase but `answered`. -/
theorem PhaseOk.of_down {c : SseClient} {ph : Phase} (ht : c.transportOpen = false)
    (hs : c.state ≠ .opened) (hph : ph ≠ .answered) : PhaseOk c ph := by
  cases ph with
  | between => exact iff_of_false (by simp [ht]) hs
  | ready => exact iff_of_false (by simp [ht]) hs
  | scheduled => exact iff_of_false (by simp [ht]) hs
  | parsing rest called => exact iff_of_false (by simp [ht]) hs
  | answered => exact absurd rfl hph
  | failing => exact ht
  | refused => exact ht

/-- A client that is not OPEN has no connection, inside a call. -/
theorem PhaseOk.down {c : SseClient} (h : PhaseOk c .ready) (hs : c.state ≠ .opened) :
    c.transportOpen = false := by
  have hne : ¬ c.transportOpen = true := fun ht => hs (h.mp ht)
  simpa using hne

theorem Phase.yields_ne_answered {ph : Phase} (h : ph.yields = true) : ph ≠ .answered := by
  rintro rfl
  simp [Phase.yields] at h

/-- Neither the connection nor the state depends on what the parser reports. -/
theorem delivered_frame (w : World) (c : Callback) :
    (delivered w c).client.transportOpen = w.client.transportOpen ∧
      (delivered w c).client.state = w.client.state := by
  unfold delivered
  rcases bridged_cases (w.push (.parser c)) c with h | ⟨-, ⟨_, _, h⟩ | ⟨_, h⟩ | h | ⟨_, h⟩ |
    ⟨_, -, h⟩⟩ <;> rw [h] <;> exact ⟨rfl, rfl⟩

/-- A scheduled retry waits, with the connection as it was. -/
theorem schedule_frame (w : World) (e : SseError) (retryAfterS : Int32) (t : Nat) :
    (schedule w e retryAfterS t).client.transportOpen = w.client.transportOpen ∧
      (schedule w e retryAfterS t).client.state = .waitingRetry := by
  obtain ⟨x, h⟩ := retryDelay_frame w.client retryAfterS
  unfold schedule
  simp only
  split
  all_goals
    simp only [push_client, update_client, h, and_self]

theorem openConnection_frame (w : World) (t : Nat) :
    (openConnection w t).client.transportOpen = w.client.transportOpen ∧
      (openConnection w t).client.state = .opened := by
  unfold openConnection
  simp only
  split <;> exact ⟨rfl, rfl⟩

/-- **The phases are respected by every step.** -/
theorem phaseOk_step {env : Env} {s t : Phase × World} (h : Step env s t)
    (hok : PhaseOk s.2.client s.1) :
    PhaseOk t.2.client t.1 := by
  cases h with
  | call w c => exact hok
  | stop ph w => exact hok.of_eq rfl rfl
  | close ph w hph =>
    have hstate := closing_state w
    exact .of_down (transportOpen_closing w) (by simp [hstate]) (Phase.yields_ne_answered hph)
  | tick w => exact hok
  | connect w stop hs => exact ⟨rfl, attempt_state w _ 0 stop⟩
  | connectFail w result stop hs hr => exact transportOpen_closeTransport _
  | reject w => exact transportOpen_closeTransport w
  | accept w =>
    obtain ⟨ht, hs⟩ := openConnection_frame w (env.time w.log)
    exact iff_of_true (ht.trans hok.1) hs
  | read w result bytes stop hs => exact hok.of_eq rfl rfl
  | drop w hs => exact transportOpen_closeTransport w
  | receive w hs => exact hok.of_eq rfl rfl
  | byte w b hs hread => exact hok
  | deliver w c rest called =>
    -- a report does not touch the connection
    obtain ⟨ht, hs⟩ := delivered_frame w c
    show (delivered w c).client.transportOpen = true ↔ (delivered w c).client.state = .opened
    rw [ht, hs]
    exact hok
  | parsed w called => exact hok
  | consult w e hs => exact hok
  | refuse w e hs hr =>
    show (refusal w e).client.transportOpen = false
    unfold refusal
    split <;> exact hok
  | retry w e retryAfterS hs hr ha =>
    obtain ⟨ht, hs⟩ := schedule_frame w e retryAfterS (env.time w.log)
    exact .of_down (ht.trans hok) (by simp [hs]) (by simp)
  | abandon ph w hph hs =>
    -- a client that was closed during a failure has no connection
    have hdown : w.client.transportOpen = false := by
      rcases hph with rfl | rfl
      · exact hok
      · exact hok
    exact .of_down hdown (by simp [hs]) (by simp)
  | due w hs =>
    have hne : w.client.state ≠ .opened := by simp [hs]
    have hdown : w.client.transportOpen = false := PhaseOk.down hok hne
    exact PhaseOk.of_down (c := { w.client with state := .connecting }) hdown (by simp) (by simp)
  | finish ph w hph =>
    rcases hph with rfl | rfl
    · exact hok
    · exact hok

end EventSource.Client
