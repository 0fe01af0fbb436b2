import Mathlib.Computability.Language
import EventSource.Client.Lifecycle

/-!
# The Transport Is Called in Sessions

The calls of `open`, `read` and `close` form sessions: an `open` that fails, or one that succeeds,
any number of reads and one `close`. Only the last session may be unfinished, and `transport_open`
tells whether it is.
-/

namespace EventSource.Client

open EventSource.CMemory
open EventSource.Parser
open EventSource.Trace
open scoped Computability

variable {cb : SseClientCallbacks} {w : World} {n : Nat}

/-! ## §1 Sessions -/

/-- A call of the transport. -/
inductive TransportCall where
  | openFailed
  | openOk
  | read
  | close
  deriving DecidableEq, Repr

def Obs.transportCall : Obs → Option TransportCall
  | .transportOpen _ _ result => some (if result = 0 then .openOk else .openFailed)
  | .transportRead _ _ _ => some .read
  | .transportClose => some .close
  | _ => none

/-- The calls of the transport in a log, oldest first. -/
def transportCalls (log : Log) : List TransportCall :=
  log.filterMap fun e => e.obs.transportCall

/-- One session. -/
def session : Language TransportCall :=
  {[.openFailed]} + {[.openOk]} * {[.read]}∗ * {[.close]}

/-- Finished sessions, followed by an unfinished one if the connection is open. -/
def Sessions (isOpen : Bool) (calls : List TransportCall) : Prop :=
  match isOpen with
  | false => calls ∈ session∗
  | true => ∃ done reads, done ∈ session∗ ∧ calls = done ++ .openOk :: List.replicate reads .read

theorem mem_sessions_append {done last : List TransportCall} (hdone : done ∈ session∗)
    (hlast : last ∈ session) : done ++ last ∈ session∗ := by
  have hmul : done ++ last ∈ session∗ * session := ⟨done, hdone, last, hlast, rfl⟩
  exact (kstar_mul_le_kstar : session∗ * session ≤ session∗) hmul

theorem openFailed_mem_session : [TransportCall.openFailed] ∈ session :=
  .inl rfl

theorem reads_mem_session (reads : Nat) :
    .openOk :: List.replicate reads .read ++ [.close] ∈ session := by
  refine .inr ⟨_, ⟨[.openOk], rfl, List.replicate reads .read, ?_, rfl⟩, [.close], rfl, rfl⟩
  refine Language.mem_kstar.mpr ⟨List.replicate reads [.read], ?_, ?_⟩
  · rw [List.flatten_replicate_singleton]
  · intro y hy
    exact List.eq_of_mem_replicate hy

/-- Whatever has been called is the beginning of finished sessions. -/
theorem Sessions.completable {isOpen : Bool} {calls : List TransportCall}
    (h : Sessions isOpen calls) : ∃ rest, calls ++ rest ∈ session∗ := by
  cases isOpen with
  | false => exact ⟨[], by rw [List.append_nil]; exact h⟩
  | true =>
    obtain ⟨done, reads, hdone, rfl⟩ := h
    refine ⟨[.close], ?_⟩
    rw [List.append_assoc]
    exact mem_sessions_append hdone (reads_mem_session reads)

theorem Sessions.openFailed {calls : List TransportCall} (h : Sessions false calls) :
    Sessions false (calls ++ [.openFailed]) :=
  mem_sessions_append h openFailed_mem_session

theorem Sessions.openOk {calls : List TransportCall} (h : Sessions false calls) :
    Sessions true (calls ++ [.openOk]) :=
  ⟨calls, 0, h, rfl⟩

theorem Sessions.read {calls : List TransportCall} (h : Sessions true calls) :
    Sessions true (calls ++ [.read]) := by
  obtain ⟨done, reads, hdone, rfl⟩ := h
  refine ⟨done, reads + 1, hdone, ?_⟩
  rw [List.replicate_succ', List.append_assoc, List.cons_append]

theorem Sessions.close {calls : List TransportCall} (h : Sessions true calls) :
    Sessions false (calls ++ [.close]) := by
  obtain ⟨done, reads, hdone, rfl⟩ := h
  show done ++ _ ++ _ ∈ session∗
  rw [List.append_assoc]
  exact mem_sessions_append hdone (reads_mem_session reads)

theorem transportCalls_snoc (log : Log) (e : Entry) :
    transportCalls (log ++ [e]) = transportCalls log ++ e.obs.transportCall.toList := by
  unfold transportCalls
  rw [List.filterMap_append]
  cases h : e.obs.transportCall <;> simp [h]

theorem transportCalls_snoc_none (log : Log) {e : Entry} (h : e.obs.transportCall = none) :
    transportCalls (log ++ [e]) = transportCalls log := by
  rw [transportCalls_snoc, h, Option.toList_none, List.append_nil]

/-! ## §2 The Invariant -/

/-- What holds of an entry of the log, given the entries before it; `n` is the length of the receive
buffer. -/
structure CallEntry (n : Nat) (pre : Log) (e : Entry) : Prop where
  opening : ∀ url hs r, e.obs = .transportOpen url hs r → e.client.state = .connecting
  closed : e.obs = .onClosed → e.client.transportOpen = false ∧ transportCalls pre ∈ session∗
  offered : ∀ len ms r, e.obs = .transportRead len ms r → len = n
  fed : ∀ b, e.obs = .byte b → ReadFits pre

/-- The invariant of every step. -/
structure Calls (n : Nat) (w : World) : Prop where
  sessions : Sessions w.client.transportOpen (transportCalls w.log)
  buffer : w.client.rxBuf.length = n
  entries : Always (CallEntry n) w.log

/-- An observation that says nothing about the transport. -/
def Obs.aside : Obs → Bool
  | .transportOpen _ _ _ | .transportRead _ _ _ | .transportClose | .onClosed | .byte _ => false
  | _ => true

theorem CallEntry.of_aside {pre : Log} {e : Entry} (h : e.obs.aside = true) : CallEntry n pre e := by
  obtain ⟨o, c⟩ := e
  constructor
  all_goals
    intros
    subst_vars
    simp only [Obs.aside] at *
    contradiction

theorem Calls.push (h : Calls n w) {o : Obs} (ho : o.aside = true) : Calls n (w.push o) := by
  have hnone : o.transportCall = none := by
    cases o <;> first | rfl | simp [Obs.aside] at ho
  refine ⟨?_, h.buffer, always_snoc.mpr ⟨h.entries, .of_aside ho⟩⟩
  rw [push_log, transportCalls_snoc_none _ hnone]
  exact h.sessions

theorem Calls.update (h : Calls n w) {f : SseClient → SseClient}
    (ht : (f w.client).transportOpen = w.client.transportOpen)
    (hb : (f w.client).rxBuf = w.client.rxBuf) : Calls n (w.update f) := by
  refine ⟨?_, ?_, h.entries⟩
  · rw [update_client, ht]
    exact h.sessions
  · rw [update_client, hb]
    exact h.buffer

theorem Calls.closeTransport (h : Calls n w) : Calls n (closeTransport w) := by
  rcases closeTransport_cases w with ⟨-, heq⟩ | ⟨ht, heq⟩
  · rw [heq]
    exact h
  · have hopen := h.sessions
    rw [ht] at hopen
    rw [heq]
    refine ⟨?_, h.buffer, always_snoc.mpr ⟨h.entries, ?_⟩⟩
    · rw [update_log, push_log, transportCalls_snoc]
      exact hopen.close
    · constructor <;> simp

/-- `on_closed` finds the connection down. -/
theorem Calls.closing (h : Calls n w) : Calls n (closing w) := by
  have hc := h.closeTransport
  have hdown := transportOpen_closeTransport w
  have hdone := hc.sessions
  rw [hdown] at hdone
  rcases closing_cases w with ⟨-, heq⟩ | ⟨-, ⟨-, heq⟩ | ⟨-, heq⟩⟩
  · rw [heq]
    exact hc
  · rw [heq]
    refine ⟨?_, hc.buffer, always_snoc.mpr ⟨hc.entries, ?_⟩⟩
    · rw [push_log, transportCalls_snoc_none _ rfl]
      exact hc.sessions
    · constructor
      · simp
      · exact fun _ => ⟨hdown, hdone⟩
      · simp
      · simp
  · rw [heq]
    exact hc.update rfl rfl

theorem Calls.delivered (h : Calls n w) (c : Callback) : Calls n (delivered w c) := by
  have hp : Calls n (w.push (.parser c)) := h.push rfl
  unfold Client.delivered
  rcases bridged_cases (w.push (.parser c)) c with heq | ⟨-, ⟨_, _, heq⟩ | ⟨_, heq⟩ | heq |
    ⟨_, heq⟩ | ⟨_, -, heq⟩⟩ <;> rw [heq]
  · exact hp
  · exact hp.update rfl rfl
  · exact hp.update rfl rfl
  · exact hp.update rfl rfl
  · have hzero := Calls.update (f := fun c => { c with attempts := 0 }) hp rfl rfl
    exact hzero.push rfl
  · exact hp.push rfl

/-- An attempt calls `open` once, on a connection that is down. -/
theorem Calls.attempt (h : Calls n w) (hdown : w.client.transportOpen = false) (extra : List Mem)
    (result : Int) (stop : Bool) :
    Sessions (decide (result = 0)) (transportCalls (attempt w extra result stop).log) ∧
      (attempt w extra result stop).client.transportOpen = false ∧
      (attempt w extra result stop).client.rxBuf.length = n ∧
      Always (CallEntry n) (attempt w extra result stop).log := by
  have hstate := attempt_state w extra result stop
  obtain ⟨_, _, _, heq⟩ := buildHeaders_frame { w.client with state := .connecting } extra
  have hdone := h.sessions
  rw [hdown] at hdone
  refine ⟨?_, ?_, ?_, ?_⟩
  · show Sessions _ (transportCalls (w.log ++ [_]))
    rw [transportCalls_snoc]
    -- a failed `open` is a session of its own
    by_cases hr : result = 0
    · simp only [Obs.transportCall, hr, if_true, decide_true]
      exact hdone.openOk
    · simp only [Obs.transportCall, hr, if_false, decide_false]
      exact hdone.openFailed
  · show (buildHeaders _ _).transportOpen = false
    rw [heq]
    exact hdown
  · show (buildHeaders _ _).rxBuf.length = n
    rw [heq]
    exact h.buffer
  · refine (always_snoc (P := CallEntry n)).mpr ⟨h.entries, ?_⟩
    constructor
    · exact fun _ _ _ _ => hstate
    all_goals simp

theorem Calls.openConnection (h : Calls n w) (t : Nat) : Calls n (openConnection w t) := by
  have hreset := Calls.update (f := fun c => { c with parser := sseParserReset c.parser }) h rfl rfl
  have hclock : Calls n (_ : World) := hreset.push (o := .clock t) rfl
  have hopen := Calls.update (f := fun c => { c with lastRxMs := .ofNat t, state := .opened })
    hclock rfl rfl
  unfold Client.openConnection
  simp only
  split
  · exact hopen.push rfl
  · exact hopen

theorem Calls.schedule (h : Calls n w) (e : SseError) (retryAfterS : Int32) (t : Nat) :
    Calls n (schedule w e retryAfterS t) := by
  obtain ⟨x, heq⟩ := retryDelay_frame w.client retryAfterS
  have hcount := Calls.update (f := fun _ => { (retryDelay w.client retryAfterS).2 with
    attempts := (retryDelay w.client retryAfterS).2.attempts + 1 }) h (by rw [heq]) (by rw [heq])
  have hclock := hcount.push (o := .clock t) rfl
  have hwait := Calls.update (f := fun c => { c with
    retryDeadline := .ofNat t + (retryDelay w.client retryAfterS).1
    state := .waitingRetry }) hclock rfl rfl
  unfold Client.schedule
  simp only
  split
  · exact hwait.push rfl
  · exact hwait

/-- **Every step keeps to the sessions.** -/
theorem calls_step {env : Env} {s t : Phase × World} (h : Step env s t)
    (hok : PhaseOk s.2.client s.1) (hc : Calls n s.2) : Calls n t.2 := by
  cases h with
  | call w c => exact hc.push rfl
  | stop ph w => exact Calls.update (f := fun c => { c with stopRequested := true }) hc rfl rfl
  | close ph w hph => exact hc.closing
  | tick w => exact hc.push rfl
  | connect w stop hs =>
    have hdown : w.client.transportOpen = false :=
      PhaseOk.down hok (by rcases hs with hs | hs <;> simp [hs])
    obtain ⟨hsessions, -, hbuffer, hentries⟩ := hc.attempt hdown _ 0 stop
    exact ⟨hsessions, hbuffer, hentries⟩
  | connectFail w result stop hs hr =>
    have hdown : w.client.transportOpen = false :=
      PhaseOk.down hok (by rcases hs with hs | hs <;> simp [hs])
    obtain ⟨hsessions, hstill, hbuffer, hentries⟩ := hc.attempt hdown _ result stop
    -- the failed attempt leaves no connection to close
    rw [decide_eq_false hr] at hsessions
    have hafter : Calls n (attempt w (env.extraHeaders w.log) result stop) :=
      ⟨by rw [hstill]; exact hsessions, hbuffer, hentries⟩
    exact hafter.closeTransport
  | reject w => exact hc.closeTransport
  | accept w => exact hc.openConnection _
  | read w result bytes stop hs =>
    -- only an OPEN client reads, and it has a session
    have hopen := hc.sessions
    rw [hok.mpr hs] at hopen
    refine ⟨?_, (length_fillBuffer _ _).trans hc.buffer, ?_⟩
    · show Sessions w.client.transportOpen (transportCalls (w.log ++ [_]))
      rw [hok.mpr hs, transportCalls_snoc]
      exact hopen.read
    · refine (always_snoc (P := CallEntry n)).mpr ⟨hc.entries, ?_⟩
      constructor
      · simp
      · simp
      · rintro len ms r ⟨⟩
        exact hc.buffer
      · simp
  | drop w hs => exact hc.closeTransport
  | receive w hs =>
    have hclock := hc.push (o := .clock (env.time w.log)) rfl
    exact Calls.update (f := fun c => { c with lastRxMs := .ofNat (env.time w.log) }) hclock rfl rfl
  | byte w b hs hread =>
    refine ⟨?_, hc.buffer, ?_⟩
    · show Sessions w.client.transportOpen (transportCalls (w.log ++ [_]))
      rw [transportCalls_snoc_none _ rfl]
      exact hc.sessions
    · refine (always_snoc (P := CallEntry n)).mpr ⟨hc.entries, ?_⟩
      constructor
      · simp
      · simp
      · simp
      · exact fun _ _ => hread
  | deliver w c rest called => exact hc.delivered c
  | parsed w called => exact hc
  | consult w e hs => exact hc.push rfl
  | refuse w e hs hr =>
    show Calls n (refusal w e)
    unfold refusal
    split
    · exact hc.push rfl
    · exact hc
  | retry w e retryAfterS hs hr ha => exact hc.schedule e retryAfterS _
  | abandon ph w hph hs => exact hc
  | due w hs =>
    have hclock := hc.push (o := .clock (env.time w.log)) rfl
    exact Calls.update (f := fun c => { c with state := .connecting }) hclock rfl rfl
  | finish ph w hph => exact hc

/-! ## §3 The Discipline -/

theorem reachable_calls {env : Env} {cfg : SseClientConfig} (h : Reachable env cfg w) :
    Calls (cfg.rxBuf.getD []).length w := by
  refine (reachable_invariant (I := fun p => Calls _ p.2) ?_
    (fun _ _ hst hok => calls_step hst hok) h).2
  intro w₀ hw₀
  unfold sseClientInit at hw₀
  split at hw₀
  · obtain rfl := Option.some.inj hw₀
    exact ⟨Language.nil_mem_kstar session, rfl, always_nil _⟩
  · exact absurd hw₀ (by simp)

theorem lastRead_mem {log : Log} {len : Nat} {r : Int} (h : lastRead log = some (len, r)) :
    ∃ e ∈ log, ∃ ms, e.obs = .transportRead len ms r := by
  induction log using List.reverseRecOn with
  | nil => exact absurd h (by simp [lastRead])
  | append_singleton log e ih =>
    unfold lastRead at h
    rw [List.foldl_append, List.foldl_cons, List.foldl_nil] at h
    split at h
    · next len' ms r' hobs =>
      simp only [Option.some.injEq, Prod.mk.injEq] at h
      obtain ⟨rfl, rfl⟩ := h
      exact ⟨e, by simp, ms, hobs⟩
    · obtain ⟨x, hx, hobs⟩ := ih h
      exact ⟨x, List.mem_append_left _ hx, hobs⟩

/-- **Transport call discipline.** The calls of the transport are the beginning of a sequence of
sessions. `open` is never called after the client has been CLOSED, `on_closed` finds every session
finished, and whenever a byte is fed to the parser, the last `read` has returned no more bytes than
the receive buffer holds. Between calls of the interface, `transport_open` is set exactly in state
OPEN. -/
theorem transport_discipline {env : Env} {cfg : SseClientConfig} (h : Reachable env cfg w) :
    (∃ rest, transportCalls w.log ++ rest ∈ session∗) ∧
      (w.client.transportOpen = true ↔ w.client.state = .opened) ∧
      ∀ pre e post, w.log = pre ++ e :: post →
        (e.client.state = .closed → ∀ x ∈ post, ∀ url headers result,
          x.obs ≠ .transportOpen url headers result) ∧
        (e.obs = .onClosed → e.client.transportOpen = false ∧ transportCalls pre ∈ session∗) ∧
        ∀ b, e.obs = .byte b → ∃ result, lastRead pre = some ((cfg.rxBuf.getD []).length, result) ∧
          0 < result ∧ result ≤ (cfg.rxBuf.getD []).length := by
  have hcalls := reachable_calls h
  have hfinal := reachable_life h
  have hphase := (reachable_invariant (I := fun _ => True) (fun _ _ => trivial)
    (fun _ _ _ _ _ => trivial) h).1
  refine ⟨hcalls.sessions.completable, hphase, fun pre e post hlog => ⟨?_, ?_, ?_⟩⟩
  · intro hclosed x hx url headers result hobs
    obtain ⟨mid, post', rfl⟩ := List.append_of_mem hx
    have hlog' : w.log = (pre ++ e :: mid) ++ x :: post' := by rw [hlog]; simp
    -- an `open` is called while CONNECTING, which comes after CLOSED at no time
    have hstate := (hcalls.entries _ _ _ hlog').opening url headers result hobs
    have hfrozen := (hfinal.entries _ _ _ hlog').later e (by simp) hclosed
    rw [hfrozen.state] at hstate
    exact absurd hstate (by simp)
  · exact (hcalls.entries pre e post hlog).closed
  · intro b hobs
    obtain ⟨len, result, hlast, hpos, hle⟩ := (hcalls.entries pre e post hlog).fed b hobs
    -- the read was offered the whole buffer
    obtain ⟨x, hx, ms, hread⟩ := lastRead_mem hlast
    obtain ⟨pre', post', rfl⟩ := List.append_of_mem hx
    have hlog' : w.log = pre' ++ x :: (post' ++ e :: post) := by rw [hlog]; simp
    obtain rfl := (hcalls.entries _ _ _ hlog').offered _ _ _ hread
    exact ⟨result, hlast, hpos, hle⟩

/-- A client that connects, reads, is closed and polled once more. -/
theorem transport_discipline_of_close :
    let w := runCalls quietEnv smallClient [.poll, .poll, .close, .poll]
    transportCalls w.log = [.openOk, .read, .close] ∧
      (∃ rest, transportCalls w.log ++ rest ∈ session∗) ∧
      (w.client.transportOpen = true ↔ w.client.state = .opened) ∧
      ∀ pre e post, w.log = pre ++ e :: post →
        (e.client.state = .closed → ∀ x ∈ post, ∀ url headers result,
          x.obs ≠ .transportOpen url headers result) ∧
        (e.obs = .onClosed → e.client.transportOpen = false ∧ transportCalls pre ∈ session∗) ∧
        ∀ b, e.obs = .byte b →
          ∃ result, lastRead pre = some ((smallConfig.rxBuf.getD []).length, result) ∧
            0 < result ∧ result ≤ (smallConfig.rxBuf.getD []).length :=
  ⟨by decide +kernel, transport_discipline (smallClient_reachable [.poll, .poll, .close, .poll])⟩

end EventSource.Client
