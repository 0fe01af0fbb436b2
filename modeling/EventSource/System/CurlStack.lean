import EventSource.Port.CurlRing
import EventSource.System.Relay

/-!
# The Client over the curl Transport

The two halves together. libcurl is called only with handles that exist, although the transport
checks none of them when it reads: the client reads only from a connection that it has opened. And
between libcurl's write callback and the application no byte of a response is lost.
-/

namespace EventSource.System

open EventSource.CMemory
open EventSource.Client
open EventSource.Contract
open EventSource.Parser
open EventSource.Port
open EventSource.RingBuffer
open EventSource.Trace

variable {C : CurlEnv} {base : Env} {cfg : SseClientConfig} {w : World} {v u : CurlWorld}

/-! ## §1 The Transport -/

/-- The vtable of `sse_transport_curl_new`. -/
def curlTransport (C : CurlEnv) : Transport CurlWorld where
  new := curlNew
  openFn := curlOpenFn C
  readFn := curlReadFn C
  closeFn := curlCloseFn

theorem curlTransport_sound (C : CurlEnv) : (curlTransport C).Sound :=
  curlReadFn_counts C

/-- Calls lead the transport to a state that it can reach by itself. -/
theorem after_curlReachable (C : CurlEnv) (calls : List (Port.TransportCall × Int)) :
    CurlReachable C ((curlTransport C).component.after calls) := by
  refine ⟨calls.map Prod.fst, ?_⟩
  rw [List.foldl_map]
  unfold Component.after
  have hnext : ∀ s (x : Port.TransportCall × Int),
      (curlTransport C).next s x.1 = runTransport C s x.1 := by
    intro s x
    cases x.1 <;> rfl
  exact List.foldl_ext _ _ _ fun s x _ => hnext s x

/-! ## §2 Handles -/

/-- A call into libcurl that takes a handle. -/
def usesHandle : CurlObs → Bool
  | .request _ _ | .resume | .wait _ | .perform => true
  | _ => false

/-- Both handles exist. -/
def CurlLive (t : CurlCtx) : Prop :=
  t.easy = true ∧ t.multi = true

/-- Every call into libcurl so far has had its handles. -/
def HandlesHeld (log : CurlLog) : Prop :=
  Always (fun _ e => usesHandle e.obs = true → CurlLive e.ctx) log

/-- A transport that is up: its handles exist, and did whenever they were used. -/
structure CurlUp (v : CurlWorld) : Prop where
  live : CurlLive v.ctx
  held : HandlesHeld v.log

theorem HandlesHeld.push {log : CurlLog} (h : HandlesHeld log) {e : CurlEntry}
    (he : usesHandle e.obs = true → CurlLive e.ctx) : HandlesHeld (log ++ [e]) :=
  always_snoc.mpr ⟨h, he⟩

theorem onHeader_handles (t : CurlCtx) (ptr : Mem) (n : Nat) :
    (onHeader t ptr n).easy = t.easy ∧ (onHeader t ptr n).multi = t.multi := by
  unfold onHeader
  split
  · exact ⟨rfl, rfl⟩
  · split
    · split <;> exact ⟨rfl, rfl⟩
    · split <;> exact ⟨rfl, rfl⟩

theorem onBody_handles (t : CurlCtx) (chunk : Bytes) :
    (onBody t chunk).1.easy = t.easy ∧ (onBody t chunk).1.multi = t.multi := by
  rcases onBody_cases t chunk with ⟨-, heq⟩ | ⟨-, -, heq⟩ | ⟨-, -, heq⟩ <;> rw [heq] <;>
    exact ⟨rfl, rfl⟩

/-- Running libcurl neither makes nor frees a handle. -/
theorem pumpStep_up (h : PumpStep u v) (hu : CurlUp u) : CurlUp v := by
  cases h with
  | callBack c =>
    cases c with
    | header ptr n =>
      obtain ⟨heasy, hmulti⟩ := onHeader_handles u.ctx ptr n
      refine ⟨⟨heasy.trans hu.live.1, hmulti.trans hu.live.2⟩, hu.held.push ?_⟩
      exact fun h => absurd h Bool.false_ne_true
    | body chunk =>
      obtain ⟨heasy, hmulti⟩ := onBody_handles u.ctx chunk
      refine ⟨⟨heasy.trans hu.live.1, hmulti.trans hu.live.2⟩, hu.held.push ?_⟩
      exact fun h => absurd h Bool.false_ne_true
  | _ => exact ⟨hu.live, hu.held.push fun _ => hu.live⟩

theorem pumpSteps_up (h : PumpSteps u v) (hu : CurlUp u) : CurlUp v :=
  invariant_of_steps (I := CurlUp) (fun _ _ hst => pumpStep_up hst) h hu

/-- What running libcurl and a new request keep, the hop loop keeps. -/
theorem hopLoop_keeps {P : CurlWorld → Prop} (hpump : ∀ u v, PumpSteps u v → P u → P v)
    (hagain : ∀ u redir, P u → P (reissue u redir)) (C : CurlEnv) (left : Nat) (h : P v) :
    P (hopLoop C left v).2 := by
  induction left generalizing v with
  | zero =>
    -- a redirect is drained and then reported
    have hawait := hpump _ _ (awaitResponse_steps C v) h
    unfold hopLoop
    simp only
    split
    · exact hawait
    · split
      · exact hawait
      · split <;> exact hpump _ _ (drain_steps C _) hawait
  | succ left ih =>
    have hawait := hpump _ _ (awaitResponse_steps C v) h
    have hdrain := hpump _ _ (drain_steps C (awaitResponse C v).2) hawait
    unfold hopLoop
    simp only
    split
    · exact hawait
    · split
      · exact hawait
      · split
        · exact hdrain
        · split
          · exact hdrain
          · exact ih (hagain _ _ hdrain)

/-! ## §3 Every Call of the Transport -/

theorem appendHeaders_frame (C : CurlEnv) (v : CurlWorld) (headers : List Mem) :
    (appendHeaders C v headers).2.log = v.log ∧
      (appendHeaders C v headers).2.ctx.easy = v.ctx.easy ∧
      (appendHeaders C v headers).2.ctx.multi = v.ctx.multi := by
  induction headers generalizing v with
  | nil => exact ⟨rfl, rfl, rfl⟩
  | cons h hs ih =>
    unfold appendHeaders
    split
    · exact ih (v.update fun t => { t with hdrs := t.hdrs ++ [h] })
    · exact ⟨rfl, rfl, rfl⟩

/-- A connection is set up with both handles or not at all. -/
theorem setUp_up (C : CurlEnv) (v : CurlWorld) (headers : List Mem) (h : HandlesHeld v.log) :
    HandlesHeld (setUp C v headers).2.log ∧
      ((setUp C v headers).1 = true → CurlUp (setUp C v headers).2) := by
  have htorn : HandlesHeld (teardown v).log :=
    h.push fun huse => absurd huse Bool.false_ne_true
  unfold setUp
  simp only
  split
  · exact ⟨htorn, fun hok => absurd hok Bool.false_ne_true⟩
  · next hhandles =>
    -- the header list has nothing to do with the handles
    obtain ⟨hlog, heasy, hmulti⟩ := appendHeaders_frame C ((teardown v).update fun t =>
      { t with
        easy := C.easyInit (teardown v).log
        multi := C.multiInit (teardown v).log }) headers
    have hheld := htorn
    rw [← curlUpdate_log (teardown v), ← hlog] at hheld
    refine ⟨hheld, fun _ => ⟨⟨?_, ?_⟩, hheld⟩⟩
    · rw [heasy]
      simp only [Bool.or_eq_true, not_or] at hhandles
      simpa using hhandles.1
    · rw [hmulti]
      simp only [Bool.or_eq_true, not_or] at hhandles
      simpa using hhandles.2

/-- An `open` that succeeds leaves the transport up, with nothing returned yet; one that fails leaves
nothing to be used. -/
theorem curlOpenFn_up (C : CurlEnv) (v : CurlWorld) (req : SseRequest) (out : SseResponseInfo)
    (h : HandlesHeld v.log) :
    HandlesHeld (curlOpenFn C v req out).2.2.log ∧
      ((curlOpenFn C v req out).1 = 0 → CurlUp (curlOpenFn C v req out).2.2 ∧
        (ledger (curlOpenFn C v req out).2.2.log).returned = []) := by
  have htear : ∀ u : CurlWorld, HandlesHeld u.log → HandlesHeld (teardown u).log :=
    fun u hu => hu.push fun huse => absurd huse Bool.false_ne_true
  obtain ⟨hheld, hup⟩ := setUp_up C v req.headers h
  unfold curlOpenFn
  simp only
  split
  · exact ⟨htear _ hheld, fun hr => absurd (show (-1 : Int) = 0 from hr) (by decide)⟩
  · next hset =>
    have hup' := hup (by simpa using hset)
    -- each request starts a ledger of its own
    have hrequest : ∀ u url, CurlUp u → CurlUp (addHandle u url) ∧
        (ledger (addHandle u url).log).returned = [] := by
      intro u url hu
      refine ⟨⟨hu.live, hu.held.push fun _ => hu.live⟩, ?_⟩
      show (ledger (u.log ++ [_])).returned = []
      rw [ledger_snoc]
      rfl
    have hloop : CurlUp (hopLoop C maxRedirectHops (addHandle (setUp C v req.headers).2 req.url)).2 ∧
        (ledger (hopLoop C maxRedirectHops
          (addHandle (setUp C v req.headers).2 req.url)).2.log).returned = [] := by
      refine hopLoop_keeps (P := fun u => CurlUp u ∧ (ledger u.log).returned = []) ?_ ?_ C _
        (hrequest _ req.url hup')
      · rintro u x hux ⟨hu, hret⟩
        exact ⟨pumpSteps_up hux hu, (PumpSteps.returned hux).trans hret⟩
      · rintro u redir ⟨hu, -⟩
        exact hrequest (u.update _) redir ⟨hu.live, hu.held⟩
    split
    · exact ⟨htear _ hloop.1.held, fun hr => absurd (show (-1 : Int) = 0 from hr) (by decide)⟩
    · exact ⟨hloop.1.held, fun _ => hloop⟩

theorem takeBytes_up (C : CurlEnv) (v : CurlWorld) (len : Nat) (h : CurlUp v) :
    CurlUp (takeBytes C v len).2.2 := by
  unfold takeBytes
  simp only
  apply pumpSteps_up (resumeIfRoom_steps C _)
  exact ⟨h.live, h.held.push fun huse => absurd huse Bool.false_ne_true⟩

theorem curlReadFn_up (C : CurlEnv) (v : CurlWorld) (len : Nat) (timeoutMs : UInt32)
    (h : CurlUp v) : CurlUp (curlReadFn C v len timeoutMs).2.2 := by
  have hpump := pumpSteps_up (pump_steps C v timeoutMs.toInt32.toInt) h
  unfold curlReadFn
  simp only
  split
  · split
    · exact h
    · split
      · exact hpump
      · split
        · split <;> exact hpump
        · exact takeBytes_up C _ len hpump
  · exact takeBytes_up C v len h

/-- What the recorded transport keeps when it is called in sessions. -/
def CurlKept : Bool → CurlWorld × Bytes → Prop
  | false, s => HandlesHeld s.1.log
  | true, s => CurlUp s.1 ∧ s.2 = (ledger s.1.log).returned

theorem CurlKept.held {q : Bool} {s : CurlWorld × Bytes} (h : CurlKept q s) :
    HandlesHeld s.1.log := by
  cases q with
  | false => exact h
  | true => exact h.1.held

theorem curl_keeps (C : CurlEnv) (n : Nat) (timeoutMs : UInt32) :
    Keeps (curlTransport C).recording.component (discipline n timeoutMs) CurlKept where
  start := always_nil _
  next := by
    rintro q q' ⟨v, bytes⟩ call hkept hnext
    cases call with
    | openFn req out =>
      cases q with
      | true => cases hnext
      | false =>
        obtain ⟨hheld, hup⟩ := curlOpenFn_up C v req out hkept
        obtain rfl := Option.some.inj hnext
        by_cases hr : (curlOpenFn C v req out).1 = 0
        · have hq : decide ((curlOpenFn C v req out).1 = 0) = true := decide_eq_true hr
          show CurlKept (decide ((curlOpenFn C v req out).1 = 0)) _
          rw [hq]
          exact ⟨(hup hr).1, (hup hr).2.symm⟩
        · have hq : decide ((curlOpenFn C v req out).1 = 0) = false := decide_eq_false hr
          show CurlKept (decide ((curlOpenFn C v req out).1 = 0)) _
          rw [hq]
          exact hheld
    | readFn len t =>
      cases q with
      | false => cases hnext
      | true =>
        obtain ⟨hup, hbytes⟩ := hkept
        have hq : q' = true := by
          simp only [discipline] at hnext
          split at hnext
          · exact (Option.some.inj hnext).symm
          · cases hnext
        rw [hq]
        refine ⟨curlReadFn_up C v len t hup, ?_⟩
        have hbytes' : bytes = (ledger v.log).returned := hbytes
        -- recorded and accounted alike
        show bytes ++ (curlReadFn C v len t).2.1 = (ledger (curlReadFn C v len t).2.2.log).returned
        rw [curlReadFn_returned, hbytes']
    | closeFn =>
      cases q with
      | false => cases hnext
      | true =>
        obtain rfl := Option.some.inj hnext
        exact hkept.1.held.push fun huse => absurd huse Bool.false_ne_true

/-- In every reachable world the recorded transport is as its sessions leave it. -/
theorem curl_kept (h : Reachable ((curlTransport C).under base) cfg w) :
    CurlKept w.client.transportOpen ((curlTransport C).recording.stateOf w.log) := by
  rw [← recording_under] at h
  exact (over_keeps (curl_keeps C _ _) h).2.1

/-! ## §4 libcurl Gets Its Handles -/

/-- Pumping waits before anything else happens. -/
theorem pump_waits (C : CurlEnv) (v : CurlWorld) (waitMs : Int) :
    ((resumeIfRoom C v).push (.wait waitMs)).log <+: (pump C v waitMs).2.log := by
  let u := (resumeIfRoom C v).push (.wait waitMs)
  let p := (C.performed (u.push .perform).log).foldl callBack (u.push .perform)
  have hp : u.log <+: p.log :=
    (List.prefix_append _ _).trans (callBacks_steps (u.push .perform) _).steps.log
  have hpump : pump C v waitMs =
      if !C.waitOk u.log then (false, u)
      else if !C.performOk p.log then (false, p)
      else (true, (C.messages p.log).foldl harvest p) := rfl
  rw [hpump]
  split
  · exact List.prefix_rfl
  · split
    · exact hp
    · exact hp.trans (harvests_steps p _).steps.log

/-- So does a read when there is nothing to return. -/
theorem curlReadFn_waits (C : CurlEnv) {v : CurlWorld} (len : Nat) (timeoutMs : UInt32)
    (hempty : v.ctx.rLen = 0) (hdone : v.ctx.transferDone = false) :
    (pump C v timeoutMs.toInt32.toInt).2.log <+: (curlReadFn C v len timeoutMs).2.2.log := by
  unfold curlReadFn
  simp only [hempty, hdone, if_true, Bool.false_eq_true, if_false]
  split
  · exact List.prefix_rfl
  · split
    · split <;> exact List.prefix_rfl
    · exact (takeBytes_steps C _ len).log

/-- **No call into libcurl without its handles.** Whatever libcurl does, and whatever the application
and other tasks do: every request, wait, run and resume of a transport that a client uses finds both
handles. This is the client's doing, since a read from a transport that was never opened would
call libcurl with null pointers. -/
theorem curl_handles_held :
    (∀ w, Reachable ((curlTransport C).under base) cfg w →
      HandlesHeld ((curlTransport C).stateOf w.log).log) ∧
      ∀ len timeoutMs, ¬ HandlesHeld (curlReadFn C curlNew len timeoutMs).2.2.log := by
  constructor
  · intro w h
    have hheld := (curl_kept h).held
    rwa [recording_stateOf] at hheld
  · intro len timeoutMs hheld
    -- an empty ring and no end of the transfer: the transport waits for libcurl
    have hwaits : ([] : CurlLog) ++ [⟨.wait timeoutMs.toInt32.toInt, emptyCtx⟩] <+:
        (curlReadFn C curlNew len timeoutMs).2.2.log :=
      (pump_waits C curlNew timeoutMs.toInt32.toInt).trans
        (curlReadFn_waits C len timeoutMs rfl rfl)
    obtain ⟨rest, hlog⟩ := hwaits
    have hwait := hheld [] ⟨.wait timeoutMs.toInt32.toInt, emptyCtx⟩ rest hlog.symm rfl
    exact absurd hwait.1 Bool.false_ne_true

/-- libcurl delivers a response with one event to a client. -/
def greetingEnv : CurlEnv :=
  { twoByteEnv with
    performed := fun log =>
      if (ledger log).accepted = [] then
        [.header (ascii "HTTP/1.1 200 OK\r\n".toList) 17, .header (ascii "\r\n".toList) 2,
          .body (ascii ['d', 'a', 't', 'a'] ++ [lf, lf])]
      else []
    contentType := fun _ => some (eventStreamType ++ [0]) }

/-- The client of `smallConfig` over it, after a connection and two bytes. -/
def greetedClient : World :=
  runCalls ((curlTransport greetingEnv).under quietEnv) smallClient (List.replicate 3 .poll)

theorem greetedClient_reachable :
    Reachable ((curlTransport greetingEnv).under quietEnv) smallConfig greetedClient :=
  ⟨smallClient, List.replicate 3 .poll, rfl, rfl⟩

theorem over_tells_of_greeting :
    (curlTransport greetingEnv).returned greetedClient.log = ascii ['d', 'a'] ∧
      ∃ bytes, bytes <+: (curlTransport greetingEnv).returned greetedClient.log ∧
        (greetedClient.client.state = .opened →
          bytes = (curlTransport greetingEnv).returned greetedClient.log) ∧
        signals (currentConnection greetedClient.log) =
          (readingWithTail (clientLimits smallConfig) bytes).filterMap
            (reportSignal smallConfig.callbacks) :=
  ⟨by decide +kernel, over_tells (curlTransport_sound greetingEnv) greetedClient_reachable⟩

theorem curl_handles_held_of_greeting :
    ((curlTransport greetingEnv).stateOf greetedClient.log).log.countP
        (fun e => usesHandle e.obs) = 3 ∧
      HandlesHeld ((curlTransport greetingEnv).stateOf greetedClient.log).log :=
  ⟨by decide +kernel, curl_handles_held.1 _ greetedClient_reachable⟩

/-! ## §5 No Byte Is Lost on the Way -/

/-- An OPEN client has received what the ledger of its transport has returned. -/
theorem received_returned (h : Reachable ((curlTransport C).under base) cfg w)
    (hs : w.client.state = .opened) :
    received (currentConnection w.log) =
      (ledger ((curlTransport C).stateOf w.log).log).returned := by
  have hkept := curl_kept h
  rw [(transportOpen_iff h).mpr hs] at hkept
  rw [received_open (curlTransport_sound C) h hs, ← recording_stateOf]
  exact hkept.2

/-- **From libcurl's write callback to the application without a loss.** While the client is OPEN,
the bytes of the response that `on_body` has accepted are those that the client has received and
those that are still in the ring. A chunk that libcurl delivered was thrown away exactly if its
header block had the status of a redirect. The application has been told what the specification's
reading makes of the bytes received. And when a read reports the end of the stream or an error, the
client has received all that was accepted, unless libcurl's multi interface itself failed. -/
theorem curl_stack_lossless (h : Reachable ((curlTransport C).under base) cfg w) :
    (w.client.state = .opened →
      (ledger ((curlTransport C).stateOf w.log).log).accepted =
        received (currentConnection w.log) ++ ((curlTransport C).stateOf w.log).ctx.ringContents) ∧
      Always (fun _ e => SparesResponses e) ((curlTransport C).stateOf w.log).log ∧
      signals (currentConnection w.log) =
        (readingWithTail (clientLimits cfg) (received (currentConnection w.log))).filterMap
          (reportSignal cfg.callbacks) ∧
      Always (fun pre e => ∀ len timeoutMs r, e.obs = .transportRead len timeoutMs r → r < 0 →
        (ledger ((curlTransport C).stateOf (pre ++ [e])).log).accepted =
            received (currentConnection pre) ∨
          MultiFailed C ((curlTransport C).stateOf pre).log
            ((curlTransport C).stateOf (pre ++ [e])).log) w.log := by
  have hring : ∀ log : Log, RingInv (ledger ((curlTransport C).stateOf log).log)
      ((curlTransport C).stateOf log).ctx :=
    fun log => (after_curlReachable C (history log)).steps.ringOk.1
  refine ⟨?_, (after_curlReachable C (history w.log)).steps.sparesResponses, signals_current h, ?_⟩
  · intro hs
    rw [received_returned h hs]
    exact (hring w.log).fifo
  · intro pre e post hlog len timeoutMs r hobs hr
    obtain ⟨v, hv, hs, hpre⟩ := read_origin h pre e post hlog len timeoutMs r hobs
    obtain ⟨-, -, hresult⟩ := (over_answered h pre e post hlog).read len timeoutMs r hobs
    let s := (curlTransport C).stateOf pre
    have hnext : (curlTransport C).stateOf (pre ++ [e]) = (curlReadFn C s len timeoutMs).2.2 := by
      have hcall : vtableCall e.obs = some (.readFn len timeoutMs, r) := by
        rw [hobs]
        rfl
      unfold Transport.stateOf
      rw [history_snoc_some pre hcall, Component.after_snoc]
      rfl
    have hneg : (curlReadFn C s len timeoutMs).1 < 0 := by
      show ((curlTransport C).readFn s len timeoutMs).1 < 0
      rwa [← hresult]
    rcases curlReadFn_negative C s len timeoutMs hneg with ⟨hempty, -⟩ | hfailed
    · left
      -- nothing is in the ring any more, and this read has returned nothing
      have hfifo := (hring (pre ++ [e])).fifo
      have hnone : (curlReadFn C s len timeoutMs).2.1 = [] := by
        apply List.length_eq_zero_iff.mp
        rw [(curlReadFn_counts C s len timeoutMs).1]
        omega
      have hreturned := curlReadFn_returned C s len timeoutMs
      rw [hnone, List.append_nil] at hreturned
      have hsame : s = (curlTransport C).stateOf v.log := by
        show (curlTransport C).stateOf pre = _
        rw [hpre]
        exact stateOf_call _ v .poll
      have hreceived : received (currentConnection pre) = received (currentConnection v.log) := by
        rw [hpre]
        exact received_current_plain v.log rfl
      rw [hnext] at hfifo ⊢
      unfold CurlCtx.ringContents at hfifo
      rw [hempty] at hfifo
      rw [hfifo, hreturned, hreceived, received_returned hv hs, hsame]
      exact List.append_nil _
    · right
      rw [hnext]
      exact hfailed

theorem curl_stack_lossless_of_greeting :
    greetedClient.client.state = .opened ∧
      received (currentConnection greetedClient.log) = ascii ['d', 'a'] ∧
      (ledger ((curlTransport greetingEnv).stateOf greetedClient.log).log).accepted =
        received (currentConnection greetedClient.log) ++
          ((curlTransport greetingEnv).stateOf greetedClient.log).ctx.ringContents := by
  have hs : greetedClient.client.state = .opened := by decide +kernel
  exact ⟨hs, by decide +kernel, (curl_stack_lossless greetedClient_reachable).1 hs⟩

end EventSource.System
