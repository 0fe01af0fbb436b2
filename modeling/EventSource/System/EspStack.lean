import EventSource.Port.EspRead
import EventSource.System.Relay

/-!
# The Client over the ESP-IDF Transport

Every read of a connection waits no longer than the client's read timeout, although a new handle has
a timeout of its own and the transport remembers which one it has set: the value that it uses for
"none yet" is one that no client asks for.
-/

namespace EventSource.System

open EventSource.CMemory
open EventSource.Client
open EventSource.Contract
open EventSource.Parser
open EventSource.Port
open EventSource.Trace

variable {E : EspEnv} {R : EspReadEnv} {base : Env} {cfg : SseClientConfig} {w : World}

/-! ## §1 The Transport -/

/-- The vtable of `sse_transport_esp_http_client`. -/
def espTransport (E : EspEnv) (R : EspReadEnv) : Transport EspState where
  new := espTransportNew
  openFn := espOpen E
  readFn := espReadFn R
  closeFn := espCloseFn

/-- `esp_http_client_read` returns the number of bytes that it has written, no more than it was asked
for. -/
structure ReadsHonestly (R : EspReadEnv) : Prop where
  count : ∀ s want, (R.read s want).bytes.length = (R.read s want).result.toNat
  fits : ∀ s want, (R.read s want).bytes.length ≤ want

theorem espVerdict_not_pos (R : EspReadEnv) (s : EspState) (r : Int) (errno : Errno) :
    (espVerdict R s r errno).toNat = 0 := by
  unfold espVerdict
  split
  · rfl
  · split
    · split <;> rfl
    · split <;> rfl

theorem espTransport_sound (hR : ReadsHonestly R) : (espTransport E R).Sound := by
  intro s len timeoutMs
  show (espReadFn R s len timeoutMs).2.1.length = (espReadFn R s len timeoutMs).1.toNat ∧
    (espReadFn R s len timeoutMs).2.1.length ≤ len
  unfold espReadFn
  simp only
  split
  · exact ⟨rfl, Nat.zero_le _⟩
  · have hcount := hR.count (setReadTimeout s timeoutMs) (min len intMax)
    have hfits := (hR.fits (setReadTimeout s timeoutMs) (min len intMax)).trans
      (Nat.min_le_left _ _)
    split
    · exact ⟨hcount, hfits⟩
    · refine ⟨?_, hfits⟩
      rw [hcount, espVerdict_not_pos]
      omega

/-! ## §2 Timeouts -/

/-- Every read of a handle so far: the handle existed, its timeout was the given one, and so was the
number of bytes asked for, as far as an `int` can say. -/
def ReadsTimely (n : Nat) (timeoutMs : UInt32) (handle : List HandleEntry) : Prop :=
  Always (fun pre e => ∀ want reply, e.obs = .read want reply →
    e.live = true ∧ want = min n intMax ∧
      handleTimeout pre = min timeoutMs.toNat intMax) handle

/-- Between two reads the timeout that the transport remembers is the handle's, unless none has been
set. -/
structure EspUp (n : Nat) (timeoutMs : UInt32) (s : EspState) : Prop where
  live : s.world.ctx.hc = true
  timely : ReadsTimely n timeoutMs s.handle
  timeout : s.configuredTimeoutMs = 0 ∨
    (s.configuredTimeoutMs = timeoutMs ∧ handleTimeout s.handle = min timeoutMs.toNat intMax)

/-- What the transport keeps when it is called in sessions. -/
def EspKept (n : Nat) (timeoutMs : UInt32) : Bool → EspState → Prop
  | false, s => ReadsTimely n timeoutMs s.handle
  | true, s => EspUp n timeoutMs s

theorem ReadsTimely.push {n : Nat} {timeoutMs : UInt32} {handle : List HandleEntry}
    (h : ReadsTimely n timeoutMs handle) {e : HandleEntry}
    (he : ∀ want reply, e.obs ≠ .read want reply) : ReadsTimely n timeoutMs (handle ++ [e]) :=
  always_snoc.mpr ⟨h, fun want reply hobs => absurd hobs (he want reply)⟩

/-- After the timeout has been dealt with, it is the one asked for. -/
theorem setReadTimeout_up {n : Nat} {timeoutMs : UInt32} (hms : timeoutMs ≠ 0) {s : EspState}
    (h : EspUp n timeoutMs s) :
    EspUp n timeoutMs (setReadTimeout s timeoutMs) ∧
      (setReadTimeout s timeoutMs).configuredTimeoutMs = timeoutMs ∧
      handleTimeout (setReadTimeout s timeoutMs).handle = min timeoutMs.toNat intMax := by
  unfold setReadTimeout
  split
  · have hset : handleTimeout (s.handle ++
        [⟨.setTimeout (min timeoutMs.toNat intMax), s.world.ctx.hc⟩]) =
        min timeoutMs.toNat intMax := handleTimeout_snoc _ _
    exact ⟨⟨h.live, h.timely.push (by simp), .inr ⟨rfl, hset⟩⟩, rfl, hset⟩
  · next hsame =>
    have heq : timeoutMs = s.configuredTimeoutMs := not_not.mp hsame
    -- 0 stands for no timeout, and is none that a client asks for
    rcases h.timeout with hzero | ⟨hconf, htimeout⟩
    · exact absurd (heq.trans hzero) hms
    · exact ⟨h, hconf, htimeout⟩

theorem espReadFn_up {n : Nat} {timeoutMs : UInt32} (hms : timeoutMs ≠ 0) {s : EspState}
    (h : EspUp n timeoutMs s) : EspUp n timeoutMs (espReadFn R s n timeoutMs).2.2 := by
  obtain ⟨hup, hconf, htimeout⟩ := setReadTimeout_up hms h
  let u := setReadTimeout s timeoutMs
  let reply := R.read u (min n intMax)
  have hread : (espReadFn R s n timeoutMs).2.2 =
      { u.push (.read (min n intMax) reply) with
        world := reply.events.foldl handleEvent u.world } := by
    have hlive : (!s.world.ctx.hc) = false := by rw [h.live]; rfl
    unfold espReadFn
    simp only [hlive, Bool.false_eq_true, if_false]
    split <;> rfl
  have hkeep : handleTimeout (u.handle ++ [⟨.read (min n intMax) reply, u.world.ctx.hc⟩]) =
      min timeoutMs.toNat intMax := (handleTimeout_snoc _ _).trans htimeout
  rw [hread]
  refine ⟨(handleEvents_hc _ _).trans hup.live, ?_, .inr ⟨hconf, hkeep⟩⟩
  refine always_snoc.mpr ⟨hup.timely, ?_⟩
  rintro want reply' ⟨⟩
  exact ⟨hup.live, rfl, htimeout⟩

theorem esp_keeps (E : EspEnv) (R : EspReadEnv) (n : Nat) {timeoutMs : UInt32}
    (hms : timeoutMs ≠ 0) :
    Keeps (espTransport E R).component (discipline n timeoutMs) (EspKept n timeoutMs) where
  start := always_nil _
  next := by
    intro q q' s call hkept hnext
    cases call with
    | openFn req out =>
      cases q with
      | true => cases hnext
      | false =>
        obtain rfl := Option.some.inj hnext
        by_cases hr : (espOpenFn E s.world req out).1 = 0
        · have hopen : (espOpen E s req out).2.2 =
              { (EspState.push { s with world := (espOpenFn E s.world req out).2.2 } .fresh) with
                configuredTimeoutMs := 0 } := if_pos hr
          show EspKept n timeoutMs (decide ((espOpenFn E s.world req out).1 = 0))
            (espOpen E s req out).2.2
          -- a new handle, on which no timeout has been set
          rw [decide_eq_true hr, hopen]
          exact ⟨espOpenFn_hc E s.world req out hr, ReadsTimely.push hkept (by simp), .inl rfl⟩
        · have hopen : (espOpen E s req out).2.2 =
              { s with world := (espOpenFn E s.world req out).2.2 } := if_neg hr
          show EspKept n timeoutMs (decide ((espOpenFn E s.world req out).1 = 0))
            (espOpen E s req out).2.2
          rw [decide_eq_false hr, hopen]
          exact hkept
    | readFn len t =>
      cases q with
      | false => cases hnext
      | true =>
        simp only [discipline] at hnext
        split at hnext
        · next hargs =>
          obtain ⟨rfl, rfl⟩ := hargs
          obtain rfl := Option.some.inj hnext
          exact espReadFn_up hms hkept
        · cases hnext
    | closeFn =>
      cases q with
      | false => cases hnext
      | true =>
        obtain rfl := Option.some.inj hnext
        have hup : EspUp n timeoutMs s := hkept
        exact hup.timely

/-! ## §3 Verdicts -/

/-- `esp_http_client` says that the connection is over: the response is complete, or the read failed
for another reason than that nothing came in time. -/
def ReportsEnd (R : EspReadEnv) (s : EspState) (reply : EspReply) : Prop :=
  reply.result ≠ -(R.eagain : Int) ∧
    ((reply.result = 0 ∧ R.complete s = true) ∨
      (reply.result < 0 ∧ reply.errno ≠ .eagain ∧ reply.errno ≠ .ewouldblock ∧
        reply.errno ≠ .etimedout))

theorem espVerdict_neg_iff (R : EspReadEnv) (s : EspState) (reply : EspReply)
    (hr : ¬ 0 < reply.result) :
    espVerdict R s reply.result reply.errno < 0 ↔ ReportsEnd R s reply := by
  unfold espVerdict ReportsEnd
  by_cases hagain : reply.result = -(R.eagain : Int)
  · -- the code for a timeout, whatever `errno` says
    rw [if_pos hagain]
    exact iff_of_false (by decide) fun h => h.1 hagain
  · rw [if_neg hagain]
    by_cases hzero : reply.result = 0
    · rw [if_pos hzero]
      cases hcomplete : R.complete s with
      | true => exact iff_of_true (by decide) ⟨hagain, .inl ⟨hzero, rfl⟩⟩
      | false =>
        refine iff_of_false (by decide) ?_
        rintro ⟨-, ⟨-, h⟩ | ⟨h, -⟩⟩
        · cases h
        · omega
    · rw [if_neg hzero]
      -- an error: the word is with `errno` now
      have hneg : reply.result < 0 := by omega
      cases herrno : reply.errno with
      | ok => exact iff_of_true (by decide) ⟨hagain, .inr ⟨hneg, by simp⟩⟩
      | other => exact iff_of_true (by decide) ⟨hagain, .inr ⟨hneg, by simp⟩⟩
      | eagain => exact iff_of_false (by decide) (by simp [hzero])
      | ewouldblock => exact iff_of_false (by decide) (by simp [hzero])
      | etimedout => exact iff_of_false (by decide) (by simp [hzero])

/-- What `esp_http_client_read` replies to a read of the transport in state `s`. -/
def espReplyTo (R : EspReadEnv) (s : EspState) (len : Nat) (timeoutMs : UInt32) : EspReply :=
  R.read (setReadTimeout s timeoutMs) (min len intMax)

/-- The transport once the reply is there. -/
def espAfterReply (R : EspReadEnv) (s : EspState) (len : Nat) (timeoutMs : UInt32) : EspState :=
  let u := setReadTimeout s timeoutMs
  { u.push (.read (min len intMax) (espReplyTo R s len timeoutMs)) with
    world := (espReplyTo R s len timeoutMs).events.foldl handleEvent u.world }

theorem espReadFn_live (R : EspReadEnv) {s : EspState} (hlive : s.world.ctx.hc = true) (len : Nat)
    (timeoutMs : UInt32) :
    (espReadFn R s len timeoutMs).1 =
      if 0 < (espReplyTo R s len timeoutMs).result then (espReplyTo R s len timeoutMs).result
      else espVerdict R (espAfterReply R s len timeoutMs) (espReplyTo R s len timeoutMs).result
        (espReplyTo R s len timeoutMs).errno := by
  unfold espReadFn
  rw [hlive]
  exact apply_ite Prod.fst (0 < (espReplyTo R s len timeoutMs).result) _ _

/-! ## §4 Reads in Time -/

theorem readTimeoutMs_ne_zero (cfg : SseClientConfig) : (withDefaults cfg).readTimeoutMs ≠ 0 := by
  unfold withDefaults
  simp only
  split
  · decide
  · assumption

theorem esp_kept (h : Reachable ((espTransport E R).under base) cfg w) :
    EspKept (cfg.rxBuf.getD []).length (withDefaults cfg).readTimeoutMs w.client.transportOpen
      ((espTransport E R).stateOf w.log) :=
  (over_keeps (esp_keeps E R _ (readTimeoutMs_ne_zero cfg)) h).2.1

/-- **Every read waits as long as the client says, and silence is no failure.** Whatever
`esp_http_client` does: each read of a transport that a client uses is made on a handle that exists,
with the client's read timeout set on it, or the largest that an `int` holds, and not with the one
that the handle was made with. And a read fails only if `esp_http_client` says that the connection
is over, so a window in which nothing comes never costs the connection. If `esp_http_client` counts the
bytes that it writes, the client relays them. -/
theorem esp_stack_timely (h : Reachable ((espTransport E R).under base) cfg w) :
    ReadsTimely (cfg.rxBuf.getD []).length (withDefaults cfg).readTimeoutMs
        ((espTransport E R).stateOf w.log).handle ∧
      Always (fun pre e => ∀ len timeoutMs r, e.obs = .transportRead len timeoutMs r →
        let s := (espTransport E R).stateOf pre
        (r < 0 ↔ ReportsEnd R (espAfterReply R s len timeoutMs) (espReplyTo R s len timeoutMs)))
        w.log ∧
      (ReadsHonestly R → Relayed (espTransport E R) w) := by
  refine ⟨?_, ?_, fun hR => over_relays (espTransport_sound hR) h⟩
  · have hkept := esp_kept h
    cases hopen : w.client.transportOpen with
    | false =>
      rw [hopen] at hkept
      exact hkept
    | true =>
      rw [hopen] at hkept
      exact EspUp.timely hkept
  · intro pre e post hlog len timeoutMs r hobs
    obtain ⟨v, hv, hs, hpre⟩ := read_origin h pre e post hlog len timeoutMs r hobs
    obtain ⟨-, -, hresult⟩ := (over_answered h pre e post hlog).read len timeoutMs r hobs
    have hup := esp_kept hv
    rw [(transportOpen_iff hv).mpr hs, ← stateOf_call _ v .poll, ← hpre] at hup
    have hlive : ((espTransport E R).stateOf pre).world.ctx.hc = true := EspUp.live hup
    show r < 0 ↔ _
    rw [hresult]
    show (espReadFn R ((espTransport E R).stateOf pre) len timeoutMs).1 < 0 ↔ _
    rw [espReadFn_live R hlive]
    split
    · next hpos =>
      -- bytes are no end
      refine iff_of_false (by omega) ?_
      rintro ⟨-, ⟨hzero, -⟩ | ⟨hneg, -⟩⟩
      · omega
      · omega
    · next hpos => exact espVerdict_neg_iff R _ _ hpos

/-- A server that accepts the request and then stays silent. -/
def silentEspEnv : EspEnv where
  initOk _ := true
  openEvents _ := []
  openOk _ := true
  fetchEvents _ := [.onHeader (cText "Content-Type") (cText "text/event-stream")]
  fetchOk _ := true
  statusCode _ := 200
  redirectionOk _ := true
  retarget := joinTarget

/-- As hardware reports it: no data, and the code for a timeout. -/
def silentReads : EspReadEnv where
  read _ _ := ⟨-28679, [], .other, []⟩
  complete _ := false
  eagain := 28679

/-- The client of `smallConfig` over it, after a connection and two reads. -/
def silentClient : World :=
  runCalls ((espTransport silentEspEnv silentReads).under quietEnv) smallClient
    (List.replicate 3 .poll)

theorem silentClient_reachable :
    Reachable ((espTransport silentEspEnv silentReads).under quietEnv) smallConfig silentClient :=
  ⟨smallClient, List.replicate 3 .poll, rfl, rfl⟩

theorem esp_stack_timely_of_silence :
    silentClient.client.state = .opened ∧
      handleTimeout ((espTransport silentEspEnv silentReads).stateOf silentClient.log).handle =
        500 ∧
      ReadsTimely 1 500 ((espTransport silentEspEnv silentReads).stateOf silentClient.log).handle :=
  ⟨by decide +kernel, by decide +kernel, (esp_stack_timely silentClient_reachable).1⟩

end EventSource.System
