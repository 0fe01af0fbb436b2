import EventSource.Client.Reconnect

/-!
# What a Poll Returns

A poll returns how long its caller may sleep, or `UINT32_MAX` when the client is CLOSED. What the
number says is compared here with the state that the poll leaves behind.
-/

namespace EventSource.Client

open EventSource.CMemory
open EventSource.Parser
open EventSource.Trace
open EventSource.WrapClock

variable {env : Env} {cfg : SseClientConfig} {w : World}

/-! ## §1 What a Callback Leaves -/

theorem foldl_act_closed (env : Env) (acts : List Reentry) (h : w.client.state = .closed) :
    (acts.foldl (act env) w).client.state = .closed := by
  induction acts generalizing w with
  | nil => exact h
  | cons a acts ih =>
    apply ih
    cases a with
    | close => exact toClosed_state env w
    | requestStop => exact h

/-- A callback that does not close the client can only have requested a stop. -/
theorem acts_of_alive {acts : List Reentry}
    (h : (acts.foldl (act env) w).client.state ≠ .closed) :
    ∃ stop, acts.foldl (act env) w = w.update fun c => { c with stopRequested := stop } := by
  induction acts generalizing w with
  | nil => exact ⟨w.client.stopRequested, rfl⟩
  | cons a acts ih =>
    cases a with
    | close => exact absurd (foldl_act_closed env acts (toClosed_state env w)) h
    | requestStop =>
      obtain ⟨stop, heq⟩ := ih h
      exact ⟨stop, heq⟩

theorem callUser_of_alive {o : Obs} (h : (callUser env w o).client.state ≠ .closed) :
    ∃ stop, callUser env w o = (w.push o).update fun c => { c with stopRequested := stop } :=
  acts_of_alive h

/-! ## §2 Readings of the Clock -/

def Obs.reading : Obs → Option Nat
  | .clock t => some t
  | _ => none

/-- The last reading of the clock in a log. -/
def lastReading (log : Log) : Option Nat :=
  (log.filterMap fun e => e.obs.reading).getLast?

theorem lastReading_append (a b : Log) :
    lastReading (a ++ b) = (lastReading b).or (lastReading a) := by
  unfold lastReading
  rw [List.filterMap_append, List.getLast?_append]

/-- Between `before` and `after` the clock was read, the last time at `t`. -/
def ReadLast (before after : Log) (t : Nat) : Prop :=
  ∃ new, after = before ++ new ∧ lastReading new = some t

theorem ReadLast.lastReading {before after : Log} {t : Nat} (h : ReadLast before after t) :
    lastReading after = some t := by
  obtain ⟨new, rfl, hnew⟩ := h
  rw [lastReading_append, hnew, Option.some_or]

/-- What is logged before the reading does not matter. -/
theorem ReadLast.trans {a b c : Log} {t : Nat} (hab : a <+: b) (h : ReadLast b c t) :
    ReadLast a c t := by
  obtain ⟨mid, rfl⟩ := hab
  obtain ⟨new, rfl, hnew⟩ := h
  refine ⟨mid ++ new, by rw [List.append_assoc], ?_⟩
  rw [lastReading_append, hnew, Option.some_or]

/-! ## §3 Failures -/

/-- What the delay depends on. -/
theorem retryDelay_congr {a b : SseClient} (hcfg : a.cfg = b.cfg)
    (hbase : a.baseRetryMs = b.baseRetryMs) (hatt : a.attempts = b.attempts)
    (hprng : a.prng = b.prng) (retryAfterS : Int32) :
    (retryDelay a retryAfterS).1 = (retryDelay b retryAfterS).1 := by
  have hdelay : retryBase a retryAfterS = retryBase b retryAfterS := by
    unfold retryBase
    rw [hcfg, hbase, hatt]
  have hnext : (prngNext a).1 = (prngNext b).1 := by
    unfold prngNext
    rw [hprng]
  unfold retryDelay
  simp only [hcfg, hdelay]
  split
  · simp only [hnext]
  · rfl

/-- `v` is `w` after a failure that is retried: the client waits from the last reading on. -/
structure Retrying (w v : World) (retryAfterS : Int32) (t : Nat) : Prop where
  config : v.client.cfg = w.client.cfg
  waiting : Waiting t (retryDelay w.client retryAfterS).1 v.client
  reading : ReadLast w.log v.log t

theorem refuseRetry_state (env : Env) (w : World) (e : SseError) :
    (refuseRetry env w e).client.state = .closed :=
  toClosed_state env _

theorem schedule_reading (w : World) (e : SseError) (retryAfterS : Int32) (t : Nat) :
    ReadLast w.log (schedule w e retryAfterS t).log t := by
  unfold schedule
  simp only
  split
  · exact ⟨[_, _], List.append_assoc _ _ _, rfl⟩
  · exact ⟨[_], rfl, rfl⟩

theorem schedule_config (w : World) (e : SseError) (retryAfterS : Int32) (t : Nat) :
    (schedule w e retryAfterS t).client.cfg = w.client.cfg := by
  obtain ⟨x, hframe⟩ := retryDelay_frame w.client retryAfterS
  have hcfg : (retryDelay w.client retryAfterS).2.cfg = w.client.cfg := by rw [hframe]
  unfold schedule
  simp only
  split
  · exact hcfg
  · exact hcfg

theorem scheduleRetry_of_alive {e : SseError} {retryAfterS : Int32}
    (h : (scheduleRetry env w e retryAfterS).client.state ≠ .closed) :
    ∃ t, Retrying w (scheduleRetry env w e retryAfterS) retryAfterS t := by
  have hwait := schedule_waiting w e retryAfterS (env.time w.log)
  obtain ⟨acts, hacts⟩ := scheduleRetry_eq env w e retryAfterS
  rw [hacts] at h ⊢
  obtain ⟨stop, heq⟩ := acts_of_alive h
  rw [heq]
  refine ⟨env.time w.log, schedule_config w e retryAfterS _, ⟨hwait.state, hwait.deadline,
    hwait.near⟩, schedule_reading w e retryAfterS _⟩

/-- A failure that leaves the client alive is retried, after a delay that only depends on the client
before it. -/
theorem failConn_of_alive {reason : ErrorReason} {status : Int} {retryAfterS : Int32}
    (h : (failConn env w reason status retryAfterS).client.state ≠ .closed) :
    ∃ t, Retrying w (failConn env w reason status retryAfterS) retryAfterS t := by
  have hdown : (closeTransport w).client = { w.client with transportOpen := false } := by
    unfold closeTransport
    split
    · rfl
    · next hopen =>
      rw [Bool.not_eq_true] at hopen
      rw [← hopen]
  -- the delay reads neither the transport nor the stop request
  have hdecide : ∀ (v : World) (e : SseError) (retry : Bool),
      (decideRetry env v e retryAfterS retry).client.state ≠ .closed →
      (∃ stop, v.client = { w.client with transportOpen := false, stopRequested := stop }) →
      w.log <+: v.log → ∃ t, Retrying w (decideRetry env v e retryAfterS retry) retryAfterS t := by
    rintro v e retry halive ⟨stop, hv⟩ hlog
    cases retry with
    | false => exact absurd (refuseRetry_state env v e) halive
    | true =>
      obtain ⟨t, hcfg, hwait, hread⟩ := scheduleRetry_of_alive halive
      have hsame : (retryDelay v.client retryAfterS).1 = (retryDelay w.client retryAfterS).1 := by
        rw [hv]
        apply retryDelay_congr <;> rfl
      rw [hv] at hcfg
      rw [hsame] at hwait
      exact ⟨t, hcfg, hwait, hread.trans hlog⟩
  unfold failConn at h ⊢
  simp only at h ⊢
  split at h
  · next hset =>
    rw [if_pos hset]
    split at h
    · next hclosed => exact absurd hclosed h
    · next hopen =>
      rw [if_neg hopen]
      -- the application was told of the failure and did not close
      obtain ⟨stop, heq⟩ := callUser_of_alive hopen
      apply hdecide _ _ _ h
      · refine ⟨stop, ?_⟩
        rw [heq, update_client, push_client, hdown]
      · rw [heq]
        exact prefix_push (closeTransport_log w) _
  · next hset =>
    rw [if_neg hset]
    apply hdecide _ _ _ h
    · exact ⟨w.client.stopRequested, by rw [hdown]⟩
    · exact closeTransport_log w

/-! ## §4 The Sentinel -/

/-- The poll returns `UINT32_MAX` exactly if it leaves the client CLOSED. -/
def Unambiguous (env : Env) (w : World) : Prop :=
  (sseClientPoll env w).1 = uint32Max ↔ (sseClientPoll env w).2.client.state = .closed

theorem closedHint_iff (w : World) :
    (closedHint w).1 = uint32Max ↔ (closedHint w).2.client.state = .closed := by
  show (if w.client.state = .closed then uint32Max else 0) = uint32Max ↔ w.client.state = .closed
  split
  · next h => exact iff_of_true rfl h
  · next h => exact iff_of_false (by decide) h

theorem pollIdle_iff (hs : w.client.cfg.readTimeoutMs ≠ uint32Max) :
    (pollIdle env w).1 = uint32Max ↔ (pollIdle env w).2.client.state = .closed := by
  unfold pollIdle
  simp only
  split
  · next h => exact iff_of_true rfl h
  · next h =>
    obtain ⟨t, hretry⟩ := failConn_of_alive h
    rw [hretry.config]
    exact iff_of_false hs h

theorem pollTimeout_iff (hopen : w.client.state = .opened)
    (hs : w.client.cfg.readTimeoutMs ≠ uint32Max) :
    (pollTimeout env w).1 = uint32Max ↔ (pollTimeout env w).2.client.state = .closed := by
  have hne : w.client.state ≠ .closed := by simp [hopen]
  unfold pollTimeout
  simp only
  split
  · split
    · exact pollIdle_iff (w := w.push (.clock (env.time w.log))) hs
    · exact iff_of_false hs hne
  · exact iff_of_false hs hne

theorem pollRead_iff (hopen : w.client.state = .opened)
    (hs : w.client.cfg.readTimeoutMs ≠ uint32Max) (r : Int) :
    (pollRead env w r).1 = uint32Max ↔ (pollRead env w r).2.client.state = .closed := by
  unfold pollRead
  split
  · exact iff_of_true rfl (toClosed_state env w)
  · split
    · split
      · exact closedHint_iff _
      · exact closedHint_iff _
    · split
      · exact pollTimeout_iff hopen hs
      · exact closedHint_iff _

theorem pollWaiting_iff (hwait : w.client.state = .waitingRetry) :
    (pollWaiting env w).1 = uint32Max ↔ (pollWaiting env w).2.client.state = .closed := by
  unfold pollWaiting nowMs
  simp only
  split
  · have hzero : (0 : UInt32) ≠ uint32Max := by decide
    exact iff_of_false hzero (by simp)
  · next hpos =>
    -- as a signed number the sentinel is negative
    refine iff_of_false ?_ (by simp [hwait])
    intro hmax
    have hsame : w.client.retryDeadline - .ofNat (env.time w.log) = uint32Max := hmax
    rw [hsame] at hpos
    exact hpos (by decide)

/-- Only the configured read timeout can be taken for the sentinel. -/
theorem unambiguous_of (hs : w.client.cfg.readTimeoutMs ≠ uint32Max) : Unambiguous env w := by
  unfold Unambiguous sseClientPoll
  simp only
  by_cases hstop : (w.client.stopRequested && decide (w.client.state ≠ .closed)) = true
  · rw [if_pos hstop, toClosed_state]
    exact iff_of_true rfl (toClosed_state env w)
  · rw [if_neg hstop]
    cases hstate : w.client.state with
    | closed => exact iff_of_true rfl hstate
    | idle => exact closedHint_iff _
    | connecting => exact closedHint_iff _
    | waitingRetry => exact pollWaiting_iff hstate
    | opened => exact pollRead_iff (w := readOnce w _ _ _) hstate hs _

/-- A quiet server, on a clock that stands still. -/
def frozenEnv : Env :=
  { quietEnv with time := fun _ => 0 }

/-- The client of any configuration after its first poll, at that server. -/
def frozenClient (cfg : SseClientConfig) : World :=
  runCalls frozenEnv ⟨initClient cfg 0, []⟩ [.poll]

theorem frozenClient_reachable (hok : configOk cfg = true) :
    Reachable frozenEnv cfg (frozenClient cfg) := by
  refine ⟨⟨initClient cfg 0, []⟩, [.poll], ?_, rfl⟩
  unfold sseClientInit
  rw [if_pos hok]
  rfl

theorem frozen_acceptResponse (w : World) :
    (acceptResponse frozenEnv w).client =
      { w.client with parser := sseParserReset w.client.parser, lastRxMs := 0, state := .opened } := by
  unfold acceptResponse
  simp only
  split
  · rfl
  · rfl

/-- Its connection is accepted and stays OPEN. -/
theorem frozenClient_open (cfg : SseClientConfig) :
    (frozenClient cfg).client.state = .opened ∧ (frozenClient cfg).client.stopRequested = false ∧
      (frozenClient cfg).client.lastRxMs = 0 ∧ (frozenClient cfg).client.cfg = withDefaults cfg := by
  let v : World := (⟨initClient cfg 0, []⟩ : World).push (.call .poll)
  let u : World := (attempt v [] 0 false).update fun c => { c with transportOpen := true }
  have hpoll : frozenClient cfg = judgeResponse frozenEnv u ⟨200, eventStreamType ++ [0], -1⟩ := rfl
  have hjudge : judgeResponse frozenEnv u ⟨200, eventStreamType ++ [0], -1⟩ =
      acceptResponse frozenEnv u := by
    have htype : ctIsEventStream (eventStreamType ++ [0]) = true := by decide
    unfold judgeResponse
    simp only [htype, Bool.not_true, Bool.and_false, Bool.false_eq_true, if_false]
    rfl
  obtain ⟨_, _, _, hbuilt⟩ := buildHeaders_frame { v.client with state := .connecting } []
  have hclient : u.client = { buildHeaders { v.client with state := .connecting } [] with
      stopRequested := (buildHeaders { v.client with state := .connecting } []).stopRequested || false
      transportOpen := true } := rfl
  rw [hpoll, hjudge, frozen_acceptResponse, hclient, hbuilt]
  exact ⟨rfl, rfl, rfl, rfl⟩

/-- **A read timeout of `UINT32_MAX` is taken for the sentinel.** -/
theorem frozenClient_ambiguous (hmax : cfg.readTimeoutMs = uint32Max) :
    ¬ Unambiguous frozenEnv ((frozenClient cfg).push (.call .poll)) := by
  obtain ⟨hopen, hstop, hrx, hcfg⟩ := frozenClient_open cfg
  generalize frozenClient cfg = w at *
  have hms : w.client.cfg.readTimeoutMs = uint32Max := by
    rw [hcfg]
    show (if cfg.readTimeoutMs = 0 then 500 else cfg.readTimeoutMs) = uint32Max
    rw [hmax]
    decide
  let v : World := readOnce (w.push (.call .poll)) 0 [] false
  have hpoll : sseClientPoll frozenEnv (w.push (.call .poll)) = pollTimeout frozenEnv v := by
    unfold sseClientPoll
    simp only [push_client, hstop, hopen, Bool.false_and, Bool.false_eq_true, if_false]
    show pollRead frozenEnv v 0 = _
    have hgo : v.client.stopRequested = false := by
      show (w.client.stopRequested || false) = false
      rw [hstop]
      rfl
    unfold pollRead
    simp only [hgo, Bool.false_eq_true, if_false, Int.lt_irrefl, readTimeout, if_true]
  have htimeout : (pollTimeout frozenEnv v).1 = uint32Max ∧
      (pollTimeout frozenEnv v).2.client.state = .opened := by
    unfold pollTimeout
    simp only
    split
    · next hidle =>
      -- no time has passed since the last byte
      have hnot : ¬ idleFor (v.push (.clock (frozenEnv.time v.log))).client
          (frozenEnv.time v.log) = true := by
        have hv : v.client.lastRxMs = 0 := hrx
        show ¬ decide ((0 : UInt32) - v.client.lastRxMs ≥ v.client.cfg.idleTimeoutMs) = true
        rw [hv]
        simpa using hidle
      rw [if_neg hnot]
      exact ⟨hms, hopen⟩
    · exact ⟨hms, hopen⟩
  unfold Unambiguous
  rw [hpoll, htimeout.1, htimeout.2]
  simp

/-- **Exactly a read timeout of `UINT32_MAX` makes the sentinel ambiguous.** For every configuration
that is accepted: whatever the transport, the clock and the callbacks do, every poll returns
`UINT32_MAX` exactly if it leaves the client CLOSED, if and only if `read_timeout_ms` is not that
number itself. -/
theorem sentinel_unambiguous_iff (hok : configOk cfg = true) :
    (∀ env w, Reachable env cfg w → Unambiguous env (w.push (.call .poll))) ↔
      cfg.readTimeoutMs ≠ uint32Max := by
  constructor
  · intro hall hmax
    exact frozenClient_ambiguous hmax (hall frozenEnv _ (frozenClient_reachable hok))
  · intro hne env w h
    apply unambiguous_of
    rw [push_client, (reachable_life h).config]
    show (if cfg.readTimeoutMs = 0 then 500 else cfg.readTimeoutMs) ≠ uint32Max
    split
    · decide
    · exact hne

/-- The largest read timeout there is. -/
def endlessConfig : SseClientConfig :=
  { smallConfig with readTimeoutMs := uint32Max }

theorem sentinel_unambiguous_iff_small :
    (∀ env w, Reachable env smallConfig w → Unambiguous env (w.push (.call .poll))) ↔
      smallConfig.readTimeoutMs ≠ uint32Max :=
  sentinel_unambiguous_iff (by decide)

theorem sentinel_ambiguous :
    let w := (frozenClient endlessConfig).push (.call .poll)
    configOk endlessConfig = true ∧ Reachable frozenEnv endlessConfig (frozenClient endlessConfig) ∧
      (sseClientPoll frozenEnv w).1 = uint32Max ∧
      (sseClientPoll frozenEnv w).2.client.state = .opened ∧ ¬ Unambiguous frozenEnv w :=
  ⟨by decide, frozenClient_reachable (by decide), by decide +kernel, by decide +kernel,
    frozenClient_ambiguous rfl⟩

/-! ## §5 The Time Left -/

/-- Milliseconds left until the retry at a reading `t` of the clock, 0 when it is due. -/
def msLeft (c : SseClient) (t : Nat) : Nat :=
  (c.retryDeadline - shown t).toInt32.toInt.toNat

theorem Waiting.msLeft_eq {c : SseClient} {t : Nat} {d : UInt32} (h : Waiting t d c) :
    msLeft c t = d.toNat := by
  have hnear := h.near
  have hdist : (c.retryDeadline - shown t).toNat = d.toNat := by
    rw [h.deadline, shown_add, toNat_shown_sub (Nat.le_add_right _ _) (by omega)]
    omega
  unfold msLeft
  rw [toInt_toInt32, hdist, if_pos hnear, Int.toNat_natCast]

/-- The idle timeout strikes in this poll, and the delay of the retry, as the client computes it, is
shorter than its read timeout. -/
def IdleLate (env : Env) (w : World) : Prop :=
  w.client.state = .opened ∧ (env.readReply w.log).result = readTimeout ∧
    w.client.cfg.idleTimeoutMs ≠ 0 ∧
    idleFor w.client (env.time (readOnce w (env.readReply w.log).result
      (env.readReply w.log).bytes (env.readReply w.log).stop).log) = true ∧
    (retryDelay w.client (-1)).1.toNat < w.client.cfg.readTimeoutMs.toNat

/-- The poll leaves the client waiting, on a path that is in time if and only if `late` is false. -/
def Paced (w : World) (r : UInt32 × World) (late : Prop) : Prop :=
  r.2.client.state = .waitingRetry →
    ∃ t, ReadLast w.log r.2.log t ∧ (r.1.toNat ≤ msLeft r.2.client t ↔ ¬ late)

theorem Paced.of_closed {r : UInt32 × World} {late : Prop} (h : r.2.client.state = .closed) :
    Paced w r late := by
  intro hwait
  rw [h] at hwait
  exact absurd hwait (by simp)

/-- After a failure that is retried, `closedHint` asks for the next poll at once. -/
theorem paced_failConn {v : World} {late : Prop} (hlog : w.log <+: v.log) (hlate : ¬ late)
    (reason : ErrorReason) (status : Int) (retryAfterS : Int32) :
    Paced w (closedHint (failConn env v reason status retryAfterS)) late := by
  intro hwait
  have halive : (failConn env v reason status retryAfterS).client.state ≠ .closed := by
    rw [show (failConn env v reason status retryAfterS).client.state = _ from hwait]
    simp
  obtain ⟨t, hretry⟩ := failConn_of_alive halive
  refine ⟨t, hretry.reading.trans hlog, iff_of_true ?_ hlate⟩
  have hzero : (closedHint (failConn env v reason status retryAfterS)).1 = 0 := if_neg halive
  rw [hzero]
  exact Nat.zero_le _

theorem paced_judgeResponse {v : World} {late : Prop} (hlog : w.log <+: v.log) (hlate : ¬ late)
    (info : SseResponseInfo) : Paced w (closedHint (judgeResponse env v info)) late := by
  unfold judgeResponse
  split
  · exact paced_failConn hlog hlate _ _ _
  · split
    · exact paced_failConn hlog hlate _ _ _
    · split
      · exact paced_failConn hlog hlate _ _ _
      · -- an accepted connection is OPEN unless `on_open` closes it
        intro hwait
        exfalso
        revert hwait
        unfold acceptResponse nowMs
        simp only [closedHint]
        split
        · intro hwait
          obtain ⟨stop, heq⟩ := callUser_of_alive (ne_of_eq_of_ne hwait (by simp))
          rw [heq] at hwait
          exact absurd hwait (by simp)
        · simp

theorem paced_doConnect {late : Prop} (hlate : ¬ late) :
    Paced w (closedHint (doConnect env w)) late := by
  have hlog := attempt_log w (env.extraHeaders w.log) (env.openReply w.log).result
    (env.openReply w.log).stop
  unfold doConnect
  simp only
  split
  · exact paced_failConn hlog hlate _ _ _
  · apply paced_judgeResponse _ hlate
    exact hlog

/-- The failure after an idle timeout is paced unless its delay is shorter than the read timeout. -/
theorem paced_pollIdle {v : World} (hlog : w.log <+: v.log) {late : Prop}
    (hlate : late ↔ (retryDelay v.client (-1)).1.toNat < v.client.cfg.readTimeoutMs.toNat) :
    Paced w (pollIdle env v) late := by
  intro hwait
  have halive : (failConn env v .idleTimeout 0 (-1)).client.state ≠ .closed := by
    rw [show (failConn env v .idleTimeout 0 (-1)).client.state = _ from hwait]
    simp
  obtain ⟨t, hretry⟩ := failConn_of_alive halive
  have hleft := hretry.waiting.msLeft_eq
  have hms : (pollIdle env v).1 = v.client.cfg.readTimeoutMs := by
    rw [← hretry.config]
    exact if_neg halive
  refine ⟨t, hretry.reading.trans hlog, ?_⟩
  rw [hms, hlate]
  show _ ≤ msLeft (failConn env v .idleTimeout 0 (-1)).client t ↔ _
  rw [hleft]
  exact Nat.not_lt.symm

theorem paced_pollOpen (hs : w.client.state = .opened) :
    Paced w (pollOpen env w) (IdleLate env w) := by
  let r := (env.readReply w.log).result
  let bytes := (env.readReply w.log).bytes
  let stop := (env.readReply w.log).stop
  have hlate : IdleLate env w ↔ r = readTimeout ∧ w.client.cfg.idleTimeoutMs ≠ 0 ∧
      idleFor w.client (env.time (readOnce w r bytes stop).log) = true ∧
      (retryDelay w.client (-1)).1.toNat < w.client.cfg.readTimeoutMs.toNat := and_iff_right hs
  have hlog : w.log <+: (readOnce w r bytes stop).log := List.prefix_append _ _
  show Paced w (pollRead env (readOnce w r bytes stop) r) (IdleLate env w)
  unfold pollRead
  split
  · exact .of_closed (toClosed_state env _)
  · split
    · next hpos =>
      -- bytes have arrived, so the read has not timed out
      have hnot : ¬ IdleLate env w := fun h => by
        have hzero := (hlate.mp h).1
        rw [hzero, readTimeout] at hpos
        exact absurd hpos (by simp)
      split
      · exact paced_failConn hlog hnot _ _ _
      · next hfit =>
        have hfeed := (feeding_receive (w := readOnce w r bytes stop) hs
          (lastRead_readOnce w r bytes stop) hpos hfit
          (env.time (readOnce w r bytes stop).log)).clientFeed env
        intro hwait
        rcases (hfeed _).state with hstate | hstate
        · exact absurd (hstate.symm.trans hwait) (by simp)
        · exact absurd (hstate.symm.trans hwait) (by simp)
    · split
      · next hzero =>
        -- only here can the idle timeout strike
        have hsame : (retryDelay (readOnce w r bytes stop).client (-1)).1 =
            (retryDelay w.client (-1)).1 := by
          apply retryDelay_congr <;> rfl
        unfold pollTimeout
        simp only
        split
        · next hset =>
          split
          · next hidle =>
            apply paced_pollIdle
            · exact prefix_push hlog _
            · rw [hlate, push_client, hsame]
              constructor
              · exact fun h => h.2.2.2
              · exact fun h => ⟨hzero, hset, hidle, h⟩
          · intro hwait
            exact absurd (hs.symm.trans hwait) (by simp)
        · intro hwait
          exact absurd (hs.symm.trans hwait) (by simp)
      · next hne =>
        exact paced_failConn hlog (fun h => hne (hlate.mp h).1) _ _ _

/-- **Exactly the idle timeout can ask for too long a sleep.** -/
theorem poll_paced (env : Env) (w : World) : Paced w (sseClientPoll env w) (IdleLate env w) := by
  unfold sseClientPoll
  simp only
  by_cases hstop : (w.client.stopRequested && decide (w.client.state ≠ .closed)) = true
  · rw [if_pos hstop, toClosed_state]
    exact .of_closed (toClosed_state env w)
  · rw [if_neg hstop]
    have hlate : w.client.state ≠ .opened → ¬ IdleLate env w := fun hne h => hne h.1
    cases hstate : w.client.state with
    | closed => exact .of_closed hstate
    | idle => exact paced_doConnect (hlate (by simp [hstate]))
    | connecting => exact paced_doConnect (hlate (by simp [hstate]))
    | opened => exact paced_pollOpen hstate
    | waitingRetry =>
      unfold pollWaiting nowMs
      simp only
      split
      · intro hwait
        exact absurd hwait (by simp)
      · next hpos =>
        refine fun _ => ⟨env.time w.log, ⟨[_], rfl, rfl⟩, iff_of_true ?_ (hlate (by simp [hstate]))⟩
        -- what is returned is what is left
        show (w.client.retryDeadline - shown (env.time w.log)).toInt32.toUInt32.toNat ≤
          msLeft w.client (env.time w.log)
        unfold msLeft
        rw [Int32.le_iff_toInt_le, toInt_toInt32, Int32.toInt_zero] at hpos
        rw [UInt32.toUInt32_toInt32, toInt_toInt32]
        have hlt := (w.client.retryDeadline - .ofNat (env.time w.log)).toNat_lt
        split at hpos
        · next hsmall => rw [if_pos hsmall, Int.toNat_natCast]
        · exact absurd (by omega) hpos

/-! ## §6 A Caller That Sleeps -/

/-- What the `k`-th poll from `w` on returns. -/
def hintOf (env : Env) (w : World) (k : Nat) : UInt32 :=
  (sseClientPoll env ((polls env w k).push (.call .poll))).1

/-- The caller sleeps for exactly `hint` milliseconds, polls, and sleeps for what that poll returned,
twice over. -/
structure Sleeps (env : Env) (w : World) (hint : UInt32) : Prop where
  first : pollTime env (polls env w 0) = env.time (polls env w 0).log + hint.toNat
  next : ∀ k < 2, pollTime env (polls env w (k + 1)) =
    env.time (polls env w (k + 1)).log + (hintOf env w k).toNat

/-- Time spent inside polls: in the one that read the clock at `t₀` and led to `w`, after that
reading, and in `n` polls from `w` on. -/
def timeInside (env : Env) (w : World) (t₀ : Nat) : Nat → Nat
  | 0 => env.time w.log - t₀
  | n + 1 => timeInside env w t₀ n +
      (env.time (polls env w (n + 1)).log - pollTime env (polls env w n))

/-- The `n`-th poll from `w` on calls `open`, first of all. -/
def OpensAt (env : Env) (w : World) (n : Nat) : Prop :=
  ∃ url headers result c rest, (polls env w (n + 1)).log = (polls env w n).log ++
    ⟨.call .poll, (polls env w n).client⟩ :: ⟨.transportOpen url headers result, c⟩ :: rest

/-- **Sleeping for what is left at most costs nothing.** If the first hint is no longer than the
announced delay, `open` is called on time, but for the time spent inside polls. -/
theorem RetryKept.opens_in_time {t₀ : Nat} {d hint : UInt32} (hkept : RetryKept env w t₀ d)
    (htime : TimeFlows env.time) (hsleeps : Sleeps env w hint) (hhint : hint.toNat ≤ d.toNat)
    (hread : t₀ ≤ env.time w.log)
    (hspacing : ∀ k < 2, pollTime env (polls env w k) < readingBefore env w t₀ k + 2 ^ 31) :
    ∃ n, OpensAt env w n ∧
      pollTime env (polls env w n) ≤ t₀ + d.toNat + timeInside env w t₀ n := by
  have hfirst := hsleeps.first
  have hnext := hsleeps.next
  have hstart : env.time (polls env w 0).log = env.time w.log := rfl
  -- a poll ends after it has begun
  have hends : ∀ k, pollTime env (polls env w k) ≤ env.time (polls env w (k + 1)).log := by
    intro k
    apply htime
    rw [polls_succ]
    exact invariant_of_steps
      (I := fun p : Phase × World => ((polls env w k).push (.call .poll)).log <+: p.2.log)
      (fun _ _ hst h => h.trans (step_log hst)) (poll_steps env _) List.prefix_rfl
  have hend₀ : pollTime env (polls env w 0) ≤ env.time (polls env w 1).log := hends 0
  have hend₁ : pollTime env (polls env w 1) ≤ env.time (polls env w 2).log := hends 1
  have hsleep₀ : pollTime env (polls env w 1) =
      env.time (polls env w 1).log + (hintOf env w 0).toNat := hnext 0 (by omega)
  have hsleep₁ : pollTime env (polls env w 2) =
      env.time (polls env w 2).log + (hintOf env w 1).toNat := hnext 1 (by omega)
  have hinside₁ : timeInside env w t₀ 1 = env.time w.log - t₀ +
      (env.time (polls env w 1).log - pollTime env (polls env w 0)) := rfl
  have hinside₂ : timeInside env w t₀ 2 = timeInside env w t₀ 1 +
      (env.time (polls env w 2).log - pollTime env (polls env w 1)) := rfl
  by_cases hdue : t₀ + d.toNat ≤ pollTime env (polls env w 0)
  · -- due at once: the next poll opens
    obtain ⟨-, hzero, hopen⟩ := hkept.due 0 (by simp) hdue fun j hj => hspacing j (by omega)
    rw [hintOf, hzero, UInt32.toNat_zero] at hsleep₀
    exact ⟨1, hopen, by omega⟩
  · -- one poll returns the time left, the next is due, and the one after it opens
    have hearly : pollTime env (polls env w 0) < t₀ + d.toNat := Nat.lt_of_not_le hdue
    rw [hintOf, (hkept.early 0 hearly).2] at hsleep₀
    have hbefore : ∀ j < 1, pollTime env (polls env w j) < t₀ + d.toNat := by
      intro j hj
      obtain rfl : j = 0 := by omega
      exact hearly
    obtain ⟨-, hzero, hopen⟩ := hkept.due 1 hbefore (by omega) fun j hj => hspacing j (by omega)
    rw [hintOf, hzero, UInt32.toNat_zero] at hsleep₁
    exact ⟨2, hopen, by omega⟩

/-- **The sleep hint is late exactly on the idle path.** A poll that leaves the client waiting
returns at most the time left at its last reading of the clock, unless the idle timeout struck in it
and the delay is shorter than the read timeout. So if that is not the case in the poll that
announces a retry, a caller that sleeps what each poll returns calls `open` no later than announced,
but for the time spent inside polls. -/
theorem hint_in_time_iff (htime : TimeFlows env.time) (h : Reachable env cfg w) :
    let poll := sseClientPoll env (w.push (.call .poll))
    poll.2.client.state = .waitingRetry →
      (∃ t, ReadLast (w.push (.call .poll)).log poll.2.log t ∧
        (poll.1.toNat ≤ msLeft poll.2.client t ↔ ¬ IdleLate env (w.push (.call .poll)))) ∧
      ∀ pre t₀ e post, Reported poll.2.log pre t₀ e post → poll.2.client.stopRequested = false →
        ¬ IdleLate env (w.push (.call .poll)) → Sleeps env poll.2 poll.1 →
        (∀ k < 2, pollTime env (polls env poll.2 k) < readingBefore env poll.2 t₀ k + 2 ^ 31) →
        ∃ n, OpensAt env poll.2 n ∧ pollTime env (polls env poll.2 n) ≤
          t₀ + e.retryInMs.toNat + timeInside env poll.2 t₀ n := by
  intro poll hwait
  have hpaced := poll_paced env (w.push (.call .poll)) hwait
  refine ⟨hpaced, ?_⟩
  intro pre t₀ e post hrep hstop hlate hsleeps hspacing
  have hafter : Reachable env cfg poll.2 := by
    obtain ⟨w₀, calls, hw₀, rfl⟩ := h
    refine ⟨w₀, calls ++ [.poll], hw₀, ?_⟩
    unfold runCalls
    rw [List.foldl_append]
    rfl
  -- the poll's last reading is the one it reported
  rcases (reachable_pending hafter pre t₀ e post hrep).2 with ⟨hclosed, -⟩ | ⟨rfl, rfl, hwaiting⟩
  · exact absurd (hclosed.symm.trans hwait) (by simp)
  obtain ⟨c₀, c₁, hlog, -⟩ := hrep
  obtain ⟨t, hread, hiff⟩ := hpaced
  have ht : t = env.time pre := by
    have hlast := hread.lastReading
    rw [show (sseClientPoll env (w.push (.call .poll))).2.log = _ from hlog,
      lastReading_append] at hlast
    exact (Option.some.inj hlast).symm
  have hhint := hiff.mpr hlate
  rw [ht, hwaiting.msLeft_eq] at hhint
  have hstart : env.time pre ≤ env.time poll.2.log := by
    apply htime
    rw [hlog]
    exact List.prefix_append _ _
  have hbegin : env.time pre ≤ pollTime env poll.2 :=
    hstart.trans (htime _ _ (prefix_push List.prefix_rfl _))
  have hkept := Waiting.kept htime hwaiting hstop hbegin
  exact hkept.opens_in_time htime hsleeps hhint hstart hspacing

/-- A server that cannot be reached, on a clock that only moves while the caller sleeps. -/
def sleepingEnv : Env :=
  { deadEnv with time := fun log => if log.length ≤ 6 then 0 else 3000 }

theorem sleepingEnv_timeFlows : TimeFlows sleepingEnv.time := by
  intro log later h
  have hle := h.length_le
  show (if log.length ≤ 6 then 0 else 3000) ≤ if later.length ≤ 6 then 0 else 3000
  split
  · exact Nat.zero_le _
  · rw [if_neg (by omega)]

theorem hint_in_time_iff_of_failure :
    let w := (sseClientPoll sleepingEnv (smallClient.push (.call .poll))).2
    ∃ n, OpensAt sleepingEnv w n ∧
      pollTime sleepingEnv (polls sleepingEnv w n) ≤ 0 + 3000 + timeInside sleepingEnv w 0 n :=
  (hint_in_time_iff sleepingEnv_timeFlows
    (⟨smallClient, [], rfl, rfl⟩ : Reachable sleepingEnv smallConfig smallClient)
    (by decide +kernel)).2 (failedClient.log.take 2) 0 ⟨.transport, 0, true, 3000⟩ []
    ⟨{ failedClient.client with state := .connecting, retryDeadline := 0 },
      { failedClient.client with retryDeadline := 3000 }, by decide +kernel, rfl, by simp⟩
    (by decide +kernel) (fun h => absurd h.1 (by decide))
    ⟨by decide +kernel, by decide +kernel⟩ (by decide +kernel)

/-- A client that waits long for bytes, but not long for a silent server. -/
def impatientConfig : SseClientConfig :=
  { smallConfig with idleTimeoutMs := 1, readTimeoutMs := 10000 }

/-- That client, connected to a server that sends nothing. -/
def impatientClient : World :=
  runCalls quietEnv ⟨initClient impatientConfig 0, []⟩ [.poll]

theorem hint_late :
    let w := impatientClient.push (.call .poll)
    let poll := sseClientPoll quietEnv w
    Reachable quietEnv impatientConfig impatientClient ∧ poll.2.client.state = .waitingRetry ∧
      poll.1 = 10000 ∧ (∃ t, ReadLast w.log poll.2.log t ∧ msLeft poll.2.client t = 3000) ∧
      ∀ t, ReadLast w.log poll.2.log t → ¬ poll.1.toNat ≤ msLeft poll.2.client t := by
  intro w poll
  have hlog : poll.2.log = w.log ++ poll.2.log.drop w.log.length := by decide +kernel
  have hread : lastReading (poll.2.log.drop w.log.length) = some 8 := by decide +kernel
  refine ⟨⟨⟨initClient impatientConfig 0, []⟩, [.poll], rfl, rfl⟩, by decide +kernel,
    by decide +kernel, ⟨8, ⟨_, hlog, hread⟩, by decide +kernel⟩, ?_⟩
  intro t ht
  have hlast := ht.lastReading
  rw [hlog, lastReading_append, hread] at hlast
  obtain rfl := Option.some.inj hlast
  decide +kernel

end EventSource.Client
