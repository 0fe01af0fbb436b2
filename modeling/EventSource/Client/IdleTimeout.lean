import EventSource.Client.Hints
import EventSource.Client.PollParts

/-!
# The Idle Timeout

An OPEN client remembers when its connection was opened or last brought bytes, whatever the callbacks
do in between. So a failure that is blamed on silence is preceded by as much silence as was
configured. The other way round the clock limits what can be seen: it wraps, and a silence is noticed
by its length up to full turns of it.
-/

namespace EventSource.Client

open EventSource.CMemory
open EventSource.Parser
open EventSource.Trace
open EventSource.WrapClock

variable {env : Env} {cfg : SseClientConfig} {w v : World} {past a b : Log}

/-! ## §1 Signs of Life -/

/-- A connection is opened, or bytes arrive. -/
def Obs.lifeSign : Obs → Bool
  | .transportOpen _ _ _ => true
  | .transportRead _ _ r => 0 < r
  | _ => false

/-- Anything else. -/
def Obs.silence (o : Obs) : Bool :=
  !o.lifeSign

/-- The last sign of life in a log is the end of `past`. -/
structure SilentSince (past log : Log) : Prop where
  sign : ∃ pre e, past = pre ++ [e] ∧ e.obs.lifeSign = true
  quiet : Adds Obs.silence past log

theorem permits_silence (R : ErrorReason → Bool) : Permits Obs.silence R where
  close := rfl
  closed := rfl
  clock := fun _ => rfl
  opened := fun _ => rfl
  policy := fun _ _ => rfl
  failed := fun _ _ => rfl

theorem permitsFeeding_silence : PermitsFeeding Obs.silence where
  close := rfl
  closed := rfl
  byte := fun _ => rfl
  parser := fun _ => rfl
  message := fun _ => rfl
  lost := fun _ _ => rfl

theorem SilentSince.trans (h : SilentSince past a) (hab : Adds Obs.silence a b) :
    SilentSince past b :=
  ⟨h.sign, h.quiet.trans hab⟩

/-- A sign of life ends the silence before it. -/
theorem silentSince_sign (log : Log) {e : Entry} (he : e.obs.lifeSign = true) :
    SilentSince (log ++ [e]) (log ++ [e]) :=
  ⟨⟨log, e, rfl, he⟩, .refl _ _⟩

/-! ## §2 What the Client Remembers -/

/-- An OPEN client has kept the time of the last sign of life. -/
def Remembers (env : Env) (w : World) : Prop :=
  w.client.state = .opened →
    ∃ past, SilentSince past w.log ∧ w.client.lastRxMs = shown (env.time past)

theorem remembers_of_down (h : w.client.state ≠ .opened) : Remembers env w :=
  fun hopen => absurd hopen h

theorem remembers_of_closed (h : w.client.state = .closed) : Remembers env w := by
  apply remembers_of_down
  rw [h]
  simp

/-- A failure ends the connection. -/
theorem failConn_down (env : Env) (w : World) (reason : ErrorReason) (status : Int)
    (retryAfterS : Int32) :
    (failConn env w reason status retryAfterS).client.state ≠ .opened := by
  by_cases hclosed : (failConn env w reason status retryAfterS).client.state = .closed
  · rw [hclosed]
    simp
  · obtain ⟨t, hretry⟩ := failConn_of_alive hclosed
    rw [hretry.waiting.state]
    simp

/-- The client is closed, or its time is still `x`. -/
def HeardAt (x : UInt32) (w : World) : Prop :=
  w.client.state = .closed ∨ w.client.lastRxMs = x

theorem HeardAt.acts {x : UInt32} (h : HeardAt x w) (acts : List Reentry) :
    HeardAt x (acts.foldl (act env) w) := by
  by_cases hend : (acts.foldl (act env) w).client.state = .closed
  · exact .inl hend
  · obtain ⟨stop, heq⟩ := acts_of_alive hend
    rcases h with hclosed | hx
    · exact absurd (foldl_act_closed env acts hclosed) hend
    · right
      rw [heq]
      exact hx

theorem HeardAt.deliver {x : UInt32} (h : HeardAt x w) (c : Callback) :
    HeardAt x (deliver env w c) := by
  have hbridged : HeardAt x (bridged (w.push (.parser c)) c) := by
    rcases bridged_cases (w.push (.parser c)) c with
      heq | ⟨-, ⟨_, _, heq⟩ | ⟨_, heq⟩ | heq | ⟨_, heq⟩ | ⟨_, -, heq⟩⟩ <;> rw [heq] <;> exact h
  rw [deliver_eq]
  exact hbridged.acts _

theorem HeardAt.clientFeed {x : UInt32} (h : HeardAt x w) (bytes : List UInt8) :
    HeardAt x (clientFeed env w bytes) := by
  apply clientFeed_keeps (P := HeardAt x) _ _ h
  · exact fun v b hv => hv
  · exact fun v c hv => hv.deliver c

theorem heardAt_acceptResponse (env : Env) (w : World) :
    HeardAt (shown (env.time w.log)) (acceptResponse env w) := by
  let v := ((w.update fun c => { c with parser := sseParserReset c.parser }).push
    (.clock (env.time w.log))).update fun c =>
      { c with lastRxMs := .ofNat (env.time w.log), state := .opened }
  have hv : HeardAt (shown (env.time w.log)) v := .inr rfl
  have heq : acceptResponse env w =
      if v.client.cfg.callbacks.onOpen then callUser env v (.onOpen v.client.attempts) else v := rfl
  rw [heq]
  split
  · exact HeardAt.acts (w := v.push _) hv _
  · exact hv

/-- A connection that is accepted has just been opened. -/
theorem remembers_judgeResponse {log : Log} {e : Entry} (hlog : w.log = log ++ [e])
    (he : e.obs.lifeSign = true) (info : SseResponseInfo) :
    Remembers env (judgeResponse env w info) := by
  have hsince : SilentSince w.log (judgeResponse env w info).log := by
    refine SilentSince.trans (a := w.log) ?_
      ((permits_silence ErrorReason.ofOpen).judgeResponse env w info)
    rw [hlog]
    exact silentSince_sign log he
  unfold judgeResponse at hsince ⊢
  split
  · exact remembers_of_down (failConn_down _ _ _ _ _)
  · split
    · exact remembers_of_down (failConn_down _ _ _ _ _)
    · split
      · exact remembers_of_down (failConn_down _ _ _ _ _)
      · -- only here does the client become OPEN
        next hstop hstatus htype =>
        rw [if_neg hstop, if_neg hstatus, if_neg htype] at hsince
        intro hopen
        -- the clock is read behind the connection, and shows the time kept
        rcases heardAt_acceptResponse env w with hclosed | hx
        · rw [hopen] at hclosed
          cases hclosed
        · exact ⟨w.log, hsince, hx⟩

theorem remembers_doConnect (env : Env) (w : World) : Remembers env (doConnect env w) := by
  unfold doConnect
  simp only
  split
  · exact remembers_of_down (failConn_down _ _ _ _ _)
  · exact remembers_judgeResponse (e := ⟨.transportOpen _ _ _, _⟩) rfl rfl _

/-- After a read that timed out, an OPEN client is as it was. -/
theorem remembers_pollTimeout (h : Remembers env w) : Remembers env (pollTimeout env w).2 := by
  have hclock : Remembers env (w.push (.clock (env.time w.log))) := by
    intro hopen
    obtain ⟨past, hpast, hx⟩ := h hopen
    exact ⟨past, hpast.trans (.one _ rfl), hx⟩
  unfold pollTimeout
  simp only
  split
  · split
    · exact remembers_of_down (failConn_down _ _ _ _ _)
    · exact hclock
  · exact h

theorem remembers_pollRead {log : Log} {len : Nat} {ms : UInt32} {r : Int} {c : SseClient}
    (hlog : w.log = log ++ [⟨.transportRead len ms r, c⟩]) (hquiet : ¬ 0 < r → Remembers env w) :
    Remembers env (pollRead env w r).2 := by
  unfold pollRead
  split
  · exact remembers_of_closed (toClosed_state env w)
  · split
    · next hpos =>
      split
      · exact remembers_of_down (failConn_down _ _ _ _ _)
      · -- the bytes that have come are the last sign of life, until they have been fed
        have hsince : SilentSince w.log (receive w (env.time w.log)).log := by
          refine SilentSince.trans (a := w.log) ?_ (.one _ rfl)
          rw [hlog]
          exact silentSince_sign log (decide_eq_true hpos)
        have hfed := permitsFeeding_silence.clientFeed env (receive w (env.time w.log))
          ((receive w (env.time w.log)).client.rxBuf.take r.toNat)
        have hreceived : HeardAt (shown (env.time w.log)) (receive w (env.time w.log)) := .inr rfl
        have hkept : HeardAt (shown (env.time w.log)) (clientFeed env _ _) :=
          hreceived.clientFeed ((receive w (env.time w.log)).client.rxBuf.take r.toNat)
        intro hopen
        -- while the bytes are fed, callbacks can only close the client
        rcases hkept with hclosed | hx
        · exact absurd (hclosed.symm.trans hopen) (by simp)
        · exact ⟨w.log, hsince.trans hfed, hx⟩
    · next hpos =>
      split
      · exact remembers_pollTimeout (hquiet hpos)
      · exact remembers_of_down (failConn_down _ _ _ _ _)

/-- A read that brings nothing is no sign of life. -/
theorem remembers_readOnce (h : Remembers env w) {r : Int} (hr : ¬ 0 < r) (bytes : Mem)
    (stop : Bool) : Remembers env (readOnce w r bytes stop) := by
  intro hopen
  obtain ⟨past, hpast, hx⟩ := h hopen
  exact ⟨past, hpast.trans (.one _ (by simp [Obs.silence, Obs.lifeSign, hr])), hx⟩

theorem Remembers.call (h : Remembers env w) (c : ApiCall) : Remembers env (w.push (.call c)) := by
  intro hopen
  obtain ⟨past, hpast, hx⟩ := h hopen
  exact ⟨past, hpast.trans (.one _ rfl), hx⟩

theorem Remembers.apply (h : Remembers env w) (call : ApiCall) :
    Remembers env (apply env w call) := by
  have hv := h.call call
  cases call with
  | close => exact remembers_of_closed (toClosed_state env _)
  | requestStop => exact hv
  | poll =>
    let v := w.push (.call .poll)
    show Remembers env (sseClientPoll env v).2
    cases pollCase env v with
    | stopped hstop heq =>
      rw [heq]
      exact remembers_of_closed (toClosed_state env v)
    | closed hs heq =>
      rw [heq]
      exact hv
    | connect hs heq =>
      rw [heq]
      exact remembers_doConnect env v
    -- a waiting client stays so or becomes CONNECTING
    | waiting hs heq =>
      rw [heq]
      apply remembers_of_down
      unfold pollWaiting nowMs
      simp only
      split
      · simp
      · show v.client.state ≠ .opened
        rw [hs]
        simp
    | opened hs heq =>
      rw [heq]
      exact remembers_pollRead rfl fun hr => remembers_readOnce hv hr _ _

theorem reachable_remembers (h : Reachable env cfg w) : Remembers env w := by
  refine reachable_induction (fun w₀ hw₀ => ?_) (fun _ call _ hw => hw.apply call) h
  apply remembers_of_down
  rw [init_idle hw₀]
  simp

/-! ## §3 Blame -/

/-- A failure is put to the policy, or reported, as the end of a silence. -/
def Obs.blamesSilence : Obs → Bool
  | .onError e | .reconnectPolicy e => e.reason = .idleTimeout
  | _ => false

/-- Anything else. -/
def Obs.blameless (o : Obs) : Bool :=
  !o.blamesSilence

/-- A failure is blamed on silence only with a timeout that is set, and after as much silence. -/
def BlamesRightly (env : Env) (idleMs : UInt32) (pre : Log) (e : Entry) : Prop :=
  e.obs.blamesSilence = true → idleMs ≠ 0 ∧
    ∃ past now, SilentSince past now ∧ Adds Obs.silence now pre ∧
      env.time past + idleMs.toNat ≤ env.time now

theorem permits_blameless {R : ErrorReason → Bool} (hR : R .idleTimeout = false) :
    Permits Obs.blameless R := by
  have hreason : ∀ e : SseError, R e.reason = true → e.reason ≠ .idleTimeout := by
    intro e he heq
    rw [heq, hR] at he
    cases he
  exact
    { close := rfl
      closed := rfl
      clock := fun _ => rfl
      opened := fun _ => rfl
      policy := fun e he => by simp [Obs.blameless, Obs.blamesSilence, hreason e he]
      failed := fun e he => by simp [Obs.blameless, Obs.blamesSilence, hreason e he] }

theorem permitsFeeding_blameless : PermitsFeeding Obs.blameless where
  close := rfl
  closed := rfl
  byte := fun _ => rfl
  parser := fun _ => rfl
  message := fun _ => rfl
  lost := by
    intro e he
    have hreason : e.reason ≠ .idleTimeout := by
      intro heq
      rw [heq] at he
      cases he
    simp [Obs.blameless, Obs.blamesSilence, hreason]

theorem Adds.blameless {idleMs : UInt32} (h : Adds Obs.blameless a b)
    (ha : Always (BlamesRightly env idleMs) a) : Always (BlamesRightly env idleMs) b := by
  refine h.always (fun pre e he hblames => ?_) ha
  unfold Obs.blameless at he
  rw [hblames] at he
  cases he

/-- The time that the idle check computes. -/
theorem idleFor_iff (htime : TimeFlows env.time) (hpast : SilentSince past w.log)
    (hx : w.client.lastRxMs = shown (env.time past)) :
    idleFor w.client (env.time w.log) = true ↔
      w.client.cfg.idleTimeoutMs.toNat ≤ (env.time w.log - env.time past) % 2 ^ 32 := by
  obtain ⟨es, heq, -⟩ := hpast.quiet
  have hle : env.time past ≤ env.time w.log := htime _ _ ⟨es, heq.symm⟩
  unfold idleFor
  rw [decide_eq_true_eq, hx, ge_iff_le, UInt32.le_iff_toNat_le, toNat_shown_sub_mod hle]

/-- **An idle failure is preceded by silence.** -/
theorem blames_pollTimeout (htime : TimeFlows env.time) (hrem : Remembers env w)
    (hs : w.client.state = .opened)
    (h : Always (BlamesRightly env w.client.cfg.idleTimeoutMs) w.log) :
    Always (BlamesRightly env w.client.cfg.idleTimeoutMs) (pollTimeout env w).2.log := by
  have hclock : Always (BlamesRightly env w.client.cfg.idleTimeoutMs)
      (w.push (.clock (env.time w.log))).log := Adds.blameless (.one _ rfl) h
  unfold pollTimeout
  simp only
  split
  · next hset =>
    split
    · next hidle =>
      obtain ⟨past, hpast, hx⟩ := hrem hs
      -- what the wrapped clock shows is no more than the true silence
      have hlong : env.time past + w.client.cfg.idleTimeoutMs.toNat ≤ env.time w.log := by
        have hmod := (idleFor_iff htime hpast hx).mp hidle
        have hle := Nat.mod_le (env.time w.log - env.time past) (2 ^ 32)
        have hflow : env.time past ≤ env.time w.log := by
          obtain ⟨es, heq, -⟩ := hpast.quiet
          exact htime _ _ ⟨es, heq.symm⟩
        omega
      have hadds : Adds Obs.silence (w.push (.clock (env.time w.log))).log
          (failConn env (w.push (.clock (env.time w.log))) .idleTimeout 0 (-1)).log :=
        (permits_silence fun _ => true).failConn env _ rfl 0 (-1)
      refine hadds.always_from (fun pre e hpre _ _ => ⟨hset, past, w.log, hpast, ?_, hlong⟩) hclock
      exact (Adds.one _ rfl).trans hpre
    · exact hclock
  · exact h

theorem blames_pollRead (htime : TimeFlows env.time) (r : Int) (hrem : r = readTimeout → Remembers env w)
    (hs : w.client.state = .opened)
    (h : Always (BlamesRightly env w.client.cfg.idleTimeoutMs) w.log) :
    Always (BlamesRightly env w.client.cfg.idleTimeoutMs) (pollRead env w r).2.log := by
  have hp := permits_blameless (R := ErrorReason.ofOpen) rfl
  unfold pollRead
  split
  · exact (hp.toClosed env w).blameless h
  · split
    · split
      · exact (hp.failConn env w rfl _ _).blameless h
      · have hclock : Adds Obs.blameless w.log (receive w (env.time w.log)).log := .one _ rfl
        exact (hclock.trans (permitsFeeding_blameless.clientFeed env _ _)).blameless h
    · split
      · next hzero => exact blames_pollTimeout htime (hrem hzero) hs h
      · exact (hp.failConn env w rfl _ _).blameless h

theorem blames_apply (htime : TimeFlows env.time) (hrem : Remembers env w)
    (h : Always (BlamesRightly env w.client.cfg.idleTimeoutMs) w.log) (call : ApiCall) :
    Always (BlamesRightly env w.client.cfg.idleTimeoutMs) (apply env w call).log := by
  let v := w.push (.call call)
  have hv : Always (BlamesRightly env w.client.cfg.idleTimeoutMs) v.log :=
    Adds.blameless (.one _ rfl) h
  have hp := permits_blameless (R := ErrorReason.ofOpen) rfl
  cases call with
  | close => exact (hp.toClosed env v).blameless hv
  | requestStop => exact hv
  | poll =>
    show Always _ (sseClientPoll env v).2.log
    cases pollCase env v with
    | stopped hstop heq =>
      rw [heq]
      exact (hp.toClosed env v).blameless hv
    | closed hs heq =>
      rw [heq]
      exact hv
    | connect hs heq =>
      rw [heq]
      -- an attempt fails for other reasons
      apply Adds.blameless ?_ hv
      unfold doConnect
      simp only
      have hopened : Adds Obs.blameless v.log (attempt v (env.extraHeaders v.log)
          (env.openReply v.log).result (env.openReply v.log).stop).log := .one _ rfl
      split
      · exact hopened.trans (hp.failConn env _ rfl _ _)
      · exact hopened.trans (hp.judgeResponse env _ _)
    | waiting hs heq =>
      rw [heq]
      apply Adds.blameless ?_ hv
      unfold pollWaiting nowMs
      simp only
      split <;> exact .one _ rfl
    | opened hs heq =>
      rw [heq]
      let reply := env.readReply v.log
      let u := readOnce v reply.result reply.bytes reply.stop
      have hu : Always (BlamesRightly env w.client.cfg.idleTimeoutMs) u.log :=
        Adds.blameless (.one _ rfl) hv
      have hnone : reply.result = readTimeout → Remembers env u := by
        intro hzero
        apply remembers_readOnce (hrem.call .poll)
        rw [hzero]
        exact Int.lt_irrefl 0
      exact blames_pollRead htime reply.result hnone hs hu

theorem reachable_idleTimeout (h : Reachable env cfg w) :
    w.client.cfg.idleTimeoutMs = cfg.idleTimeoutMs := by
  rw [(reachable_life h).config]
  rfl

theorem reachable_blames (htime : TimeFlows env.time) (h : Reachable env cfg w) :
    Always (BlamesRightly env cfg.idleTimeoutMs) w.log := by
  refine reachable_induction (P := fun v => Always (BlamesRightly env cfg.idleTimeoutMs) v.log)
    ?_ ?_ h
  · intro w₀ hw₀
    rw [init_log hw₀]
    exact always_nil _
  · intro v call hv hall
    rw [← reachable_idleTimeout hv] at hall ⊢
    exact blames_apply htime (reachable_remembers hv) hall call

/-! ## §4 The Idle Timeout -/

/-- The log when the read of a poll returns. -/
def readLog (env : Env) (w : World) : Log :=
  let v := w.push (.call .poll)
  let reply := env.readReply v.log
  (readOnce v reply.result reply.bytes reply.stop).log

/-- A poll whose read times out does the idle check. -/
theorem poll_timed_out (hs : w.client.state = .opened) (hstop : w.client.stopRequested = false)
    (hnostop : (env.readReply (w.push (.call .poll)).log).stop = false)
    (hzero : (env.readReply (w.push (.call .poll)).log).result = readTimeout) :
    apply env w .poll =
      (pollTimeout env (readOnce (w.push (.call .poll))
        (env.readReply (w.push (.call .poll)).log).result
        (env.readReply (w.push (.call .poll)).log).bytes
        (env.readReply (w.push (.call .poll)).log).stop)).2 := by
  let v := w.push (.call .poll)
  let reply := env.readReply v.log
  let u := readOnce v reply.result reply.bytes reply.stop
  have hread : pollOpen env v = pollTimeout env u := by
    have hu : ¬ u.client.stopRequested = true := by
      show ¬ (w.client.stopRequested || reply.stop) = true
      rw [hstop, show reply.stop = false from hnostop]
      simp
    show pollRead env u reply.result = _
    unfold pollRead
    rw [if_neg hu, show reply.result = readTimeout from hzero]
    rfl
  show (sseClientPoll env v).2 = _
  -- no other case fits the state
  cases pollCase env v with
  | stopped hyes heq => exact absurd (hstop.symm.trans hyes) (by simp)
  | closed hs' heq => exact absurd (hs.symm.trans hs') (by simp)
  | connect hs' heq => rcases hs' with hs' | hs' <;> exact absurd (hs.symm.trans hs') (by simp)
  | waiting hs' heq => exact absurd (hs.symm.trans hs') (by simp)
  | opened hs' heq => exact heq.trans (congrArg Prod.snd hread)

/-- **The idle timeout is exact up to turns of the clock.** Every failure that is blamed on silence,
anywhere in a run, comes with a timeout that is set and after a silence of at least that length. And
a read that times out leaves an OPEN client OPEN if and only if there is no timeout, or the silence so
far, up to full turns of the clock, is shorter. -/
theorem idle_timeout_exact (htime : TimeFlows env.time) (h : Reachable env cfg w) :
    Always (BlamesRightly env cfg.idleTimeoutMs) w.log ∧
      (w.client.state = .opened → w.client.stopRequested = false →
        ∃ past, SilentSince past w.log ∧
          let reply := env.readReply (w.push (.call .poll)).log
          reply.stop = false → reply.result = readTimeout →
            ((apply env w .poll).client.state = .opened ↔
              cfg.idleTimeoutMs = 0 ∨
                (env.time (readLog env w) - env.time past) % 2 ^ 32 <
                  cfg.idleTimeoutMs.toNat)) := by
  refine ⟨reachable_blames htime h, fun hs hstop => ?_⟩
  obtain ⟨past, hpast, hx⟩ := reachable_remembers h hs
  refine ⟨past, hpast, fun hnostop hzero => ?_⟩
  let v := w.push (.call .poll)
  let reply := env.readReply v.log
  let u := readOnce v reply.result reply.bytes reply.stop
  have hpoll : apply env w .poll = (pollTimeout env u).2 := poll_timed_out hs hstop hnostop hzero
  -- neither the call nor a read that brings nothing is a sign of life
  have hsilent : SilentSince past u.log := by
    refine (hpast.trans (.one _ rfl)).trans (.one _ ?_)
    show (!decide (0 < reply.result)) = true
    rw [show reply.result = readTimeout from hzero]
    rfl
  have hidle := idleFor_iff (w := u) htime hsilent hx
  rw [hpoll]
  unfold pollTimeout
  simp only
  rw [← reachable_idleTimeout h]
  by_cases hset : w.client.cfg.idleTimeoutMs = 0
  · have hunset : ¬ u.client.cfg.idleTimeoutMs ≠ 0 := not_not_intro hset
    rw [if_neg hunset]
    exact iff_of_true hs (.inl hset)
  · have hset' : u.client.cfg.idleTimeoutMs ≠ 0 := hset
    rw [if_pos hset']
    split
    · next hstrikes =>
      refine iff_of_false (failConn_down _ _ _ _ _) ?_
      rintro (hnone | hshort)
      · exact hset hnone
      · exact absurd (hidle.mp hstrikes) (Nat.not_le_of_lt hshort)
    · next hquiet =>
      refine iff_of_true hs (.inr ?_)
      exact Nat.lt_of_not_le fun hle => hquiet (hidle.mpr hle)

/-- Ten milliseconds pass with every entry of the log. -/
def steadyEnv : Env :=
  { quietEnv with time := fun log => 10 * log.length }

theorem steadyEnv_timeFlows : TimeFlows steadyEnv.time :=
  fun _ _ h => Nat.mul_le_mul_left 10 h.length_le

/-- A client that gives up a silent connection after 50 milliseconds. -/
def watchingConfig : SseClientConfig :=
  { smallConfig with idleTimeoutMs := 50 }

def watchingClient : World :=
  runCalls steadyEnv ⟨initClient watchingConfig 0, []⟩ (List.replicate 4 .poll)

theorem watchingClient_reachable : Reachable steadyEnv watchingConfig watchingClient :=
  ⟨⟨initClient watchingConfig 0, []⟩, List.replicate 4 .poll, rfl, rfl⟩

theorem idle_timeout_exact_of_silence :
    (∃ e ∈ watchingClient.log, e.obs.blamesSilence = true) ∧
      Always (BlamesRightly steadyEnv 50) watchingClient.log :=
  ⟨by decide +kernel, (idle_timeout_exact steadyEnv_timeFlows watchingClient_reachable).1⟩

end EventSource.Client
