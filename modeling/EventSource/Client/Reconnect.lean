import EventSource.Client.Lifecycle
import EventSource.Lib.WrapClock

/-!
# What `on_error` Announces

After a connection failure, `on_error` says whether and when the client will try again. A scheduled
retry waits for exactly the announced delay, on a clock that wraps; a refused one is followed by
`on_closed` and nothing else.
-/

namespace EventSource.Client

open EventSource.CMemory
open EventSource.Parser
open EventSource.Trace
open EventSource.WrapClock

variable {env : Env} {cfg : SseClientConfig} {w : World}

/-! ## §1 The Past Is Kept -/

theorem prefix_push {log : Log} (h : log <+: w.log) (o : Obs) : log <+: (w.push o).log :=
  h.trans (List.prefix_append _ _)

theorem survives_log (log : Log) : SurvivesClosing fun v => log <+: v.log where
  transport := fun _ h => prefix_push h _
  closed := fun _ h => h
  onClosed := fun _ h => prefix_push h _

theorem closeTransport_log (w : World) : w.log <+: (closeTransport w).log :=
  (survives_log w.log).closeTransport List.prefix_rfl

theorem closing_log (w : World) : w.log <+: (closing w).log :=
  (survives_log w.log).closing List.prefix_rfl

theorem delivered_log (w : World) (c : Callback) : w.log <+: (delivered w c).log := by
  have hpush : w.log <+: (w.push (.parser c)).log := prefix_push List.prefix_rfl _
  unfold delivered
  rcases bridged_cases (w.push (.parser c)) c with h | ⟨-, ⟨_, _, h⟩ | ⟨_, h⟩ | h | ⟨_, h⟩ |
    ⟨_, -, h⟩⟩ <;> rw [h]
  · exact hpush
  · exact hpush
  · exact hpush
  · exact hpush
  · apply prefix_push
    exact hpush
  · apply prefix_push
    exact hpush

theorem openConnection_log (w : World) (t : Nat) : w.log <+: (openConnection w t).log := by
  have hclock : ∀ c, w.log <+: w.log ++ [⟨.clock t, c⟩] := fun _ => List.prefix_append _ _
  unfold openConnection
  simp only
  split
  · apply prefix_push
    exact hclock _
  · exact hclock _

theorem schedule_log (w : World) (e : SseError) (retryAfterS : Int32) (t : Nat) :
    w.log <+: (schedule w e retryAfterS t).log := by
  have hclock : ∀ c, w.log <+: w.log ++ [⟨.clock t, c⟩] := fun _ => List.prefix_append _ _
  unfold schedule
  simp only
  split
  · apply prefix_push
    exact hclock _
  · exact hclock _

theorem attempt_log (w : World) (extra : List Mem) (result : Int) (stop : Bool) :
    w.log <+: (attempt w extra result stop).log :=
  List.prefix_append _ _

theorem step_log {s t : Phase × World} (h : Step env s t) : s.2.log <+: t.2.log := by
  -- every branch appends to the log or leaves it
  cases h with
  | call w c => exact prefix_push List.prefix_rfl _
  | stop ph w => exact List.prefix_rfl
  | close ph w hph => exact closing_log w
  | tick w => exact prefix_push List.prefix_rfl _
  | connect w stop hs => exact attempt_log w _ 0 stop
  | connectFail w result stop hs hr =>
    exact (attempt_log w _ result stop).trans (closeTransport_log _)
  | reject w => exact closeTransport_log w
  | accept w => exact openConnection_log w _
  | read w result bytes stop hs => exact List.prefix_append _ _
  | drop w hs => exact closeTransport_log w
  | receive w hs => exact List.prefix_append _ _
  | byte w b hs hread => exact List.prefix_append _ _
  | deliver w c rest called => exact delivered_log w c
  | parsed w called => exact List.prefix_rfl
  | consult w e hs => exact prefix_push List.prefix_rfl _
  | refuse w e hs hr =>
    show w.log <+: (refusal w e).log
    unfold refusal
    split
    · exact prefix_push List.prefix_rfl _
    · exact List.prefix_rfl
  | retry w e retryAfterS hs hr ha => exact schedule_log w e retryAfterS _
  | abandon ph w hph hs => exact List.prefix_rfl
  | due w hs => exact List.prefix_append _ _
  | finish ph w hph => exact List.prefix_rfl

/-- No call forgets anything. -/
theorem runCalls_log (env : Env) (w : World) (calls : List ApiCall) :
    w.log <+: (runCalls env w calls).log := by
  refine invariant_of_steps (I := fun p : Phase × World => w.log <+: p.2.log) ?_
    (runCalls_steps env w calls) List.prefix_rfl
  exact fun _ _ hst h => h.trans (step_log hst)

/-! ## §2 The Announced Retry -/

/-- The log ends in a report, made at a reading `t` of the clock, that there will be a retry; the
call that made it has since logged `post`. -/
def Reported (log pre : Log) (t : Nat) (e : SseError) (post : Log) : Prop :=
  ∃ c₀ c₁, log = pre ++ ⟨.clock t, c₀⟩ :: ⟨.onError e, c₁⟩ :: post ∧ e.willRetry = true ∧
    ∀ x ∈ post, ∀ call, x.obs ≠ .call call

/-- The client waits for a retry `d` after time `t`. -/
structure Waiting (t : Nat) (d : UInt32) (c : SseClient) : Prop where
  state : c.state = .waitingRetry
  deadline : c.retryDeadline = shown t + d
  near : d.toNat < 2 ^ 31

/-- The clamp leaves a delay that the signed comparison can tell. -/
theorem retryDelay_lt (c : SseClient) (retryAfterS : Int32) :
    (retryDelay c retryAfterS).1.toNat < 2 ^ 31 := by
  have hclamp : ∀ d : UInt64,
      (if d > int32Max.toUInt64 then int32Max else d.toUInt32).toNat < 2 ^ 31 := by
    intro d
    split
    · decide
    · next h =>
      have hle : d.toNat ≤ 0x7FFFFFFF := UInt64.le_iff_toNat_le.mp (UInt64.not_lt.mp h)
      rw [UInt64.toNat_toUInt32]
      omega
  exact hclamp _

theorem reported_snoc {log pre post : Log} {x : Entry} {t : Nat} {e : SseError}
    (h : Reported (log ++ [x]) pre t e post) :
    (post = [] ∧ x.obs = .onError e ∧ ∃ c₀, log = pre ++ [⟨.clock t, c₀⟩]) ∨
      ((∀ call, x.obs ≠ .call call) ∧ ∃ post', post = post' ++ [x] ∧ Reported log pre t e post') := by
  obtain ⟨c₀, c₁, hlog, hretry, hcalls⟩ := h
  rcases List.eq_nil_or_concat post with rfl | ⟨post', y, rfl⟩
  · have hsplit : log ++ [x] = (pre ++ [⟨.clock t, c₀⟩]) ++ [⟨.onError e, c₁⟩] := by
      rw [hlog]
      simp
    obtain ⟨hpre, hx⟩ := List.append_inj' hsplit rfl
    rw [(List.cons.inj hx).1]
    exact .inl ⟨rfl, rfl, c₀, hpre⟩
  · have hsplit : log ++ [x] = (pre ++ ⟨.clock t, c₀⟩ :: ⟨.onError e, c₁⟩ :: post') ++ [y] := by
      rw [hlog]
      simp
    obtain ⟨hpre, hx⟩ := List.append_inj' hsplit rfl
    obtain rfl := (List.cons.inj hx).1
    refine .inr ⟨hcalls x (by simp), post', by simp, c₀, c₁, hpre, hretry, ?_⟩
    exact fun z hz => hcalls z (by simp [hz])

/-- No report is open. -/
def Settled (log : Log) : Prop :=
  ∀ pre t e post, ¬ Reported log pre t e post

/-- Anything but `on_error` leaves nothing open. -/
theorem Settled.snoc {log : Log} (h : Settled log) {x : Entry} (hx : ∀ e, x.obs ≠ .onError e) :
    Settled (log ++ [x]) := by
  intro pre t e post hrep
  rcases reported_snoc hrep with ⟨-, hobs, -⟩ | ⟨-, post', -, hrep'⟩
  · exact hx e hobs
  · exact h pre t e post' hrep'

theorem Settled.push (h : Settled w.log) {o : Obs} (ho : ∀ e, o ≠ .onError e) :
    Settled (w.push o).log :=
  h.snoc ho

/-- An `on_error` that does not follow a reading of the clock is no report of a failure. -/
theorem Settled.push_onError (h : Settled w.log) {e : SseError}
    (hlast : e.willRetry = true → ∀ l t c, w.log ≠ l ++ [⟨.clock t, c⟩]) :
    Settled (w.push (.onError e)).log := by
  intro pre t e' post hrep
  obtain ⟨_, _, -, hretry, -⟩ := id hrep
  rcases reported_snoc hrep with ⟨-, hobs, c₀, hlog⟩ | ⟨-, post', -, hrep'⟩
  · obtain rfl := Obs.onError.inj hobs
    exact hlast hretry pre t c₀ hlog
  · exact h pre t e' post' hrep'

theorem survives_settled : SurvivesClosing fun v => Settled v.log where
  transport := fun _ h => Settled.push h (by simp)
  closed := fun _ h => h
  onClosed := fun _ h => Settled.push h (by simp)

theorem Settled.closeTransport (h : Settled w.log) : Settled (closeTransport w).log :=
  survives_settled.closeTransport h

theorem Settled.closing (h : Settled w.log) : Settled (closing w).log :=
  survives_settled.closing h

theorem Settled.attempt (h : Settled w.log) (extra : List Mem) (result : Int) (stop : Bool) :
    Settled (attempt w extra result stop).log :=
  Settled.snoc (x := ⟨.transportOpen _ _ result, _⟩) h (by simp)

theorem Settled.delivered (h : Settled w.log) (c : Callback) : Settled (delivered w c).log := by
  have hp : Settled (w.push (.parser c)).log := h.push (by simp)
  unfold Client.delivered
  rcases bridged_cases (w.push (.parser c)) c with heq | ⟨-, ⟨_, _, heq⟩ | ⟨_, heq⟩ | heq |
    ⟨_, heq⟩ | ⟨_, -, heq⟩⟩ <;> rw [heq]
  · exact hp
  · exact hp
  · exact hp
  · exact hp
  · exact Settled.push (w := (w.push (.parser c)).update fun c => { c with attempts := 0 }) hp
      (by simp)
  · -- the entry before is the parser's callback
    apply hp.push_onError
    intro _ l t c₀ heq
    obtain ⟨-, hx⟩ := List.append_inj' heq rfl
    simp at hx

/-- Inside a call a report is the last thing that happens, short of the client's being closed. -/
def Pending (time : Log → Nat) (p : Phase × World) : Prop :=
  ∀ pre t e post, Reported p.2.log pre t e post →
    (p.1 = .scheduled ∨ p.1 = .between) ∧
      ((p.2.client.state = .closed ∧ ∀ x ∈ post, x.obs = .onClosed) ∨
        (post = [] ∧ t = time pre ∧ Waiting t e.retryInMs p.2.client))

theorem Settled.pending {ph : Phase} (h : Settled w.log) : Pending env.time (ph, w) :=
  fun pre t e post hrep => absurd hrep (h pre t e post)

theorem Pending.settled {ph : Phase} (h : Pending env.time (ph, w)) (hs : ph ≠ .scheduled)
    (hb : ph ≠ .between) : Settled w.log := by
  intro pre t e post hrep
  rcases (h pre t e post hrep).1 with heq | heq
  · exact hs heq
  · exact hb heq

/-- The application may close the client while the retry is announced. -/
theorem Pending.close_scheduled (h : Pending env.time (.scheduled, w))
    (hok : PhaseOk w.client .scheduled) : Pending env.time (.scheduled, closing w) := by
  have hstate := closing_state w
  intro pre t e post hrep
  -- a report after the close was there before it
  have hbefore : ∀ post', Reported w.log pre t e post' → w.client.transportOpen = false ∧
      ∀ x ∈ post', x.obs = .onClosed := by
    intro post' hrep'
    have hdown : w.client.state ≠ .opened → w.client.transportOpen = false := PhaseOk.down hok
    rcases (h pre t e post' hrep').2 with ⟨hclosed, hpost⟩ | ⟨rfl, -, hwait⟩
    · have hne : w.client.state ≠ .opened := ne_of_eq_of_ne hclosed (by simp)
      exact ⟨hdown hne, hpost⟩
    · have hne : w.client.state ≠ .opened := ne_of_eq_of_ne hwait.state (by simp)
      exact ⟨hdown hne, by simp⟩
  refine ⟨.inl rfl, .inl ⟨hstate, ?_⟩⟩
  have hlog : (closing w).log = (closeTransport w).log ∨
      ∃ c, (closing w).log = (closeTransport w).log ++ [⟨.onClosed, c⟩] := by
    rcases closing_cases w with ⟨-, heq⟩ | ⟨-, ⟨-, heq⟩ | ⟨-, heq⟩⟩ <;> rw [heq]
    · exact .inl rfl
    · exact .inr ⟨_, rfl⟩
    · exact .inl rfl
  have hclose : ∀ post', Reported (closeTransport w).log pre t e post' →
      ∀ x ∈ post', x.obs = .onClosed := by
    intro post' hrep'
    rcases closeTransport_cases w with ⟨-, heq⟩ | ⟨hopen, heq⟩
    · rw [heq] at hrep'
      exact (hbefore post' hrep').2
    · rw [heq] at hrep'
      rcases reported_snoc hrep' with ⟨-, hobs, -⟩ | ⟨-, post'', -, hrep''⟩
      · exact absurd hobs (by simp)
      · rw [(hbefore post'' hrep'').1] at hopen
        exact absurd hopen (by simp)
  rcases hlog with heq | ⟨c, heq⟩
  · rw [show ((Phase.scheduled, closing w) : Phase × World).2.log = _ from heq] at hrep
    exact hclose post hrep
  · rw [show ((Phase.scheduled, closing w) : Phase × World).2.log = _ from heq] at hrep
    rcases reported_snoc hrep with ⟨-, hobs, -⟩ | ⟨-, post', rfl, hrep'⟩
    · exact absurd hobs (by simp)
    · intro x hx
      rcases List.mem_append.mp hx with hx | hx
      · exact hclose post' hrep' x hx
      · rw [List.mem_singleton.mp hx]

theorem schedule_waiting (w : World) (e : SseError) (retryAfterS : Int32) (t : Nat) :
    Waiting t (retryDelay w.client retryAfterS).1 (schedule w e retryAfterS t).client := by
  have hnear := retryDelay_lt w.client retryAfterS
  unfold schedule
  simp only
  split
  · exact ⟨rfl, rfl, hnear⟩
  · exact ⟨rfl, rfl, hnear⟩

/-- Scheduling a retry opens a report that the client is waiting for. -/
theorem Settled.schedule (h : Settled w.log) (e : SseError) (retryAfterS : Int32) :
    Pending env.time (.scheduled, schedule w e retryAfterS (env.time w.log)) := by
  have hwait := schedule_waiting w e retryAfterS (env.time w.log)
  have hclock : ∀ c, Settled (w.log ++ [⟨.clock (env.time w.log), c⟩]) := fun _ => h.snoc (by simp)
  intro pre t e' post hrep
  refine ⟨.inl rfl, .inr ?_⟩
  replace hrep : Reported (Client.schedule w e retryAfterS (env.time w.log)).log pre t e' post := hrep
  unfold Client.schedule at hrep
  simp only at hrep
  split at hrep
  · rcases reported_snoc hrep with ⟨rfl, hobs, c₀, hlog⟩ | ⟨-, post', -, hrep'⟩
    · obtain rfl := Obs.onError.inj hobs
      obtain ⟨rfl, hx⟩ := List.append_inj' hlog rfl
      have hentry := (List.cons.inj hx).1
      obtain rfl : env.time w.log = t := Obs.clock.inj (congrArg Entry.obs hentry)
      exact ⟨rfl, rfl, hwait⟩
    · exact absurd hrep' (hclock _ pre t e' post')
  · exact absurd hrep (hclock _ pre t e' post)

/-- **A report is the last thing its call does.** -/
theorem pending_step {s t : Phase × World} (h : Step env s t) (hok : PhaseOk s.2.client s.1)
    (hp : Pending env.time s) : Pending env.time t := by
  -- a report is pending only where the next thing is the end of the call; every other step
  -- starts with none and makes none
  cases h with
  | call w c =>
    intro pre t e post hrep
    rcases reported_snoc hrep with ⟨-, hobs, -⟩ | ⟨hcall, -⟩
    · exact absurd hobs (by simp)
    · exact absurd rfl (hcall c)
  | stop ph w =>
    intro pre t e post hrep
    -- a stop from elsewhere changes neither the deadline nor the clock
    rcases hp pre t e post hrep with ⟨hph, hclosed | ⟨hpost, ht, hwait⟩⟩
    · exact ⟨hph, .inl hclosed⟩
    · exact ⟨hph, .inr ⟨hpost, ht, hwait.state, hwait.deadline, hwait.near⟩⟩
  | close ph w hph =>
    by_cases hs : ph = .scheduled
    · subst hs
      exact hp.close_scheduled hok
    · -- in every other phase in which the application can close, no report is pending
      have hb : ph ≠ .between := by
        rintro rfl
        simp [Phase.yields] at hph
      exact (hp.settled hs hb).closing.pending
  | tick w => exact ((hp.settled (by simp) (by simp)).push (by simp)).pending
  | connect w stop hs =>
    have hset := hp.settled (by simp) (by simp)
    exact Settled.pending (hset.attempt _ 0 stop)
  | connectFail w result stop hs hr =>
    have hset := hp.settled (by simp) (by simp)
    exact (hset.attempt _ result stop).closeTransport.pending
  | reject w => exact (hp.settled (by simp) (by simp)).closeTransport.pending
  | accept w =>
    have hset := hp.settled (by simp) (by simp)
    refine Settled.pending ?_
    unfold openConnection
    simp only
    split
    · rw [push_log, update_log, push_log, update_log]
      exact (hset.snoc (by simp)).snoc (by simp)
    · rw [update_log, push_log, update_log]
      exact hset.snoc (by simp)
  | read w result bytes stop hs =>
    have hset := hp.settled (by simp) (by simp)
    have hread := hset.push (o := .transportRead w.client.rxBuf.length
      w.client.cfg.readTimeoutMs result) (by simp)
    exact Settled.pending hread
  | drop w hs => exact (hp.settled (by simp) (by simp)).closeTransport.pending
  | receive w hs =>
    have hclock := (hp.settled (by simp) (by simp)).push (o := .clock (env.time w.log)) (by simp)
    exact Settled.pending hclock
  | byte w b hs hread =>
    have hbyte := (hp.settled (by simp) (by simp)).push (o := .byte b) (by simp)
    exact Settled.pending hbyte
  | deliver w c rest called => exact ((hp.settled (by simp) (by simp)).delivered c).pending
  | parsed w called => exact (hp.settled (by simp) (by simp)).pending
  | consult w e hs => exact ((hp.settled (by simp) (by simp)).push (by simp)).pending
  | refuse w e hs hr =>
    have hset := hp.settled (by simp) (by simp)
    refine Settled.pending ?_
    unfold refusal
    split
    · exact hset.push_onError (by simp)
    · exact hset
  | retry w e retryAfterS hs hr ha =>
    exact (hp.settled (by simp) (by simp)).schedule e retryAfterS
  | abandon ph w hph hs =>
    refine (hp.settled ?_ ?_).pending
    · rcases hph with rfl | rfl <;> simp
    · rcases hph with rfl | rfl <;> simp
  | due w hs =>
    have hclock := (hp.settled (by simp) (by simp)).push (o := .clock (env.time w.log)) (by simp)
    exact Settled.pending hclock
  | finish ph w hph =>
    intro pre t e post hrep
    exact ⟨.inr rfl, (hp pre t e post hrep).2⟩

/-! ## §3 Polls of a Waiting Client -/

/-- `n` polls in a row. -/
def polls (env : Env) (w : World) (n : Nat) : World :=
  runCalls env w (List.replicate n .poll)

/-- True time when a poll begins. -/
def pollTime (env : Env) (w : World) : Nat :=
  env.time (w.push (.call .poll)).log

/-- True time never goes back. -/
def TimeFlows (time : Log → Nat) : Prop :=
  ∀ log later, log <+: later → time log ≤ time later

variable {t₀ : Nat} {d : UInt32}

theorem polls_succ (env : Env) (w : World) (n : Nat) :
    polls env w (n + 1) = apply env (polls env w n) .poll := by
  unfold polls runCalls
  rw [List.replicate_succ', List.foldl_append, List.foldl_cons, List.foldl_nil]

theorem polls_log (env : Env) (w : World) {j k : Nat} (hjk : j ≤ k) :
    (polls env w j).log <+: (polls env w k).log := by
  have hsplit : polls env w k = runCalls env (polls env w j) (List.replicate (k - j) .poll) := by
    unfold polls runCalls
    rw [← List.foldl_append, ← List.replicate_add, Nat.add_sub_cancel' hjk]
  rw [hsplit]
  exact runCalls_log env _ _

theorem pollTime_mono (htime : TimeFlows env.time) {j k : Nat} (hjk : j ≤ k) :
    pollTime env (polls env w j) ≤ pollTime env (polls env w k) := by
  rcases Nat.eq_or_lt_of_le hjk with rfl | hlt
  · exact Nat.le_refl _
  · -- the earlier poll logs its call before it returns
    have hcall : ((polls env w j).push (.call .poll)).log <+: (polls env w (j + 1)).log := by
      rw [polls_succ]
      exact invariant_of_steps
        (I := fun p : Phase × World => ((polls env w j).push (.call .poll)).log <+: p.2.log)
        (fun _ _ hst h => h.trans (step_log hst)) (poll_steps env _) List.prefix_rfl
    apply htime
    exact (hcall.trans (polls_log env w hlt)).trans (prefix_push List.prefix_rfl _)

/-- Without a request to stop, a poll of a waiting client only looks at the clock. -/
theorem waiting_poll (env : Env) (hw : Waiting t₀ d w.client) (hstop : w.client.stopRequested = false) :
    sseClientPoll env w = pollWaiting env w := by
  unfold sseClientPoll
  simp only [hstop, Bool.false_and, Bool.false_eq_true, if_false, hw.state]

/-- Before the deadline a poll changes nothing and returns the time that is left. -/
theorem pollWaiting_early (hw : Waiting t₀ d w.client) (hle : t₀ ≤ env.time w.log)
    (hearly : env.time w.log < t₀ + d.toNat) :
    pollWaiting env w =
      (shown (t₀ + d.toNat - env.time w.log), w.push (.clock (env.time w.log))) := by
  have hnear := hw.near
  obtain ⟨hpos, hleft⟩ := signed_ahead hearly (by omega)
  unfold pollWaiting nowMs
  simp only [hw.deadline, shown_add]
  rw [if_neg hpos, hleft]

/-- From the deadline on, for `2 ^ 31` milliseconds, a poll enters CONNECTING. -/
theorem pollWaiting_due (hw : Waiting t₀ d w.client) (hdue : t₀ + d.toNat ≤ env.time w.log)
    (hnear : env.time w.log - (t₀ + d.toNat) ≤ 2 ^ 31) :
    pollWaiting env w = (0, (w.push (.clock (env.time w.log))).update fun c =>
      { c with state := .connecting }) := by
  have hreached := signed_reached hdue hnear
  unfold pollWaiting nowMs
  simp only [hw.deadline, shown_add]
  rw [if_pos hreached]

/-- A poll of a connecting client calls `open` first of all. -/
theorem connecting_poll (env : Env) (hs : w.client.state = .connecting)
    (hstop : w.client.stopRequested = false) :
    ∃ url headers result c rest,
      (sseClientPoll env w).2.log = w.log ++ ⟨.transportOpen url headers result, c⟩ :: rest := by
  have hpoll : sseClientPoll env w = closedHint (doConnect env w) := by
    unfold sseClientPoll
    simp only [hstop, Bool.false_and, Bool.false_eq_true, if_false, hs]
  let v := attempt w (env.extraHeaders w.log) (env.openReply w.log).result
    (env.openReply w.log).stop
  have hopen : ∃ url headers result c, v.log = w.log ++ [⟨.transportOpen url headers result, c⟩] :=
    ⟨_, _, _, _, rfl⟩
  have hne : v.client.state ≠ .closed := by
    rw [attempt_state]
    simp
  -- what follows `open` only adds to the log
  have hafter : v.log <+: (doConnect env w).log := by
    have hsteps : ∃ p : Phase × World, v.log <+: p.2.log ∧
        Steps env p (.between, doConnect env w) := by
      unfold doConnect
      simp only
      split
      · exact ⟨_, closeTransport_log v, failConn_steps env hne rfl rfl⟩
      · rw [answer_eq]
        exact ⟨_, List.prefix_rfl, judgeResponse_steps
          (w := v.update fun c => { c with transportOpen := true }) hne⟩
    obtain ⟨p, hp, hsteps⟩ := hsteps
    exact invariant_of_steps (I := fun p : Phase × World => v.log <+: p.2.log)
      (fun _ _ hst h => h.trans (step_log hst)) hsteps hp
  obtain ⟨url, headers, result, c, hv⟩ := hopen
  obtain ⟨rest, hrest⟩ := hafter
  refine ⟨url, headers, result, c, rest, ?_⟩
  rw [hpoll]
  show (doConnect env w).log = _
  rw [← hrest, hv, List.append_assoc]
  rfl

/-- The reading of the clock before poll `k`: that of the report, or of the poll before. -/
def readingBefore (env : Env) (w : World) (t₀ : Nat) : Nat → Nat
  | 0 => t₀
  | k + 1 => pollTime env (polls env w k)

/-- **A retry announced at time `t₀` for `d` milliseconds later is kept by the polls from `w` on.** -/
structure RetryKept (env : Env) (w : World) (t₀ : Nat) (d : UInt32) : Prop where
  /-- A poll before the deadline changes nothing, calls nothing but the clock, and returns exactly
  the time that is left. -/
  early : ∀ k, pollTime env (polls env w k) < t₀ + d.toNat →
    polls env w (k + 1) = ((polls env w k).push (.call .poll)).push
        (.clock (pollTime env (polls env w k))) ∧
      (sseClientPoll env ((polls env w k).push (.call .poll))).1.toNat =
        t₀ + d.toNat - pollTime env (polls env w k)
  /-- The first poll from the deadline on enters CONNECTING and returns 0, and the next one calls
  `open`. -/
  due : ∀ k, (∀ j < k, pollTime env (polls env w j) < t₀ + d.toNat) →
    t₀ + d.toNat ≤ pollTime env (polls env w k) →
    (∀ j ≤ k, pollTime env (polls env w j) < readingBefore env w t₀ j + 2 ^ 31) →
    (polls env w (k + 1)).client = { w.client with state := .connecting } ∧
      (sseClientPoll env ((polls env w k).push (.call .poll))).1 = 0 ∧
      ∃ url headers result c rest, (polls env w (k + 2)).log = (polls env w (k + 1)).log ++
        ⟨.call .poll, (polls env w (k + 1)).client⟩ :: ⟨.transportOpen url headers result, c⟩ :: rest

/-- Until the deadline the client waits unchanged. -/
theorem polls_early (htime : TimeFlows env.time) (hw : Waiting t₀ d w.client)
    (hstop : w.client.stopRequested = false) (hle : t₀ ≤ pollTime env w) (k : Nat)
    (hearly : ∀ j < k, pollTime env (polls env w j) < t₀ + d.toNat) :
    (polls env w k).client = w.client := by
  induction k with
  | zero => rfl
  | succ k ih =>
    have hclient := ih fun j hj => hearly j (Nat.lt_succ_of_lt hj)
    have hwait : Waiting t₀ d ((polls env w k).push (.call .poll)).client := hclient ▸ hw
    have hpoll := waiting_poll env hwait (hclient ▸ hstop)
    have hnow : t₀ ≤ pollTime env (polls env w k) :=
      hle.trans (pollTime_mono (w := w) htime (Nat.zero_le k))
    rw [polls_succ]
    show (sseClientPoll env ((polls env w k).push (.call .poll))).2.client = w.client
    rw [hpoll, pollWaiting_early hwait hnow (hearly k (Nat.lt_succ_self k))]
    exact hclient

/-- **A waiting client keeps its word.** -/
theorem Waiting.kept (htime : TimeFlows env.time) (hw : Waiting t₀ d w.client)
    (hstop : w.client.stopRequested = false) (hle : t₀ ≤ pollTime env w) :
    RetryKept env w t₀ d := by
  have hnow : ∀ k, t₀ ≤ pollTime env (polls env w k) := fun k =>
    hle.trans (pollTime_mono (w := w) htime (Nat.zero_le k))
  have hnear := hw.near
  constructor
  · intro k hearly
    -- time does not go back, so all polls before this one were early too
    have hbefore : ∀ j < k, pollTime env (polls env w j) < t₀ + d.toNat := fun j hj =>
      Nat.lt_of_le_of_lt (pollTime_mono htime (Nat.le_of_lt hj)) hearly
    have hclient := polls_early htime hw hstop hle k hbefore
    have hwait : Waiting t₀ d ((polls env w k).push (.call .poll)).client := hclient ▸ hw
    have hpoll := waiting_poll env hwait (hclient ▸ hstop)
    rw [pollWaiting_early hwait (hnow k) hearly] at hpoll
    refine ⟨?_, ?_⟩
    · rw [polls_succ]
      show (sseClientPoll env ((polls env w k).push (.call .poll))).2 = _
      rw [hpoll]
      rfl
    · rw [hpoll]
      have hsmall : t₀ + d.toNat - pollTime env (polls env w k) < 2 ^ 32 := by
        have := hnow k
        omega
      exact UInt32.toNat_ofNat_of_lt hsmall
  · intro k hbefore hdue hspacing
    have hclient := polls_early htime hw hstop hle k hbefore
    have hwait : Waiting t₀ d ((polls env w k).push (.call .poll)).client := hclient ▸ hw
    have hpoll := waiting_poll env hwait (hclient ▸ hstop)
    -- the reading before was early, so this one is not far past the deadline
    have hlast : readingBefore env w t₀ k ≤ t₀ + d.toNat := by
      cases k with
      | zero => exact Nat.le_add_right _ _
      | succ k => exact Nat.le_of_lt (hbefore k (Nat.lt_succ_self k))
    have hfar : pollTime env (polls env w k) - (t₀ + d.toNat) ≤ 2 ^ 31 := by
      have := hspacing k (Nat.le_refl k)
      omega
    rw [pollWaiting_due hwait hdue hfar] at hpoll
    have hnext : (polls env w (k + 1)).client = { w.client with state := .connecting } := by
      rw [polls_succ]
      show (sseClientPoll env ((polls env w k).push (.call .poll))).2.client = _
      rw [hpoll, ← hclient]
      rfl
    refine ⟨hnext, by rw [hpoll], ?_⟩
    have hs : ((polls env w (k + 1)).push (.call .poll)).client.state = .connecting := by
      rw [push_client, hnext]
    have hopen := connecting_poll env hs (by rw [push_client, hnext]; exact hstop)
    obtain ⟨url, headers, result, c, rest, hlog⟩ := hopen
    refine ⟨url, headers, result, c, rest, ?_⟩
    rw [polls_succ]
    show (sseClientPoll env ((polls env w (k + 1)).push (.call .poll))).2.log = _
    rw [hlog, push_log, List.append_assoc]
    rfl

/-! ## §4 The Refused Retry -/

/-- The application has been told that there will be no retry. -/
def Denied (log : Log) : Prop :=
  ∃ x ∈ log, ∃ e : SseError, x.obs = .onError e ∧ e.willRetry = false

theorem denied_snoc {log : Log} {x : Entry} (h : Denied (log ++ [x])) :
    Denied log ∨ ∃ e : SseError, x.obs = .onError e ∧ e.willRetry = false := by
  obtain ⟨y, hy, e, hobs, he⟩ := h
  rcases List.mem_append.mp hy with hy | hy
  · exact .inl ⟨y, hy, e, hobs, he⟩
  · rw [List.mem_singleton] at hy
    exact .inr ⟨e, hy ▸ hobs, he⟩

/-- What must not happen once a retry has been refused: a callback but `on_closed`, or an `open`. -/
def Obs.resumes : Obs → Bool
  | .onClosed => false
  | .transportOpen _ _ _ => true
  | o => o.isUserCall

/-- Once a retry has been refused, nothing resumes. -/
structure Ending (p : Phase × World) : Prop where
  now : Denied p.2.log → p.1 = .refused ∨ p.2.client.state = .closed
  entries : Always (fun pre x => Denied pre → x.obs.resumes = false) p.2.log

variable {ph : Phase}

/-- Nothing has to end as long as no retry has been refused. -/
theorem Ending.of_not_denied (h : ¬ Denied w.log) : Ending (ph, w) := by
  refine ⟨fun hd => absurd hd h, ?_⟩
  rintro pre x post hlog ⟨y, hy, hden⟩
  refine absurd ⟨y, ?_, hden⟩ h
  rw [show w.log = _ from hlog]
  exact List.mem_append_left _ hy

/-- While the client goes on, no retry has been refused. -/
theorem Ending.not_denied (h : Ending (ph, w)) (hph : ph ≠ .refused)
    (hs : w.client.state ≠ .closed) : ¬ Denied w.log := by
  intro hd
  rcases h.now hd with heq | heq
  · exact hph heq
  · exact hs heq

theorem not_denied_snoc {log : Log} (h : ¬ Denied log) {x : Entry}
    (hx : ∀ e : SseError, x.obs = .onError e → e.willRetry = true) : ¬ Denied (log ++ [x]) := by
  intro hd
  rcases denied_snoc hd with hd | ⟨e, hobs, he⟩
  · exact h hd
  · rw [hx e hobs] at he
    exact absurd he (by simp)

theorem Ending.push (h : Ending (ph, w)) {o : Obs} (ho : o.resumes = false) :
    Ending (ph, w.push o) := by
  have hne : ∀ e, o ≠ .onError e := by
    intro e heq
    rw [heq] at ho
    exact absurd ho.symm Bool.false_ne_true
  refine ⟨fun hd => ?_, always_snoc.mpr ⟨h.entries, fun _ => ho⟩⟩
  rcases denied_snoc hd with hd | ⟨e, hobs, -⟩
  · exact h.now hd
  · exact absurd hobs (hne e)

theorem Ending.update (h : Ending (ph, w)) {f : SseClient → SseClient}
    (hs : w.client.state = .closed → (f w.client).state = .closed) :
    Ending (ph, w.update f) :=
  ⟨fun hd => (h.now hd).imp_right hs, h.entries⟩

/-- Only a refusal itself may stand open. -/
theorem Ending.phase (h : Ending (ph, w)) (hph : ph ≠ .refused ∨ w.client.state = .closed)
    (ph' : Phase) : Ending (ph', w) := by
  refine ⟨fun hd => .inr ?_, h.entries⟩
  rcases h.now hd with heq | heq
  · exact hph.resolve_left (not_not.mpr heq)
  · exact heq

theorem survives_ending : SurvivesClosing fun v => Ending (ph, v) where
  transport := fun _ h =>
    Ending.update (f := fun c => { c with transportOpen := false }) (h.push rfl) id
  closed := fun _ h => Ending.update (f := fun c => { c with state := .closed }) h fun _ => rfl
  onClosed := fun _ h => h.push rfl

theorem Ending.closeTransport (h : Ending (ph, w)) : Ending (ph, closeTransport w) :=
  survives_ending.closeTransport h

theorem Ending.closing (h : Ending (ph, w)) : Ending (ph, closing w) :=
  survives_ending.closing h

/-- The parser's callbacks reach the application only while the client goes on. -/
theorem Ending.delivered (h : Ending (ph, w)) (hph : ph ≠ .refused) (c : Callback) :
    Ending (ph, delivered w c) := by
  have hp : Ending (ph, w.push (.parser c)) := h.push rfl
  unfold Client.delivered
  rcases bridged_cases (w.push (.parser c)) c with heq | ⟨hs, hcases⟩
  · rw [heq]
    exact hp
  · have hne : (w.push (.parser c)).client.state ≠ .closed := ne_of_eq_of_ne hs (by simp)
    have hno := hp.not_denied hph hne
    apply Ending.of_not_denied
    rcases hcases with ⟨_, _, heq⟩ | ⟨_, heq⟩ | heq | ⟨_, heq⟩ | ⟨_, -, heq⟩ <;> rw [heq]
    · exact hno
    · exact hno
    · exact hno
    · exact not_denied_snoc hno (by simp)
    · refine not_denied_snoc hno ?_
      rintro e ⟨⟩
      rfl

/-- **No step resumes a client whose retry has been refused.** -/
theorem ending_step {s t : Phase × World} (h : Step env s t) (hok : PhaseOk s.2.client s.1)
    (he : Ending s) : Ending t := by
  cases h with
  | call w c => exact (he.push rfl).phase (.inl (by simp)) _
  | stop ph w => exact Ending.update (f := fun c => { c with stopRequested := true }) he id
  | close ph w hph => exact he.closing
  | tick w => exact he.push rfl
  | connect w stop hs =>
    have hne : w.client.state ≠ .closed := by rcases hs with hs | hs <;> simp [hs]
    exact .of_not_denied (not_denied_snoc (he.not_denied (by simp) hne) (by simp))
  | connectFail w result stop hs hr =>
    have hne : w.client.state ≠ .closed := by rcases hs with hs | hs <;> simp [hs]
    have hno : ¬ Denied (attempt w (env.extraHeaders w.log) result stop).log :=
      not_denied_snoc (he.not_denied (by simp) hne) (by simp)
    apply Ending.closeTransport
    exact .of_not_denied hno
  | reject w => exact he.closeTransport.phase (.inl (by simp)) _
  | accept w =>
    have hs : w.client.state = .connecting := hok.2
    have hno := he.not_denied (by simp) (by simp [hs])
    apply Ending.of_not_denied
    unfold openConnection
    simp only
    split
    · rw [push_log, update_log, push_log, update_log]
      exact not_denied_snoc (not_denied_snoc hno (by simp)) (by simp)
    · rw [update_log, push_log, update_log]
      exact not_denied_snoc hno (by simp)
  | read w result bytes stop hs =>
    have hno := he.not_denied (by simp) (by simp [hs])
    exact .of_not_denied (not_denied_snoc hno (by simp))
  | drop w hs => exact he.closeTransport.phase (.inl (by simp)) _
  | receive w hs =>
    have hno := he.not_denied (by simp) (by simp [hs])
    exact .of_not_denied (not_denied_snoc hno (by simp))
  | byte w b hs hread =>
    have hbyte := he.push (o := .byte b) rfl
    exact (Ending.update (f := fun c => { c with parser := (processByte c.parser b).1 }) hbyte
      id).phase (.inl (by simp)) _
  | deliver w c rest called => exact (he.delivered (by simp) c).phase (.inl (by simp)) _
  | parsed w called => exact he.phase (.inl (by simp)) _
  | consult w e hs => exact .of_not_denied (not_denied_snoc (he.not_denied (by simp) hs) (by simp))
  | refuse w e hs hr =>
    have hno := he.not_denied (by simp) hs
    show Ending (.refused, refusal w e)
    unfold refusal
    split
    · -- this is the report of the refusal itself
      exact ⟨fun _ => .inl rfl, always_snoc.mpr ⟨he.entries, fun hd => absurd hd hno⟩⟩
    · exact he.phase (.inl (by simp)) _
  | retry w e retryAfterS hs hr ha =>
    have hno := he.not_denied (by simp) hs
    apply Ending.of_not_denied
    unfold schedule
    simp only
    split
    · rw [push_log, update_log, push_log, update_log]
      refine not_denied_snoc (not_denied_snoc hno (by simp)) ?_
      -- a scheduled retry announces `willRetry`
      rintro e ⟨⟩
      rfl
    · rw [update_log, push_log, update_log]
      exact not_denied_snoc hno (by simp)
  | abandon ph w hph hs => exact he.phase (.inr hs) _
  | due w hs =>
    have hno := he.not_denied (by simp) (by simp [hs])
    exact .of_not_denied (not_denied_snoc hno (by simp))
  | finish ph w hph =>
    refine he.phase (.inl ?_) _
    rcases hph with rfl | rfl <;> simp

/-! ## §5 The Truth About the Next Attempt -/

theorem reachable_pending (h : Reachable env cfg w) : Pending env.time (.between, w) := by
  refine (reachable_invariant ?_ (fun _ _ hst hok => pending_step hst hok) h).2
  intro w₀ hw₀
  apply Settled.pending
  rintro pre t e post ⟨c₀, c₁, hlog, -⟩
  rw [init_log hw₀] at hlog
  exact absurd hlog (by simp)

theorem reachable_ending (h : Reachable env cfg w) : Ending (.between, w) := by
  refine (reachable_invariant ?_ (fun _ _ hst hok => ending_step hst hok) h).2
  intro w₀ hw₀
  apply Ending.of_not_denied
  rintro ⟨x, hx, -⟩
  rw [init_log hw₀] at hx
  exact absurd hx (by simp)

/-- **A refused retry is the end.** `on_closed` is the only callback that follows, and no `open`. -/
theorem denied_end (h : Reachable env cfg w) {pre post : Log} {e : SseError} {c : SseClient}
    (hlog : w.log = pre ++ ⟨.onError e, c⟩ :: post) (he : e.willRetry = false) :
    (post.filter fun x => x.obs.isUserCall).map Entry.obs =
        (if cfg.callbacks.onClosed then [.onClosed] else []) ∧
      ∀ x ∈ post, ∀ url headers result, x.obs ≠ .transportOpen url headers result := by
  have hlife := reachable_life h
  have hend := reachable_ending h
  -- nothing after the refusal resumes
  have hpost : ∀ x ∈ post, x.obs.resumes = false := by
    intro x hx
    obtain ⟨mid, post', rfl⟩ := List.append_of_mem hx
    refine hend.entries (pre ++ ⟨.onError e, c⟩ :: mid) x post' ?_ ⟨⟨.onError e, c⟩, by simp, e, rfl, he⟩
    rw [show (Phase.between, w).2.log = _ from hlog]
    simp
  refine ⟨?_, ?_⟩
  · -- the call has returned, so the client is CLOSED
    have hclosed : w.client.state = .closed := by
      have hmem : (⟨.onError e, c⟩ : Entry) ∈ w.log := by
        rw [hlog]
        simp
      exact (hend.now ⟨_, hmem, e, rfl, he⟩).resolve_left (by simp)
    have hcalls : ∀ x ∈ post, x.obs.isUserCall = decide (x.obs = .onClosed) := by
      intro x hx
      have hres := hpost x hx
      cases hobs : x.obs <;> rw [hobs] at hres <;>
        first | rfl | exact absurd hres.symm Bool.false_ne_true
    have hsame : (post.filter fun x => x.obs.isUserCall).map Entry.obs =
        List.replicate (post.countP fun x => decide (x.obs = .onClosed)) .onClosed := by
      rw [List.filter_congr hcalls]
      refine List.eq_replicate_iff.mpr ⟨by rw [List.length_map, List.countP_eq_length_filter], ?_⟩
      intro o ho
      obtain ⟨x, hx, rfl⟩ := List.mem_map.mp ho
      exact of_decide_eq_true (List.mem_filter.mp hx).2
    have hentry := hlife.entries pre ⟨.onError e, c⟩ post hlog
    have hnot : ¬ Fired (pre ++ [⟨.onError e, c⟩]) := fun hf =>
      hentry.alive rfl (by simp) (hentry.fired.mp hf).1
    have hfired : w.log = (pre ++ [⟨.onError e, c⟩]) ++ post := by rw [hlog]; simp
    have hiff : 0 < post.countP (fun x => decide (x.obs = .onClosed)) ↔
        cfg.callbacks.onClosed = true := by
      rw [List.countP_pos_iff]
      constructor
      · rintro ⟨x, hx, hobs⟩
        have hmem : x ∈ w.log := by rw [hfired]; exact List.mem_append_right _ hx
        exact (hlife.fired.mp ⟨x, hmem, of_decide_eq_true hobs⟩).2
      · intro hset
        obtain ⟨x, hx, hobs⟩ := hlife.fired.mpr ⟨hclosed, hset⟩
        rw [hfired] at hx
        rcases List.mem_append.mp hx with hx | hx
        · exact absurd ⟨x, hx, hobs⟩ hnot
        · exact ⟨x, hx, decide_eq_true hobs⟩
    have honce : post.countP (fun x => decide (x.obs = .onClosed)) ≤ 1 := by
      have hall : w.log.countP (fun x => decide (x.obs = .onClosed)) ≤ 1 := by
        refine Always.countP_le_one (hlife.entries.mono ?_)
        intro pre x hx hobs y hy hyobs
        exact hx.once (of_decide_eq_true hobs) ⟨y, hy, of_decide_eq_true hyobs⟩
      rw [hfired, List.countP_append] at hall
      omega
    rw [hsame]
    cases hset : cfg.callbacks.onClosed with
    | true =>
      have hone : post.countP (fun x => decide (x.obs = .onClosed)) = 1 :=
        Nat.le_antisymm honce (hiff.mpr hset)
      rw [hone]
      rfl
    | false =>
      have hzero : post.countP (fun x => decide (x.obs = .onClosed)) = 0 := by
        by_contra hne
        have := hiff.mp (Nat.pos_of_ne_zero hne)
        rw [hset] at this
        exact absurd this (by simp)
      rw [hzero]
      rfl
  · intro x hx url headers result hobs
    have hres := hpost x hx
    rw [hobs] at hres
    exact absurd hres (by simp [Obs.resumes])

/-- **`on_error` tells the truth about the next connection attempt.** Let true time never go back.
When a call has reported a failure with a retry `d` milliseconds after its reading `t₀` of the
clock, and the application has neither closed nor stopped the client, the polls that follow keep
to it. After a report without a retry, `on_closed` is the next and last callback (if it is set), and
`open` is never called again. -/
theorem on_error_tells_the_truth (htime : TimeFlows env.time) (h : Reachable env cfg w) :
    (∀ pre t₀ e post, Reported w.log pre t₀ e post → w.client.state ≠ .closed →
        w.client.stopRequested = false → RetryKept env w t₀ e.retryInMs) ∧
      ∀ pre e c post, w.log = pre ++ ⟨.onError e, c⟩ :: post → e.willRetry = false →
        (post.filter fun x => x.obs.isUserCall).map Entry.obs =
            (if cfg.callbacks.onClosed then [.onClosed] else []) ∧
          ∀ x ∈ post, ∀ url headers result, x.obs ≠ .transportOpen url headers result := by
  refine ⟨?_, fun pre e c post hlog he => denied_end h hlog he⟩
  intro pre t₀ e post hrep hopen hstop
  rcases (reachable_pending h pre t₀ e post hrep).2 with ⟨hclosed, -⟩ | ⟨-, rfl, hwait⟩
  · exact absurd hclosed hopen
  · obtain ⟨c₀, c₁, hlog, -⟩ := hrep
    have hle : env.time pre ≤ pollTime env w := by
      apply htime
      rw [push_log, hlog, List.append_assoc]
      exact List.prefix_append _ _
    exact Waiting.kept htime hwait hstop hle

/-- A server that cannot be reached. -/
def deadEnv : Env :=
  { quietEnv with openReply := fun _ => ⟨1, id, false⟩ }

theorem deadEnv_timeFlows : TimeFlows deadEnv.time :=
  fun _ _ h => h.length_le

/-- A client of that server after its first poll. -/
def failedClient : World :=
  runCalls deadEnv smallClient [.poll]

theorem failedClient_reachable : Reachable deadEnv smallConfig failedClient :=
  ⟨smallClient, [.poll], rfl, rfl⟩

theorem failedClient_log : Reported failedClient.log (failedClient.log.take 2) 2
    ⟨.transport, 0, true, 3000⟩ [] :=
  ⟨{ failedClient.client with state := .connecting, retryDeadline := 0 }, failedClient.client,
    by decide +kernel, rfl, by simp⟩

theorem on_error_tells_the_truth_of_failure : RetryKept deadEnv failedClient 2 3000 :=
  (on_error_tells_the_truth deadEnv_timeFlows failedClient_reachable).1 _ _ _ _ failedClient_log
    (by decide +kernel) (by decide +kernel)

end EventSource.Client
