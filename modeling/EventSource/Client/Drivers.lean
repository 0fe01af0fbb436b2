import EventSource.Client.Hints
import EventSource.Client.PollParts

/-!
# The Loops That Poll

A client is driven by a loop that polls it and sleeps: `sse_task_main` under FreeRTOS, and `main` of
the POSIX example. Other tasks and signal handlers request a stop whenever they like, callbacks during
a poll, and the loop only sees it when it polls again. A loop ends exactly when its client is CLOSED;
once a stop is requested it finishes at most one sleep and then ends.
-/

namespace EventSource.Client

variable {env : Env} {cfg : SseClientConfig} {w w₀ : World}

/-! ## §1 The Loops -/

/-- What the loop does next. -/
inductive DriverPhase where
  | poll
  | sleep (ms : UInt32)
  | ended
  deriving DecidableEq, Repr

/-- A client that is being driven, and the sleeps so far in milliseconds. -/
structure Driven where
  world : World
  phase : DriverPhase
  sleeps : List UInt32

/-- The longest sleep, which keeps the loop responsive to `sse_client_request_stop()`. -/
def maxSleepMs : UInt32 := 250

/-- What the loop does after a poll: it breaks off, sleeps, or polls again at once. -/
def afterPoll (r : UInt32) : DriverPhase :=
  if r = uint32Max then .ended
  else if 0 < r then .sleep (if maxSleepMs < r then maxSleepMs else r)
  else .poll

/-- The loop polls. -/
def pollNext (env : Env) (d : Driven) : Driven :=
  let r := sseClientPoll env (d.world.push (.call .poll))
  { d with world := r.2, phase := afterPoll r.1 }

/-- A turn of the loop of `sse_task_main` up to its sleep. It looks at the state first. -/
def sseTaskMain (env : Env) (d : Driven) : Driven :=
  if d.world.client.state = .closed then { d with phase := .ended } else pollNext env d

/-- A turn of the loop of `main` in `examples/posix` up to its sleep. -/
def posixMain (env : Env) (d : Driven) : Driven :=
  pollNext env d

/-- The loop goes on, or a stop is requested from outside. -/
inductive DriverEvent where
  | goOn
  | requestStop
  deriving DecidableEq, Repr

def drive (turn : Driven → Driven) (env : Env) (d : Driven) : DriverEvent → Driven
  | .goOn =>
    match d.phase with
    | .poll => turn d
    | .sleep ms => { d with phase := .poll, sleeps := d.sleeps ++ [ms] }
    | .ended => d
  -- also between a poll and the sleep behind it
  | .requestStop => { d with world := apply env d.world .requestStop }

/-- The loop from its start, through some events. -/
def driven (turn : Driven → Driven) (env : Env) (w₀ : World) (events : List DriverEvent) : Driven :=
  events.foldl (drive turn env) ⟨w₀, .poll, []⟩

/-! ## §2 One Step -/

/-- A sleep that is to come is short. -/
def DriverPhase.Short (phase : DriverPhase) : Prop :=
  ∀ ms, phase = .sleep ms → 0 < ms ∧ ms ≤ maxSleepMs

theorem afterPoll_short (r : UInt32) : (afterPoll r).Short := by
  intro ms hms
  unfold afterPoll at hms
  split at hms
  · cases hms
  · split at hms
    · next hpos =>
      obtain rfl := DriverPhase.sleep.inj hms
      -- the hint, or the cap
      split
      · exact ⟨by decide, UInt32.le_refl _⟩
      · next hshort => exact ⟨hpos, UInt32.not_lt.mp hshort⟩
    · cases hms

theorem afterPoll_ended_iff (r : UInt32) : afterPoll r = .ended ↔ r = uint32Max := by
  unfold afterPoll
  split
  · next hmax => exact iff_of_true rfl hmax
  · next hmax =>
    refine iff_of_false ?_ hmax
    split <;> simp

/-- What holds at every moment. -/
structure Driving (env : Env) (cfg : SseClientConfig) (d : Driven) : Prop where
  reached : Reachable env cfg d.world
  ended : d.phase = .ended ↔ d.world.client.state = .closed
  next : d.phase.Short
  sleeps : ∀ ms ∈ d.sleeps, 0 < ms ∧ ms ≤ maxSleepMs

theorem reachable_unambiguous (hcfg : cfg.readTimeoutMs ≠ uint32Max) (h : Reachable env cfg w) :
    Unambiguous env (w.push (.call .poll)) := by
  apply unambiguous_of
  rw [push_client, (reachable_life h).config]
  show (if cfg.readTimeoutMs = 0 then 500 else cfg.readTimeoutMs) ≠ uint32Max
  split
  · decide
  · exact hcfg

/-- No hint but that of a CLOSED client is `UINT32_MAX`, so the loop goes on with any other. -/
theorem pollNext_driving (hcfg : cfg.readTimeoutMs ≠ uint32Max) {d : Driven}
    (h : Driving env cfg d) : Driving env cfg (pollNext env d) where
  reached := apply_reachable h.reached .poll
  ended := (afterPoll_ended_iff _).trans (reachable_unambiguous hcfg h.reached)
  next := afterPoll_short _
  sleeps := h.sleeps

/-- While the loop has not ended, looking at the state first makes no difference. -/
theorem Driving.sseTaskMain_eq {d : Driven} (h : Driving env cfg d) (hpoll : d.phase = .poll) :
    sseTaskMain env d = posixMain env d := by
  refine if_neg fun hclosed => ?_
  rw [h.ended.mpr hclosed] at hpoll
  cases hpoll

/-- **Every event keeps the loop in order.** -/
theorem Driving.after (hcfg : cfg.readTimeoutMs ≠ uint32Max) {d : Driven} (h : Driving env cfg d)
    (e : DriverEvent) : Driving env cfg (drive (posixMain env) env d e) := by
  cases e with
  | requestStop => exact ⟨apply_reachable h.reached .requestStop, h.ended, h.next, h.sleeps⟩
  | goOn =>
    unfold drive
    cases hphase : d.phase with
    | poll => exact pollNext_driving hcfg h
    | ended => exact h
    | sleep ms =>
      -- the client is not CLOSED before a sleep, and a sleep does not change it
      have halive : ¬ d.world.client.state = .closed := by
        rw [← h.ended, hphase]
        simp
      refine ⟨h.reached, iff_of_false (by simp) halive, (fun _ hms => nomatch hms), ?_⟩
      intro ms' hms
      rcases List.mem_append.mp hms with hms | hms
      · exact h.sleeps ms' hms
      · rw [List.mem_singleton.mp hms]
        exact h.next ms hphase

theorem init_driving (h : sseClientInit env cfg = some w₀) : Driving env cfg ⟨w₀, .poll, []⟩ := by
  have halive : w₀.client.state ≠ .closed := by
    rw [init_idle h]
    simp
  exact ⟨⟨w₀, [], h, rfl⟩, iff_of_false (by simp) halive, (fun _ hms => nomatch hms),
    fun _ hms => absurd hms List.not_mem_nil⟩

/-! ## §3 The Whole Run -/

theorem driven_append (turn : Driven → Driven) (pre post : List DriverEvent) :
    driven turn env w₀ (pre ++ post) = post.foldl (drive turn env) (driven turn env w₀ pre) :=
  List.foldl_append

theorem driven_driving (hcfg : cfg.readTimeoutMs ≠ uint32Max)
    (hinit : sseClientInit env cfg = some w₀) (events : List DriverEvent) :
    Driving env cfg (driven (posixMain env) env w₀ events) := by
  induction events using List.reverseRecOn with
  | nil => exact init_driving hinit
  | append_singleton events e ih =>
    rw [driven_append]
    exact ih.after hcfg e

/-- The state check in the condition of the task's loop never decides anything. -/
theorem drivers_agree (hcfg : cfg.readTimeoutMs ≠ uint32Max)
    (hinit : sseClientInit env cfg = some w₀) (events : List DriverEvent) :
    driven (sseTaskMain env) env w₀ events = driven (posixMain env) env w₀ events := by
  induction events using List.reverseRecOn with
  | nil => rfl
  | append_singleton events e ih =>
    rw [driven_append, driven_append, ih]
    have hd := driven_driving hcfg hinit events
    show drive _ _ _ _ = drive _ _ _ _
    cases e with
    | requestStop => rfl
    | goOn =>
      unfold drive
      cases hphase : (driven (posixMain env) env w₀ events).phase with
      | poll => exact hd.sseTaskMain_eq hphase
      | sleep ms => rfl
      | ended => rfl

/-- A poll that finds a stop requested says that the client is CLOSED. -/
theorem poll_stops (hstop : w.client.stopRequested = true) :
    (sseClientPoll env w).1 = uint32Max := by
  have hclosed :
      (if w.client.stopRequested && w.client.state ≠ .closed then toClosed env w
        else w).client.state = .closed := by
    split
    · exact toClosed_state env w
    · next hskip => simpa [hstop] using hskip
  unfold sseClientPoll
  simp only [hclosed]

/-- The sleep that comes before the next poll. -/
def DriverPhase.sleepLeft : DriverPhase → List UInt32
  | .sleep ms => [ms]
  | _ => []

/-- A loop that has ended, or has been asked to, sleeps if it is about to, and otherwise ends. -/
theorem stopped_step {d : Driven}
    (hover : d.phase = .ended ∨ d.world.client.stopRequested = true) :
    let u := drive (posixMain env) env d .goOn
    u.sleeps = d.sleeps ++ d.phase.sleepLeft ∧ u.phase.sleepLeft = [] ∧
      (u.phase = .ended ∨ u.world.client.stopRequested = true) ∧
      (d.phase.sleepLeft = [] → u.phase = .ended) := by
  unfold drive
  cases hphase : d.phase with
  | ended => exact ⟨(List.append_nil _).symm, by rw [hphase]; rfl, .inl hphase, fun _ => hphase⟩
  | sleep ms =>
    have hstop : d.world.client.stopRequested = true := hover.resolve_left (by simp [hphase])
    exact ⟨rfl, rfl, .inr hstop, fun hnone => absurd hnone (List.cons_ne_nil _ _)⟩
  | poll =>
    -- the poll closes the client before it does anything else
    have hstop : d.world.client.stopRequested = true := hover.resolve_left (by simp [hphase])
    have hended : (pollNext env d).phase = .ended :=
      (afterPoll_ended_iff _).mpr (poll_stops hstop)
    exact ⟨(List.append_nil _).symm, congrArg DriverPhase.sleepLeft hended, .inl hended,
      fun _ => hended⟩

/-- **It makes no sleep but the one that is to come**, and ends with its next poll. -/
theorem stopped_run (post : List DriverEvent) {d : Driven}
    (hover : d.phase = .ended ∨ d.world.client.stopRequested = true) :
    let v := post.foldl (drive (posixMain env) env) d
    v.sleeps = d.sleeps ++ (if .goOn ∈ post then d.phase.sleepLeft else []) ∧
      (d.phase = .ended ∨ d.phase.sleepLeft.length < post.count .goOn → v.phase = .ended) := by
  induction post generalizing d with
  | nil => exact ⟨(List.append_nil _).symm, fun h => h.resolve_right (Nat.not_lt_zero _)⟩
  | cons e post ih =>
    cases e with
    | requestStop =>
      -- however often it is requested
      obtain ⟨hsleeps, hends⟩ := @ih (drive (posixMain env) env d .requestStop) (.inr rfl)
      refine ⟨hsleeps.trans ?_, fun h => hends (h.imp_right fun hcount => ?_)⟩
      · have hmem : .goOn ∈ DriverEvent.requestStop :: post ↔ .goOn ∈ post := by simp
        simp only [hmem]
        rfl
      · rw [List.count_cons_of_ne (by decide)] at hcount
        exact hcount
    | goOn =>
      obtain ⟨hfirst, hnone, hover', hends⟩ := @stopped_step env d hover
      obtain ⟨hsleeps, hended⟩ := ih hover'
      rw [hnone] at hsleeps hended
      rw [ite_self, List.append_nil] at hsleeps
      rw [if_pos (List.mem_cons_self ..), List.count_cons_self]
      refine ⟨hsleeps.trans hfirst, fun h => hended ?_⟩
      -- without a sleep before it this step is the poll
      cases hphase : d.phase with
      | poll => exact .inl (hends (by rw [hphase]; rfl))
      | ended => exact .inl (hends (by rw [hphase]; rfl))
      | sleep ms =>
        rw [hphase] at h
        exact .inr (Nat.lt_of_succ_lt_succ (h.resolve_left (by simp)))

/-- **A loop ends exactly when its client is CLOSED.** Both loops take the same turns. When they
have ended, the connection is closed and `on_closed` has been called, if it is set. Until then they
sleep at most a quarter of a second at a time. Once a stop is requested, from outside or by a callback
during a poll, they make no sleep but the one between that poll and the next, if any, and end with
the next poll. -/
theorem loop_ends_with_client (hcfg : cfg.readTimeoutMs ≠ uint32Max)
    (hinit : sseClientInit env cfg = some w₀) (events : List DriverEvent) :
    let d := driven (posixMain env) env w₀ events
    driven (sseTaskMain env) env w₀ events = d ∧
      (d.phase = .ended ↔ d.world.client.state = .closed) ∧
      (d.phase = .ended → d.world.client.transportOpen = false ∧
        (Fired d.world.log ↔ cfg.callbacks.onClosed = true)) ∧
      (∀ ms ∈ d.sleeps ++ d.phase.sleepLeft, 0 < ms ∧ ms ≤ maxSleepMs) ∧
      ∀ pre post, events = pre ++ post →
        let before := driven (posixMain env) env w₀ pre
        before.world.client.stopRequested = true →
        d.sleeps = before.sleeps ++ (if .goOn ∈ post then before.phase.sleepLeft else []) ∧
          (before.phase.sleepLeft.length < post.count .goOn → d.phase = .ended) := by
  intro d
  have hd : Driving env cfg d := driven_driving hcfg hinit events
  refine ⟨drivers_agree hcfg hinit events, hd.ended, fun hended => ?_, ?_, ?_⟩
  -- a CLOSED client has no connection
  · have hclosed := hd.ended.mp hended
    constructor
    · cases hopen : d.world.client.transportOpen with
      | false => rfl
      | true => exact absurd (hclosed.symm.trans ((transportOpen_iff hd.reached).mp hopen)) (by simp)
    · exact (reachable_life hd.reached).fired.trans (and_iff_right hclosed)
  · intro ms hms
    rcases List.mem_append.mp hms with hms | hms
    · exact hd.sleeps ms hms
    · refine hd.next ms ?_
      cases hphase : d.phase with
      | sleep ms' =>
        rw [hphase] at hms
        rw [List.mem_singleton.mp hms]
      | poll => simp [hphase, DriverPhase.sleepLeft] at hms
      | ended => simp [hphase, DriverPhase.sleepLeft] at hms
  · rintro pre post rfl before hstop
    have hstops := @stopped_run env post before (.inr hstop)
    rw [← driven_append] at hstops
    exact ⟨hstops.1, fun hmem => hstops.2 (.inr hmem)⟩

/-- A stop is requested just before the loop sleeps, after a read that has timed out: it sleeps, polls
and ends. -/
theorem loop_ends_with_client_of_stop :
    let d := driven (posixMain quietEnv) quietEnv smallClient
      [.goOn, .goOn, .requestStop, .goOn, .goOn]
    d.sleeps = [250] ∧ d.phase = .ended := by
  intro d
  have hstops := (loop_ends_with_client (by decide) (rfl : sseClientInit quietEnv smallConfig = _)
    [.goOn, .goOn, .requestStop, .goOn, .goOn]).2.2.2.2 [.goOn, .goOn, .requestStop] [.goOn, .goOn]
    rfl rfl
  exact ⟨hstops.1.trans (by decide +kernel), hstops.2 (by decide +kernel)⟩

end EventSource.Client
