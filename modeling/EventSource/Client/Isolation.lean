import EventSource.Client.Backoff
import EventSource.Client.ResumePosition

/-!
# Connections Are Isolated

What a connection does to the application and to the client depends on the bytes received on it and
on nothing that earlier connections have left behind: two runs whose connections deliver the same
bytes deliver the same messages, errors, retry values and ids.
-/

namespace EventSource.Client

open EventSource.CMemory
open EventSource.Parser
open EventSource.Trace

variable {env : Env} {cfg : SseClientConfig} {cb : SseClientCallbacks} {w : World} {log : Log}

/-! ## §1 Effects -/

/-- What a stream does to the application and to the retry base. -/
inductive Effect where
  | signal (s : Signal)
  | retry (ms : UInt32)
  deriving DecidableEq, Repr

/-- The client takes a retry value only while it is OPEN. -/
def Entry.effect (e : Entry) : Option Effect :=
  match e.obs with
  | .parser (.onRetry ms) => if e.client.state = .opened then some (.retry ms) else none
  | o => o.signal.map .signal

/-- The effects in a piece of the log, oldest first. -/
def effects (log : Log) : List Effect :=
  log.filterMap Entry.effect

/-- The effect of a report of the parser. -/
def reportEffect (cb : SseClientCallbacks) : Report → Option Effect
  | .retry ms => some (.retry ms)
  | r => (reportSignal cb r).map .signal

/-- A piece of the log has the effects of what was heard in it. -/
def Echoes (cb : SseClientCallbacks) (log : Log) : Prop :=
  effects log = (heard log).filterMap (reportEffect cb)

theorem Echoes.append {a b : Log} (ha : Echoes cb a) (hb : Echoes cb b) : Echoes cb (a ++ b) := by
  have heffects : effects (a ++ b) = effects a ++ effects b := List.filterMap_append ..
  have hheard : heard (a ++ b) = heard a ++ heard b := List.filterMap_append ..
  unfold Echoes at *
  rw [heffects, hheard, List.filterMap_append, ha, hb]

theorem echoes_of_silent {es : Log} (hs : ∀ e ∈ es, e.effect = none)
    (hh : ∀ e ∈ es, e.heard = none) : Echoes cb es := by
  have heffects : effects es = [] := List.filterMap_eq_nil_iff.mpr hs
  have hheard : heard es = [] := List.filterMap_eq_nil_iff.mpr hh
  unfold Echoes
  rw [heffects, hheard]
  rfl

/-- Retry values apart, the effects are the signals. -/
theorem effect_of_ne {e : Entry} (he : ∀ ms, e.obs ≠ .parser (.onRetry ms)) :
    e.effect = e.obs.signal.map .signal := by
  unfold Entry.effect
  split
  · next ms heq => exact absurd heq (he ms)
  · rfl

theorem effect_of_incidental {e : Entry} (he : e.obs.incidental = true) : e.effect = none := by
  have hne : ∀ ms, e.obs ≠ .parser (.onRetry ms) := by
    intro ms heq
    rw [heq] at he
    exact absurd he (by simp [Obs.incidental])
  rw [effect_of_ne hne, (incidental_cases he).1]
  rfl

/-- The delivery of a report adds the report and then neither bytes nor reports. -/
theorem delivered_plain (w : World) (c : Callback) :
    ∃ es, (delivered w c).log = w.log ++ ⟨.parser c, w.client⟩ :: es ∧
      ∀ e ∈ es, e.obs.plain = true := by
  unfold delivered
  rcases bridged_cases (w.push (.parser c)) c with heq | ⟨-, ⟨_, _, heq⟩ | ⟨_, heq⟩ | heq |
    ⟨m, heq⟩ | ⟨reason, -, heq⟩⟩ <;> rw [heq]
  · exact ⟨[], rfl, by simp⟩
  · exact ⟨[], rfl, by simp⟩
  · exact ⟨[], rfl, by simp⟩
  · exact ⟨[], rfl, by simp⟩
  · exact ⟨[⟨.onMessage m, { w.client with attempts := 0 }⟩], by simp, by simp [Obs.plain]⟩
  · exact ⟨[⟨.onError ⟨reason, 0, true, 0⟩, w.client⟩], by simp, by simp [Obs.plain]⟩

/-- What the delivery of a report adds has the effect of what was heard. -/
theorem delivered_echoes (w : World) (c : Callback) :
    ∃ es, (delivered w c).log = w.log ++ es ∧ Echoes w.client.cfg.callbacks es ∧
      ∀ e ∈ es, ∀ url hs r, e.obs ≠ .transportOpen url hs r := by
  obtain ⟨es, hlog, hplain⟩ := delivered_plain w c
  obtain ⟨es', hlog', htold, hes'⟩ := delivered_adds w c
  have hsame : es' = ⟨.parser c, w.client⟩ :: es := List.append_cancel_left (hlog'.symm.trans hlog)
  rw [hsame] at htold hes'
  refine ⟨_, hlog, ?_, fun e he => (hes' e he).1⟩
  have hsignals : signals (⟨.parser c, w.client⟩ :: es) = signals es := rfl
  have hlater : effects es = (signals es).map .signal := by
    unfold effects signals
    rw [List.map_filterMap]
    apply List.filterMap_congr
    intro e he
    apply effect_of_ne
    intro ms heq
    have hno := hplain e he
    rw [heq] at hno
    exact absurd hno (by simp [Obs.plain])
  have hheard : heard (⟨.parser c, w.client⟩ :: es) =
      (Entry.heard ⟨.parser c, w.client⟩).toList := by
    have hnone : heard es = [] :=
      List.filterMap_eq_nil_iff.mpr fun e he => heard_of_plain (hplain e he)
    unfold heard at hnone ⊢
    rw [List.filterMap_cons, hnone]
    cases Entry.heard ⟨.parser c, w.client⟩ <;> rfl
  have hfirst : effects (⟨.parser c, w.client⟩ :: es) =
      (Entry.effect ⟨.parser c, w.client⟩).toList ++ effects es := by
    unfold effects
    rw [List.filterMap_cons]
    cases Entry.effect ⟨.parser c, w.client⟩ <;> rfl
  unfold Told at htold
  unfold Echoes
  rw [hsignals, hheard] at htold
  rw [hfirst, hlater, htold, hheard]
  -- a retry value is no signal, and every other report is no retry value
  by_cases hs : w.client.state = .opened
  · have hyes : Entry.heard ⟨.parser c, w.client⟩ = some c.report := by simp [Entry.heard, hs]
    rw [hyes]
    cases c with
    | onRetry ms => simp [Entry.effect, hs, Callback.report, reportSignal, reportEffect]
    | onId id len => rfl
    | onEvent ev => exact List.map_filterMap ..
    | onError err => exact List.map_filterMap ..
  · have hno : Entry.heard ⟨.parser c, w.client⟩ = none := by simp [Entry.heard, hs]
    have hquiet : Entry.effect ⟨.parser c, w.client⟩ = none := by
      cases c <;> simp [Entry.effect, Obs.signal, hs]
    rw [hno, hquiet]
    rfl

/-! ## §2 Every Connection Has the Effects of What Was Heard -/

def AllEcho (cb : SseClientCallbacks) (log : Log) : Prop :=
  ∀ piece ∈ connections log, Echoes cb piece

theorem AllEcho.append (h : AllEcho cb log) {es : Log} (hes : Echoes cb es)
    (hopen : ∀ e ∈ es, ∀ url hs r, e.obs ≠ .transportOpen url hs r) : AllEcho cb (log ++ es) := by
  unfold AllEcho
  rw [connections_append log hopen]
  intro piece hp
  rcases List.mem_append.mp hp with hp | hp
  · exact h piece (List.mem_append_left _ hp)
  · rw [List.mem_singleton.mp hp]
    exact (h _ (List.mem_append_right _ (List.mem_singleton_self _))).append hes

theorem AllEcho.incidental {log' : Log} (h : AllEcho cb log) (hadd : AddsIncidental log log') :
    AllEcho cb log' := by
  obtain ⟨es, rfl, hes⟩ := hadd
  apply h.append
  · exact echoes_of_silent (fun e he => effect_of_incidental (hes e he))
      fun e he => (incidental_cases (hes e he)).2.1 e.client
  · exact fun e he => (incidental_cases (hes e he)).2.2.1

theorem AllEcho.open (h : AllEcho cb log) (url : Mem) (hs : List (Option Mem)) (r : Int)
    (c : SseClient) : AllEcho cb (log ++ [⟨.transportOpen url hs r, c⟩]) := by
  unfold AllEcho connections
  rw [cutConnections_open]
  intro piece hp
  rcases List.mem_append.mp hp with hp | hp
  · exact h piece hp
  · rw [List.mem_singleton.mp hp]
    rfl

theorem allEcho_step {s t : Phase × World} (h : Step env s t)
    (hcfg : s.2.client.cfg.callbacks = cb) (he : AllEcho cb s.2.log) : AllEcho cb t.2.log := by
  rcases step_adds h with hadd | ⟨url, hs, r, c, hadd⟩ | ⟨b, heq⟩ | ⟨c, -, -, -, heq⟩
  · exact he.incidental hadd
  · exact (he.open url hs r c).incidental hadd
  · rw [heq]
    apply he.append
    · exact echoes_of_silent (by simp [Entry.effect, Obs.signal]) (by simp [Entry.heard])
    · simp
  · obtain ⟨es, hlog, hes, hopen⟩ := delivered_echoes s.2 c
    rw [hcfg] at hes
    rw [heq, hlog]
    exact he.append hes hopen

theorem reachable_allEcho (h : Reachable env cfg w) : AllEcho cfg.callbacks w.log := by
  let I : Phase × World → Prop := fun p =>
    Life (withDefaults cfg) p.2 ∧ AllEcho cfg.callbacks p.2.log
  refine (reachable_invariant (I := I) ?_ ?_ h).2.2
  · intro w₀ hw₀
    refine ⟨(init_ready hw₀).2, ?_⟩
    show AllEcho cfg.callbacks w₀.log
    rw [init_log hw₀]
    intro piece hp
    rw [List.mem_singleton.mp hp]
    rfl
  · rintro s t hst hok ⟨hlife, he⟩
    have hcfg : s.2.client.cfg.callbacks = cfg.callbacks := by rw [hlife.config]; rfl
    exact ⟨life_step hst hok hlife, allEcho_step hst hcfg he⟩

/-! ## §3 What a Connection Alone Decides -/

/-- A block of the bytes `s` commits an id. -/
def Commits (lim : Limits) (s : Bytes) : Prop :=
  ∃ L ∈ completeBlocks s, (lastId lim L).isSome = true

theorem position_append {a b : List Bytes} (hb : b ≠ []) : position (a ++ b) = position b := by
  unfold position
  rw [List.getLastD_eq_getLast?, List.getLastD_eq_getLast?, List.getLast?_append_of_ne_nil a hb]

/-- The ids of a log end with those of its current connection. -/
theorem position_current {lim : Limits} (h : AllHeard lim log)
    (hc : Commits lim (received (currentConnection log))) :
    position (committed log) =
      position ((completeBlocks (received (currentConnection log))).filterMap (lastId lim)) := by
  obtain ⟨L, hL, hid⟩ := hc
  obtain ⟨v, hv⟩ := Option.isSome_iff_exists.mp hid
  have hsome : (completeBlocks (received (currentConnection log))).filterMap (lastId lim) ≠ [] :=
    List.ne_nil_of_mem (List.mem_filterMap.mpr ⟨L, hL, hv⟩)
  have hsplit : blockIds lim log =
      ((cutConnections log).2.flatMap fun piece =>
        (completeBlocks (received piece)).filterMap (lastId lim)) ++
        (completeBlocks (received (currentConnection log))).filterMap (lastId lim) := by
    unfold blockIds connections
    rw [List.flatMap_append, List.flatMap_singleton]
    rfl
  rw [committed_eq_blockIds h, hsplit, position_append hsome]

/-- Once a connection has delivered a retry value, it decides the base. -/
theorem baseRetry_current (hsome : retryUpdates (currentConnection log) ≠ []) :
    baseRetry cfg log = (retryUpdates (currentConnection log)).getLast hsome := by
  have hsplit : retryUpdates log =
      retryUpdates (cutConnections log).2.flatten ++ retryUpdates (currentConnection log) := by
    have hflat : (cutConnections log).2.flatten ++ currentConnection log = log := by
      have h := connections_flatten log
      unfold connections at h
      rwa [List.flatten_append, List.flatten_singleton] at h
    have hheard : heard log =
        heard (cutConnections log).2.flatten ++ heard (currentConnection log) :=
      (congrArg heard hflat).symm.trans (List.filterMap_append ..)
    unfold retryUpdates
    rw [hheard, List.filterMap_append]
  unfold baseRetry
  rw [hsplit, List.getLastD_eq_getLast?, List.getLast?_append_of_ne_nil _ hsome,
    List.getLast?_eq_some_getLast hsome]
  rfl

theorem retryUpdates_of_effect {piece : Log} (h : Echoes cb piece) {ms : UInt32}
    (hms : .retry ms ∈ effects piece) : retryUpdates piece ≠ [] := by
  rw [h] at hms
  obtain ⟨r, hr, heq⟩ := List.mem_filterMap.mp hms
  cases r with
  | retry n => exact List.ne_nil_of_mem (List.mem_filterMap.mpr ⟨_, hr, rfl⟩)
  | event type id data => simp [reportEffect] at heq
  | id v len => simp [reportEffect] at heq
  | error err => simp [reportEffect] at heq

/-! ## §4 Two Runs -/

/-- **Connections are isolated from each other.** Take two runs of clients with the same callbacks and
the same buffer lengths, whatever their buffers held, their servers sent, and their connections left
unfinished. Connections that deliver the same bytes have the same effects: messages, informational
errors and retry values, in their order. From the first block that commits an id on them, the ids
they send and tell are the same, and so is the last id of the clients afterwards; from the first retry
value, so is the base. -/
theorem connections_isolated {env₁ env₂ : Env} {cfg₁ cfg₂ : SseClientConfig} {w₁ w₂ : World}
    (hlim : clientLimits cfg₁ = clientLimits cfg₂) (hcb : cfg₁.callbacks = cfg₂.callbacks)
    (h₁ : Reachable env₁ cfg₁ w₁) (h₂ : Reachable env₂ cfg₂ w₂) :
    (∀ p₁ ∈ connections w₁.log, ∀ p₂ ∈ connections w₂.log,
      received p₁ = received p₂ → effects p₁ = effects p₂) ∧
    (∀ pre₁ e₁ post₁ pre₂ e₂ post₂,
      w₁.log = pre₁ ++ e₁ :: post₁ → w₂.log = pre₂ ++ e₂ :: post₂ →
      e₁.obs.tellsPosition = true → e₂.obs.tellsPosition = true →
      received (currentConnection pre₁) = received (currentConnection pre₂) →
      Commits (clientLimits cfg₁) (received (currentConnection pre₁)) →
        cstr e₁.client.lastEventId = cstr e₂.client.lastEventId) ∧
    (received (currentConnection w₁.log) = received (currentConnection w₂.log) →
      (Commits (clientLimits cfg₁) (received (currentConnection w₁.log)) →
        cstr w₁.client.lastEventId = cstr w₂.client.lastEventId) ∧
      ∀ ms, .retry ms ∈ effects (currentConnection w₁.log) →
        w₁.client.baseRetryMs = w₂.client.baseRetryMs) := by
  have hh₁ := reachable_hears h₁
  have hh₂ := reachable_hears h₂
  have hr₁ := reachable_resumes h₁
  have hr₂ := reachable_resumes h₂
  refine ⟨?_, ?_, ?_⟩
  · intro p₁ hp₁ p₂ hp₂ hsame
    rw [reachable_allEcho h₁ p₁ hp₁, reachable_allEcho h₂ p₂ hp₂, hh₁.allHeard p₁ hp₁,
      hh₂.allHeard p₂ hp₂, hsame, hlim, hcb]
  · intro pre₁ e₁ post₁ pre₂ e₂ post₂ hlog₁ hlog₂ ht₁ ht₂ hsame hcommits
    -- a position is told by no report of the parser, so all reports have been made
    have hsettled : ∀ {o : Obs}, o.tellsPosition = true → ∀ c, o ≠ .parser c := by
      rintro o ho c rfl
      exact absurd ho (by simp [Obs.tellsPosition])
    have ha₁ := (hh₁.entries pre₁ e₁ post₁ hlog₁).settled (hsettled ht₁)
    have ha₂ := (hh₂.entries pre₂ e₂ post₂ hlog₂).settled (hsettled ht₂)
    have hcommits₂ : Commits (clientLimits cfg₂) (received (currentConnection pre₂)) := by
      rw [← hlim, ← hsame]
      exact hcommits
    rw [(hr₁.entries pre₁ e₁ post₁ hlog₁).exact ht₁, (hr₂.entries pre₂ e₂ post₂ hlog₂).exact ht₂,
      position_current ha₁ hcommits, position_current ha₂ hcommits₂, hsame, hlim]
  · intro hsame
    refine ⟨?_, ?_⟩
    · intro hcommits
      have hcommits₂ : Commits (clientLimits cfg₂) (received (currentConnection w₂.log)) := by
        rw [← hlim, ← hsame]
        exact hcommits
      rw [hr₁.client.ready.text, hr₂.client.ready.text, position_current hh₁.allHeard hcommits,
        position_current hh₂.allHeard hcommits₂, hsame, hlim]
    · intro ms hms
      -- the base is the last retry value heard, and that was heard on this connection
      have hcur : ∀ log : Log, currentConnection log ∈ connections log :=
        fun log => List.mem_append_right _ (List.mem_singleton_self _)
      have hupdates : retryUpdates (currentConnection w₁.log) =
          retryUpdates (currentConnection w₂.log) := by
        unfold retryUpdates
        rw [hh₁.current, hh₂.current, hsame, hlim]
      have hsome := retryUpdates_of_effect (reachable_allEcho h₁ _ (hcur w₁.log)) hms
      have hbase₁ : w₁.client.baseRetryMs = baseRetry cfg₁ w₁.log := (reachable_backoff h₁).base
      have hbase₂ : w₂.client.baseRetryMs = baseRetry cfg₂ w₂.log := (reachable_backoff h₂).base
      rw [hbase₁, hbase₂, baseRetry_current hsome, baseRetry_current (hupdates ▸ hsome)]
      simp only [hupdates]

/-- A server that cuts its first connection off after one byte. -/
def cutEnv : Env :=
  { streamEnv (ascii ['d', 'd', 'a', 't', 'a', '\n', '\n']) with
    readReply := fun log =>
      if (fed log).length = 1 ∧ (connections log).length = 2 then ⟨-1, [], false⟩
      else (streamEnv (ascii ['d', 'd', 'a', 't', 'a', '\n', '\n'])).readReply log
    time := fun log => log.length * 1000 }

/-- The client of `smallConfig` after it has lost that connection and received an event on the next. -/
def cutClient : World :=
  runCalls cutEnv smallClient (List.replicate 11 .poll)

theorem cutClient_reachable : Reachable cutEnv smallConfig cutClient :=
  ⟨⟨initClient smallConfig 0, []⟩, List.replicate 11 .poll, rfl, rfl⟩

theorem connections_isolated_of_cut :
    effects (currentConnection cutClient.log) = effects (currentConnection oneEventClient.log) := by
  have hcur : ∀ log : Log, currentConnection log ∈ connections log :=
    fun log => List.mem_append_right _ (List.mem_singleton_self _)
  exact (connections_isolated rfl rfl cutClient_reachable oneEventClient_reachable).1 _
    (hcur cutClient.log) _ (hcur oneEventClient.log) (by decide +kernel)

end EventSource.Client
