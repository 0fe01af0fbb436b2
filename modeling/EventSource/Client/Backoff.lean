import EventSource.Client.Delivery
import EventSource.Client.RetryDelay

/-!
# Backoff over Whole Runs

The delay that a failure announces is computed from two fields of the client. Over a whole run they
are functions of the past: the base is the last retry value that the OPEN client was sent, and the
number of attempts is that of the reconnects since the last event.
-/

namespace EventSource.Client

open EventSource.CMemory
open EventSource.Parser
open EventSource.Trace

variable {env : Env} {cfg : SseClientConfig} {w v : World} {ph : Phase}

/-! ## §1 What the Past Says -/

def retryValue : Report → Option UInt32
  | .retry ms => some ms
  | _ => none

/-- The retry values that the OPEN client was sent, oldest first. -/
def retryUpdates (log : Log) : List UInt32 :=
  (heard log).filterMap retryValue

/-- The base of the backoff: the last retry value, or the default. -/
def baseRetry (cfg : SseClientConfig) (log : Log) : UInt32 :=
  (retryUpdates log).getLastD (withDefaults cfg).defaultRetryMs

/-- An event reaches the OPEN client. -/
def Entry.delivers (e : Entry) : Bool :=
  match e.obs with
  | .parser (.onEvent _) => e.client.state = .opened
  | _ => false

/-- A failure is reported that will be followed by a retry. -/
def Obs.announces : Obs → Bool
  | .onError e => !e.reason.isLoss && e.willRetry
  | _ => false

/-- Whether `open` has been called before, and how often since the last event; the first call of all
is no reconnect. -/
def tallyEntry (acc : Bool × Nat) (e : Entry) : Bool × Nat :=
  if e.obs.opens then (true, if acc.1 then acc.2 + 1 else 0)
  else if e.delivers then (acc.1, 0)
  else acc

def tally (log : Log) : Bool × Nat :=
  log.foldl tallyEntry (false, 0)

/-- The reconnects since the last event. -/
def reconnects (log : Log) : Nat :=
  (tally log).2

/-- The retries announced since the last event. -/
def announced (log : Log) : Nat :=
  log.foldl (fun n e => if e.delivers then 0 else if e.obs.announces then n + 1 else n) 0

theorem tally_snoc (log : Log) (e : Entry) : tally (log ++ [e]) = tallyEntry (tally log) e := by
  unfold tally
  rw [List.foldl_append]
  rfl

theorem announced_snoc (log : Log) (e : Entry) :
    announced (log ++ [e]) =
      if e.delivers then 0 else if e.obs.announces then announced log + 1 else announced log := by
  unfold announced
  rw [List.foldl_append]
  rfl

theorem retryUpdates_snoc (log : Log) (e : Entry) :
    retryUpdates (log ++ [e]) = retryUpdates log ++ (e.heard.bind retryValue).toList := by
  unfold retryUpdates
  rw [heard_snoc, List.filterMap_append]
  cases e.heard with
  | none => rfl
  | some r =>
    simp only [Option.toList_some, Option.bind_some, List.filterMap_cons, List.filterMap_nil]
    cases retryValue r <;> rfl

/-- Before the first call of `open` there are no reconnects. -/
theorem tally_of_none (log : Log) (h : (tally log).1 = false) : (tally log).2 = 0 := by
  induction log using List.reverseRecOn with
  | nil => rfl
  | append_singleton log e ih =>
    rw [tally_snoc] at h ⊢
    unfold tallyEntry at h ⊢
    split at h
    · exact absurd h (by simp)
    · next hopen =>
      rw [if_neg hopen]
      split
      · rfl
      · next hno =>
        rw [if_neg hno] at h
        exact ih h

/-- What says nothing about connections, events or retries. -/
def Obs.silent : Obs → Bool
  | .transportOpen _ _ _ | .parser _ | .onOpen _ => false
  | .onError e => e.reason.isLoss || !e.willRetry
  | _ => true

/-- Only silent entries are added to the log. -/
def AddsSilent (a b : Log) : Prop :=
  ∃ es, b = a ++ es ∧ ∀ e ∈ es, e.obs.silent = true

theorem AddsSilent.refl (a : Log) : AddsSilent a a :=
  ⟨[], (List.append_nil a).symm, by simp⟩

theorem AddsSilent.snoc {a b : Log} (h : AddsSilent a b) {e : Entry} (he : e.obs.silent = true) :
    AddsSilent a (b ++ [e]) := by
  obtain ⟨es, rfl, hes⟩ := h
  refine ⟨es ++ [e], List.append_assoc .., ?_⟩
  intro x hx
  rcases List.mem_append.mp hx with hx | hx
  · exact hes x hx
  · rw [List.mem_singleton.mp hx]
    exact he

/-- What silent entries leave alone. -/
theorem AddsSilent.past {a b : Log} (h : AddsSilent a b) :
    tally b = tally a ∧ announced b = announced a ∧ retryUpdates b = retryUpdates a ∧
      beforeOpen b = beforeOpen a := by
  obtain ⟨es, rfl, hes⟩ := h
  induction es using List.reverseRecOn with
  | nil => rw [List.append_nil]; exact ⟨rfl, rfl, rfl, rfl⟩
  | append_singleton es e ih =>
    obtain ⟨htally, hannounced, hretry, hopen⟩ := ih fun x hx => hes x (List.mem_append_left _ hx)
    have he := hes e (by simp)
    -- a silent entry is none of those that the four read
    have hno : e.obs.opens = false ∧ e.delivers = false ∧ e.obs.announces = false ∧
        e.heard = none := by
      obtain ⟨o, c⟩ := e
      cases o with
      | onError err =>
        refine ⟨rfl, rfl, ?_, rfl⟩
        simp only [Obs.silent, Bool.or_eq_true, Bool.not_eq_true'] at he
        rcases he with he | he <;> simp [Obs.announces, he]
      | transportOpen url hs r => exact absurd he (by simp [Obs.silent])
      | parser c => exact absurd he (by simp [Obs.silent])
      | onOpen n => exact absurd he (by simp [Obs.silent])
      | _ => exact ⟨rfl, rfl, rfl, rfl⟩
    obtain ⟨hopens, hdelivers, hannounces, hheard⟩ := hno
    rw [← List.append_assoc]
    refine ⟨?_, ?_, ?_, ?_⟩
    · rw [tally_snoc, tallyEntry, hopens, hdelivers]
      exact htally
    · rw [announced_snoc, hdelivers, hannounces]
      exact hannounced
    · rw [retryUpdates_snoc, hheard]
      exact (List.append_nil _).trans hretry
    · exact (beforeOpen_snoc _ hopens).trans hopen

/-! ## §2 The Invariant -/

/-- A scheduled reconnect has not called `open` yet. -/
def ahead (ph : Phase) (c : SseClient) : Bool :=
  c.state = .waitingRetry ||
    c.state = .connecting && !(ph = .answered || ph = .failing || ph = .refused)

/-- The reconnects since the last event, the one that is scheduled included. -/
def scheduled (ph : Phase) (w : World) : Nat :=
  reconnects w.log + if ahead ph w.client then 1 else 0

/-- What holds of an entry, given the entries before it. -/
structure BackoffEntry (env : Env) (cfg : SseClientConfig) (pre : Log) (e : Entry) : Prop where
  delay : ∀ err, e.obs = .onError err → e.obs.announces = true → ∃ c retryAfterS,
    RetryAfterOf env pre err retryAfterS ∧ err.retryInMs = (retryDelay c retryAfterS).1 ∧
      c.cfg = withDefaults cfg ∧ c.attempts = .ofNat (reconnects pre) ∧
      c.baseRetryMs = baseRetry cfg pre ∧ announced pre = reconnects pre
  opened : ∀ n, e.obs = .onOpen n → n = .ofNat (reconnects pre) ∧
    (cfg.callbacks.onError = true → announced pre = reconnects pre)

/-- The invariant of every step. -/
structure Backoff (env : Env) (cfg : SseClientConfig) (p : Phase × World) : Prop where
  base : p.2.client.baseRetryMs = baseRetry cfg p.2.log
  begun : p.2.client.state ≠ .closed → ((tally p.2.log).1 = false ↔ p.2.client.state = .idle)
  count : p.2.client.state ≠ .closed → p.2.client.attempts = .ofNat (scheduled p.1 p.2) ∧
    (cfg.callbacks.onError = true → announced p.2.log = scheduled p.1 p.2)
  down : p.1 = .failing → p.2.client.state ≠ .waitingRetry ∧ p.2.client.state ≠ .idle
  entries : Always (BackoffEntry env cfg) p.2.log

theorem backoffEntry_silent {e : Entry} (he : e.obs.silent = true) (pre : Log) :
    BackoffEntry env cfg pre e := by
  constructor
  · intro err heq hyes
    rw [heq] at he hyes
    simp only [Obs.silent, Obs.announces, Bool.or_eq_true, Bool.not_eq_true',
      Bool.and_eq_true] at he hyes
    rcases he with he | he
    · rw [hyes.1] at he
      exact absurd he (by simp)
    · rw [hyes.2] at he
      exact absurd he (by simp)
  · intro n heq
    rw [heq] at he
    exact absurd he (by simp [Obs.silent])

/-- Silent entries, and a client whose backoff stays as it is. -/
theorem Backoff.silent {ph' : Phase} (h : Backoff env cfg (ph, w)) (hadd : AddsSilent w.log v.log)
    (hbase : v.client.baseRetryMs = w.client.baseRetryMs)
    (halive : v.client.state ≠ .closed → w.client.state ≠ .closed ∧
      v.client.attempts = w.client.attempts ∧ (v.client.state = .idle ↔ w.client.state = .idle) ∧
      ahead ph' v.client = ahead ph w.client)
    (hdown : ph' = .failing → v.client.state ≠ .waitingRetry ∧ v.client.state ≠ .idle) :
    Backoff env cfg (ph', v) := by
  obtain ⟨htally, hannounced, hretry, -⟩ := hadd.past
  refine ⟨?_, ?_, ?_, hdown, ?_⟩
  -- the base is the last retry update, of which there is none new
  · show v.client.baseRetryMs = baseRetry cfg v.log
    unfold baseRetry
    rw [hbase, hretry]
    exact h.base
  · intro hs
    obtain ⟨hw, -, hidle, -⟩ := halive hs
    show (tally v.log).1 = false ↔ v.client.state = .idle
    rw [htally, hidle]
    exact h.begun hw
  · intro hs
    obtain ⟨hw, hattempts, -, hahead⟩ := halive hs
    -- the attempts made are the same, and so is the one ahead
    have hsame : scheduled ph' v = scheduled ph w := by
      unfold scheduled reconnects
      rw [htally, hahead]
    show v.client.attempts = .ofNat (scheduled ph' v) ∧
      (cfg.callbacks.onError = true → announced v.log = scheduled ph' v)
    rw [hattempts, hannounced, hsame]
    exact h.count hw
  · obtain ⟨es, hlog, hes⟩ := hadd
    show Always _ v.log
    rw [hlog]
    exact h.entries.append fun e he pre => backoffEntry_silent (hes e he) pre

/-! ## §3 Every Step -/

/-- Closing leaves the backoff of `w` as it is. -/
theorem survives_silent (w : World) : SurvivesClosing fun v =>
    AddsSilent w.log v.log ∧ v.client.baseRetryMs = w.client.baseRetryMs ∧
      v.client.attempts = w.client.attempts where
  transport := fun _ h => ⟨h.1.snoc rfl, h.2⟩
  closed := fun _ h => h
  onClosed := fun _ h => ⟨h.1.snoc rfl, h.2⟩

/-- The connection is closed. -/
theorem Backoff.drop (h : Backoff env cfg (ph, w))
    (hs : w.client.state = .opened ∨ w.client.state = .connecting)
    (hahead : ahead ph w.client = false) : Backoff env cfg (.failing, closeTransport w) := by
  obtain ⟨hadd, hbase, hattempts⟩ := (survives_silent w).closeTransport ⟨.refl _, rfl, rfl⟩
  have hstate := closeTransport_client_state w
  apply h.silent hadd hbase
  · intro halive
    rw [hstate] at halive
    refine ⟨halive, hattempts, by rw [hstate], ?_⟩
    rw [hahead]
    unfold ahead
    rw [hstate]
    rcases hs with hs | hs <;> simp [hs]
  · intro _
    rw [hstate]
    rcases hs with hs | hs <;> simp [hs]

/-- A call of `open` is a reconnect unless it is the first of all. -/
theorem Backoff.attempt (h : Backoff env cfg (.ready, w))
    (hs : w.client.state = .idle ∨ w.client.state = .connecting) {ph' : Phase}
    (hph' : ph' = .answered ∨ ph' = .failing) (result : Int) (stop : Bool) :
    Backoff env cfg (ph', attempt w (env.extraHeaders w.log) result stop) := by
  let v := Client.attempt w (env.extraHeaders w.log) result stop
  obtain ⟨line, hs', oob, hframe⟩ := buildHeaders_frame { w.client with state := .connecting }
    (env.extraHeaders w.log)
  have hlog : ∃ url hs c, v.log = w.log ++ [⟨.transportOpen url hs result, c⟩] := ⟨_, _, _, rfl⟩
  obtain ⟨url, hs'', c, hlog⟩ := hlog
  have hstate : v.client.state = .connecting := attempt_state ..
  have hattempts : v.client.attempts = w.client.attempts := by
    show (buildHeaders _ _).attempts = _
    rw [hframe]
  have hbase : v.client.baseRetryMs = w.client.baseRetryMs := by
    show (buildHeaders _ _).baseRetryMs = _
    rw [hframe]
  have halive : w.client.state ≠ .closed := by
    rcases hs with hs | hs <;> simp [hs]
  -- the first `open` of all begins the count, every later one adds to it
  have htally : tally v.log = (true, scheduled .ready w) := by
    rw [hlog, tally_snoc]
    have hbegun := h.begun halive
    show (true, if (tally w.log).1 then (tally w.log).2 + 1 else 0) = _
    rcases hs with hs | hs
    · have hno := hbegun.mpr hs
      simp [hno, scheduled, reconnects, tally_of_none _ hno, ahead, hs]
    · have hyes : (tally w.log).1 = true := by
        cases hb : (tally w.log).1 with
        | true => rfl
        | false => exact absurd (hbegun.mp hb) (by simp [hs])
      simp [hyes, scheduled, reconnects, ahead, hs]
  have hannounced : announced v.log = announced w.log := by
    rw [hlog, announced_snoc]
    rfl
  have hretry : retryUpdates v.log = retryUpdates w.log := by
    rw [hlog, retryUpdates_snoc]
    exact List.append_nil _
  have hscheduled : scheduled ph' v = scheduled .ready w := by
    have hnot : ahead ph' v.client = false := by
      rcases hph' with rfl | rfl <;> simp [ahead, hstate]
    unfold scheduled reconnects
    rw [htally, hnot]
    rfl
  refine ⟨?_, ?_, ?_, ?_, ?_⟩
  · show v.client.baseRetryMs = baseRetry cfg v.log
    unfold baseRetry
    rw [hbase, hretry]
    exact h.base
  · intro _
    show (tally v.log).1 = false ↔ v.client.state = .idle
    rw [htally, hstate]
    simp
  · intro _
    show v.client.attempts = .ofNat (scheduled ph' v) ∧
      (cfg.callbacks.onError = true → announced v.log = scheduled ph' v)
    rw [hattempts, hannounced, hscheduled]
    exact h.count halive
  · intro _
    show v.client.state ≠ .waitingRetry ∧ v.client.state ≠ .idle
    simp [hstate]
  · show Always _ v.log
    rw [hlog]
    exact always_snoc.mpr ⟨h.entries, by simp, by simp⟩

/-- The connection becomes OPEN and reports the reconnects. -/
theorem Backoff.accept (h : Backoff env cfg (.answered, w)) (hs : w.client.state = .connecting)
    (t : Nat) : Backoff env cfg (.ready, openConnection w t) := by
  let c : SseClient := { w.client with
    parser := sseParserReset w.client.parser
    lastRxMs := .ofNat t
    state := .opened }
  let u : World := ⟨c, w.log ++
    [⟨.clock t, { w.client with parser := sseParserReset w.client.parser }⟩]⟩
  -- the clock is read and the parser reset, which counts nothing
  have hu : Backoff env cfg (.ready, u) := by
    have hadd : AddsSilent w.log u.log := (AddsSilent.refl _).snoc rfl
    have hbase : u.client.baseRetryMs = w.client.baseRetryMs := rfl
    apply h.silent hadd hbase
    · intro _
      refine ⟨by simp [hs], rfl, ?_, ?_⟩
      · simp [u, c, hs]
      · simp [ahead, u, c, hs]
    · simp
  have hcount := hu.count (by simp [u, c])
  -- an OPEN client has no attempt ahead of it
  have hnow : scheduled .ready u = reconnects u.log := by
    simp [scheduled, ahead, u, c]
  rw [hnow] at hcount
  unfold openConnection
  simp only
  split
  · -- `on_open` counts nothing, so it tells the count as it was
    have hpast : tally (u.log ++ [⟨.onOpen c.attempts, c⟩]) = tally u.log ∧
        announced (u.log ++ [⟨.onOpen c.attempts, c⟩]) = announced u.log ∧
        retryUpdates (u.log ++ [⟨.onOpen c.attempts, c⟩]) = retryUpdates u.log := by
      refine ⟨?_, ?_, ?_⟩
      · rw [tally_snoc]
        rfl
      · rw [announced_snoc]
        rfl
      · rw [retryUpdates_snoc]
        exact List.append_nil _
    obtain ⟨htally, hannounced, hretry⟩ := hpast
    refine ⟨?_, ?_, ?_, by simp, ?_⟩
    · show c.baseRetryMs = baseRetry cfg (u.log ++ [⟨.onOpen c.attempts, c⟩])
      unfold baseRetry
      rw [hretry]
      exact hu.base
    · intro hne
      show (tally (u.log ++ [⟨.onOpen c.attempts, c⟩])).1 = false ↔ _
      rw [htally]
      exact hu.begun hne
    · intro _
      have hsame : scheduled .ready (u.push (.onOpen c.attempts)) = reconnects u.log := by
        unfold scheduled reconnects
        rw [push_log, htally]
        simp [ahead, u, c]
      show c.attempts = .ofNat (scheduled .ready (u.push (.onOpen c.attempts))) ∧
        (_ → announced (u.log ++ [⟨.onOpen c.attempts, c⟩]) =
          scheduled .ready (u.push (.onOpen c.attempts)))
      rw [hsame, hannounced]
      exact hcount
    · refine always_snoc.mpr ⟨hu.entries, by simp, ?_⟩
      rintro n ⟨⟩
      exact hcount
  · exact hu

/-- A retry is scheduled and announced. -/
theorem Backoff.schedule (h : Backoff env cfg (.failing, w)) (hcfg : w.client.cfg = withDefaults cfg)
    (hs : w.client.state ≠ .closed) {e : SseError} {retryAfterS : Int32}
    (hr : e.reason.isLoss = false) (ha : RetryAfterOf env w.log e retryAfterS) (t : Nat) :
    Backoff env cfg (.scheduled, schedule w e retryAfterS t) := by
  obtain ⟨x, hframe⟩ := retryDelay_frame w.client retryAfterS
  let d : UInt32 := (retryDelay w.client retryAfterS).1
  let c₀ : SseClient := { (retryDelay w.client retryAfterS).2 with
    attempts := (retryDelay w.client retryAfterS).2.attempts + 1 }
  let c : SseClient := { c₀ with
    retryDeadline := .ofNat t + d
    state := .waitingRetry }
  let u : World := ⟨c, w.log ++ [⟨.clock t, c₀⟩]⟩
  have hadd : AddsSilent w.log u.log := (AddsSilent.refl _).snoc rfl
  obtain ⟨htally, hannounced, hretry, hopen⟩ := hadd.past
  have hbase : c.baseRetryMs = w.client.baseRetryMs := by
    show (retryDelay w.client retryAfterS).2.baseRetryMs = _
    rw [hframe]
  have hattempts : c.attempts = w.client.attempts + 1 := by
    show (retryDelay w.client retryAfterS).2.attempts + 1 = _
    rw [hframe]
  have hstate : c.state = .waitingRetry := rfl
  -- nothing is scheduled while the connection is failing
  have hnow : scheduled .failing w = reconnects w.log := by
    simp [scheduled, ahead, (h.down rfl).1]
  have hcount := h.count hs
  rw [hnow] at hcount
  have hsum : c.attempts = .ofNat (reconnects w.log + 1) := by
    rw [hattempts, hcount.1, UInt32.ofNat_add]
    rfl
  have hbegun : (tally w.log).1 ≠ false := fun hno => (h.down rfl).2 ((h.begun hs).mp hno)
  have hset : c.cfg.callbacks.onError = cfg.callbacks.onError := by
    show (retryDelay w.client retryAfterS).2.cfg.callbacks.onError = _
    rw [hframe, hcfg]
    rfl
  -- what holds of the past does not depend on whether the application listens
  have hu : ∀ log, tally log = tally w.log → retryUpdates log = retryUpdates w.log →
      (cfg.callbacks.onError = true → announced log = announced w.log + 1) →
      Always (BackoffEntry env cfg) log → Backoff env cfg (.scheduled, ⟨c, log⟩) := by
    intro log ht hv hn hentries
    refine ⟨?_, ?_, ?_, by simp, hentries⟩
    · show c.baseRetryMs = baseRetry cfg log
      unfold baseRetry
      rw [hbase, hv]
      exact h.base
    · intro _
      show (tally log).1 = false ↔ c.state = .idle
      rw [ht, hstate]
      simp [hbegun]
    · intro _
      have hnext : scheduled .scheduled ⟨c, log⟩ = reconnects w.log + 1 := by
        unfold scheduled reconnects
        rw [ht]
        simp [ahead, hstate]
      rw [hnext]
      refine ⟨hsum, ?_⟩
      intro hcb
      exact (hn hcb).trans (by rw [hcount.2 hcb])
  have hclock : Always (BackoffEntry env cfg) u.log :=
    always_snoc.mpr ⟨h.entries, backoffEntry_silent rfl _⟩
  unfold Client.schedule
  simp only
  split
  · next hyes =>
    have hcb : cfg.callbacks.onError = true := hset.symm.trans hyes
    let err : SseError := { e with willRetry := true, retryInMs := d }
    have hannounces : (Obs.onError err).announces = true := by simp [Obs.announces, err, hr]
    refine hu (u.log ++ [⟨.onError err, c⟩]) ?_ ?_ ?_ (always_snoc.mpr ⟨hclock, ?_, by simp⟩)
    · rw [tally_snoc]
      exact htally
    · rw [retryUpdates_snoc]
      exact (List.append_nil _).trans hretry
    · intro _
      rw [announced_snoc, hannounced, hannounces]
      rfl
    · rintro _ ⟨⟩ _
      refine ⟨w.client, retryAfterS, ha.congr hopen rfl rfl, rfl, hcfg, ?_, ?_, ?_⟩
      · unfold reconnects
        rw [htally]
        exact hcount.1
      · unfold baseRetry
        rw [hretry]
        exact h.base
      · unfold reconnects
        rw [htally, hannounced]
        exact hcount.2 hcb
  · next hno =>
    refine hu u.log htally hretry ?_ hclock
    intro hcb
    exact absurd (hset.trans hcb) hno

/-- A report of the parser is recorded, and the client changed accordingly. -/
theorem Backoff.report {c : Callback} {rest rest' : List Callback} {called called' : Bool}
    (h : Backoff env cfg (.parsing rest called, w)) {client : SseClient}
    (hs : client.state = w.client.state)
    (hbase : client.baseRetryMs = baseRetry cfg (w.log ++ [⟨.parser c, w.client⟩]))
    (hattempts : client.attempts =
      if Entry.delivers ⟨.parser c, w.client⟩ then 0 else w.client.attempts) :
    Backoff env cfg (.parsing rest' called', ⟨client, w.log ++ [⟨.parser c, w.client⟩]⟩) := by
  have htally : tally (w.log ++ [⟨.parser c, w.client⟩]) =
      if Entry.delivers ⟨.parser c, w.client⟩ then ((tally w.log).1, 0) else tally w.log := by
    rw [tally_snoc]
    rfl
  have hannounced : announced (w.log ++ [⟨.parser c, w.client⟩]) =
      if Entry.delivers ⟨.parser c, w.client⟩ then 0 else announced w.log := by
    rw [announced_snoc]
    rfl
  refine ⟨hbase, ?_, ?_, by simp, ?_⟩
  · intro halive
    have hw : w.client.state ≠ .closed := hs ▸ halive
    show (tally (w.log ++ [⟨.parser c, w.client⟩])).1 = false ↔ client.state = .idle
    have hsame : (tally (w.log ++ [⟨.parser c, w.client⟩])).1 = (tally w.log).1 := by
      rw [htally]
      split <;> rfl
    rw [hsame, hs]
    exact h.begun hw
  · intro halive
    have hw : w.client.state ≠ .closed := hs ▸ halive
    have hcount := h.count hw
    show client.attempts = .ofNat (scheduled _ ⟨client, w.log ++ [⟨.parser c, w.client⟩]⟩) ∧
      (_ → announced (w.log ++ [⟨.parser c, w.client⟩]) = scheduled _ ⟨client, _⟩)
    unfold scheduled reconnects at hcount ⊢
    rw [hattempts, hannounced, htally]
    cases hd : Entry.delivers ⟨.parser c, w.client⟩ with
    | true =>
      -- only the OPEN client takes an event, and then nothing is scheduled
      have hopen : w.client.state = .opened := by
        cases c <;> simp_all [Entry.delivers]
      simp [ahead, hs, hopen]
    | false =>
      simp only [ahead, hs] at hcount ⊢
      exact hcount
  · exact always_snoc.mpr ⟨h.entries, by simp, by simp⟩

/-- A report of the parser: an event ends the backoff, a retry value changes its base. -/
theorem Backoff.deliver {c : Callback} {rest : List Callback} {called : Bool}
    (h : Backoff env cfg (.parsing (c :: rest) called, w)) :
    Backoff env cfg (.parsing rest (callsUser w.client c), delivered w c) := by
  have hother : ∀ {c : Callback}, (∀ ms, c ≠ .onRetry ms) →
      baseRetry cfg (w.log ++ [⟨.parser c, w.client⟩]) = baseRetry cfg w.log := by
    intro c hc
    unfold baseRetry
    rw [retryUpdates_snoc]
    cases c with
    | onRetry ms => exact absurd rfl (hc ms)
    | onId id len => simp [Entry.heard]; split <;> simp [Callback.report, retryValue]
    | onEvent ev => simp [Entry.heard]; split <;> simp [Callback.report, retryValue]
    | onError err => simp [Entry.heard]; split <;> simp [Callback.report, retryValue]
  have hbase : w.client.baseRetryMs = baseRetry cfg w.log := h.base
  unfold delivered
  by_cases hs : w.client.state = .opened
  · cases c with
    | onId id len =>
      have hplain := (@hother (.onId id len) (by simp)).symm
      simp only [bridged, bridgeOnId, push_client, hs, ne_eq, not_true_eq_false, if_false]
      split
      · exact h.report rfl (hbase.trans hplain) rfl
      · exact h.report rfl (hbase.trans hplain) rfl
    | onRetry ms =>
      simp only [bridged, bridgeOnRetry, push_client, hs, ne_eq, not_true_eq_false, if_false]
      refine h.report rfl ?_ rfl
      show ms = baseRetry cfg (w.log ++ [⟨.parser (.onRetry ms), w.client⟩])
      unfold baseRetry
      rw [retryUpdates_snoc]
      simp [Entry.heard, hs, Callback.report, retryValue]
    | onEvent ev =>
      have hplain := (@hother (.onEvent ev) (by simp)).symm
      -- an event resets the attempts, also when nobody listens to messages
      have hcount : (0 : UInt32) =
          if Entry.delivers ⟨.parser (.onEvent ev), w.client⟩ then 0 else w.client.attempts := by
        simp [Entry.delivers, hs]
      have hzero : Backoff env cfg (.parsing rest (callsUser w.client (.onEvent ev)),
          (w.push (.parser (.onEvent ev))).update fun c => { c with attempts := 0 }) :=
        h.report rfl (hbase.trans hplain) hcount
      simp only [bridged, push_client, hs, ne_eq, not_true_eq_false, if_false]
      split
      · exact hzero.silent ((AddsSilent.refl _).snoc rfl) rfl
          (fun halive => ⟨halive, rfl, Iff.rfl, rfl⟩) (by simp)
      · exact hzero
    | onError err =>
      have hplain := (@hother (.onError err) (by simp)).symm
      have hpushed : Backoff env cfg (.parsing rest (callsUser w.client (.onError err)),
          w.push (.parser (.onError err))) := h.report rfl (hbase.trans hplain) rfl
      rcases bridged_error (w.push (.parser (.onError err))) err with heq | ⟨e, he, heq⟩
      · rw [heq]
        exact hpushed
      · rw [heq]
        have hadd : AddsSilent (w.push (.parser (.onError err))).log
            ((w.push (.parser (.onError err))).push (.onError e)).log :=
          (AddsSilent.refl _).snoc (by simp [Obs.silent, he])
        exact hpushed.silent hadd rfl (fun halive => ⟨halive, rfl, Iff.rfl, rfl⟩) (by simp)
  · -- a client that is not OPEN is left alone, and the entry says nothing
    have hsame := bridged_of_not_opened (w := w.push (.parser c)) hs c
    rw [hsame]
    have hnone : Entry.heard ⟨.parser c, w.client⟩ = none := by simp [Entry.heard, hs]
    refine h.report rfl ?_ ?_
    · unfold baseRetry
      rw [retryUpdates_snoc, hnone]
      simpa [baseRetry] using hbase
    · cases c <;> simp [Entry.delivers, hs]

/-- **Every step keeps the backoff a function of the past.** -/
theorem backoff_step {s t : Phase × World} (h : Step env s t) (hok : PhaseOk s.2.client s.1)
    (hcfg : s.2.client.cfg = withDefaults cfg) (hb : Backoff env cfg s) : Backoff env cfg t := by
  -- steps that leave the retry state alone and add one entry at most
  have hkeep : ∀ {ph ph' : Phase} {w v : World}, Backoff env cfg (ph, w) →
      AddsSilent w.log v.log → v.client.baseRetryMs = w.client.baseRetryMs →
      v.client.attempts = w.client.attempts → v.client.state = w.client.state →
      (w.client.state ≠ .closed → ahead ph' w.client = ahead ph w.client) →
      (ph' = .failing → ph = .failing) → Backoff env cfg (ph', v) := by
    intro ph ph' w v hw hadd hbase hattempts hstate hahead hdown
    apply hw.silent hadd hbase
    · intro halive
      have hahead' : ahead ph' v.client = ahead ph' w.client := by
        unfold ahead
        rw [hstate]
      rw [hstate] at halive
      exact ⟨halive, hattempts, by rw [hstate], hahead'.trans (hahead halive)⟩
    · intro hph
      rw [hstate]
      exact hw.down (hdown hph)
  cases h with
  | call w c => exact hkeep hb ((AddsSilent.refl _).snoc rfl) rfl rfl rfl (fun _ => rfl) (by simp)
  | stop ph w => exact hkeep hb (.refl _) rfl rfl rfl (fun _ => rfl) id
  | close ph w hph =>
    obtain ⟨hadd, hbase, -⟩ := (survives_silent w).closing ⟨.refl _, rfl, rfl⟩
    have hclosed := closing_state w
    exact hb.silent hadd hbase (fun halive => absurd hclosed halive) (by simp [hclosed])
  | tick w => exact hkeep hb ((AddsSilent.refl _).snoc rfl) rfl rfl rfl (fun _ => rfl) (by simp)
  | connect w stop hs =>
    exact hkeep (hb.attempt hs (.inl rfl) 0 stop) (.refl _) rfl rfl rfl (fun _ => rfl) id
  | connectFail w result stop hs hr =>
    have hstate : (attempt w (env.extraHeaders w.log) result stop).client.state = .connecting :=
      attempt_state ..
    exact (hb.attempt hs (.inr rfl) result stop).drop (.inr hstate) (by simp [ahead, hstate])
  | reject w =>
    have hstate : w.client.state = .connecting := hok.2
    exact Backoff.drop (w := w) hb (.inr hstate) (by simp [ahead, hstate])
  | accept w => exact Backoff.accept (w := w) hb hok.2 _
  | read w result bytes stop hs =>
    exact hkeep hb ((AddsSilent.refl _).snoc rfl) rfl rfl rfl (fun _ => rfl) (by simp)
  | drop w hs => exact Backoff.drop (w := w) hb (.inl hs) (by simp [ahead, hs])
  | receive w hs =>
    exact hkeep hb ((AddsSilent.refl _).snoc rfl) rfl rfl rfl (fun _ => rfl) (by simp)
  | byte w b hs hread =>
    exact hkeep hb ((AddsSilent.refl _).snoc rfl) rfl rfl rfl (fun _ => rfl) (by simp)
  | deliver w c rest called => exact hb.deliver
  | parsed w called => exact hkeep hb (.refl _) rfl rfl rfl (fun _ => rfl) (by simp)
  | consult w e hs =>
    exact hkeep hb ((AddsSilent.refl _).snoc rfl) rfl rfl rfl (fun _ => rfl) id
  | refuse w e hs hr =>
    have hrefusal : AddsSilent w.log (refusal w e).log ∧ (refusal w e).client = w.client := by
      unfold refusal
      split
      · exact ⟨(AddsSilent.refl _).snoc (by simp [Obs.silent]), rfl⟩
      · exact ⟨.refl _, rfl⟩
    obtain ⟨hadd, hsame⟩ := hrefusal
    exact hkeep hb hadd (by rw [hsame]) (by rw [hsame]) (by rw [hsame]) (fun _ => rfl) (by simp)
  | retry w e retryAfterS hs hr ha => exact Backoff.schedule hb hcfg hs hr ha _
  | abandon ph w hph hs =>
    exact hkeep hb (.refl _) rfl rfl rfl (fun halive => absurd hs halive) (by simp)
  | due w hs =>
    refine hb.silent (w := w) ((AddsSilent.refl _).snoc rfl) rfl ?_ (by simp)
    intro _
    refine ⟨by simp [hs], rfl, ?_, ?_⟩
    · simp [hs]
    · simp [ahead, hs]
  | finish ph w hph =>
    refine hkeep hb (.refl _) rfl rfl rfl ?_ (by simp)
    intro _
    rcases hph with rfl | rfl <;> rfl

theorem init_backoff (h : sseClientInit env cfg = some w) : Backoff env cfg (.between, w) := by
  have hok := configOk_of_init h
  have hw : (⟨initClient cfg (.ofNat (env.time [])), []⟩ : World) = w := by
    simpa [sseClientInit, hok] using h
  rw [← hw]
  exact ⟨rfl, fun _ => iff_of_true rfl rfl, fun _ => ⟨rfl, fun _ => rfl⟩, by simp, always_nil _⟩

theorem reachable_backoff (h : Reachable env cfg w) : Backoff env cfg (.between, w) := by
  let I : Phase × World → Prop := fun p => Life (withDefaults cfg) p.2 ∧ Backoff env cfg p
  refine (reachable_invariant (I := I) (fun _ hw => ⟨(init_ready hw).2, init_backoff hw⟩) ?_ h).2.2
  rintro s t hst hok ⟨hlife, hb⟩
  exact ⟨life_step hst hok hlife, backoff_step hst hok hlife.config hb⟩

/-! ## §4 The Documented Doubling -/

/-- The delay of the `k`-th reconnect since the last event, before the limit of the signed comparison:
`base` doubled at most fifteen times, and at most `most`. -/
def backoffDelay (base most : UInt32) (k : Nat) : Nat :=
  min (base.toNat * 2 ^ min k 15) most.toNat

/-- **Backoff follows the doubling over whole runs.** With a maximum and without jitter: every
failure that announces a retry and has no Retry-After announces the base, doubled for each reconnect
since the last event up to fifteen times, and limited by the maximum and by the largest signed delay;
every `on_open` reports these reconnects; and where failures are reported at all, they are the retries
announced since the last event. -/
theorem backoff_doubles (hmax : cfg.maxRetryMs ≠ 0) (hjitter : cfg.jitterPct = 0)
    (h : Reachable env cfg w) :
    (∀ pre e c post, w.log = pre ++ ⟨.onError e, c⟩ :: post → e.reason.isLoss = false →
      e.willRetry = true →
      (e.reason = .httpStatus → (lastResponse env pre).retryAfterS < 0) →
      reconnects pre < 2 ^ 32 →
        e.retryInMs.toNat =
          min (backoffDelay (baseRetry cfg pre) cfg.maxRetryMs (reconnects pre)) (2 ^ 31 - 1) ∧
        announced pre = reconnects pre) ∧
    ∀ pre n c post, w.log = pre ++ ⟨.onOpen n, c⟩ :: post →
      n = .ofNat (reconnects pre) ∧
        (cfg.callbacks.onError = true → announced pre = reconnects pre) := by
  have hb := reachable_backoff h
  refine ⟨?_, fun pre n c post hlog => (hb.entries pre _ post hlog).opened n rfl⟩
  intro pre e c post hlog hr hretry hnone hk
  have hannounces : (Obs.onError e).announces = true := by simp [Obs.announces, hr, hretry]
  obtain ⟨d, retryAfterS, ha, hdelay, hcfg, hattempts, hbase, htold⟩ :=
    (hb.entries pre _ post hlog).delay e rfl hannounces
  -- there is no Retry-After
  have habsent : retryAfterS < 0 := by
    unfold RetryAfterOf at ha
    split at ha
    · next hstatus =>
      rw [ha.2]
      exact hnone hstatus
    · rw [ha]
      decide
  have hnojitter : jitter d = 0 := jitter_of_zero (by rw [hcfg]; exact hjitter)
  have hd : d.cfg.maxRetryMs = cfg.maxRetryMs := by rw [hcfg]; rfl
  have hplanned : plannedDelay d retryAfterS =
      backoffDelay (baseRetry cfg pre) cfg.maxRetryMs (reconnects pre) := by
    unfold plannedDelay backoffDelay
    rw [if_neg (Int32.not_le.mpr habsent), hd, if_neg hmax, hbase, hattempts, UInt32.toNat_ofNat',
      Nat.mod_eq_of_lt hk]
  refine ⟨?_, htold⟩
  rw [hdelay, retryDelay_toNat, jitteredDelay, hnojitter, Nat.mul_zero, Nat.zero_div, Nat.add_zero,
    hplanned, Nat.min_comm]

/-- `smallConfig` with a base of one millisecond and backoff. -/
def backoffConfig : SseClientConfig :=
  { smallConfig with
    defaultRetryMs := 1
    maxRetryMs := 1000000 }

/-- No connection ever succeeds, and much time passes. -/
def downEnv : Env :=
  { deadEnv with time := fun log => log.length * 1000000 }

/-- The client of `backoffConfig` after seventeen failures, each of them retried. -/
def failingClient : World :=
  runCalls downEnv ⟨initClient backoffConfig 0, []⟩ (List.replicate 33 .poll)

theorem failingClient_reachable : Reachable downEnv backoffConfig failingClient :=
  ⟨⟨initClient backoffConfig 0, []⟩, List.replicate 33 .poll, rfl, rfl⟩

/-- The last of the failures, and the reconnects before it. -/
theorem failingClient_last :
    (∃ c, failingClient.log = failingClient.log.take 99 ++
      [⟨.onError ⟨.transport, 0, true, 32768⟩, c⟩]) ∧
      reconnects (failingClient.log.take 99) = 16 ∧
      baseRetry backoffConfig (failingClient.log.take 99) = 1 := by
  refine ⟨?_, by decide +kernel, by decide +kernel⟩
  have hlast : failingClient.log[99]?.map (fun e => e.obs) =
      some (.onError ⟨.transport, 0, true, 32768⟩) := by decide +kernel
  have hlen : failingClient.log.length = 100 := by decide +kernel
  obtain ⟨⟨o, c⟩, he, hobs⟩ := Option.map_eq_some_iff.mp hlast
  obtain ⟨hlt, he'⟩ := List.getElem?_eq_some_iff.mp he
  have hdrop : failingClient.log.drop 99 = [⟨o, c⟩] := by
    rw [← List.getElem_cons_drop (h := hlt), he', List.drop_eq_nil_of_le (by omega)]
  refine ⟨c, ?_⟩
  have hobs' : o = .onError ⟨.transport, 0, true, 32768⟩ := hobs
  rw [← hobs', ← hdrop, List.take_append_drop]

/-- The seventeenth failure in a row does not announce the base doubled sixteen times. -/
theorem backoff_stops_doubling :
    Reachable downEnv backoffConfig failingClient ∧
      ¬ ∀ pre e c post, failingClient.log = pre ++ ⟨.onError e, c⟩ :: post → e.willRetry = true →
        e.reason = .transport →
          e.retryInMs.toNat = min ((baseRetry backoffConfig pre).toNat * 2 ^ reconnects pre)
            (min backoffConfig.maxRetryMs.toNat (2 ^ 31 - 1)) := by
  refine ⟨failingClient_reachable, ?_⟩
  intro hdoubles
  obtain ⟨⟨c, hlog⟩, hk, hbase⟩ := failingClient_last
  have hdelay := hdoubles _ _ c [] hlog rfl rfl
  rw [hk, hbase] at hdelay
  exact absurd hdelay (by decide)

theorem backoff_doubles_of_failures :
    ∃ pre e c, failingClient.log = pre ++ [⟨.onError e, c⟩] ∧
      e.retryInMs.toNat = min (backoffDelay 1 1000000 16) (2 ^ 31 - 1) ∧ announced pre = 16 := by
  obtain ⟨⟨c, hlog⟩, hk, hbase⟩ := failingClient_last
  obtain ⟨hdelay, -⟩ := backoff_doubles (by decide) rfl failingClient_reachable
  obtain ⟨hexact, htold⟩ := hdelay _ _ c [] hlog rfl rfl (by simp) (by rw [hk]; decide)
  rw [hk, hbase] at hexact
  exact ⟨_, _, c, hlog, hexact, htold.trans hk⟩

end EventSource.Client
