import EventSource.Client.Lifecycle
import EventSource.Parser.Outcomes
import EventSource.Parser.StreamRefinement

/-!
# What Each Connection Has Delivered

The log is cut before each call of `open`. In every piece, what the parser has reported to the OPEN
client is the reading of the bytes that the OPEN client has received since, whatever the parser's
buffers held before. The reports of the last byte may still be on their way; while the application
has control they never are, since what a byte settles it settles last.
-/

namespace EventSource.Client

open EventSource.CMemory
open EventSource.Parser
open EventSource.Trace
open EventSource.Transducer

variable {env : Env} {cfg : SseClientConfig} {lim : Limits} {w : World} {pend : List Report}

/-! ## §1 Connections -/

/-- An entry either begins a new piece of the log, and ends the one before, or belongs to the current
one. -/
def connectionEntry (cur : Log) (e : Entry) : Log × List Log :=
  match e.obs with
  | .transportOpen _ _ _ => ([e], [cur])
  | _ => (cur ++ [e], [])

/-- The log since the last call of `open`, and the pieces before it. -/
def cutConnections (log : Log) : Log × List Log :=
  run connectionEntry [] log

/-- The pieces of a log, one for each connection; the first is what comes before all connections. -/
def connections (log : Log) : List Log :=
  (cutConnections log).2 ++ [(cutConnections log).1]

/-- The log of the current connection. -/
def currentConnection (log : Log) : Log :=
  (cutConnections log).1

/-- The byte that the OPEN client feeds to its parser. -/
def Entry.received (e : Entry) : Option UInt8 :=
  match e.obs with
  | .byte b => if e.client.state = .opened then some b else none
  | _ => none

/-- The report that the parser makes to the OPEN client. -/
def Entry.heard (e : Entry) : Option Report :=
  match e.obs with
  | .parser c => if e.client.state = .opened then some c.report else none
  | _ => none

/-- The bytes that the OPEN client has received. -/
def received (log : Log) : Bytes :=
  log.filterMap Entry.received

/-- What the parser has reported to the OPEN client. -/
def heard (log : Log) : List Report :=
  log.filterMap Entry.heard

/-- Entries of another kind belong to the current connection. -/
theorem cutConnections_snoc (log : Log) {e : Entry}
    (he : ∀ url hs r, e.obs ≠ .transportOpen url hs r) :
    cutConnections (log ++ [e]) = ((cutConnections log).1 ++ [e], (cutConnections log).2) := by
  unfold cutConnections
  rw [run_snoc]
  unfold andThen connectionEntry
  split
  · next url hs r heq => exact absurd heq (he url hs r)
  · rw [List.append_nil]

theorem cutConnections_open (log : Log) (url : Mem) (hs : List (Option Mem)) (r : Int)
    (c : SseClient) :
    cutConnections (log ++ [⟨.transportOpen url hs r, c⟩]) =
      ([⟨.transportOpen url hs r, c⟩], (cutConnections log).2 ++ [(cutConnections log).1]) := by
  unfold cutConnections
  rw [run_snoc]
  rfl

/-- No entry is lost. -/
theorem connections_flatten (log : Log) : (connections log).flatten = log := by
  induction log using List.reverseRecOn with
  | nil => rfl
  | append_singleton log e ih =>
    have hpieces : (cutConnections log).2.flatten ++ (cutConnections log).1 = log := by
      simpa [connections] using ih
    obtain ⟨o, c⟩ := e
    unfold connections
    by_cases ho : ∃ url hs r, o = .transportOpen url hs r
    · obtain ⟨url, hs, r, rfl⟩ := ho
      rw [cutConnections_open]
      simp [-List.append_assoc, hpieces]
    · have hother : ∀ url hs r, o ≠ .transportOpen url hs r :=
        fun url hs r heq => ho ⟨url, hs, r, heq⟩
      rw [cutConnections_snoc log hother]
      simp [← List.append_assoc, hpieces]

theorem received_snoc (log : Log) (e : Entry) :
    received (log ++ [e]) = received log ++ e.received.toList := by
  unfold received
  rw [List.filterMap_append]
  cases h : e.received <;> simp [h]

theorem heard_snoc (log : Log) (e : Entry) :
    heard (log ++ [e]) = heard log ++ e.heard.toList := by
  unfold heard
  rw [List.filterMap_append]
  cases h : e.heard <;> simp [h]

/-- The bytes of the log are those of its connections. -/
theorem heard_flatten (pieces : List Log) : heard pieces.flatten = pieces.flatMap heard := by
  unfold heard
  rw [List.filterMap_flatten, List.flatMap_def]

/-! ## §2 Hearing -/

/-- All of the parser's callbacks are set. -/
def allCallbacks : ParserCallbacks := ⟨true, true, true, true⟩

theorem allCallbacks_accepts (r : Report) : allCallbacks.accepts r = true := by
  cases r <;> rfl

/-- The buffer lengths of a client's parser. -/
def clientLimits (cfg : SseClientConfig) : Limits :=
  (clientParser cfg).buf.limits

/-- On every connection the log has heard all that the bytes received say. -/
def AllHeard (lim : Limits) (log : Log) : Prop :=
  ∀ piece ∈ connections log, heard piece = readingWithTail lim (received piece)

/-- What holds of an entry, given the entries before it: unless it is a report of the parser, all
reports before it have been made. -/
structure HeardEntry (lim : Limits) (pre : Log) (e : Entry) : Prop where
  settled : (∀ c, e.obs ≠ .parser c) → AllHeard lim pre
  terminated : ∀ c, e.obs = .parser c → c.Terminated

/-- The reports `pend` of the last byte are still to be made. -/
structure Hears (lim : Limits) (w : World) (pend : List Report) : Prop where
  parser : ∃ s, StreamRep allCallbacks lim w.client.parser s
  live : w.client.state = .opened →
    StreamRep allCallbacks lim w.client.parser (received (currentConnection w.log))
  reports : heard (currentConnection w.log) ++ pend =
    readingWithTail lim (received (currentConnection w.log))
  past : ∀ piece ∈ (cutConnections w.log).2, heard piece = readingWithTail lim (received piece)
  entries : Always (HeardEntry lim) w.log

theorem Hears.current (h : Hears lim w []) :
    heard (currentConnection w.log) = readingWithTail lim (received (currentConnection w.log)) := by
  have hreports := h.reports
  rwa [List.append_nil] at hreports

theorem Hears.allHeard (h : Hears lim w []) : AllHeard lim w.log := by
  intro piece hp
  rcases List.mem_append.mp hp with hp | hp
  · exact h.past piece hp
  · rw [List.mem_singleton.mp hp]
    exact h.current

/-- What is neither a byte, a report nor a new connection leaves bytes and reports alone. -/
def Obs.plain : Obs → Bool
  | .transportOpen _ _ _ | .byte _ | .parser _ => false
  | _ => true

theorem received_of_plain {e : Entry} (he : e.obs.plain = true) : e.received = none := by
  obtain ⟨o, c⟩ := e
  cases o <;> first | rfl | simp [Obs.plain] at he

theorem heard_of_plain {e : Entry} (he : e.obs.plain = true) : e.heard = none := by
  obtain ⟨o, c⟩ := e
  cases o <;> first | rfl | simp [Obs.plain] at he

theorem cutConnections_plain (log : Log) {e : Entry} (he : e.obs.plain = true) :
    cutConnections (log ++ [e]) = ((cutConnections log).1 ++ [e], (cutConnections log).2) := by
  apply cutConnections_snoc
  intro url hs r heq
  rw [heq] at he
  exact absurd he (by simp [Obs.plain])

theorem received_current_plain (log : Log) {e : Entry} (he : e.obs.plain = true) :
    received (currentConnection (log ++ [e])) = received (currentConnection log) := by
  unfold currentConnection
  rw [cutConnections_plain log he, received_snoc, received_of_plain he]
  simp

theorem Hears.push (h : Hears lim w []) {o : Obs} (ho : o.plain = true) :
    Hears lim (w.push o) [] := by
  have hcut := cutConnections_plain w.log (e := ⟨o, w.client⟩) ho
  have hrec := received_current_plain w.log (e := ⟨o, w.client⟩) ho
  refine ⟨h.parser, ?_, ?_, ?_, always_snoc.mpr ⟨h.entries, fun _ => h.allHeard, ?_⟩⟩
  · rw [push_log, hrec]
    exact h.live
  · rw [push_log, hrec]
    unfold currentConnection
    rw [hcut, heard_snoc, heard_of_plain ho, Option.toList_none, List.append_nil]
    exact h.reports
  · rw [push_log, hcut]
    exact h.past
  · rintro c rfl
    simp [Obs.plain] at ho

/-- A change that leaves the parser alone and does not open the connection. -/
theorem Hears.update (h : Hears lim w pend) {f : SseClient → SseClient}
    (hp : (f w.client).parser = w.client.parser)
    (hs : (f w.client).state = .opened → w.client.state = .opened) :
    Hears lim (w.update f) pend := by
  refine ⟨?_, ?_, h.reports, h.past, h.entries⟩
  · rw [update_client, hp]
    exact h.parser
  · intro hopen
    rw [update_client, hp]
    exact h.live (hs hopen)

theorem survives_hears : SurvivesClosing fun v => Hears lim v [] where
  transport := fun _ h => (h.push rfl).update rfl id
  closed := fun _ h => h.update rfl (by simp)
  onClosed := fun _ h => h.push rfl

theorem Hears.closeTransport (h : Hears lim w []) : Hears lim (closeTransport w) [] :=
  survives_hears.closeTransport h

theorem Hears.closing (h : Hears lim w []) : Hears lim (closing w) [] :=
  survives_hears.closing h

/-- A new connection has delivered nothing. -/
theorem Hears.attempt (h : Hears lim w []) (extra : List Mem) (result : Int) (stop : Bool) :
    Hears lim (Client.attempt w extra result stop) [] ∧
      received (currentConnection (Client.attempt w extra result stop).log) = [] := by
  obtain ⟨_, _, _, heq⟩ := buildHeaders_frame { w.client with state := .connecting } extra
  have hlog : ∃ hs c, (Client.attempt w extra result stop).log =
      w.log ++ [⟨.transportOpen (c.cfg.url.getD []) hs result, c⟩] := ⟨_, _, rfl⟩
  obtain ⟨hs, c, hlog⟩ := hlog
  have hcut := cutConnections_open w.log (c.cfg.url.getD []) hs result c
  have hparser : (Client.attempt w extra result stop).client.parser = w.client.parser := by
    show (buildHeaders _ _).parser = _
    rw [heq]
  -- the call of `open` begins a connection of its own
  have hempty : received (currentConnection (Client.attempt w extra result stop).log) = [] := by
    unfold currentConnection
    rw [hlog, hcut]
    rfl
  refine ⟨⟨?_, ?_, ?_, ?_, ?_⟩, hempty⟩
  · rw [hparser]
    exact h.parser
  · intro hopen
    rw [attempt_state] at hopen
    exact absurd hopen (by simp)
  · rw [hempty]
    unfold currentConnection
    rw [hlog, hcut]
    rfl
  · rw [hlog, hcut]
    intro piece hpiece
    rcases List.mem_append.mp hpiece with hpiece | hpiece
    · exact h.past piece hpiece
    · rw [List.mem_singleton.mp hpiece]
      exact h.current
  · rw [hlog]
    exact always_snoc.mpr ⟨h.entries, fun _ => h.allHeard, by simp⟩

theorem Hears.openConnection (hlim : lim.Valid) (h : Hears lim w [])
    (hfresh : received (currentConnection w.log) = []) (t : Nat) :
    Hears lim (openConnection w t) [] := by
  obtain ⟨s, hs⟩ := h.parser
  -- whatever the last connection left behind, the parser is fresh
  have hreset := streamRep_reset hlim hs
  have hclock : Hears lim ((w.update fun c => { c with parser := sseParserReset c.parser }).push
      (.clock t)) [] := by
    have hquiet : Hears lim (w.update fun c => { c with parser := sseParserReset c.parser }) [] :=
      ⟨⟨[], hreset⟩, fun _ => hfresh.symm ▸ hreset, h.reports, h.past, h.entries⟩
    exact hquiet.push rfl
  -- nothing has been received on the new one
  have hempty : received (currentConnection (w.log ++ [⟨.clock t,
      { w.client with parser := sseParserReset w.client.parser }⟩])) = [] := by
    rw [received_current_plain _ rfl]
    exact hfresh
  have hopen : Hears lim (((w.update fun c => { c with parser := sseParserReset c.parser }).push
      (.clock t)).update fun c => { c with lastRxMs := .ofNat t, state := .opened }) [] := by
    refine ⟨hclock.parser, ?_, hclock.reports, hclock.past, hclock.entries⟩
    intro _
    have hgoal : StreamRep allCallbacks lim (sseParserReset w.client.parser)
        (received (currentConnection (w.log ++ [⟨.clock t,
          { w.client with parser := sseParserReset w.client.parser }⟩]))) := by
      rw [hempty]
      exact hreset
    exact hgoal
  unfold Client.openConnection
  simp only
  split
  · exact hopen.push rfl
  · exact hopen

theorem Hears.schedule (h : Hears lim w []) (e : SseError) (retryAfterS : Int32) (t : Nat) :
    Hears lim (schedule w e retryAfterS t) [] := by
  obtain ⟨x, heq⟩ := retryDelay_frame w.client retryAfterS
  have hcount := h.update (f := fun _ => { (retryDelay w.client retryAfterS).2 with
    attempts := (retryDelay w.client retryAfterS).2.attempts + 1 }) (by rw [heq]) (by rw [heq]; exact id)
  have hclock := hcount.push (o := .clock t) rfl
  have hwait := hclock.update (f := fun c => { c with
    retryDeadline := .ofNat t + (retryDelay w.client retryAfterS).1
    state := .waitingRetry }) rfl (by simp)
  unfold Client.schedule
  simp only
  split
  · exact hwait.push rfl
  · exact hwait

/-! ## §3 Bytes and Reports -/

/-- The reports of the last byte that are still to be made to the OPEN client. -/
def pending (ph : Phase) (c : SseClient) : List Report :=
  match ph with
  | .parsing rest _ => if c.state = .opened then rest.map Callback.report else []
  | _ => []

/-- What the phases say about bytes and reports. An event on its way is that of the block which the
last byte has completed. -/
structure HearsPhase (lim : Limits) (ph : Phase) (w : World) : Prop where
  fresh : ph = .answered → received (currentConnection w.log) = []
  last : ∀ rest called, ph = .parsing rest called → SettlesLast rest
  called : ∀ rest, ph = .parsing rest true → rest = []
  terminated : ∀ rest called, ph = .parsing rest called → ∀ c ∈ rest, c.Terminated
  own : ∀ rest called, ph = .parsing rest called → w.client.state = .opened →
    ∀ ev, .onEvent ev ∈ rest → ∃ L,
      (completeBlocks (received (currentConnection w.log))).getLast? = some L ∧
        (Callback.onEvent ev).report = blockEvent lim L

/-- The invariant of every step. -/
structure Hearing (lim : Limits) (p : Phase × World) : Prop where
  hears : Hears lim p.2 (pending p.1 p.2.client)
  phase : HearsPhase lim p.1 p.2

theorem HearsPhase.quiet {ph : Phase} (ha : ph ≠ .answered)
    (hp : ∀ rest called, ph ≠ .parsing rest called) : HearsPhase lim ph w :=
  ⟨fun h => absurd h ha, fun rest called h => absurd h (hp rest called),
    fun rest h => absurd h (hp rest true), fun rest called h => absurd h (hp rest called),
    fun rest called h => absurd h (hp rest called)⟩

/-- While the application has control, no report is on its way. -/
theorem Hearing.yields {ph : Phase} (h : Hearing lim (ph, w)) (hph : ph.yields = true) :
    Hears lim w [] := by
  have hhears : Hears lim w (pending ph w.client) := h.hears
  have hnone : pending ph w.client = [] := by
    cases ph with
    | parsing rest called =>
      have hcalled : called = true := hph
      have hrest : rest = [] := h.phase.called rest (by rw [hcalled])
      simp [pending, hrest]
    | _ => rfl
  rwa [hnone] at hhears

/-- The connection receives a byte while the client is OPEN. -/
theorem received_parseByte (w : World) (b : UInt8) :
    received (currentConnection (parseByte w b).log) =
      received (currentConnection w.log) ++ if w.client.state = .opened then [b] else [] := by
  show received (cutConnections (w.log ++ [⟨.byte b, w.client⟩])).1 = _
  rw [cutConnections_snoc w.log (e := ⟨.byte b, w.client⟩) (by simp), received_snoc]
  by_cases hs : w.client.state = .opened
  · simp [Entry.received, hs, currentConnection]
  · simp [Entry.received, hs, currentConnection]

/-- To take a byte is to hear nothing yet. -/
theorem heard_parseByte (w : World) (b : UInt8) :
    heard (currentConnection (parseByte w b).log) = heard (currentConnection w.log) := by
  show heard (cutConnections (w.log ++ [⟨.byte b, w.client⟩])).1 = _
  rw [cutConnections_snoc w.log (e := ⟨.byte b, w.client⟩) (by simp), heard_snoc]
  exact List.append_nil _

/-- The parser takes a byte while the client is OPEN. -/
theorem Hears.byte_opened (hlim : lim.Valid) (h : Hears lim w []) (hs : w.client.state = .opened)
    (b : UInt8) :
    Hears lim (parseByte w b) ((processByte w.client.parser b).2.map Callback.report) ∧
      (∀ c ∈ (processByte w.client.parser b).2, c.Terminated) ∧
      ∀ ev, .onEvent ev ∈ (processByte w.client.parser b).2 → ∃ L,
        (completeBlocks (received (currentConnection (parseByte w b).log))).getLast? = some L ∧
          (Callback.onEvent ev).report = blockEvent lim L := by
  obtain ⟨hrep, new, hemits, hread⟩ := processByte_spec hlim (h.live hs) b
  -- the client has set every callback, so all that is read is reported
  have hnew : (processByte w.client.parser b).2.map Callback.report = new := by
    rw [hemits.reports, List.filter_eq_self]
    exact fun r _ => allCallbacks_accepts r
  have hlog : (parseByte w b).log = w.log ++ [⟨.byte b, w.client⟩] := rfl
  have hcut := cutConnections_snoc w.log (e := ⟨.byte b, w.client⟩) (by simp)
  have hrec := received_parseByte w b
  rw [if_pos hs] at hrec
  have hrep' : StreamRep allCallbacks lim (parseByte w b).client.parser
      (received (currentConnection w.log) ++ [b]) := hrep
  refine ⟨⟨⟨_, hrep'⟩, fun _ => by rw [hrec]; exact hrep', ?_, ?_, ?_⟩, hemits.terminated, ?_⟩
  · have hall : heard (currentConnection w.log) = _ := h.current
    rw [hrec, heard_parseByte, hnew, hread, hall]
  · rw [hlog, hcut]
    exact h.past
  · rw [hlog]
    exact always_snoc.mpr ⟨h.entries, fun _ => h.allHeard, by simp⟩
  · intro ev hev
    rw [hrec]
    have hmem : (Callback.onEvent ev).report ∈ new := by
      rw [← hnew]
      exact List.mem_map_of_mem hev
    exact event_of_new hread hmem

/-- The parser takes a byte after the client was closed: nobody hears it. -/
theorem Hears.byte_closed (hlim : lim.Valid) (h : Hears lim w []) (hs : w.client.state ≠ .opened)
    (b : UInt8) :
    Hears lim (parseByte w b) [] ∧ ∀ c ∈ (processByte w.client.parser b).2, c.Terminated := by
  obtain ⟨s, hparser⟩ := h.parser
  obtain ⟨hrep, new, hemits, -⟩ := processByte_spec hlim hparser b
  have hlog : (parseByte w b).log = w.log ++ [⟨.byte b, w.client⟩] := rfl
  have hcut := cutConnections_snoc w.log (e := ⟨.byte b, w.client⟩) (by simp)
  have hrec := received_parseByte w b
  rw [if_neg hs, List.append_nil] at hrec
  refine ⟨⟨⟨_, hrep⟩, fun hopen => absurd hopen hs, ?_, ?_, ?_⟩, hemits.terminated⟩
  · rw [hrec, heard_parseByte]
    exact h.reports
  · rw [hlog, hcut]
    exact h.past
  · rw [hlog]
    exact always_snoc.mpr ⟨h.entries, fun _ => h.allHeard, by simp⟩

/-- A report is no byte. -/
theorem received_current_report (log : Log) (c : Callback) (client : SseClient) :
    received (currentConnection (log ++ [⟨.parser c, client⟩])) =
      received (currentConnection log) := by
  unfold currentConnection
  rw [cutConnections_snoc log (e := ⟨.parser c, client⟩) (by simp), received_snoc]
  exact List.append_nil _

theorem received_delivered (w : World) (c : Callback) :
    received (currentConnection (delivered w c).log) = received (currentConnection w.log) := by
  have hreport := received_current_report w.log c w.client
  unfold delivered
  rcases bridged_cases (w.push (.parser c)) c with heq | ⟨-, ⟨_, _, heq⟩ | ⟨_, heq⟩ | heq |
    ⟨_, heq⟩ | ⟨_, -, heq⟩⟩ <;> rw [heq]
  · exact hreport
  · exact hreport
  · exact hreport
  · exact hreport
  · exact (received_current_plain _ rfl).trans hreport
  · exact (received_current_plain _ rfl).trans hreport

/-- A report is made to the OPEN client. -/
theorem Hears.report_opened {c : Callback} (h : Hears lim w (c.report :: pend))
    (hs : w.client.state = .opened) (hc : c.Terminated) : Hears lim (w.push (.parser c)) pend := by
  have hcut := cutConnections_snoc w.log (e := ⟨.parser c, w.client⟩) (by simp)
  have hrec : received (currentConnection (w.push (.parser c)).log) =
      received (currentConnection w.log) := received_current_report _ _ _
  have hheard : heard (currentConnection (w.push (.parser c)).log) =
      heard (currentConnection w.log) ++ [c.report] := by
    unfold currentConnection
    rw [push_log, hcut, heard_snoc]
    simp [Entry.heard, hs]
  refine ⟨h.parser, ?_, ?_, ?_, always_snoc.mpr ⟨h.entries, ?_, ?_⟩⟩
  · rw [hrec]
    exact h.live
  · rw [hrec, hheard, List.append_assoc]
    exact h.reports
  · rw [push_log, hcut]
    exact h.past
  · exact fun hno => absurd rfl (hno c)
  · rintro _ ⟨⟩
    exact hc

/-- A report that finds the client CLOSED is not heard. -/
theorem Hears.report_closed {c : Callback} (h : Hears lim w []) (hs : w.client.state ≠ .opened)
    (hc : c.Terminated) : Hears lim (w.push (.parser c)) [] := by
  have hcut := cutConnections_snoc w.log (e := ⟨.parser c, w.client⟩) (by simp)
  have hrec : received (currentConnection (w.push (.parser c)).log) =
      received (currentConnection w.log) := received_current_report _ _ _
  have hheard : heard (currentConnection (w.push (.parser c)).log) =
      heard (currentConnection w.log) := by
    unfold currentConnection
    rw [push_log, hcut, heard_snoc]
    simp [Entry.heard, hs]
  refine ⟨h.parser, fun hopen => absurd hopen hs, ?_, ?_, always_snoc.mpr ⟨h.entries, ?_, ?_⟩⟩
  · rw [hrec, hheard]
    exact h.reports
  · rw [push_log, hcut]
    exact h.past
  · exact fun hno => absurd rfl (hno c)
  · rintro _ ⟨⟩
    exact hc

/-- A report that settles nothing calls nobody. -/
theorem bridged_quiet (w : World) {c : Callback} (hc : c.report.settles = false) :
    ∃ f : SseClient → SseClient, bridged w c = w.update f ∧
      (f w.client).parser = w.client.parser ∧ (f w.client).state = w.client.state := by
  have hsame : ∃ f : SseClient → SseClient, w = w.update f ∧
      (f w.client).parser = w.client.parser ∧ (f w.client).state = w.client.state :=
    ⟨id, rfl, rfl, rfl⟩
  cases c with
  | onEvent ev => exact absurd hc (by simp [Callback.report, Report.settles])
  | onId id len =>
    simp only [bridged, bridgeOnId]
    split
    · exact hsame
    · split
      · exact ⟨_, rfl, rfl, rfl⟩
      · exact hsame
  | onRetry ms =>
    simp only [bridged, bridgeOnRetry]
    split
    · exact hsame
    · exact ⟨_, rfl, rfl, rfl⟩
  | onError err =>
    -- an unknown field and an invalid id are not passed on
    have hnone : lossReason err = none := by
      cases err <;> first
        | rfl
        | exact absurd hc (by simp [Callback.report, Report.settles, ParseError.discards])
    simp only [bridged, hnone, ite_self]
    exact hsame

/-- The effect of a report on a client to which nothing more is to be reported. -/
theorem Hears.bridged (h : Hears lim w []) (c : Callback) : Hears lim (bridged w c) [] := by
  rcases bridged_cases w c with heq | ⟨-, ⟨_, _, heq⟩ | ⟨_, heq⟩ | heq | ⟨_, heq⟩ | ⟨_, -, heq⟩⟩ <;>
    rw [heq]
  · exact h
  · exact h.update rfl id
  · exact h.update rfl id
  · exact h.update rfl id
  · exact (h.update (f := fun c => { c with attempts := 0 }) rfl id).push rfl
  · exact h.push rfl

/-- A byte's next report is delivered. -/
theorem Hearing.deliver {c : Callback} {rest : List Callback} {called : Bool}
    (h : Hearing lim (.parsing (c :: rest) called, w)) :
    Hearing lim (.parsing rest (callsUser w.client c), delivered w c) := by
  have hlast : SettlesLast (c :: rest) := h.phase.last _ _ rfl
  have hterm : ∀ d ∈ c :: rest, d.Terminated := h.phase.terminated _ _ rfl
  have hc : c.Terminated := hterm c List.mem_cons_self
  have hstate : (delivered w c).client.state = w.client.state := (delivered_frame w c).2
  -- a report that settles something is the byte's last one
  have hend : c.report.settles = true → rest = [] := by
    intro hyes
    cases rest with
    | nil => rfl
    | cons d rest =>
      have hno := hlast c (by simp)
      rw [hyes] at hno
      exact absurd hno (by simp)
  have hcalls : callsUser w.client c = true → c.report.settles = true := by
    intro hyes
    cases c with
    | onEvent ev => rfl
    | onId id len => exact absurd hyes (by simp [callsUser])
    | onRetry ms => exact absurd hyes (by simp [callsUser])
    | onError err =>
      cases err <;> first | rfl | exact absurd hyes (by simp [callsUser, lossReason])
  refine ⟨?_, ?_⟩
  · show Hears lim (delivered w c) (if (delivered w c).client.state = .opened then
      rest.map Callback.report else [])
    rw [hstate]
    by_cases hs : w.client.state = .opened
    · have hpend : Hears lim w (c.report :: rest.map Callback.report) := by
        have hhears := h.hears
        simp only [pending, hs, if_true, List.map_cons] at hhears
        exact hhears
      have hpushed := hpend.report_opened hs hc
      rw [if_pos hs]
      unfold delivered
      cases hsettles : c.report.settles with
      | true =>
        rw [hend hsettles] at hpushed ⊢
        exact hpushed.bridged c
      | false =>
        obtain ⟨f, heq, hp, hf⟩ := bridged_quiet (w.push (.parser c)) hsettles
        rw [heq]
        exact hpushed.update hp fun hopen => hf.symm.trans hopen
    · have hnone : Hears lim w [] := by
        have hhears := h.hears
        simp only [pending, hs, if_false] at hhears
        exact hhears
      rw [if_neg hs]
      exact (hnone.report_closed hs hc).bridged c
  · refine ⟨by simp, ?_, ?_, ?_, ?_⟩
    · -- what is left of the byte's reports: one that settles something is still the last
      rintro _ _ ⟨⟩
      intro d hd
      cases rest with
      | nil => exact absurd hd (by simp)
      | cons x rest => exact hlast d (List.mem_cons_of_mem _ hd)
    · intro rest' heq
      obtain ⟨rfl, hcalled⟩ := Phase.parsing.inj heq
      exact hend (hcalls hcalled)
    · rintro _ _ ⟨⟩
      exact fun d hd => hterm d (List.mem_cons_of_mem _ hd)
    · rintro _ _ ⟨⟩ hs ev hev
      rw [received_delivered]
      exact h.phase.own _ _ rfl (hstate ▸ hs) ev (List.mem_cons_of_mem _ hev)

/-! ## §4 Every Step and Every Run -/

/-- **Every step keeps what was heard true to what was received.** -/
theorem hearing_step (hlim : lim.Valid) {s t : Phase × World} (h : Step env s t)
    (hok : PhaseOk s.2.client s.1) (hh : Hearing lim s) : Hearing lim t := by
  -- the phases in which no report can be on its way
  have hquiet : ∀ {ph : Phase} {v : World}, ph = .between ∨ ph = .ready ∨ ph = .failing ∨
      ph = .refused ∨ ph = .scheduled → Hears lim v [] → Hearing lim (ph, v) := by
    rintro ph v (rfl | rfl | rfl | rfl | rfl) hv <;> exact ⟨hv, .quiet (by simp) (by simp)⟩
  cases h with
  | call w c => exact hquiet (by simp) (Hears.push (w := w) hh.hears rfl)
  | stop ph w =>
    exact ⟨Hears.update (f := fun c => { c with stopRequested := true }) hh.hears rfl id,
      hh.phase.fresh, hh.phase.last, hh.phase.called, hh.phase.terminated, hh.phase.own⟩
  | close ph w hph =>
    have hclosed := (hh.yields hph).closing
    -- the application closed within a callback: what is left of the byte is dropped
    have hnone : pending ph (closing w).client = [] := by
      unfold pending
      split
      · rw [closing_state, if_neg (by simp)]
      · rfl
    refine ⟨by simpa only [hnone] using hclosed, ?_, hh.phase.last, hh.phase.called,
      hh.phase.terminated, ?_⟩
    · exact fun ha => absurd ha (Phase.yields_ne_answered hph)
    · intro rest called _ hs
      rw [closing_state] at hs
      exact absurd hs (by simp)
  | tick w => exact hquiet (by simp) (Hears.push (w := w) hh.hears rfl)
  | connect w stop hs =>
    obtain ⟨hopen, hempty⟩ := Hears.attempt (w := w) hh.hears (env.extraHeaders w.log) 0 stop
    exact ⟨hopen.update (f := fun c => { c with transportOpen := true }) rfl id,
      ⟨fun _ => hempty, by simp, by simp, by simp, by simp⟩⟩
  | connectFail w result stop hs hr =>
    obtain ⟨hopen, -⟩ := Hears.attempt (w := w) hh.hears (env.extraHeaders w.log) result stop
    exact hquiet (by simp) hopen.closeTransport
  | reject w => exact hquiet (by simp) (Hears.closeTransport (w := w) hh.hears)
  | accept w =>
    exact hquiet (by simp) (Hears.openConnection (w := w) hlim hh.hears (hh.phase.fresh rfl) _)
  | read w result bytes stop hs =>
    have hread := Hears.push (w := w) hh.hears
      (o := .transportRead w.client.rxBuf.length w.client.cfg.readTimeoutMs result) rfl
    exact hquiet (by simp) (hread.update (f := fun c =>
      { c with
        rxBuf := fillBuffer c.rxBuf bytes
        stopRequested := c.stopRequested || stop }) rfl id)
  | drop w hs => exact hquiet (by simp) (Hears.closeTransport (w := w) hh.hears)
  | receive w hs =>
    have hclock := Hears.push (w := w) hh.hears (o := .clock (env.time w.log)) rfl
    exact hquiet (by simp)
      (hclock.update (f := fun c => { c with lastRxMs := .ofNat (env.time w.log) }) rfl id)
  | byte w b hs hread =>
    have hw : Hears lim w [] := hh.hears
    have hlast := settlesLast_processByte w.client.parser b
    have hstate : (parseByte w b).client.state = w.client.state := rfl
    by_cases hopen : w.client.state = .opened
    · obtain ⟨hbyte, hterm, hown⟩ := hw.byte_opened hlim hopen b
      refine ⟨?_, by simp, ?_, by simp, ?_, ?_⟩
      · show Hears lim (parseByte w b) (if (parseByte w b).client.state = .opened then _ else [])
        rw [hstate, if_pos hopen]
        exact hbyte
      · rintro _ _ ⟨⟩
        exact hlast
      · rintro _ _ ⟨⟩
        exact hterm
      · rintro _ _ ⟨⟩ _
        exact hown
    · obtain ⟨hbyte, hterm⟩ := hw.byte_closed hlim hopen b
      refine ⟨?_, by simp, ?_, by simp, ?_, fun _ _ _ hs => absurd hs hopen⟩
      · show Hears lim (parseByte w b) (if (parseByte w b).client.state = .opened then _ else [])
        rw [hstate, if_neg hopen]
        exact hbyte
      · rintro _ _ ⟨⟩
        exact hlast
      · rintro _ _ ⟨⟩
        exact hterm
  | deliver w c rest called => exact hh.deliver
  | parsed w called =>
    have hw := hh.hears
    simp only [pending, List.map_nil, ite_self] at hw
    exact hquiet (by simp) hw
  | consult w e hs => exact hquiet (by simp) (Hears.push (w := w) hh.hears rfl)
  | refuse w e hs hr =>
    have hw : Hears lim w [] := hh.hears
    refine hquiet (by simp) ?_
    unfold refusal
    split
    · exact hw.push rfl
    · exact hw
  | retry w e retryAfterS hs hr ha =>
    exact hquiet (by simp) (Hears.schedule (w := w) hh.hears e retryAfterS _)
  | abandon ph w hph hs =>
    refine hquiet (by simp) ?_
    rcases hph with rfl | rfl
    · exact hh.hears
    · exact hh.hears
  | due w hs =>
    have hclock := Hears.push (w := w) hh.hears (o := .clock (env.time w.log)) rfl
    exact hquiet (by simp) (hclock.update (f := fun c => { c with state := .connecting }) rfl (by simp))
  | finish ph w hph =>
    refine hquiet (by simp) ?_
    rcases hph with rfl | rfl
    · exact hh.hears
    · exact hh.hears

/-- The buffers that `sse_client_init` accepts are long enough for the parser. -/
theorem clientLimits_valid (h : configOk cfg = true) :
    (clientLimits cfg).Valid ∧ (clientLimits cfg).id ≤ idMax + 1 := by
  unfold configOk at h
  simp only [Bool.and_eq_true] at h
  obtain ⟨⟨⟨⟨⟨-, hdata⟩, hid⟩, hevent⟩, -⟩, -⟩ := h
  have hlens : clientLimits cfg =
      ⟨(cfg.dataBuf.getD []).length, (cfg.idBuf.getD []).length, (cfg.eventBuf.getD []).length⟩ := rfl
  rw [hlens]
  refine ⟨⟨?_, ?_, ?_⟩, ?_⟩
  · cases hb : cfg.dataBuf <;> simp_all
  · cases hb : cfg.idBuf <;> simp_all
  · cases hb : cfg.eventBuf <;> simp_all
  · cases hb : cfg.idBuf <;> simp_all

theorem configOk_of_init (h : sseClientInit env cfg = some w) : configOk cfg = true := by
  unfold sseClientInit at h
  split at h
  · assumption
  · exact absurd h (by simp)

theorem init_hearing (h : sseClientInit env cfg = some w) :
    Hearing (clientLimits cfg) (.between, w) := by
  have hvalid := (clientLimits_valid (configOk_of_init h)).1
  have hlog := init_log h
  unfold sseClientInit at h
  split at h
  · obtain rfl := Option.some.inj h
    have hrep : StreamRep allCallbacks (clientLimits cfg) (clientParser cfg) [] :=
      streamRep_init _ _ _ hvalid rfl rfl rfl
    exact ⟨⟨⟨[], hrep⟩, fun _ => hrep, rfl, by simp [cutConnections], always_nil _⟩,
      .quiet (by simp) (by simp)⟩
  · exact absurd h (by simp)

/-- **Every connection is heard as it is read.** Between any two calls, in every connection of the
run, the parser has made to the OPEN client exactly the reports of the reading of the bytes that the
OPEN client received. -/
theorem reachable_hears (h : Reachable env cfg w) : Hears (clientLimits cfg) w [] := by
  obtain ⟨w₀, calls, hw₀, hrun⟩ := id h
  have hvalid := (clientLimits_valid (configOk_of_init hw₀)).1
  exact (reachable_invariant (I := Hearing (clientLimits cfg)) (fun _ hw => init_hearing hw)
    (fun _ _ hst hok => hearing_step hvalid hst hok) h).2.hears

end EventSource.Client
