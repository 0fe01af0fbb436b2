import EventSource.Client.Connections

/-!
# Every Completed Block Is Answered

What the application is told about the events of a connection, against the blocks of the bytes that
the OPEN client received on it: each completed block with a data line is answered by its message or
by one error, in the order of the stream.
-/

namespace EventSource.Client

open EventSource.CMemory
open EventSource.Parser
open EventSource.Trace
open EventSource.Transducer

variable {env : Env} {cfg : SseClientConfig} {cb : SseClientCallbacks} {w : World} {log : Log}

/-! ## §1 Signals -/

/-- What an application learns about an event: its type and data, or that it is lost. -/
inductive Signal where
  | message (event : Bytes) (data : Bytes)
  | loss (e : SseError)
  deriving DecidableEq, Repr

/-- The type is read as a C string, data by its length. -/
def Obs.signal : Obs → Option Signal
  | .onMessage m => some (.message (cstr m.event) (m.data.take m.dataLen))
  | .onError e => if e.reason.isLoss then some (.loss e) else none
  | _ => none

/-- What the application has learned about the events, oldest first. -/
def signals (log : Log) : List Signal :=
  log.filterMap fun e => e.obs.signal

/-- The informational error of a lost event. -/
def lossError (reason : ErrorReason) : SseError :=
  ⟨reason, 0, true, 0⟩

/-- The text that stands for the type of an event without one. -/
def defaultType : Bytes := ascii "message".toList

/-- What the application is told of a report of the parser, if the callback for it is set. -/
def reportSignal (cb : SseClientCallbacks) : Report → Option Signal
  | .event type _ data =>
    if cb.onMessage then some (.message (type.getD defaultType) data) else none
  | .error err =>
    if cb.onError then (lossReason err).map fun reason => .loss (lossError reason) else none
  | _ => none

/-- The application has been told all that was heard in a piece of the log. -/
def Told (cb : SseClientCallbacks) (log : Log) : Prop :=
  signals log = (heard log).filterMap (reportSignal cb)

theorem Told.nil (cb : SseClientCallbacks) : Told cb [] := rfl

theorem Told.append {a b : Log} (ha : Told cb a) (hb : Told cb b) : Told cb (a ++ b) := by
  have hsignals : signals (a ++ b) = signals a ++ signals b := List.filterMap_append ..
  have hheard : heard (a ++ b) = heard a ++ heard b := List.filterMap_append ..
  unfold Told at *
  rw [hsignals, hheard, List.filterMap_append, ha, hb]

/-! ## §2 What the Steps Add -/

/-- Something that begins no connection and has nothing to do with events. -/
def Obs.incidental : Obs → Bool
  | .transportOpen _ _ _ | .byte _ | .parser _ | .onMessage _ => false
  | .onError e => !e.reason.isLoss
  | _ => true

/-- Only incidental entries are added to the log. -/
def AddsIncidental (a b : Log) : Prop :=
  ∃ es, b = a ++ es ∧ ∀ e ∈ es, e.obs.incidental = true

theorem AddsIncidental.refl (a : Log) : AddsIncidental a a :=
  ⟨[], (List.append_nil a).symm, by simp⟩

theorem AddsIncidental.trans {a b c : Log} (h₁ : AddsIncidental a b) (h₂ : AddsIncidental b c) :
    AddsIncidental a c := by
  obtain ⟨es, rfl, hes⟩ := h₁
  obtain ⟨fs, rfl, hfs⟩ := h₂
  refine ⟨es ++ fs, List.append_assoc .., ?_⟩
  intro e he
  rcases List.mem_append.mp he with he | he
  · exact hes e he
  · exact hfs e he

theorem AddsIncidental.one (a : Log) {e : Entry} (he : e.obs.incidental = true) :
    AddsIncidental a (a ++ [e]) :=
  ⟨[e], rfl, by simpa using he⟩

theorem survives_adds (log : Log) : SurvivesClosing fun v => AddsIncidental log v.log where
  transport := fun _ h => h.trans (.one _ rfl)
  closed := fun _ h => h
  onClosed := fun _ h => h.trans (.one _ rfl)

theorem closeTransport_adds (w : World) : AddsIncidental w.log (closeTransport w).log :=
  (survives_adds w.log).closeTransport (.refl _)

theorem closing_adds (w : World) : AddsIncidental w.log (closing w).log :=
  (survives_adds w.log).closing (.refl _)

theorem openConnection_adds (w : World) (t : Nat) :
    AddsIncidental w.log (openConnection w t).log := by
  have hclock : ∀ c, AddsIncidental w.log (w.log ++ [⟨.clock t, c⟩]) := fun _ => .one _ rfl
  unfold openConnection
  simp only
  split
  · exact (hclock _).trans (.one _ rfl)
  · exact hclock _

theorem schedule_adds (w : World) {e : SseError} (he : e.reason.isLoss = false)
    (retryAfterS : Int32) (t : Nat) : AddsIncidental w.log (schedule w e retryAfterS t).log := by
  have hclock : ∀ c, AddsIncidental w.log (w.log ++ [⟨.clock t, c⟩]) := fun _ => .one _ rfl
  unfold schedule
  simp only
  split
  · exact (hclock _).trans (.one _ (by simp [Obs.incidental, he]))
  · exact hclock _

theorem refusal_adds (w : World) {e : SseError} (he : e.reason.isLoss = false) :
    AddsIncidental w.log (refusal w e).log := by
  unfold refusal
  split
  · exact .one _ (by simp [Obs.incidental, he])
  · exact .refl _

/-- The entries that the delivery of a report adds tell the application what was heard. -/
theorem delivered_adds (w : World) (c : Callback) :
    ∃ es, (delivered w c).log = w.log ++ es ∧ Told w.client.cfg.callbacks es ∧
      ∀ e ∈ es, (∀ url hs r, e.obs ≠ .transportOpen url hs r) ∧ ∀ b, e.obs ≠ .byte b := by
  unfold delivered
  by_cases hs : w.client.state = .opened
  · have hheard : ∀ c', Entry.heard ⟨.parser c, c'⟩ = if c'.state = .opened then some c.report
        else none := fun _ => rfl
    cases c with
    | onId id len =>
      refine ⟨[⟨.parser (.onId id len), w.client⟩], ?_, ?_, by simp⟩
      · simp only [bridged, bridgeOnId]
        split_ifs <;> rfl
      · simp [Told, signals, heard, Obs.signal, hheard, hs, Callback.report, reportSignal]
    | onRetry ms =>
      refine ⟨[⟨.parser (.onRetry ms), w.client⟩], ?_, ?_, by simp⟩
      · simp only [bridged, bridgeOnRetry]
        split_ifs <;> rfl
      · simp [Told, signals, heard, Obs.signal, hheard, hs, Callback.report, reportSignal]
    | onEvent ev =>
      cases hcb : w.client.cfg.callbacks.onMessage with
      | false =>
        refine ⟨[⟨.parser (.onEvent ev), w.client⟩], ?_, ?_, by simp⟩
        · simp [bridged, hs, hcb]
        · simp [Told, signals, heard, Obs.signal, hheard, hs, Callback.report, reportSignal, hcb]
      | true =>
        -- a block without a type counts as a message
        have htype : cstr (ev.event.getD (ascii "message".toList ++ [0])) =
            (ev.event.map cstr).getD defaultType := by
          cases ev.event with
          | some m => rfl
          | none => decide
        refine ⟨[⟨.parser (.onEvent ev), w.client⟩,
          ⟨.onMessage (messageOf { w.client with attempts := 0 } ev),
            { w.client with attempts := 0 }⟩], ?_, ?_, by simp⟩
        · simp [bridged, hs, hcb]
        · show [Signal.message (cstr (ev.event.getD (ascii "message".toList ++ [0])))
            (ev.data.take ev.dataLen)] = _
          rw [htype]
          simp [heard, Entry.heard, hs, Callback.report, reportSignal, hcb]
    | onError err =>
      cases hloss : lossReason err with
      | none =>
        refine ⟨[⟨.parser (.onError err), w.client⟩], ?_, ?_, by simp⟩
        · simp [bridged, hs, hloss]
        · simp [Told, signals, heard, Obs.signal, hheard, hs, Callback.report, reportSignal, hloss]
      | some reason =>
        -- what the bridge passes on is a loss
        have hreason : reason.isLoss = true := by
          cases err <;> simp only [lossReason, Option.some.injEq, reduceCtorEq] at hloss <;>
            rw [← hloss] <;> rfl
        cases hcb : w.client.cfg.callbacks.onError with
        | false =>
          refine ⟨[⟨.parser (.onError err), w.client⟩], ?_, ?_, by simp⟩
          · simp [bridged, hs, hloss, hcb]
          · simp [Told, signals, heard, Obs.signal, hheard, hs, Callback.report, reportSignal, hcb]
        | true =>
          refine ⟨[⟨.parser (.onError err), w.client⟩, ⟨.onError (lossError reason), w.client⟩],
            ?_, ?_, by simp⟩
          · simp [bridged, hs, hloss, hcb, lossError]
          · simp [Told, signals, heard, Obs.signal, hs, Callback.report, reportSignal, hcb,
              Entry.heard, hloss, lossError, hreason]
  -- a client that is not OPEN hears nothing of it
  · refine ⟨[⟨.parser c, w.client⟩], ?_, ?_, by simp⟩
    · have hsame := bridged_of_not_opened (w := w.push (.parser c)) hs c
      rw [hsame]
      rfl
    · simp [Told, signals, heard, Obs.signal, Entry.heard, hs]

/-- What a step adds to the log: only incidental entries, or the beginning of a connection and
incidental entries, or one byte, or what the delivery of a report adds. -/
theorem step_adds {s t : Phase × World} (h : Step env s t) :
    AddsIncidental s.2.log t.2.log ∨
      (∃ url hs r c, AddsIncidental (s.2.log ++ [⟨.transportOpen url hs r, c⟩]) t.2.log) ∨
      (∃ b, t.2.log = s.2.log ++ [⟨.byte b, s.2.client⟩]) ∨
      ∃ c rest called, s.1 = .parsing (c :: rest) called ∧ t.2 = delivered s.2 c := by
  -- only three kinds of step touch the connection, its bytes or its reports
  cases h with
  | call w c => exact .inl (.one _ rfl)
  | stop ph w => exact .inl (.refl _)
  | close ph w hph => exact .inl (closing_adds w)
  | tick w => exact .inl (.one _ rfl)
  | connect w stop hs => exact .inr (.inl ⟨_, _, _, _, .refl _⟩)
  | connectFail w result stop hs hr =>
    exact .inr (.inl ⟨_, _, _, _, closeTransport_adds (attempt w (env.extraHeaders w.log) result stop)⟩)
  | reject w => exact .inl (closeTransport_adds w)
  | accept w => exact .inl (openConnection_adds w _)
  | read w result bytes stop hs => exact .inl (.one _ rfl)
  | drop w hs => exact .inl (closeTransport_adds w)
  | receive w hs => exact .inl (.one _ rfl)
  | byte w b hs hread => exact .inr (.inr (.inl ⟨b, rfl⟩))
  | deliver w c rest called => exact .inr (.inr (.inr ⟨c, rest, called, rfl, rfl⟩))
  | parsed w called => exact .inl (.refl _)
  | consult w e hs => exact .inl (.one _ rfl)
  | refuse w e hs hr => exact .inl (refusal_adds w hr)
  | retry w e retryAfterS hs hr ha => exact .inl (schedule_adds w hr _ _)
  | abandon ph w hph hs => exact .inl (.refl _)
  | due w hs => exact .inl (.one _ rfl)
  | finish ph w hph => exact .inl (.refl _)

/-! ## §3 Nothing Is Kept from the Application -/

/-- Before a byte is fed, the application has been told all that was heard. -/
def ToldBefore (cb : SseClientCallbacks) (pre : Log) (e : Entry) : Prop :=
  (∃ b, e.obs = .byte b) → ∀ piece ∈ connections pre, Told cb piece

/-- The invariant of every step. -/
structure Tells (cb : SseClientCallbacks) (log : Log) : Prop where
  told : ∀ piece ∈ connections log, Told cb piece
  before : Always (ToldBefore cb) log

/-- Entries that begin no connection belong to the current one. -/
theorem connections_append (log : Log) {es : Log}
    (hes : ∀ e ∈ es, ∀ url hs r, e.obs ≠ .transportOpen url hs r) :
    connections (log ++ es) = (cutConnections log).2 ++ [(cutConnections log).1 ++ es] := by
  have hcut : cutConnections (log ++ es) =
      ((cutConnections log).1 ++ es, (cutConnections log).2) := by
    induction es using List.reverseRecOn with
    | nil => rw [List.append_nil, List.append_nil]
    | append_singleton es e ih =>
      have hes' := ih fun x hx => hes x (List.mem_append_left _ hx)
      have he := hes e (by simp)
      rw [← List.append_assoc, cutConnections_snoc _ he, hes', List.append_assoc]
  unfold connections
  rw [hcut]

/-- Entries that tell what is heard, and begin no connection, are added. -/
theorem Tells.append (h : Tells cb log) {es : Log} (htold : Told cb es)
    (hopen : ∀ e ∈ es, ∀ url hs r, e.obs ≠ .transportOpen url hs r)
    (hbyte : Always (ToldBefore cb) (log ++ es)) : Tells cb (log ++ es) := by
  refine ⟨?_, hbyte⟩
  rw [connections_append log hopen]
  intro piece hp
  rcases List.mem_append.mp hp with hp | hp
  · exact h.told piece (List.mem_append_left _ hp)
  · have hcur : Told cb (cutConnections log).1 :=
      h.told _ (List.mem_append_right _ (List.mem_singleton_self _))
    rw [List.mem_singleton.mp hp]
    exact hcur.append htold

/-- Entries other than bytes need nothing before them. -/
theorem always_toldBefore (h : Always (ToldBefore cb) log) {es : Log}
    (hes : ∀ e ∈ es, ∀ b, e.obs ≠ .byte b) : Always (ToldBefore cb) (log ++ es) := by
  apply h.append
  rintro e he pre ⟨b, heq⟩
  exact absurd heq (hes e he b)

theorem incidental_cases {o : Obs} (ho : o.incidental = true) :
    o.signal = none ∧ (∀ c, Entry.heard ⟨o, c⟩ = none) ∧
      (∀ url hs r, o ≠ .transportOpen url hs r) ∧ ∀ b, o ≠ .byte b := by
  cases o with
  | onError e =>
    have he : e.reason.isLoss = false := by simpa [Obs.incidental] using ho
    exact ⟨by simp [Obs.signal, he], fun _ => rfl, by simp, by simp⟩
  | transportOpen url hs r => exact absurd ho (by simp [Obs.incidental])
  | byte b => exact absurd ho (by simp [Obs.incidental])
  | parser c => exact absurd ho (by simp [Obs.incidental])
  | onMessage m => exact absurd ho (by simp [Obs.incidental])
  | _ => exact ⟨rfl, fun _ => rfl, by simp, by simp⟩

theorem told_of_silent {es : Log} (hs : ∀ e ∈ es, e.obs.signal = none)
    (hh : ∀ e ∈ es, e.heard = none) : Told cb es := by
  have hsignals : signals es = [] := List.filterMap_eq_nil_iff.mpr hs
  have hheard : heard es = [] := List.filterMap_eq_nil_iff.mpr hh
  unfold Told
  rw [hsignals, hheard]
  rfl

theorem Tells.incidental {log' : Log} (h : Tells cb log) (hadd : AddsIncidental log log') :
    Tells cb log' := by
  obtain ⟨es, rfl, hes⟩ := hadd
  apply h.append
  · exact told_of_silent (fun e he => (incidental_cases (hes e he)).1)
      fun e he => (incidental_cases (hes e he)).2.1 e.client
  · exact fun e he => (incidental_cases (hes e he)).2.2.1
  · exact always_toldBefore h.before fun e he => (incidental_cases (hes e he)).2.2.2

theorem Tells.open (h : Tells cb log) (url : Mem) (hs : List (Option Mem)) (r : Int)
    (c : SseClient) : Tells cb (log ++ [⟨.transportOpen url hs r, c⟩]) := by
  refine ⟨?_, always_toldBefore h.before (by simp)⟩
  unfold connections
  rw [cutConnections_open]
  intro piece hp
  rcases List.mem_append.mp hp with hp | hp
  · exact h.told piece hp
  · rw [List.mem_singleton.mp hp]
    rfl

/-- **Every step tells the application what it hears.** -/
theorem tells_step {s t : Phase × World} (h : Step env s t)
    (hcfg : s.2.client.cfg.callbacks = cb) (ht : Tells cb s.2.log) : Tells cb t.2.log := by
  rcases step_adds h with hadd | ⟨url, hs, r, c, hadd⟩ | ⟨b, heq⟩ | ⟨c, -, -, -, heq⟩
  · exact ht.incidental hadd
  · exact (ht.open url hs r c).incidental hadd
  · rw [heq]
    apply ht.append
    · exact told_of_silent (by simp [Obs.signal]) (by simp [Entry.heard])
    · simp
    · exact always_snoc.mpr ⟨ht.before, fun _ => ht.told⟩
  · obtain ⟨es, hlog, htold, hes⟩ := delivered_adds s.2 c
    rw [hcfg] at htold
    rw [heq, hlog]
    apply ht.append htold
    · exact fun e he => (hes e he).1
    · exact always_toldBefore ht.before fun e he => (hes e he).2

theorem reachable_tells (h : Reachable env cfg w) : Tells cfg.callbacks w.log := by
  let I : Phase × World → Prop := fun p =>
    Life (withDefaults cfg) p.2 ∧ Tells cfg.callbacks p.2.log
  refine (reachable_invariant (I := I) ?_ ?_ h).2.2
  · intro w₀ hw₀
    have hnone : Tells cfg.callbacks w₀.log := by
      rw [init_log hw₀]
      exact ⟨by simp [connections, cutConnections, Told.nil], always_nil _⟩
    exact ⟨(init_ready hw₀).2, hnone⟩
  · rintro s t hst hok ⟨hlife, htells⟩
    have hcfg : s.2.client.cfg.callbacks = cfg.callbacks := by rw [hlife.config]; rfl
    exact ⟨life_step hst hok hlife, tells_step hst hcfg htells⟩

/-! ## §4 The Answer to a Block -/

/-- The answer to a completed block. With a data line it is the block's message or one informational
error, and nothing else; without one it contains no message. -/
def Answers (L : List Bytes) (answer : List Signal) : Prop :=
  if dataValues L = [] then ∀ type data, .message type data ∉ answer
  else
    answer = [.message (if eventType L = [] then defaultType else eventType L)
      ([lf].intercalate (dataValues L))] ∨
    ∃ reason, reason.isLoss = true ∧ answer = [.loss (lossError reason)]

/-- The signals of a connection are one answer for each completed block of the bytes received, in
their order, and then no message. -/
def Accounted (piece : Log) : Prop :=
  ∃ answers tail, List.Forall₂ Answers (completeBlocks (received piece)) answers ∧
    signals piece = answers.flatten ++ tail ∧ ∀ type data, .message type data ∉ tail

/-- What settles nothing is not told. -/
theorem filterMap_outcomes (cb : SseClientCallbacks) (rs : List Report) :
    rs.filterMap (reportSignal cb) = (outcomes rs).filterMap (reportSignal cb) := by
  unfold outcomes
  rw [List.filterMap_filter]
  congr 1
  funext r
  cases r with
  | event type id data => rfl
  | id v len => rfl
  | retry ms => rfl
  | error err => cases err <;> simp [reportSignal, Report.settles, ParseError.discards, lossReason]

/-- An error that discards a block is told as a loss. -/
theorem reportSignal_discards (hcb : cb.onError = true) {err : ParseError}
    (herr : err.discards = true) :
    ∃ reason, reason.isLoss = true ∧
      reportSignal cb (.error err) = some (.loss (lossError reason)) := by
  cases err with
  | dataTooLarge => exact ⟨.messageTooLarge, rfl, by simp [reportSignal, hcb, lossReason]⟩
  | eventTypeTooLarge => exact ⟨.eventTypeInvalid, rfl, by simp [reportSignal, hcb, lossReason]⟩
  | eventTypeInvalid => exact ⟨.eventTypeInvalid, rfl, by simp [reportSignal, hcb, lossReason]⟩
  | idInvalid => exact absurd herr (by simp [ParseError.discards])
  | invalidRetry => exact absurd herr (by simp [ParseError.discards])
  | unknownField => exact absurd herr (by simp [ParseError.discards])

theorem answers_blockReports (hm : cb.onMessage = true) (he : cb.onError = true) (lim : Limits)
    {L : List Bytes} (hL : [] ∉ L) :
    Answers L ((blockReports lim L).filterMap (reportSignal cb)) := by
  rw [filterMap_outcomes]
  unfold Answers
  rcases outcomes_blockReports lim hL with ⟨-, err, herr, heq⟩ | ⟨-, heq⟩
  · obtain ⟨reason, hreason, hsignal⟩ := reportSignal_discards he herr
    have hone : (outcomes (blockReports lim L)).filterMap (reportSignal cb) =
        [.loss (lossError reason)] := by
      rw [heq]
      simp [hsignal]
    rw [hone]
    split
    · simp
    · exact .inr ⟨reason, hreason, rfl⟩
  · rw [heq]
    by_cases hd : dataValues L = []
    · simp [hd]
    · simp only [hd, if_false]
      refine .inl ?_
      by_cases ht : eventType L = [] <;> simp [blockEvent, reportSignal, hm, ht]

/-- A connection on which all was heard and told is accounted for. -/
theorem accounted_of_told (hm : cb.onMessage = true) (he : cb.onError = true) {lim : Limits}
    {piece : Log} (hheard : heard piece = readingWithTail lim (received piece))
    (htold : Told cb piece) : Accounted piece := by
  have hblocks : ∀ Ls : List (List Bytes), (∀ L ∈ Ls, [] ∉ L) →
      List.Forall₂ Answers Ls (Ls.map fun L => (blockReports lim L).filterMap (reportSignal cb)) := by
    intro Ls hLs
    induction Ls with
    | nil => exact .nil
    | cons L Ls ih =>
      exact .cons (answers_blockReports hm he lim (hLs L List.mem_cons_self))
        (ih fun M hM => hLs M (List.mem_cons_of_mem _ hM))
  refine ⟨_, (openReports lim (openBlock (received piece)) (openLine (received piece))).filterMap
    (reportSignal cb), hblocks _ fun L hL => nil_not_mem_completeBlocks hL, ?_, ?_⟩
  -- what was told is the reading of the bytes, block by block
  · rw [htold, hheard, readingWithTail_eq, List.filterMap_append, List.filterMap_flatMap,
      List.flatMap_def]
  · intro type data hmem
    -- an unfinished block has at most an error to report
    rw [filterMap_outcomes] at hmem
    rcases outcomes_openReports lim (nil_not_mem_openBlock (received piece))
      (openLine (received piece)) with hnone | ⟨err, herr, hone⟩
    · rw [hnone] at hmem
      exact absurd hmem (by simp)
    · obtain ⟨reason, -, hsignal⟩ := reportSignal_discards he herr
      rw [hone] at hmem
      simp [hsignal] at hmem

/-! ## §5 Bytes Read and Bytes Fed -/

/-- The bytes fed to the parser, by an OPEN client or not. -/
def fed (log : Log) : Bytes :=
  log.filterMap fun e =>
    match e.obs with
    | .byte b => some b
    | _ => none

theorem fed_incidental {a b : Log} (h : AddsIncidental a b) : fed b = fed a := by
  obtain ⟨es, rfl, hes⟩ := h
  have hnone : fed es = [] := by
    apply List.filterMap_eq_nil_iff.mpr
    intro e he
    have hno := (incidental_cases (hes e he)).2.2.2
    split
    · next b heq => exact absurd heq (hno b)
    · rfl
  have happend : fed (a ++ es) = fed a ++ fed es := List.filterMap_append ..
  rw [happend, hnone, List.append_nil]

theorem acts_adds (env : Env) (w : World) (acts : List Reentry) :
    AddsIncidental w.log (acts.foldl (act env) w).log :=
  (survives_adds w.log).acts (fun _ h => h) env acts (.refl _)

/-- Delivering a report feeds nothing. -/
theorem fed_deliver (env : Env) (w : World) (c : Callback) : fed (deliver env w c).log = fed w.log := by
  obtain ⟨es, hlog, -, hes⟩ := delivered_adds w c
  have hnone : fed es = [] := by
    apply List.filterMap_eq_nil_iff.mpr
    intro e he
    split
    · next b heq => exact absurd heq ((hes e he).2 b)
    · rfl
  have happend : fed (w.log ++ es) = fed w.log ++ fed es := List.filterMap_append ..
  rw [deliver_eq, fed_incidental (acts_adds env _ _), hlog, happend, hnone, List.append_nil]

theorem fed_clientFeed (env : Env) (w : World) (bytes : List UInt8) :
    fed (clientFeed env w bytes).log = fed w.log ++ bytes := by
  have hbyte : ∀ (v : World) (b : UInt8), fed (feedByte env v b).log = fed v.log ++ [b] := by
    intro v b
    have hdeliver : ∀ (cbs : List Callback) (u : World),
        fed (cbs.foldl (deliver env) u).log = fed u.log := by
      intro cbs
      induction cbs with
      | nil => exact fun u => rfl
      | cons c cbs ih => exact fun u => (ih _).trans (fed_deliver env u c)
    have happend : fed (v.log ++ [⟨.byte b, v.client⟩]) = fed v.log ++ [b] := List.filterMap_append ..
    exact (hdeliver _ _).trans happend
  induction bytes generalizing w with
  | nil => exact (List.append_nil _).symm
  | cons b bytes ih =>
    have hrest : fed (clientFeed env w (b :: bytes)).log = fed (feedByte env w b).log ++ bytes := ih _
    rw [hrest, hbyte, List.append_assoc]
    rfl

/-- **A successful read is fed to the parser whole and in order.** -/
theorem fed_poll (env : Env) {w : World} (hs : w.client.state = .opened)
    (hstop : w.client.stopRequested = false) :
    let reply := env.readReply (w.push (.call .poll)).log
    reply.stop = false → 0 < reply.result → reply.result ≤ w.client.rxBuf.length →
      fed (apply env w .poll).log =
        fed w.log ++ (fillBuffer w.client.rxBuf reply.bytes).take reply.result.toNat := by
  intro reply hrun hpos hfit
  let v := readOnce (w.push (.call .poll)) reply.result reply.bytes reply.stop
  have hv : v.client.rxBuf = fillBuffer w.client.rxBuf reply.bytes := rfl
  -- no stop is requested, so the poll gets to the read
  have hpoll : (sseClientPoll env (w.push (.call .poll))).2 =
      (pollRead env v reply.result).2 := by
    unfold sseClientPoll
    simp only [push_client, hstop, Bool.false_and, Bool.false_eq_true, if_false, hs]
    rfl
  have hvstop : v.client.stopRequested = false := by
    show (w.client.stopRequested || reply.stop) = false
    rw [hstop, hrun]
    rfl
  -- the count is checked against the buffer
  have hroom : ¬ v.client.rxBuf.length < reply.result.toNat := by
    rw [hv, length_fillBuffer]
    omega
  have hread : pollRead env v reply.result = closedHint
      (clientFeed env (receive v (env.time v.log)) (v.client.rxBuf.take reply.result.toNat)) := by
    unfold pollRead
    simp only [hvstop, Bool.false_eq_true, if_false, hpos, if_true, hroom]
    rfl
  show fed (sseClientPoll env (w.push (.call .poll))).2.log = _
  rw [hpoll, hread]
  show fed (clientFeed env _ _).log = _
  rw [fed_clientFeed, hv]
  congr 1
  -- the call, the read and the clock feed nothing
  have hsteps : AddsIncidental w.log (receive v (env.time v.log)).log :=
    ((AddsIncidental.one w.log rfl).trans (.one _ rfl)).trans (.one _ rfl)
  exact fed_incidental hsteps

/-! ## §6 No Event Is Lost -/

/-- **No event is lost silently, duplicated or reordered.** Let `on_message` and `on_error` be set.
On every connection of every run, and at every byte of it: each block of the bytes received while
OPEN that is completed and has a data line is answered by exactly one message with the block's type
and data, or by exactly one informational error; a completed block without a data line and an
unfinished one bring no message; the answers come in the order of the blocks, and the connections in
their order. What is received is what the reads return, whole and in order. -/
theorem no_event_lost (hm : cfg.callbacks.onMessage = true) (he : cfg.callbacks.onError = true)
    (h : Reachable env cfg w) :
    (∀ piece ∈ connections w.log, Accounted piece) ∧
      (∀ pre e post b, w.log = pre ++ e :: post → e.obs = .byte b →
        ∀ piece ∈ connections pre, Accounted piece) ∧
      signals w.log = (connections w.log).flatMap signals ∧
      (w.client.state = .opened → w.client.stopRequested = false →
        let reply := env.readReply (w.push (.call .poll)).log
        reply.stop = false → 0 < reply.result → reply.result ≤ w.client.rxBuf.length →
          fed (apply env w .poll).log =
            fed w.log ++ (fillBuffer w.client.rxBuf reply.bytes).take reply.result.toNat) := by
  have hhears := reachable_hears h
  have htells := reachable_tells h
  refine ⟨?_, ?_, ?_, fun hs hstop => fed_poll env hs hstop⟩
  -- what was heard is the reading, and what was told is what was heard
  · exact fun piece hp => accounted_of_told hm he (hhears.allHeard piece hp) (htells.told piece hp)
  · intro pre e post b hlog hobs piece hp
    have hheard := (hhears.entries pre e post hlog).settled (by simp [hobs]) piece hp
    exact accounted_of_told hm he hheard (htells.before pre e post hlog ⟨b, hobs⟩ piece hp)
  -- the connections are the log, cut at each `open`
  · have hflat := connections_flatten w.log
    have hsignals : signals (connections w.log).flatten = (connections w.log).flatMap signals := by
      unfold signals
      rw [List.filterMap_flatten, List.flatMap_def]
    rw [← hsignals, hflat]

/-- A server that accepts every connection and sends `text`, one byte for each read. -/
def streamEnv (text : Bytes) : Env :=
  { quietEnv with
    readReply := fun log =>
      match text[(fed log).length]? with
      | some b => ⟨1, [b], false⟩
      | none => ⟨0, [], false⟩ }

/-- The client of `smallConfig` after it has connected and received one event with a data line. -/
def oneEventClient : World :=
  runCalls (streamEnv (ascii ['d', 'a', 't', 'a'] ++ [lf, lf])) smallClient (List.replicate 7 .poll)

theorem oneEventClient_reachable :
    Reachable (streamEnv (ascii ['d', 'a', 't', 'a'] ++ [lf, lf])) smallConfig oneEventClient :=
  ⟨smallClient, List.replicate 7 .poll, rfl, rfl⟩

theorem no_event_lost_of_one :
    signals oneEventClient.log = [.message defaultType []] ∧
      ∀ piece ∈ connections oneEventClient.log, Accounted piece :=
  ⟨by decide +kernel, (no_event_lost rfl rfl oneEventClient_reachable).1⟩

end EventSource.Client
