import EventSource.Client.Delivery

/-!
# False Alarms

An informational error says that an event is lost. It is raised in the middle of a block, when it is
not known yet whether the block has an event at all: the type of an event can be faulty in a block
that never has a data line.
-/

namespace EventSource.Client

open EventSource.CMemory
open EventSource.Parser
open EventSource.Trace

variable {env : Env} {cfg : SseClientConfig} {cb : SseClientCallbacks} {lim : Limits} {w : World}

/-! ## §1 Alarms and Their Blocks -/

/-- The application is told that an event is lost. -/
def Obs.alarm : Obs → Bool
  | .onError e => e.reason.isLoss
  | _ => false

/-- Every alarm of a connection that is raised in a block which is completed later means a lost
event: the block has a data line. -/
def TrueAlarms (piece : Log) : Prop :=
  ∀ pre e post, piece = pre ++ e :: post → e.obs.alarm = true →
    ∀ L, (completeBlocks (received piece))[(completeBlocks (received pre)).length]? = some L →
      dataValues L ≠ []

/-- What the application is told of a completed block. -/
def blockSignals (cb : SseClientCallbacks) (lim : Limits) (L : List Bytes) : List Signal :=
  (blockReports lim L).filterMap (reportSignal cb)

/-- An alarm is raised by the unfinished block, and nothing but the completed blocks has been told
before. -/
structure AlarmEntry (cb : SseClientCallbacks) (lim : Limits) (pre : Log) : Prop where
  fault : ∃ err, err.discards = true ∧
    .error err ∈ openReports lim (openBlock (received pre)) (openLine (received pre))
  before : signals pre = (completeBlocks (received pre)).flatMap (blockSignals cb lim)

/-- Every alarm of every connection is one of its unfinished block. -/
def AlarmsRaised (cb : SseClientCallbacks) (lim : Limits) (log : Log) : Prop :=
  ∀ piece ∈ connections log,
    Always (fun pre e => e.obs.alarm = true → AlarmEntry cb lim pre) piece

/-- The invariant of every step: what is on its way is a fault of the unfinished block, and so were
all alarms so far. -/
structure Alarms (cb : SseClientCallbacks) (lim : Limits) (p : Phase × World) : Prop where
  due : ∀ rest called, p.1 = .parsing rest called → p.2.client.state = .opened →
    ∀ err, .onError err ∈ rest →
      .error err ∈ openReports lim (openBlock (received (currentConnection p.2.log)))
        (openLine (received (currentConnection p.2.log)))
  raised : AlarmsRaised cb lim p.2.log

theorem signal_of_alarm {o : Obs} (ho : o.alarm = true) : ∃ e, o.signal = some (.loss e) := by
  cases o with
  | onError e =>
    have he : e.reason.isLoss = true := ho
    exact ⟨e, by simp [Obs.signal, he]⟩
  | _ => exact absurd ho (by simp [Obs.alarm])

theorem alarm_of_signal {o : Obs} {e : SseError} (ho : o.signal = some (.loss e)) :
    o.alarm = true := by
  cases o with
  | onError e =>
    simp only [Obs.signal] at ho
    split at ho
    · assumption
    · exact absurd ho (by simp)
  | _ => exact absurd ho (by simp [Obs.signal])

theorem signals_snoc (log : Log) (e : Entry) :
    signals (log ++ [e]) = signals log ++ e.obs.signal.toList := by
  unfold signals
  rw [List.filterMap_append]
  cases h : e.obs.signal <;> simp [h]

/-! ## §2 Every Step Raises Alarms of the Unfinished Block Only -/

/-- Entries without alarms are added. -/
theorem AlarmsRaised.append {log es : Log}
    (h : AlarmsRaised cb lim log)
    (hopen : ∀ e ∈ es, ∀ url hs r, e.obs ≠ .transportOpen url hs r)
    (hquiet : ∀ e ∈ es, e.obs.alarm = false) :
    AlarmsRaised cb lim (log ++ es) := by
  unfold AlarmsRaised
  rw [connections_append log hopen]
  intro piece hp
  rcases List.mem_append.mp hp with hp | hp
  · exact h piece (List.mem_append_left _ hp)
  · rw [List.mem_singleton.mp hp]
    have hcur := h _ (List.mem_append_right _ (List.mem_singleton_self _))
    apply hcur.append
    intro e he pre hyes
    rw [hquiet e he] at hyes
    exact absurd hyes (by simp)

theorem alarm_of_incidental {o : Obs} (ho : o.incidental = true) : o.alarm = false := by
  cases hyes : o.alarm with
  | false => rfl
  | true =>
    obtain ⟨e, he⟩ := signal_of_alarm hyes
    rw [(incidental_cases ho).1] at he
    exact absurd he (by simp)

theorem AlarmsRaised.incidental {log log' : Log} (h : AlarmsRaised cb lim log)
    (hadd : AddsIncidental log log') :
    AlarmsRaised cb lim log' := by
  obtain ⟨es, rfl, hes⟩ := hadd
  apply h.append
  · exact fun e he => (incidental_cases (hes e he)).2.2.1
  · exact fun e he => alarm_of_incidental (hes e he)

/-- A new connection has raised no alarm. -/
theorem AlarmsRaised.open {log : Log} (h : AlarmsRaised cb lim log)
    (url : Mem) (hs : List (Option Mem)) (r : Int) (c : SseClient) :
    AlarmsRaised cb lim (log ++ [⟨.transportOpen url hs r, c⟩]) := by
  unfold AlarmsRaised connections
  rw [cutConnections_open]
  intro piece hp
  rcases List.mem_append.mp hp with hp | hp
  · exact h piece hp
  · rw [List.mem_singleton.mp hp]
    exact always_snoc (l := []).mpr ⟨always_nil _, by simp [Obs.alarm]⟩

/-- The delivery of a report raises an alarm at most for an error that discards, and then right
behind it. -/
theorem delivered_alarm (w : World) (c : Callback) :
    (∃ es, (delivered w c).log = w.log ++ es ∧
      ∀ e ∈ es, (∀ url hs r, e.obs ≠ .transportOpen url hs r) ∧ e.obs.alarm = false) ∨
    ∃ err e, c = .onError err ∧ err.discards = true ∧ w.client.state = .opened ∧
      w.client.cfg.callbacks.onError = true ∧
      (delivered w c).log = w.log ++ [⟨.parser c, w.client⟩] ++ [⟨.onError e, w.client⟩] := by
  unfold delivered
  by_cases hs : w.client.state = .opened
  · cases c with
    | onId id len =>
      refine .inl ⟨[⟨.parser (.onId id len), w.client⟩], ?_, by simp [Obs.alarm]⟩
      simp only [bridged, bridgeOnId]
      split_ifs <;> rfl
    | onRetry ms =>
      refine .inl ⟨[⟨.parser (.onRetry ms), w.client⟩], ?_, by simp [Obs.alarm]⟩
      simp only [bridged, bridgeOnRetry]
      split_ifs <;> rfl
    | onEvent ev =>
      cases hcb : w.client.cfg.callbacks.onMessage with
      | false =>
        refine .inl ⟨[⟨.parser (.onEvent ev), w.client⟩], ?_, by simp [Obs.alarm]⟩
        simp [bridged, hs, hcb]
      | true =>
        refine .inl ⟨[⟨.parser (.onEvent ev), w.client⟩,
          ⟨.onMessage (messageOf { w.client with attempts := 0 } ev),
            { w.client with attempts := 0 }⟩], ?_, by simp [Obs.alarm]⟩
        simp [bridged, hs, hcb]
    | onError err =>
      -- an error that the bridge does not pass on
      have hplain : bridged (w.push (.parser (.onError err))) (.onError err) =
          w.push (.parser (.onError err)) →
          ∃ es, (bridged (w.push (.parser (.onError err))) (.onError err)).log = w.log ++ es ∧
            ∀ e ∈ es, (∀ url hs r, e.obs ≠ .transportOpen url hs r) ∧ e.obs.alarm = false := by
        intro heq
        rw [heq]
        exact ⟨[⟨.parser (.onError err), w.client⟩], rfl, by simp [Obs.alarm]⟩
      cases hloss : lossReason err with
      | none => exact .inl (hplain (by simp [bridged, hloss]))
      | some reason =>
        -- what it passes on has discarded its block
        have hdiscards : err.discards = true := by
          cases err <;> first | rfl | simp [lossReason] at hloss
        cases hcb : w.client.cfg.callbacks.onError with
        | false => exact .inl (hplain (by simp [bridged, hloss, hcb]))
        | true =>
          refine .inr ⟨err, lossError reason, rfl, hdiscards, hs, rfl, ?_⟩
          simp [bridged, hs, hloss, hcb, lossError]
  -- a client that is not OPEN raises none
  · have hsame := bridged_of_not_opened (w := w.push (.parser c)) hs c
    rw [hsame]
    exact .inl ⟨[⟨.parser c, w.client⟩], rfl, by simp [Obs.alarm]⟩

/-- An error that discards is told at once, behind what the completed blocks have told. -/
theorem alarmEntry_delivered {err : ParseError} {rest : List Callback} {called : Bool}
    (hdiscards : err.discards = true) (hs : w.client.state = .opened)
    (hcb : w.client.cfg.callbacks.onError = true)
    (hh : Hearing lim (.parsing (.onError err :: rest) called, w))
    (htold : Told w.client.cfg.callbacks (currentConnection w.log))
    (hopen : .error err ∈ openReports lim (openBlock (received (currentConnection w.log)))
      (openLine (received (currentConnection w.log)))) :
    AlarmEntry w.client.cfg.callbacks lim
      (currentConnection w.log ++ [⟨.parser (.onError err), w.client⟩]) := by
  let s := received (currentConnection w.log)
  let cb := w.client.cfg.callbacks
  have hrec : received (currentConnection w.log ++ [⟨.parser (.onError err), w.client⟩]) = s := by
    rw [received_snoc]
    exact List.append_nil _
  have hsig : signals (currentConnection w.log ++ [⟨.parser (.onError err), w.client⟩]) =
      signals (currentConnection w.log) := by
    rw [signals_snoc]
    exact List.append_nil _
  refine ⟨⟨err, hdiscards, by rw [hrec]; exact hopen⟩, ?_⟩
  rw [hrec, hsig, htold]
  -- the error is the last of the reports, and the only one of its block that is told
  have hrest : rest = [] := by
    cases rest with
    | nil => rfl
    | cons d rest =>
      have hno := hh.phase.last _ _ rfl (.onError err) (by simp)
      simp [Callback.report, Report.settles, hdiscards] at hno
  have hall : heard (currentConnection w.log) ++ [.error err] =
      (completeBlocks s).flatMap (blockReports lim) ++ openReports lim (openBlock s) (openLine s) := by
    have hreports := hh.hears.reports
    simp only [pending, hs, if_true, hrest, List.map_cons, List.map_nil] at hreports
    rw [← readingWithTail_eq]
    exact hreports
  have hone : ∃ last, (openReports lim (openBlock s) (openLine s)).filterMap (reportSignal cb) =
      [last] := by
    rw [filterMap_outcomes]
    rcases outcomes_openReports lim (nil_not_mem_openBlock s) (openLine s) with hnone | ⟨e, he, hone⟩
    · have hin : .error err ∈ outcomes (openReports lim (openBlock s) (openLine s)) :=
        List.mem_filter.mpr ⟨hopen, hdiscards⟩
      rw [hnone] at hin
      exact absurd hin (by simp)
    · obtain ⟨reason, -, hsignal⟩ := reportSignal_discards hcb he
      exact ⟨.loss (lossError reason), by rw [hone]; simp [cb, hsignal]⟩
  obtain ⟨last, hlast⟩ := hone
  obtain ⟨reason, -, hsignal⟩ := reportSignal_discards hcb hdiscards
  -- drop the last signal on both sides
  have htoldAll := congrArg (List.filterMap (reportSignal cb)) hall
  rw [List.filterMap_append, List.filterMap_append, hlast, List.filterMap_flatMap] at htoldAll
  simp only [List.filterMap_cons, cb, hsignal, List.filterMap_nil] at htoldAll
  exact (List.append_inj' htoldAll rfl).1

/-- **Every step raises alarms of the unfinished block only.** -/
theorem alarmsRaised_step {s t : Phase × World} (h : Step env s t)
    (hcfg : s.2.client.cfg.callbacks = cb) (hh : Hearing lim s) (htells : Tells cb s.2.log)
    (ha : Alarms cb lim s) : AlarmsRaised cb lim t.2.log := by
  obtain ⟨ph, w⟩ := s
  rcases step_adds h with hadd | ⟨url, hs, r, c, hadd⟩ | ⟨b, heq⟩ | ⟨c, rest, called, hph, heq⟩
  · exact ha.raised.incidental hadd
  · exact (ha.raised.open url hs r c).incidental hadd
  · rw [heq]
    exact ha.raised.append (by simp) (by simp [Obs.alarm])
  · have hph' : ph = .parsing (c :: rest) called := hph
    subst hph'
    rw [heq]
    rcases delivered_alarm w c with ⟨es, hlog, hes⟩ | ⟨err, e, rfl, hdiscards, hs, hcb, hlog⟩
    · rw [hlog]
      exact ha.raised.append (fun e he => (hes e he).1) fun e he => (hes e he).2
    · rw [hlog]
      -- two entries: the report of the parser, and the alarm that it raises
      have hreport : AlarmsRaised cb lim (w.log ++ [⟨.parser (.onError err), w.client⟩]) :=
        ha.raised.append (by simp) (by simp [Obs.alarm])
      have hcur : Told w.client.cfg.callbacks (currentConnection w.log) := by
        rw [hcfg]
        exact htells.told _ (List.mem_append_right _ (List.mem_singleton_self _))
      have hentry := alarmEntry_delivered hdiscards hs hcb hh hcur
        (ha.due _ _ rfl hs err List.mem_cons_self)
      rw [hcfg] at hentry
      have hcut := cutConnections_snoc (w.log ++ [⟨.parser (.onError err), w.client⟩])
        (e := ⟨.onError e, w.client⟩) (by simp)
      have hcut' := cutConnections_snoc w.log (e := ⟨.parser (.onError err), w.client⟩) (by simp)
      unfold AlarmsRaised connections at hreport ⊢
      rw [hcut]
      rw [hcut'] at hreport ⊢
      intro piece hp
      rcases List.mem_append.mp hp with hp | hp
      · exact hreport piece (List.mem_append_left _ hp)
      · rw [List.mem_singleton.mp hp]
        exact always_snoc.mpr ⟨hreport _ (by simp), fun _ => hentry⟩

/-- What is on its way after a step is a fault of the unfinished block. -/
theorem alarmsDue_step (hlim : lim.Valid) {s t : Phase × World} (h : Step env s t)
    (hok : PhaseOk s.2.client s.1) (hh : Hearing lim s) (ha : Alarms cb lim s) :
    ∀ rest called, t.1 = .parsing rest called → t.2.client.state = .opened →
      ∀ err, .onError err ∈ rest →
        .error err ∈ openReports lim (openBlock (received (currentConnection t.2.log)))
          (openLine (received (currentConnection t.2.log))) := by
  have hh' := hearing_step hlim h hok hh
  rintro rest called hph hs err hmem
  cases h with
  | stop ph w => exact ha.due rest called hph hs err hmem
  | close ph w hyes =>
    have hclosed : (closing w).client.state = .opened := hs
    rw [closing_state] at hclosed
    exact absurd hclosed (by simp)
  | byte w b hopen hread =>
    obtain ⟨rfl, rfl⟩ := Phase.parsing.inj hph
    have hw : Hears lim w [] := hh.hears
    have hopened : w.client.state = .opened := hs
    have hrec := received_parseByte w b
    rw [if_pos hopened] at hrec
    have hpend : pending (.parsing (processByte w.client.parser b).2 false) (parseByte w b).client =
        (processByte w.client.parser b).2.map Callback.report := if_pos hs
    -- the reports of the byte are what it adds to the reading
    have hnew := hh'.hears.reports
    rw [hpend, heard_parseByte, hrec, hw.current] at hnew
    have hin : Report.error err ∈ (processByte w.client.parser b).2.map Callback.report :=
      List.mem_map_of_mem (f := Callback.report) hmem
    show _ ∈ openReports lim (openBlock (received (currentConnection (parseByte w b).log))) _
    rw [hrec]
    exact error_of_new hnew.symm hin
  | deliver w c rest' called' =>
    obtain ⟨rfl, -⟩ := Phase.parsing.inj hph
    have hopened : w.client.state = .opened := (delivered_frame w c).2 ▸ hs
    rw [received_delivered]
    exact ha.due _ _ rfl hopened err (List.mem_cons_of_mem _ hmem)
  | _ => exact absurd hph (by simp)

theorem init_alarms (h : sseClientInit env cfg = some w) : Alarms cb lim (.between, w) := by
  refine ⟨by simp, ?_⟩
  show AlarmsRaised cb lim w.log
  rw [init_log h]
  intro piece hp
  rw [List.mem_singleton.mp hp]
  exact always_nil _

theorem reachable_alarms (h : Reachable env cfg w) :
    AlarmsRaised cfg.callbacks (clientLimits cfg) w.log := by
  obtain ⟨w₀, calls, hw₀, -⟩ := id h
  obtain ⟨hvalid, -⟩ := clientLimits_valid (configOk_of_init hw₀)
  let I : Phase × World → Prop := fun p =>
    Life (withDefaults cfg) p.2 ∧ Hearing (clientLimits cfg) p ∧ Tells cfg.callbacks p.2.log ∧
      Alarms cfg.callbacks (clientLimits cfg) p
  refine (reachable_invariant (I := I) ?_ ?_ h).2.2.2.2.raised
  · intro w₀ hw₀
    have hnone : Tells cfg.callbacks w₀.log := by
      rw [init_log hw₀]
      exact ⟨by simp [connections, cutConnections, Told.nil], always_nil _⟩
    exact ⟨(init_ready hw₀).2, init_hearing hw₀, hnone, init_alarms hw₀⟩
  · rintro s t hst hok ⟨hlife, hh, htells, ha⟩
    have hcfg : s.2.client.cfg.callbacks = cfg.callbacks := by rw [hlife.config]; rfl
    exact ⟨life_step hst hok hlife, hearing_step hvalid hst hok hh, tells_step hst hcfg htells,
      alarmsDue_step hvalid hst hok hh ha, alarmsRaised_step hst hcfg hh htells ha⟩

/-! ## §3 When an Alarm Is False -/

/-- A connection tells of its completed blocks, one after the other, and then of the unfinished one. -/
theorem signals_blocks {piece : Log} (hheard : heard piece = readingWithTail lim (received piece))
    (htold : Told cb piece) :
    ∃ rest, signals piece =
      (completeBlocks (received piece)).flatMap (blockSignals cb lim) ++ rest := by
  refine ⟨(openReports lim (openBlock (received piece)) (openLine (received piece))).filterMap
    (reportSignal cb), ?_⟩
  rw [htold, hheard, readingWithTail_eq, List.filterMap_append, List.filterMap_flatMap]
  rfl

/-- A fault that an unfinished block has reported is told of the block that it becomes. -/
theorem blockSignals_ne_nil (hlim : lim.Valid) (hcb : cb.onError = true) {s t : Bytes}
    {L : List Bytes} (hL : (completeBlocks (s ++ t))[(completeBlocks s).length]? = some L)
    {err : ParseError} (herr : err.discards = true)
    (hmem : .error err ∈ openReports lim (openBlock s) (openLine s)) :
    blockSignals cb lim L ≠ [] := by
  have hin := (openReports_mono hlim s t hL).subset hmem
  obtain ⟨reason, -, hsignal⟩ := reportSignal_discards hcb herr
  exact List.ne_nil_of_mem (List.mem_filterMap.mpr ⟨_, hin, hsignal⟩)

/-- Every alarm stands for a fault of the block that is completed next. -/
theorem discarded_of_alarm (hlim : lim.Valid) {piece pre post : Log} {e : Entry} {L : List Bytes}
    (hsplit : piece = pre ++ e :: post) (hentry : AlarmEntry cb lim pre)
    (hL : (completeBlocks (received piece))[(completeBlocks (received pre)).length]? = some L) :
    (readBlock lim L).1.discarded = true := by
  obtain ⟨err, herr, hmem⟩ := hentry.fault
  have hrec : received piece = received pre ++ received (e :: post) := by
    rw [hsplit]
    exact List.filterMap_append ..
  rw [hrec] at hL
  have hin := (openReports_mono hlim _ _ hL).subset hmem
  have hnil := nil_not_mem_completeBlocks (List.mem_of_getElem? hL)
  have hout : .error err ∈ outcomes (blockReports lim L) := List.mem_filter.mpr ⟨hin, herr⟩
  rcases outcomes_blockReports lim hnil with ⟨hyes, -⟩ | ⟨-, hone⟩
  · exact hyes
  · rw [hone] at hout
    split at hout
    · exact absurd hout (by simp)
    · exact absurd (List.mem_singleton.mp hout) (by simp [blockEvent])

/-- A discarded block without data raises an alarm while it is unfinished. -/
theorem exists_alarm (hlim : lim.Valid) (hcb : cb.onError = true) {piece : Log}
    (hheard : heard piece = readingWithTail lim (received piece)) (htold : Told cb piece)
    (hraised : Always (fun pre e => e.obs.alarm = true → AlarmEntry cb lim pre) piece)
    {A B : List (List Bytes)} {L : List Bytes} (hblocks : completeBlocks (received piece) = A ++ L :: B)
    (hd : (readBlock lim L).1.discarded = true) :
    ∃ pre e post, piece = pre ++ e :: post ∧ e.obs.alarm = true ∧
      (completeBlocks (received pre)).length = A.length := by
  have hnil : [] ∉ L := nil_not_mem_completeBlocks (s := received piece) (by rw [hblocks]; simp)
  obtain ⟨err, herr, hone⟩ : ∃ err, err.discards = true ∧
      outcomes (blockReports lim L) = [.error err] := by
    rcases outcomes_blockReports lim hnil with ⟨-, hyes⟩ | ⟨hno, -⟩
    · exact hyes
    · rw [hd] at hno
      exact absurd hno (by simp)
  obtain ⟨reason, -, hsignal⟩ := reportSignal_discards hcb herr
  have hL : blockSignals cb lim L = [.loss (lossError reason)] := by
    unfold blockSignals
    rw [filterMap_outcomes, hone]
    simp [hsignal]
  -- the entry that tells this one signal
  obtain ⟨rest, hsignals⟩ := signals_blocks hheard htold
  rw [hblocks, List.flatMap_append, List.flatMap_cons, hL, List.append_assoc, List.append_assoc,
    List.singleton_append] at hsignals
  obtain ⟨pre, tail, rfl, hpre, htail⟩ := List.filterMap_eq_append_iff.mp hsignals
  obtain ⟨quiet, e, post, rfl, hquiet, he, -⟩ := List.filterMap_eq_cons_iff.mp htail
  have hsplit : pre ++ (quiet ++ e :: post) = (pre ++ quiet) ++ e :: post := by simp
  have halarm := alarm_of_signal he
  have hentry := hraised _ _ _ hsplit halarm
  have hbefore : signals (pre ++ quiet) = A.flatMap (blockSignals cb lim) := by
    unfold signals
    rw [List.filterMap_append, hpre, List.filterMap_eq_nil_iff.mpr hquiet, List.append_nil]
  refine ⟨pre ++ quiet, e, post, hsplit, halarm, ?_⟩
  -- that many blocks are complete at that entry, since each of them is told in its turn
  have hrec : received (pre ++ (quiet ++ e :: post)) =
      received (pre ++ quiet) ++ received (e :: post) := by
    rw [hsplit]
    exact List.filterMap_append ..
  have hdone : completeBlocks (received (pre ++ quiet)) <+: A ++ L :: B := by
    rw [← hblocks, hrec]
    exact completeBlocks_mono _ _
  have hsame := hentry.before.symm.trans hbefore
  rcases List.prefix_or_prefix_of_prefix hdone (List.prefix_append A (L :: B)) with hle | hle
  · obtain ⟨D, rfl⟩ := hle
    rw [List.flatMap_append, List.self_eq_append_right] at hsame
    -- were another block complete, its own signal would have been told too
    cases D with
    | nil => simp
    | cons M D =>
      obtain ⟨err', herr', hmem⟩ := hentry.fault
      have hM : (completeBlocks (received (pre ++ quiet) ++ received (e :: post)))[
          (completeBlocks (received (pre ++ quiet))).length]? = some M := by
        rw [← hrec, hblocks]
        simp
      rw [List.flatMap_cons, List.append_eq_nil_iff] at hsame
      exact absurd hsame.1 (blockSignals_ne_nil hlim hcb hM herr' hmem)
  · obtain ⟨E, hE⟩ := hle
    cases E with
    | nil => rw [← hE, List.append_nil]
    | cons M E =>
      rw [← hE, List.prefix_append_right_inj, List.cons_prefix_cons] at hdone
      rw [← hE, List.flatMap_append, List.flatMap_cons, hdone.1, hL] at hsame
      exact absurd hsame (by simp)

/-- Without `on_error` there is no alarm. -/
theorem no_alarm (hcb : cb.onError = false) {piece : Log} (htold : Told cb piece) {e : Entry}
    (he : e ∈ piece) : e.obs.alarm = false := by
  cases hyes : e.obs.alarm with
  | false => rfl
  | true =>
    obtain ⟨err, hsignal⟩ := signal_of_alarm hyes
    have hmem : Signal.loss err ∈ signals piece := List.mem_filterMap.mpr ⟨e, he, hsignal⟩
    rw [htold] at hmem
    obtain ⟨r, -, hr⟩ := List.mem_filterMap.mp hmem
    cases r with
    | error perr => simp [reportSignal, hcb] at hr
    | event type id data => simp [reportSignal] at hr
    | id v len => simp [reportSignal] at hr
    | retry ms => simp [reportSignal] at hr

/-- **Alarms are true exactly where no type is faulty without data.** On every connection of every
run, each alarm raised in a block that is completed later means that the block has a data line, if
and only if nobody listens, or no completed block without a data line has an event type with a NUL in
it or too long for its buffer. -/
theorem true_alarms_iff (h : Reachable env cfg w) :
    ∀ piece ∈ connections w.log, TrueAlarms piece ↔
      (cfg.callbacks.onError = false ∨
        ∀ L ∈ completeBlocks (received piece), dataValues L = [] →
          ∀ v ∈ fieldValues .event L, typeFault (clientLimits cfg) v = none) := by
  obtain ⟨w₀, calls, hw₀, -⟩ := id h
  obtain ⟨hvalid, -⟩ := clientLimits_valid (configOk_of_init hw₀)
  intro piece hp
  have hheard := (reachable_hears h).allHeard piece hp
  have htold := (reachable_tells h).told piece hp
  have hraised := reachable_alarms h piece hp
  constructor
  · intro htrue
    cases hcb : cfg.callbacks.onError with
    | false => exact .inl rfl
    | true =>
      refine .inr ?_
      intro L hL hdata v hv
      -- such a type discards its block, which then has raised an alarm
      by_contra hfault
      have hd : (readBlock (clientLimits cfg) L).1.discarded = true :=
        (discarded_of_no_data _ (nil_not_mem_completeBlocks hL) hdata).mpr
          ⟨v, hv, Option.isSome_iff_ne_none.mpr hfault⟩
      obtain ⟨A, B, hblocks⟩ := List.append_of_mem hL
      obtain ⟨pre, e, post, hsplit, halarm, hlen⟩ :=
        exists_alarm hvalid hcb hheard htold hraised hblocks hd
      refine htrue pre e post hsplit halarm L ?_ hdata
      rw [hlen, hblocks]
      simp
  · rintro (hcb | hplain) pre e post hsplit halarm L hL hdata
    · have hno := no_alarm hcb htold (e := e) (by rw [hsplit]; simp)
      rw [hno] at halarm
      exact absurd halarm (by simp)
    · have hd := discarded_of_alarm hvalid hsplit (hraised _ _ _ hsplit halarm) hL
      have hmem := List.mem_of_getElem? hL
      obtain ⟨v, hv, hfault⟩ :=
        (discarded_of_no_data _ (nil_not_mem_completeBlocks hmem) hdata).mp hd
      rw [hplain L hmem hdata v hv] at hfault
      exact absurd hfault (by simp)

/-- An event type that does not fit two bytes, in a block without data. -/
def faultyType : Bytes :=
  ascii ['e', 'v', 'e', 'n', 't', ':', 'a', 'b', '\n', '\n']

/-- The client of `smallConfig` after it has connected and received that block. -/
def falseAlarmClient : World :=
  runCalls (streamEnv faultyType) smallClient (List.replicate 12 .poll)

theorem falseAlarmClient_reachable :
    Reachable (streamEnv faultyType) smallConfig falseAlarmClient :=
  ⟨smallClient, List.replicate 12 .poll, rfl, rfl⟩

/-- An alarm is raised in a block without a data line. -/
theorem false_alarm :
    Reachable (streamEnv faultyType) smallConfig falseAlarmClient ∧
      ¬ ∀ piece ∈ connections falseAlarmClient.log, TrueAlarms piece := by
  refine ⟨falseAlarmClient_reachable, ?_⟩
  intro htrue
  let piece := currentConnection falseAlarmClient.log
  have hmem : piece ∈ connections falseAlarmClient.log :=
    List.mem_append_right _ (List.mem_singleton_self _)
  -- the entry of the alarm
  have hentry : piece[36]?.map (fun e => e.obs.alarm) = some true := by decide +kernel
  obtain ⟨e, he, halarm⟩ := Option.map_eq_some_iff.mp hentry
  obtain ⟨hlen, he'⟩ := List.getElem?_eq_some_iff.mp he
  have hsplit : piece = piece.take 36 ++ e :: piece.drop 37 := by
    rw [← he', List.getElem_cons_drop, List.take_append_drop]
  exact htrue piece hmem _ _ _ hsplit halarm [faultyType.take 8] (by decide +kernel) (by decide)

theorem true_alarms_iff_of_one : TrueAlarms (currentConnection oneEventClient.log) := by
  have hmem : currentConnection oneEventClient.log ∈ connections oneEventClient.log :=
    List.mem_append_right _ (List.mem_singleton_self _)
  exact (true_alarms_iff oneEventClient_reachable _ hmem).mpr (.inr (by decide +kernel))

end EventSource.Client
