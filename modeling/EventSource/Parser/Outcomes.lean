import EventSource.Parser.Blocks
import EventSource.Parser.StreamRefinement

/-!
# The Outcome of a Block

Every completed block with a data line comes to one end: its event, or one error that says why the
event is lost. What settles this is the last thing that any byte reports, so nothing of a byte is
still to come when it is known.
-/

namespace EventSource.Parser

open EventSource.CMemory
open EventSource.Transducer

variable {lim : Limits} {L : List Bytes} {blk : Block} {rs : List Report}

/-! ## §1 What Settles a Block -/

/-- The errors that `discard_block` is called with. -/
def ParseError.discards : ParseError → Bool
  | .dataTooLarge | .eventTypeTooLarge | .eventTypeInvalid => true
  | .idInvalid | .invalidRetry | .unknownField => false

/-- The reports that tell what becomes of a block's event. -/
def Report.settles : Report → Bool
  | .event _ _ _ => true
  | .error err => err.discards
  | _ => false

/-- What a sequence of reports says about the events of its blocks. -/
def outcomes (rs : List Report) : List Report :=
  rs.filter Report.settles

/-- The ids that a sequence of reports commits. -/
def committedIds (rs : List Report) : List Bytes :=
  rs.filterMap fun
    | .id v _ => some v
    | _ => none

@[simp] theorem outcomes_append (rs ss : List Report) :
    outcomes (rs ++ ss) = outcomes rs ++ outcomes ss :=
  List.filter_append ..

@[simp] theorem committedIds_append (rs ss : List Report) :
    committedIds (rs ++ ss) = committedIds rs ++ committedIds ss :=
  List.filterMap_append ..

/-! ## §2 One Byte -/

/-- None of the callbacks settles anything. -/
def Quiet (outs : List Callback) : Prop :=
  ∀ c ∈ outs, c.report.settles = false

/-- Only the last of the callbacks may settle anything. -/
def SettlesLast (outs : List Callback) : Prop :=
  Quiet outs.dropLast

theorem quiet_nil : Quiet [] := by simp [Quiet]

theorem Quiet.settlesLast {outs : List Callback} (h : Quiet outs) : SettlesLast outs :=
  fun c hc => h c ((List.dropLast_sublist outs).subset hc)

/-- A single callback is its own last one. -/
theorem settlesLast_of_length {outs : List Callback} (h : outs.length ≤ 1) : SettlesLast outs := by
  have hnil : outs.dropLast = [] := by
    apply List.eq_nil_of_length_eq_zero
    rw [List.length_dropLast]
    omega
  unfold SettlesLast
  rw [hnil]
  exact quiet_nil

theorem Quiet.append {a b : List Callback} (ha : Quiet a) (hb : Quiet b) : Quiet (a ++ b) := by
  intro c hc
  rcases List.mem_append.mp hc with hc | hc
  · exact ha c hc
  · exact hb c hc

theorem Quiet.append_settlesLast {a b : List Callback} (ha : Quiet a) (hb : SettlesLast b) :
    SettlesLast (a ++ b) := by
  cases b with
  | nil =>
    rw [List.append_nil]
    exact ha.settlesLast
  | cons c b =>
    unfold SettlesLast
    rw [List.dropLast_append_of_ne_nil (by simp)]
    exact ha.append hb

theorem length_fire_le (p : SseParser) (c : Callback) : (fire p c).length ≤ 1 := by
  unfold fire
  split <;> simp

theorem quiet_fire (p : SseParser) {c : Callback} (hc : c.report.settles = false) :
    Quiet (fire p c) := by
  unfold fire
  split
  · simpa [Quiet] using hc
  · exact quiet_nil

theorem quiet_dispatchId (p : SseParser) : Quiet (dispatchId p).2 := by
  unfold dispatchId
  split
  · exact quiet_fire _ rfl
  · exact quiet_nil

theorem length_dispatchEvent_le (p : SseParser) : (dispatchEvent p).2.length ≤ 1 := by
  unfold dispatchEvent
  split
  · exact length_fire_le _ _
  · exact Nat.zero_le 1

theorem settlesLast_dispatchBlock (p : SseParser) : SettlesLast (dispatchBlock p).2 := by
  unfold dispatchBlock
  rw [andThen_snd, andThen_snd, List.append_nil]
  exact (quiet_dispatchId p).append_settlesLast (settlesLast_of_length (length_dispatchEvent_le _))

theorem length_discardBlock_le (p : SseParser) (err : ParseError) :
    (discardBlock p err).2.length ≤ 1 := by
  unfold discardBlock
  split
  · exact Nat.zero_le 1
  · exact length_fire_le _ _

theorem length_valueByte_le (p : SseParser) (b : UInt8) : (valueByte p b).2.length ≤ 1 := by
  unfold valueByte
  cases p.field with
  | none => exact Nat.zero_le 1
  | data =>
    simp only
    split_ifs
    · exact Nat.zero_le 1
    · exact length_discardBlock_le _ _
    · exact Nat.zero_le 1
  | event =>
    simp only
    split_ifs
    · exact Nat.zero_le 1
    · exact length_discardBlock_le _ _
    · exact length_discardBlock_le _ _
    · exact Nat.zero_le 1
  | id =>
    simp only
    split_ifs
    · exact Nat.zero_le 1
    · exact length_fire_le _ _
    · exact Nat.zero_le 1
  | retry =>
    simp only
    split_ifs <;> exact Nat.zero_le 1

theorem length_commitValue_le (p : SseParser) : (commitValue p).2.length ≤ 1 := by
  have hfield : (commitField p).2.length ≤ 1 := by
    unfold commitField
    cases p.field with
    | none => exact Nat.zero_le 1
    | data =>
      simp only
      split_ifs
      · exact Nat.zero_le 1
      · exact length_discardBlock_le _ _
      · exact Nat.zero_le 1
    | event => exact Nat.zero_le 1
    | id =>
      simp only
      split_ifs <;> exact Nat.zero_le 1
    | retry =>
      simp only
      split_ifs <;> exact length_fire_le _ _
  unfold commitValue
  rwa [andThen_snd, List.append_nil]

theorem quiet_resolveFieldName (p : SseParser) : Quiet (resolveFieldName p).2 := by
  unfold resolveFieldName
  by_cases h : lookupField p = .none
  · simp only [h, if_true]
    exact quiet_fire _ (c := .onError .unknownField) rfl
  · simp only [h, if_false]
    exact quiet_nil

theorem quiet_nameByte (p : SseParser) (b : UInt8) : Quiet (nameByte p b).2 := by
  unfold nameByte
  split
  · exact quiet_resolveFieldName p
  · have hfull : ∀ q : SseParser, Quiet (if 5 < q.nameLen then
        ({ q with state := .skipLine }, emitPerr q .unknownField) else (q, [])).2 := by
      intro q
      split
      · exact quiet_fire q (c := .onError .unknownField) rfl
      · exact quiet_nil
    exact hfull _

theorem settlesLast_lineEnd (p : SseParser) : SettlesLast (lineEnd p).2 := by
  unfold lineEnd finishLine
  rw [andThen_snd, List.append_nil]
  cases p.state with
  | lineStart => exact settlesLast_dispatchBlock p
  | fieldName =>
    apply (quiet_resolveFieldName p).append_settlesLast
    by_cases hs : (resolveFieldName p).1.state = .afterColon
    · simp only [hs, if_true]
      exact settlesLast_of_length (length_commitValue_le _)
    · simp only [hs, if_false]
      exact quiet_nil.settlesLast
  | afterColon => exact settlesLast_of_length (length_commitValue_le p)
  | value => exact settlesLast_of_length (length_commitValue_le p)
  | bom => exact quiet_nil.settlesLast
  | skipLine => exact quiet_nil.settlesLast

theorem settlesLast_lineByte (p : SseParser) (b : UInt8) : SettlesLast (lineByte p b).2 := by
  unfold lineByte
  split
  · rw [andThen_snd, List.append_nil]
    exact settlesLast_lineEnd p
  · split
    · exact settlesLast_lineEnd p
    · cases p.state with
      | lineStart =>
        simp only
        split
        · exact quiet_nil.settlesLast
        · exact (quiet_nameByte _ b).settlesLast
      | fieldName => exact (quiet_nameByte p b).settlesLast
      | afterColon =>
        simp only
        split
        · exact quiet_nil.settlesLast
        · exact settlesLast_of_length (length_valueByte_le _ b)
      | value => exact settlesLast_of_length (length_valueByte_le p b)
      | bom => exact quiet_nil.settlesLast
      | skipLine => exact quiet_nil.settlesLast

/-- The states that the replayed bytes of a cut-off byte-order mark lead through. -/
def Replaying (p : SseParser) : Prop :=
  p.state = .lineStart ∨ p.state = .fieldName ∨ p.state = .skipLine

theorem nameByte_replaying {p : SseParser} {b : UInt8} (hs : p.state = .fieldName)
    (hb : b ≠ colon) : Replaying (nameByte p b).1 := by
  unfold nameByte
  rw [if_neg hb]
  by_cases hroom : p.nameLen < p.name.length
  · simp only [hroom, if_true]
    split
    · exact .inr (.inr rfl)
    · exact .inr (.inl hs)
  · simp only [hroom, if_false]
    split
    · exact .inr (.inr rfl)
    · exact .inr (.inl hs)

/-- A byte of the mark neither ends a line nor begins a value. -/
theorem lineByte_replaying {p : SseParser} (hp : Replaying p) {b : UInt8} (hb : b ∈ sseBom) :
    Replaying (lineByte p b).1 ∧ Quiet (lineByte p b).2 := by
  obtain ⟨hcr, hlf, hcolon⟩ := sseBom_plain b hb
  unfold lineByte
  rw [if_neg hcr, if_neg hlf]
  rcases hp with hs | hs | hs
  · simp only [hs, if_neg hcolon]
    exact ⟨nameByte_replaying rfl hcolon, quiet_nameByte _ b⟩
  · simp only [hs]
    exact ⟨nameByte_replaying hs hcolon, quiet_nameByte p b⟩
  · simp only [hs]
    exact ⟨.inr (.inr hs), quiet_nil⟩

/-- **Whatever a byte settles, it settles last.** -/
theorem settlesLast_processByte (p : SseParser) (b : UInt8) :
    SettlesLast (processByte p b).2 := by
  unfold processByte
  split
  · exact quiet_nil.settlesLast
  · unfold bomByte
    split
    · split
      · split <;> exact quiet_nil.settlesLast
      · have hreplay : ∀ q : SseParser, ∀ c ∈ sseBom.take p.bomN, Replaying q →
            Replaying (lineByte q c).1 ∧ Quiet (lineByte q c).2 :=
          fun q c hc hq => lineByte_replaying hq (List.mem_of_mem_take hc)
        have hquiet : ∀ q : SseParser, Replaying q →
            Quiet (run lineByte q (sseBom.take p.bomN)).2 := fun q hq =>
          run_outputs (I := Replaying) (fun q c hc hq => (hreplay q c hc hq).1)
            (fun q c hc hq => (hreplay q c hc hq).2) hq
        exact (hquiet _ (.inl rfl)).append_settlesLast (settlesLast_lineByte _ b)
    · exact settlesLast_lineByte _ b

/-! ## §3 One Line -/

/-- A field line reports errors and retry times only. -/
theorem mem_readField {f : Field} {v : Bytes} {r : Report}
    (hr : r ∈ (readField lim blk f v).2) : (∃ err, r = .error err) ∨ ∃ ms, r = .retry ms := by
  cases f with
  | none => exact .inl ⟨_, List.mem_singleton.mp hr⟩
  | data =>
    simp only [readField] at hr
    split_ifs at hr
    · exact absurd hr (by simp)
    · exact .inl ⟨_, List.mem_singleton.mp hr⟩
    · exact absurd hr (by simp)
  | event =>
    simp only [readField] at hr
    split_ifs at hr
    · exact absurd hr (by simp)
    · cases hfault : typeFault lim v with
      | none => simp [hfault] at hr
      | some err =>
        rw [hfault] at hr
        exact .inl ⟨err, List.mem_singleton.mp hr⟩
  | id =>
    simp only [readField] at hr
    split_ifs at hr
    · exact .inl ⟨_, List.mem_singleton.mp hr⟩
    · exact absurd hr (by simp)
  | retry =>
    simp only [readField] at hr
    split_ifs at hr
    · exact .inr ⟨_, List.mem_singleton.mp hr⟩
    · exact .inl ⟨_, List.mem_singleton.mp hr⟩

theorem committedIds_readField (lim : Limits) (blk : Block) (f : Field) (v : Bytes) :
    committedIds (readField lim blk f v).2 = [] := by
  apply List.filterMap_eq_nil_iff.mpr
  intro r hr
  rcases mem_readField hr with ⟨err, rfl⟩ | ⟨ms, rfl⟩ <;> rfl

theorem typeFault_discards {v : Bytes} {err : ParseError} (h : typeFault lim v = some err) :
    err.discards = true := by
  unfold typeFault at h
  split_ifs at h
  · rw [← Option.some.inj h]
    rfl
  · rw [← Option.some.inj h]
    rfl

/-- What the reports of a block have said so far: why it was discarded, if it was. -/
def SaidSoFar (blk : Block) (rs : List Report) : Prop :=
  (blk.discarded = false ∧ outcomes rs = []) ∨
    (blk.discarded = true ∧ ∃ err, err.discards = true ∧ outcomes rs = [.error err])

/-- A line of a block that has been discarded settles nothing; another line settles the block
exactly if it discards it. -/
theorem SaidSoFar.readField (h : SaidSoFar blk rs) (f : Field) (v : Bytes) :
    SaidSoFar (readField lim blk f v).1 (rs ++ (readField lim blk f v).2) := by
  -- a line that settles nothing and leaves the flag alone
  have hkeep : ∀ (blk' : Block) (new : List Report), blk'.discarded = blk.discarded →
      outcomes new = [] → SaidSoFar blk' (rs ++ new) := by
    intro blk' new hsame hnew
    unfold SaidSoFar
    rw [hsame, outcomes_append, hnew, List.append_nil]
    exact h
  -- a line that discards the block
  have hlose : ∀ (blk' : Block) (err : ParseError), blk.discarded = false →
      blk'.discarded = true → err.discards = true → SaidSoFar blk' (rs ++ [.error err]) := by
    intro blk' err hd hd' herr
    have hnone : outcomes rs = [] := by
      rcases h with ⟨-, hnone⟩ | ⟨hyes, -⟩
      · exact hnone
      · rw [hd] at hyes
        exact absurd hyes (by simp)
    refine .inr ⟨hd', err, herr, ?_⟩
    rw [outcomes_append, hnone]
    simp [outcomes, Report.settles, herr]
  cases f with
  | none => exact hkeep _ _ rfl rfl
  | data =>
    cases hd : blk.discarded with
    | true =>
      have hline : Parser.readField lim blk .data v = (blk, []) := by simp [Parser.readField, hd]
      rw [hline]
      exact hkeep _ _ rfl rfl
    | false =>
      simp only [Parser.readField, hd, Bool.false_eq_true, if_false]
      split
      · exact hlose _ _ hd rfl rfl
      · exact hkeep _ _ hd.symm rfl
  | event =>
    cases hd : blk.discarded with
    | true =>
      have hline : Parser.readField lim blk .event v = (blk, []) := by simp [Parser.readField, hd]
      rw [hline]
      exact hkeep _ _ rfl rfl
    | false =>
      simp only [Parser.readField, hd, Bool.false_eq_true, if_false]
      cases hfault : typeFault lim v with
      | none => exact hkeep _ _ hd.symm rfl
      | some err => exact hlose _ _ hd rfl (typeFault_discards hfault)
  | id =>
    simp only [Parser.readField]
    split
    · exact hkeep _ _ rfl rfl
    · exact hkeep _ _ rfl rfl
  | retry =>
    simp only [Parser.readField]
    split
    · exact hkeep _ _ rfl rfl
    · exact hkeep _ _ rfl rfl

/-- The errors that an unterminated line has proved are all it has reported. -/
theorem mem_earlyReports {cur : Bytes} {r : Report} (hr : r ∈ earlyReports lim blk cur) :
    ∃ err, r = .error err := by
  have hfield : ∀ (f : Field) (v : Bytes), r ∈ earlyField lim blk f v → ∃ err, r = .error err := by
    intro f v hr
    cases f with
    | none => exact ⟨_, List.mem_singleton.mp hr⟩
    | data =>
      simp only [earlyField] at hr
      split_ifs at hr
      · exact ⟨_, List.mem_singleton.mp hr⟩
      · exact absurd hr (by simp)
    | event =>
      simp only [earlyField] at hr
      split_ifs at hr
      · exact absurd hr (by simp)
      · obtain ⟨err, -, rfl⟩ := List.mem_map.mp hr
        exact ⟨err, rfl⟩
    | id =>
      simp only [earlyField] at hr
      split_ifs at hr
      · exact ⟨_, List.mem_singleton.mp hr⟩
      · exact absurd hr (by simp)
    | retry => exact absurd hr (by simp [earlyField])
  -- the line as a whole: a comment, a value under way, or a name of six bytes
  unfold earlyReports at hr
  cases cur with
  | nil => exact absurd hr (by simp)
  | cons b s =>
    simp only at hr
    split_ifs at hr
    · exact absurd hr (by simp)
    · exact hfield _ _ hr
    · exact ⟨_, List.mem_singleton.mp hr⟩
    · exact absurd hr (by simp)

/-- An unterminated line has reported at most one error, and discards only a block that was not
discarded before. -/
theorem outcomes_earlyReports (lim : Limits) (blk : Block) (cur : Bytes) :
    outcomes (earlyReports lim blk cur) = [] ∨
      (blk.discarded = false ∧
        ∃ err, err.discards = true ∧ outcomes (earlyReports lim blk cur) = [.error err]) := by
  have hfield : ∀ (f : Field) (v : Bytes), outcomes (earlyField lim blk f v) = [] ∨
      (blk.discarded = false ∧
        ∃ err, err.discards = true ∧ outcomes (earlyField lim blk f v) = [.error err]) := by
    intro f v
    cases f with
    | none => exact .inl rfl
    | data =>
      simp only [earlyField]
      split_ifs with hover
      · exact .inr ⟨hover.1, _, rfl, rfl⟩
      · exact .inl rfl
    | event =>
      simp only [earlyField]
      cases hd : blk.discarded with
      | true => exact .inl rfl
      | false =>
        cases hfault : typeFault lim v with
        | none => exact .inl rfl
        | some err =>
          have herr := typeFault_discards hfault
          exact .inr ⟨rfl, err, herr, by simp [outcomes, Report.settles, herr]⟩
    | id =>
      simp only [earlyField]
      split_ifs <;> exact .inl rfl
    | retry => exact .inl rfl
  -- only a value under way can discard the block
  unfold earlyReports
  cases cur with
  | nil => exact .inl rfl
  | cons b s =>
    simp only
    split_ifs
    · exact .inl rfl
    · exact hfield _ _
    · exact .inl rfl
    · exact .inl rfl

/-! ## §4 One Block -/

/-- All that the reading of a completed block reports, its empty line included. -/
def blockReports (lim : Limits) (L : List Bytes) : List Report :=
  (readBlock lim L).2 ++ dispatchReports (readBlock lim L).1

/-- All that an unfinished block has reported, with the unterminated line `cur` behind it. -/
def openReports (lim : Limits) (L : List Bytes) (cur : Bytes) : List Report :=
  (readBlock lim L).2 ++ earlyReports lim (readBlock lim L).1 cur

/-- The event of a block whose type and data are those of the lines `L`. -/
def blockEvent (lim : Limits) (L : List Bytes) : Report :=
  .event (if eventType L = [] then none else some (eventType L)) (lastId lim L)
    ([lf].intercalate (dataValues L))

theorem readBlock_snoc {line : Bytes} (hne : line ≠ []) :
    readBlock lim (L ++ [line]) =
      if line.head? = some colon then readBlock lim L
      else andThen (readBlock lim L) fun blk =>
        readField lim blk (fieldOf (fieldName line)) (fieldValue line) := by
  unfold readBlock
  rw [run_snoc]
  unfold andThen
  simp only [readLine_cons hne]
  split
  · rw [List.append_nil]
  · rfl

/-- What the lines of a block have said when all of them are read. -/
theorem readBlock_saidSoFar (lim : Limits) (hL : [] ∉ L) :
    SaidSoFar (readBlock lim L).1 (readBlock lim L).2 ∧
      committedIds (readBlock lim L).2 = [] := by
  induction L using List.reverseRecOn with
  | nil => exact ⟨.inl ⟨rfl, rfl⟩, rfl⟩
  | append_singleton L line ih =>
    rw [List.mem_append, List.mem_singleton, not_or] at hL
    obtain ⟨hsaid, hids⟩ := ih hL.1
    rw [readBlock_snoc (Ne.symm hL.2)]
    split
    · exact ⟨hsaid, hids⟩
    · refine ⟨hsaid.readField _ _, ?_⟩
      rw [andThen_snd, committedIds_append, hids, committedIds_readField]
      rfl

/-- The end of a block reports its id and its event, nothing else. -/
theorem mem_dispatchReports {r : Report} (hr : r ∈ dispatchReports blk) :
    (∃ v, blk.id = some v ∧ r = .id v v.length) ∨
      (blk.discarded = false ∧
        r = .event (if blk.type = [] then none else some blk.type) blk.id
          ([lf].intercalate blk.values)) := by
  rcases List.mem_append.mp hr with hr | hr
  · left
    unfold idReports at hr
    cases hid : blk.id with
    | none => simp [hid] at hr
    | some v =>
      rw [hid] at hr
      exact ⟨v, rfl, List.mem_singleton.mp hr⟩
  · right
    unfold eventReports at hr
    split at hr
    · exact absurd hr List.not_mem_nil
    · next hkept =>
      exact ⟨Bool.eq_false_of_not_eq_true (not_or.mp (mt Bool.or_eq_true_iff.mpr hkept)).1,
        List.mem_singleton.mp hr⟩

theorem outcomes_idReports (blk : Block) : outcomes (idReports blk) = [] := by
  unfold idReports
  cases blk.id <;> rfl

/-- **A completed block comes to exactly one end.** With a data line it is either discarded, with
one error that says so, or delivered, with the type and the data of its lines; without a data line
it may still be discarded, but nothing is delivered. -/
theorem outcomes_blockReports (lim : Limits) (hL : [] ∉ L) :
    ((readBlock lim L).1.discarded = true ∧
        ∃ err, err.discards = true ∧ outcomes (blockReports lim L) = [.error err]) ∨
      ((readBlock lim L).1.discarded = false ∧
        outcomes (blockReports lim L) = if dataValues L = [] then [] else [blockEvent lim L]) := by
  have htracks := readBlock_tracks lim hL
  have hsaid := (readBlock_saidSoFar lim hL).1
  unfold blockReports dispatchReports
  rw [outcomes_append, outcomes_append, outcomes_idReports, List.nil_append]
  rcases hsaid with ⟨hd, hnone⟩ | ⟨hd, err, herr, hone⟩
  · refine .inr ⟨hd, ?_⟩
    rw [hnone, List.nil_append]
    unfold eventReports blockEvent
    rw [hd, htracks.values hd, htracks.type hd, htracks.id]
    by_cases hv : dataValues L = [] <;> simp [hv, outcomes, Report.settles]
  · refine .inl ⟨hd, err, herr, ?_⟩
    have hno : eventReports (readBlock lim L).1 = [] := by simp [eventReports, hd]
    rw [hone, hno]
    rfl

/-- A block commits the id that its last id line leaves, whatever becomes of its event. -/
theorem committedIds_blockReports (lim : Limits) (hL : [] ∉ L) :
    committedIds (blockReports lim L) = (lastId lim L).toList := by
  have htracks := readBlock_tracks lim hL
  have hevent : committedIds (eventReports (readBlock lim L).1) = [] := by
    unfold eventReports
    split <;> rfl
  unfold blockReports dispatchReports
  rw [committedIds_append, committedIds_append, (readBlock_saidSoFar lim hL).2, hevent]
  unfold idReports
  rw [htracks.id]
  cases lastId lim L <;> rfl

/-- Before its empty line a block has reported errors and retry times only. -/
theorem mem_openReports (hL : [] ∉ L) {cur : Bytes} {r : Report} (hr : r ∈ openReports lim L cur) :
    (∃ err, r = .error err) ∨ ∃ ms, r = .retry ms := by
  rcases List.mem_append.mp hr with hr | hr
  · induction L using List.reverseRecOn with
    | nil => exact absurd hr List.not_mem_nil
    | append_singleton L line ih =>
      rw [List.mem_append, List.mem_singleton, not_or] at hL
      rw [readBlock_snoc (Ne.symm hL.2)] at hr
      split at hr
      · exact ih hL.1 (List.mem_append_left _ hr) hr
      · rcases List.mem_append.mp hr with hr | hr
        · exact ih hL.1 (List.mem_append_left _ hr) hr
        · exact mem_readField hr
  · exact .inl (mem_earlyReports hr)

/-- An unfinished block has delivered nothing, and has announced at most once that its event is
lost. -/
theorem outcomes_openReports (lim : Limits) (hL : [] ∉ L) (cur : Bytes) :
    outcomes (openReports lim L cur) = [] ∨
      ∃ err, err.discards = true ∧ outcomes (openReports lim L cur) = [.error err] := by
  unfold openReports
  rw [outcomes_append]
  rcases (readBlock_saidSoFar lim hL).1 with ⟨-, hnone⟩ | ⟨hd, err, herr, hone⟩
  · rw [hnone, List.nil_append]
    rcases outcomes_earlyReports lim (readBlock lim L).1 cur with hno | ⟨-, hyes⟩
    · exact .inl hno
    · exact .inr hyes
  · refine .inr ⟨err, herr, ?_⟩
    rcases outcomes_earlyReports lim (readBlock lim L).1 cur with hno | ⟨hd', -⟩
    · rw [hone, hno]
      rfl
    · rw [hd] at hd'
      exact absurd hd' (by simp)

/-- An unfinished block commits no id. -/
theorem committedIds_openReports (lim : Limits) (hL : [] ∉ L) (cur : Bytes) :
    committedIds (openReports lim L cur) = [] := by
  have hearly : committedIds (earlyReports lim (readBlock lim L).1 cur) = [] := by
    apply List.filterMap_eq_nil_iff.mpr
    intro r hr
    obtain ⟨err, rfl⟩ := mem_earlyReports hr
    rfl
  unfold openReports
  rw [committedIds_append, (readBlock_saidSoFar lim hL).2, hearly]
  rfl

/-! ## §5 A Whole Stream -/

/-- The completed blocks of a stream, each with its lines. -/
def completeBlocks (s : Bytes) : List (List Bytes) :=
  (cutBlocks (linesOf s)).2

/-- The lines of the block that a stream leaves unfinished. -/
def openBlock (s : Bytes) : List Bytes :=
  (cutBlocks (linesOf s)).1

/-- The line that a stream leaves unterminated. -/
def openLine (s : Bytes) : Bytes :=
  (splitLines [] (dropBom s)).2

/-- No completed block has an empty line inside. -/
theorem nil_not_mem_completeBlocks {s : Bytes} (hL : L ∈ completeBlocks s) : [] ∉ L := by
  have hkeep : ∀ cur line, [] ∉ cur → [] ∉ (blockLine cur line).1 := by
    intro cur line h
    cases line with
    | nil => simp [blockLine]
    | cons b s => simpa [blockLine] using h
  have hout : ∀ cur line, [] ∉ cur → ∀ M ∈ (blockLine cur line).2, [] ∉ M := by
    intro cur line h M hM
    cases line with
    | nil => rwa [List.mem_singleton.mp hM]
    | cons b s => exact absurd hM (by simp [blockLine])
  exact run_outputs (I := fun cur : List Bytes => [] ∉ cur) (fun cur line _ => hkeep cur line)
    (fun cur line _ => hout cur line) (by simp) L hL

/-- The reading of the complete lines, block by block. -/
theorem run_readLine_blocks (lim : Limits) (lines : List Bytes) :
    (run (readLine lim) .empty lines).2 =
      (cutBlocks lines).2.flatMap (blockReports lim) ++ (readBlock lim (cutBlocks lines).1).2 := by
  induction lines using List.reverseRecOn with
  | nil => rfl
  | append_singleton lines line ih =>
    have hblk := run_readLine_block lim lines
    unfold cutBlocks at ih hblk ⊢
    rw [run_snoc, run_snoc, andThen_snd, andThen_snd, andThen_fst, ih, hblk]
    cases line with
    | nil =>
      show _ ++ _ ++ dispatchReports (readBlock lim (run blockLine [] lines).1).1 =
        (_ ++ [(run blockLine [] lines).1]).flatMap (blockReports lim) ++ []
      rw [List.flatMap_append, List.flatMap_singleton, List.append_nil, List.append_assoc]
      rfl
    | cons b s =>
      show _ = (_ ++ []).flatMap (blockReports lim) ++
        (readBlock lim ((run blockLine [] lines).1 ++ [b :: s])).2
      have hsnoc : readBlock lim ((run blockLine [] lines).1 ++ [b :: s]) =
          andThen (readBlock lim (run blockLine [] lines).1) fun blk => readLine lim blk (b :: s) := by
        unfold readBlock
        rw [run_snoc]
      rw [hsnoc, List.append_nil, List.append_assoc]
      rfl

/-- **A stream is read block by block.** -/
theorem readingWithTail_eq (lim : Limits) (s : Bytes) :
    readingWithTail lim s =
      (completeBlocks s).flatMap (blockReports lim) ++
        openReports lim (openBlock s) (openLine s) := by
  unfold readingWithTail textReports readText
  rw [run_readLine_blocks, run_readLine_block, List.append_assoc]
  rfl

theorem nil_not_mem_openBlock (s : Bytes) : [] ∉ openBlock s :=
  nil_not_mem_cutBlocks _

/-- The ids that a stream commits are those of its completed blocks. -/
theorem committedIds_readingWithTail (lim : Limits) (s : Bytes) :
    committedIds (readingWithTail lim s) = (completeBlocks s).filterMap (lastId lim) := by
  have hblocks : ∀ Ls : List (List Bytes), (∀ L ∈ Ls, [] ∉ L) →
      committedIds (Ls.flatMap (blockReports lim)) = Ls.filterMap (lastId lim) := by
    intro Ls hLs
    induction Ls with
    | nil => rfl
    | cons L Ls ih =>
      have hrest := ih fun M hM => hLs M (List.mem_cons_of_mem _ hM)
      rw [List.flatMap_cons, committedIds_append, hrest,
        committedIds_blockReports lim (hLs L List.mem_cons_self), List.filterMap_cons]
      cases lastId lim L <;> rfl
  rw [readingWithTail_eq, committedIds_append, hblocks _ fun L hL => nil_not_mem_completeBlocks hL,
    committedIds_openReports lim (nil_not_mem_openBlock s), List.append_nil]

/-- One more byte either leaves the completed blocks as they are, or ends the unfinished block with
an empty line. -/
theorem completeBlocks_snoc (s : Bytes) (b : UInt8) :
    completeBlocks (s ++ [b]) = completeBlocks s ∨
      (completeBlocks (s ++ [b]) = completeBlocks s ++ [openBlock s] ∧ openLine s = [] ∧
        openBlock (s ++ [b]) = [] ∧ openLine (s ++ [b]) = []) := by
  -- the lines stay as they are, or the unterminated line becomes one of them
  have hlines : linesOf (s ++ [b]) = linesOf s ∨
      (linesOf (s ++ [b]) = linesOf s ++ [openLine s] ∧ openLine (s ++ [b]) = []) := by
    unfold linesOf openLine
    by_cases hbom : s ++ [b] = sseBom
    · have hs : s = sseBom.take 2 := by
        have hlast := congrArg List.dropLast hbom
        rwa [List.dropLast_concat] at hlast
      left
      rw [hbom, hs]
      decide
    · rw [dropBom_snoc hbom]
      by_cases hcr : b = cr
      · rw [hcr, splitLines_snoc_cr]
        exact .inr ⟨rfl, rfl⟩
      · by_cases hlf : b = lf
        · rw [hlf]
          by_cases hlast : (dropBom s).getLast? = some cr
          · rw [splitLines_snoc_crlf [] hlast]
            exact .inl rfl
          · rw [splitLines_snoc_lf [] hlast]
            exact .inr ⟨rfl, rfl⟩
        · rw [splitLines_snoc_plain [] _ hcr hlf]
          exact .inl rfl
  rcases hlines with hsame | ⟨hmore, hline⟩
  · left
    unfold completeBlocks
    rw [hsame]
  · have hcut : cutBlocks (linesOf (s ++ [b])) =
        andThen (cutBlocks (linesOf s)) fun cur => blockLine cur (openLine s) := by
      unfold cutBlocks
      rw [hmore, run_snoc]
    unfold completeBlocks openBlock
    rw [hcut]
    -- an empty line ends the block, any other joins it
    cases hopen : openLine s with
    | nil => exact .inr ⟨rfl, rfl, rfl, hline⟩
    | cons c l => exact .inl (List.append_nil _)

/-- **What one byte adds.** Either it is the empty line of the unfinished block, whose end is all that
is reported, or the block stays unfinished and has reported what is new. -/
theorem reports_of_new {s : Bytes} {b : UInt8} {new : List Report}
    (hnew : readingWithTail lim (s ++ [b]) = readingWithTail lim s ++ new) :
    (completeBlocks (s ++ [b]) = completeBlocks s ++ [openBlock s] ∧ openLine s = [] ∧
        new = dispatchReports (readBlock lim (openBlock s)).1) ∨
      ∀ r ∈ new, r ∈ openReports lim (openBlock (s ++ [b])) (openLine (s ++ [b])) := by
  rw [readingWithTail_eq, readingWithTail_eq] at hnew
  rcases completeBlocks_snoc s b with hsame | ⟨hmore, hline, hblock, hline'⟩
  · right
    intro r hr
    rw [hsame, List.append_assoc] at hnew
    rw [List.append_cancel_left hnew]
    exact List.mem_append_right _ hr
  · left
    refine ⟨hmore, hline, ?_⟩
    rw [hmore, List.flatMap_append, List.flatMap_singleton, List.append_assoc, List.append_assoc,
      hline, hblock, hline'] at hnew
    have hrest := List.append_cancel_left hnew
    have hnone : openReports lim [] [] = [] := rfl
    have hopen : openReports lim (openBlock s) [] = (readBlock lim (openBlock s)).2 :=
      List.append_nil _
    rw [hnone, List.append_nil, hopen] at hrest
    exact (List.append_cancel_left hrest).symm

/-- An event that a byte reports is that of the block which the byte completes. -/
theorem event_of_new {s : Bytes} {b : UInt8} {new : List Report}
    (hnew : readingWithTail lim (s ++ [b]) = readingWithTail lim s ++ new)
    {type id : Option Bytes} {data : Bytes} (hmem : .event type id data ∈ new) :
    ∃ L, (completeBlocks (s ++ [b])).getLast? = some L ∧ .event type id data = blockEvent lim L := by
  rcases reports_of_new hnew with ⟨hmore, -, hdispatch⟩ | hopen
  · have htracks := readBlock_tracks lim (nil_not_mem_openBlock s)
    refine ⟨openBlock s, by rw [hmore, List.getLast?_concat], ?_⟩
    rw [hdispatch] at hmem
    rcases mem_dispatchReports hmem with ⟨v, -, heq⟩ | ⟨hd, heq⟩
    · exact Report.noConfusion heq
    · rw [htracks.id, htracks.type hd, htracks.values hd] at heq
      exact heq
  · rcases mem_openReports (nil_not_mem_openBlock _) (hopen _ hmem) with ⟨_, heq⟩ | ⟨_, heq⟩ <;>
      cases heq

/-- More bytes only add blocks. -/
theorem completeBlocks_mono (s t : Bytes) : completeBlocks s <+: completeBlocks (s ++ t) := by
  induction t using List.reverseRecOn with
  | nil =>
    exact (List.append_nil s).symm ▸ List.prefix_rfl
  | append_singleton t b ih =>
    rw [← List.append_assoc]
    rcases completeBlocks_snoc (s ++ t) b with hsame | ⟨hmore, -⟩
    · rw [hsame]
      exact ih
    · rw [hmore]
      exact ih.trans (List.prefix_append _ _)

/-- An error that a byte reports and that discards a block discards the unfinished one. -/
theorem error_of_new {s : Bytes} {b : UInt8} {new : List Report}
    (hnew : readingWithTail lim (s ++ [b]) = readingWithTail lim s ++ new) {err : ParseError}
    (hmem : .error err ∈ new) :
    .error err ∈ openReports lim (openBlock (s ++ [b])) (openLine (s ++ [b])) := by
  rcases reports_of_new hnew with ⟨-, -, hdispatch⟩ | hopen
  · -- the empty line reports an id and an event, no error
    rw [hdispatch] at hmem
    rcases mem_dispatchReports hmem with ⟨v, -, heq⟩ | ⟨-, heq⟩
    · exact Report.noConfusion heq
    · exact Report.noConfusion heq
  · exact hopen _ hmem

/-- More bytes only add reports. -/
theorem readingWithTail_mono (hlim : lim.Valid) (s t : Bytes) :
    readingWithTail lim s <+: readingWithTail lim (s ++ t) := by
  let buf : ParserBuffers :=
    ⟨List.replicate lim.data 0, List.replicate lim.id 0, List.replicate lim.event 0⟩
  have hinit := streamRep_init ⟨true, true, true, true⟩ buf lim hlim (List.length_replicate ..)
    (List.length_replicate ..) (List.length_replicate ..)
  obtain ⟨hrep, -⟩ := feed_spec hlim hinit s
  obtain ⟨-, new, -, hnew⟩ := feed_spec hlim hrep t
  exact ⟨new, hnew.symm⟩

/-- What the unfinished block has reported is the beginning of what it reports in the end. -/
theorem openReports_mono (hlim : lim.Valid) (s t : Bytes)
    (hL : (completeBlocks (s ++ t))[(completeBlocks s).length]? = some L) :
    openReports lim (openBlock s) (openLine s) <+: blockReports lim L := by
  -- byte by byte, up to the one that ends the block
  induction t generalizing s with
  | nil => simp at hL
  | cons b t ih =>
    have hsplit : s ++ b :: t = s ++ [b] ++ t := by simp
    have hgrow := readingWithTail_mono hlim s [b]
    rw [hsplit] at hL
    rcases completeBlocks_snoc s b with hsame | ⟨hmore, hline, -, -⟩
    · rw [readingWithTail_eq, readingWithTail_eq, hsame, List.prefix_append_right_inj] at hgrow
      rw [← hsame] at hL
      exact hgrow.trans (ih _ hL)
    · have hdone : completeBlocks (s ++ [b]) <+: completeBlocks (s ++ [b] ++ t) :=
        completeBlocks_mono _ _
      obtain ⟨later, hlater⟩ := hdone
      rw [← hlater, hmore, List.append_assoc, List.getElem?_append_right le_rfl, Nat.sub_self,
        List.singleton_append, List.getElem?_cons_zero] at hL
      have hopen : openReports lim (openBlock s) [] = (readBlock lim (openBlock s)).2 :=
        List.append_nil _
      rw [← Option.some.inj hL, hline, hopen]
      exact List.prefix_append _ _

/-! ## §6 The Ids That Can Be Committed -/

/-- The length of a committed id is the one reported, and the id fits its buffer. -/
theorem length_of_mem_reading {s v : Bytes} {len : Nat} (h : .id v len ∈ readingWithTail lim s) :
    len = v.length ∧ v.length < lim.id := by
  -- before its end a block reports no id
  have hopen : ∀ (L : List Bytes) (cur : Bytes), [] ∉ L → .id v len ∉ openReports lim L cur := by
    intro L cur hL hmem
    rcases mem_openReports hL hmem with ⟨err, heq⟩ | ⟨ms, heq⟩
    · exact Report.noConfusion heq
    · exact Report.noConfusion heq
  rw [readingWithTail_eq] at h
  rcases List.mem_append.mp h with h | h
  · obtain ⟨L, hL, hmem⟩ := List.mem_flatMap.mp h
    have hnil := nil_not_mem_completeBlocks hL
    rcases List.mem_append.mp hmem with hmem | hmem
    · exact absurd (List.mem_append_left _ hmem) (hopen L [] hnil)
    · rcases mem_dispatchReports hmem with ⟨u, hid, heq⟩ | ⟨-, heq⟩
      · obtain ⟨rfl, hlen⟩ := Report.id.inj heq
        rw [(readBlock_tracks lim hnil).id] at hid
        obtain ⟨-, hok⟩ := Option.filter_eq_some_iff.mp hid
        exact ⟨hlen, (idRejected_eq_false.mp (by simpa using hok)).2⟩
      · exact Report.noConfusion heq
  · exact absurd h (hopen _ _ (nil_not_mem_openBlock s))

/-- The lines of a completed block are lines of the stream. -/
theorem mem_linesOf {s : Bytes} (hL : L ∈ completeBlocks s) {line : Bytes} (hline : line ∈ L) :
    line ∈ linesOf s := by
  -- by induction on the lines, with the unfinished block beside the completed ones
  have hall : ∀ lines : List Bytes,
      (∀ l ∈ (cutBlocks lines).1, l ∈ lines) ∧ ∀ M ∈ (cutBlocks lines).2, ∀ l ∈ M, l ∈ lines := by
    intro lines
    induction lines using List.reverseRecOn with
    | nil => exact ⟨by simp [cutBlocks], by simp [cutBlocks]⟩
    | append_singleton lines line ih =>
      obtain ⟨hopen, hdone⟩ := ih
      unfold cutBlocks at hopen hdone ⊢
      rw [run_snoc, andThen_fst, andThen_snd]
      cases line with
      | nil =>
        refine ⟨by simp [blockLine], ?_⟩
        intro M hM l hl
        apply List.mem_append_left
        rcases List.mem_append.mp hM with hM | hM
        · exact hdone M hM l hl
        · rw [List.mem_singleton.mp hM] at hl
          exact hopen l hl
      | cons b s =>
        refine ⟨?_, ?_⟩
        · intro l hl
          rcases List.mem_append.mp hl with hl | hl
          · exact List.mem_append_left _ (hopen l hl)
          · exact List.mem_append_right _ hl
        · intro M hM l hl
          have hM' : M ∈ (run blockLine [] lines).2 := by simpa [blockLine] using hM
          exact List.mem_append_left _ (hdone M hM' l hl)
  exact (hall (linesOf s)).2 L hL line hline

/-- An id that a stream commits can be sent in a header: no CR, LF or NUL, and shorter than its
buffer. -/
theorem lastId_plain {s v : Bytes} (hL : L ∈ completeBlocks s) (hv : lastId lim L = some v) :
    cr ∉ v ∧ lf ∉ v ∧ 0 ∉ v ∧ v.length < lim.id := by
  obtain ⟨hlast, hok⟩ := Option.filter_eq_some_iff.mp hv
  have hmem : v ∈ fieldValues .id L := List.mem_of_getLast? hlast
  obtain ⟨line, hline, rfl⟩ := List.mem_map.mp hmem
  have hplain := plain_of_mem_splitLines [] ⟨by simp, by simp⟩
    (mem_linesOf hL (List.mem_of_mem_filter hline))
  obtain ⟨hnul, hlt⟩ := idRejected_eq_false.mp (by simpa using hok)
  exact ⟨fun h => hplain.1 (mem_of_mem_fieldValue h), fun h => hplain.2 (mem_of_mem_fieldValue h),
    hnul, hlt⟩

/-! ## §7 Blocks without Data -/

/-- Without a data line, only an event type that cannot be represented discards a block. -/
theorem discarded_of_no_data (lim : Limits) (hL : [] ∉ L) (hdata : dataValues L = []) :
    (readBlock lim L).1.discarded = true ↔
      ∃ v ∈ fieldValues .event L, (typeFault lim v).isSome = true := by
  induction L using List.reverseRecOn with
  | nil => simp [readBlock, fieldValues, Block.empty]
  | append_singleton L line ih =>
    rw [List.mem_append, List.mem_singleton, not_or] at hL
    rw [dataValues, fieldValues_snoc (by decide), List.append_eq_nil_iff] at hdata
    have hih := ih hL.1 hdata.1
    rw [readBlock_snoc (Ne.symm hL.2), fieldValues_snoc (by decide)]
    split
    · next hcomment =>
      have hname : fieldOf (fieldName line) ≠ .event := by
        rw [fieldName_comment hcomment]
        decide
      rw [if_neg hname, List.append_nil]
      exact hih
    · have hnodata : fieldOf (fieldName line) ≠ .data := fun heq => by simp [heq] at hdata
      -- of the fields only the type decides whether the block is lost
      rw [andThen_fst]
      cases hf : fieldOf (fieldName line) with
      | data => exact absurd hf hnodata
      | none => simpa [readField] using hih
      | id =>
        have hsame : (readField lim (readBlock lim L).1 .id (fieldValue line)).1.discarded =
            (readBlock lim L).1.discarded := by
          simp only [readField]
          split <;> rfl
        rw [hsame]
        simpa using hih
      | retry =>
        have hsame : (readField lim (readBlock lim L).1 .retry (fieldValue line)).1.discarded =
            (readBlock lim L).1.discarded := by
          simp only [readField]
          split <;> rfl
        rw [hsame]
        simpa using hih
      | event =>
        have hthis : (readField lim (readBlock lim L).1 .event (fieldValue line)).1.discarded =
            ((readBlock lim L).1.discarded || (typeFault lim (fieldValue line)).isSome) := by
          simp only [readField]
          cases hd : (readBlock lim L).1.discarded with
          | true => simp [hd]
          | false => cases hfault : typeFault lim (fieldValue line) <;> simp
        rw [hthis, Bool.or_eq_true, hih, if_pos rfl]
        simp only [List.mem_append, List.mem_singleton, or_and_right, exists_or, exists_eq_left]

end EventSource.Parser
