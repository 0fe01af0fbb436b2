import EventSource.Parser.Blocks
import EventSource.Parser.StreamRefinement

/-!
# Rejected Id Lines

What a rejected id line does besides its error. `commit_value` clears `has_id`, so a rejected line
also takes back the valid id that an earlier line of the same block has set. A rejected line is
compared with a comment in its place: the two streams differ in the error alone exactly when the
block has no such id left to report.
-/

namespace EventSource.Parser

open EventSource.CMemory
open EventSource.Transducer

variable {cb : ParserCallbacks} {lim : Limits} {blk : Block} {pre content post : Bytes}

/-! ## §1 A Line Inside a Stream -/

/-- A stream without an unterminated line. -/
def Complete (s : Bytes) : Prop :=
  (splitLines [] (dropBom s)).2 = []

instance (s : Bytes) : Decidable (Complete s) :=
  inferInstanceAs (Decidable ((splitLines [] (dropBom s)).2 = []))

/-- The lines that follow in a text that begins with a line terminator. -/
def linesAfter (post : Bytes) : List Bytes :=
  (splitLines [] post).1.tail

/-- `pre ++ content ++ post` is made of complete lines, and `content` is an id line of it that the
parser rejects. -/
structure RejectedIdLine (lim : Limits) (pre content post : Bytes) : Prop where
  before : Complete pre
  name : fieldName content = Field.id.wireName
  plain : cr ∉ content ∧ lf ∉ content
  rejected : idRejected lim (fieldValue content) = true
  terminated : post.head? = some cr ∨ post.head? = some lf
  whole : Complete (pre ++ content ++ post)

theorem splitLines_content {c : Bytes} (hplain : cr ∉ c ∧ lf ∉ c) (cur post : Bytes) :
    splitLines cur (c ++ post) = splitLines (cur ++ c) post := by
  induction c generalizing cur with
  | nil => simp
  | cons b c ih =>
    have hcr : b ≠ cr := fun heq => hplain.1 (by simp [heq])
    have hlf : b ≠ lf := fun heq => hplain.2 (by simp [heq])
    have hrest : cr ∉ c ∧ lf ∉ c :=
      ⟨fun hmem => hplain.1 (List.mem_cons_of_mem _ hmem),
        fun hmem => hplain.2 (List.mem_cons_of_mem _ hmem)⟩
    rw [List.cons_append, splitLines_plain _ _ b hcr hlf, ih hrest, List.append_assoc]
    rfl

theorem splitLines_terminated (hterm : post.head? = some cr ∨ post.head? = some lf)
    (cur : Bytes) :
    splitLines cur post = (cur :: linesAfter post, (splitLines [] post).2) := by
  cases post with
  | nil => simp at hterm
  | cons b s =>
    rw [List.head?_cons, Option.some.injEq, Option.some.injEq] at hterm
    rcases hterm with rfl | rfl
    · rw [linesAfter, splitLines_cr, splitLines_cr]
      rfl
    · rw [linesAfter, splitLines_lf, splitLines_lf]
      rfl

/-- After complete lines no byte-order mark can be finished. -/
theorem dropBom_complete (hpre : Complete pre) {x : Bytes} (hx : x.head? ≠ some 0xEF) :
    dropBom (pre ++ x) = dropBom pre ++ x := by
  by_cases hbom : sseBom <+: pre
  · obtain ⟨r, rfl⟩ := hbom
    rw [List.append_assoc, dropBom_bom, dropBom_bom]
  · have hbom' : ¬ sseBom <+: pre ++ x := by
      intro hpre'
      -- a mark across the border would leave its beginning as an unterminated line
      rcases List.prefix_or_prefix_of_prefix hpre' (List.prefix_append pre x) with h | h
      · exact hbom h
      · have htake := List.prefix_iff_eq_take.mp h
        have hlen : pre.length ≤ 2 := by
          have hle : pre.length ≤ 3 := h.length_le
          by_contra hgt
          have heq : pre.length = sseBom.length := by
            show pre.length = 3
            omega
          exact hbom (h.eq_of_length heq ▸ List.prefix_rfl)
        have hnil : pre = [] := by
          have hrest : (splitLines [] (dropBom pre)).2 = [] := hpre
          rw [htake, dropBom_sseBom _ hlen, splitLines_sseBom _ hlen, ← htake] at hrest
          exact hrest
        rw [hnil, List.nil_append] at hpre'
        obtain ⟨r, rfl⟩ := hpre'
        exact hx rfl
    rw [dropBom_eq_self hbom, dropBom_eq_self hbom']

/-- The lines of a stream around one of its lines. -/
theorem splitLines_around (hpre : Complete pre) {c : Bytes} (hne : c ≠ [])
    (hplain : cr ∉ c ∧ lf ∉ c) (hbom : c.head? ≠ some 0xEF)
    (hterm : post.head? = some cr ∨ post.head? = some lf) :
    splitLines [] (dropBom (pre ++ c ++ post)) =
      (linesOf pre ++ c :: linesAfter post, (splitLines [] post).2) := by
  obtain ⟨b, s, rfl⟩ := List.exists_cons_of_ne_nil hne
  have hlf : ((b :: s) ++ post).head? ≠ some lf := by
    intro heq
    have hb : b = lf := by simpa using heq
    exact hplain.2 (by simp [hb])
  have hbom' : ((b :: s) ++ post).head? ≠ some 0xEF := hbom
  have hrest : (splitLines [] (dropBom pre)).2 = [] := hpre
  rw [List.append_assoc, dropBom_complete hpre hbom', splitLines_append _ _ _ (.inr hlf), hrest,
    splitLines_content hplain, List.nil_append, splitLines_terminated hterm]
  rfl

theorem head?_of_fieldName {c : Bytes} (hname : fieldName c = Field.id.wireName) :
    c.head? = some 0x69 := by
  cases c with
  | nil => exact absurd hname (by decide)
  | cons b s =>
    have hwire : Field.id.wireName = 0x69 :: [0x64] := rfl
    rw [fieldName, List.takeWhile_cons, hwire] at hname
    split at hname
    · rw [List.head?_cons, (List.cons.inj hname).1]
    · exact absurd hname (by simp)

/-! ## §2 Readings that Differ in the Id -/

/-- The same block with another id. -/
def Block.withId (blk : Block) (x : Option Bytes) : Block :=
  ⟨blk.values, blk.type, x, blk.discarded⟩

/-- Only an id line looks at the id. -/
theorem readField_withId (x : Option Bytes) {f : Field} (hf : f ≠ .id) (v : Bytes) :
    readField lim (blk.withId x) f v =
      ((readField lim blk f v).1.withId x, (readField lim blk f v).2) := by
  have hdisc : (blk.withId x).discarded = blk.discarded := rfl
  cases f with
  | id => exact absurd rfl hf
  | none => rfl
  | retry =>
    simp only [readField]
    split <;> rfl
  | data =>
    -- the sizes do not count the id
    cases hd : blk.discarded with
    | true =>
      simp only [readField, hdisc.trans hd, hd, if_true]
    | false =>
      simp only [readField, hdisc.trans hd, hd, Bool.false_eq_true, if_false]
      by_cases hover : lim.data < blk.size + (v.length + 1)
      · have hover' : lim.data < (blk.withId x).size + (v.length + 1) := hover
        rw [if_pos hover, if_pos hover']
        rfl
      · have hover' : ¬ lim.data < (blk.withId x).size + (v.length + 1) := hover
        rw [if_neg hover, if_neg hover']
        simp only [Block.withId, hd]
  | event =>
    cases hd : blk.discarded with
    | true =>
      simp only [readField, hdisc.trans hd, hd, if_true]
    | false =>
      simp only [readField, hdisc.trans hd, hd, Bool.false_eq_true, if_false]
      cases typeFault lim v with
      | some err => rfl
      | none => simp only [Block.withId, hd]

/-- A line that is no id line does not look at the id. -/
theorem readLine_forget (x : Option Bytes) {line : Bytes} (hne : line ≠ [])
    (hno : fieldOf (fieldName line) ≠ .id) :
    readLine lim (blk.withId x) line =
      ((readLine lim blk line).1.withId x, (readLine lim blk line).2) := by
  rw [readLine_cons hne, readLine_cons hne]
  split
  · rfl
  · exact readField_withId x hno _

/-- An id line forgets the id before it. -/
theorem readLine_id (x : Option Bytes) {line : Bytes}
    (hid : fieldOf (fieldName line) = .id) :
    readLine lim (blk.withId x) line = readLine lim blk line := by
  have hne : line ≠ [] := by
    rintro rfl
    exact absurd hid (by decide)
  have hcomment : ¬ line.head? = some colon := by
    intro h
    rw [fieldName_comment h] at hid
    exact absurd hid (by decide)
  rw [readLine_cons hne, readLine_cons hne, if_neg hcomment, if_neg hcomment, hid]
  simp only [readField]
  split <;> rfl

theorem run_forget (lim : Limits) (blk : Block) (x : Option Bytes) {M : List Bytes} (hM : [] ∉ M)
    (hno : fieldValues .id M = []) :
    run (readLine lim) (blk.withId x) M =
      ((run (readLine lim) blk M).1.withId x, (run (readLine lim) blk M).2) := by
  induction M generalizing blk with
  | nil => rfl
  | cons line M ih =>
    rw [List.mem_cons, not_or] at hM
    have hsplit : fieldValues .id (line :: M) = fieldValues .id [line] ++ fieldValues .id M :=
      fieldValues_append .id [line] M
    rw [hsplit, List.append_eq_nil_iff] at hno
    have hline : fieldOf (fieldName line) ≠ .id := by
      intro hid
      have hvalues := fieldValues_snoc (f := .id) (by decide) [] line
      rw [List.nil_append, hno.1, if_pos hid] at hvalues
      exact absurd hvalues (by simp [fieldValues])
    rw [run_cons, run_cons, readLine_forget x (Ne.symm hM.1) hline]
    simp only [andThen, ih _ hM.2 hno.2]

theorem run_id (x : Option Bytes) {M : List Bytes} (hM : [] ∉ M)
    (hid : fieldValues .id M ≠ []) :
    run (readLine lim) (blk.withId x) M = run (readLine lim) blk M := by
  induction M generalizing blk with
  | nil => exact absurd rfl hid
  | cons line M ih =>
    rw [List.mem_cons, not_or] at hM
    by_cases hline : fieldOf (fieldName line) = .id
    · rw [run_cons, run_cons, readLine_id x hline]
    · have hsplit : fieldValues .id (line :: M) = fieldValues .id [line] ++ fieldValues .id M :=
        fieldValues_append .id [line] M
      have hvalues := fieldValues_snoc (f := .id) (by decide) [] line
      rw [List.nil_append, if_neg hline, List.append_nil] at hvalues
      rw [hsplit, hvalues] at hid
      rw [run_cons, run_cons, readLine_forget x (Ne.symm hM.1) hline]
      simp only [andThen]
      rw [ih hM.2 hid]

/-! ## §3 What Is Lost -/

/-- The block that the lines `L` make up delivers an event at its empty line. -/
def Delivers (lim : Limits) (L : List Bytes) : Prop :=
  (readBlock lim L).1.discarded = false ∧ dataValues L ≠ []

/-- The block around a rejected id line between `pre` and `post` has a valid id before that line
and no id line after it, it is completed, and a callback would show the id. -/
def ForgetsId (cb : ParserCallbacks) (lim : Limits) (pre post : Bytes) : Prop :=
  lastId lim (cutBlocks (linesOf pre)).1 ≠ none ∧
    fieldValues .id ((linesAfter post).takeWhile (· ≠ [])) = [] ∧
    [] ∈ linesAfter post ∧
    (cb.onId = true ∨ cb.onEvent = true ∧
      Delivers lim ((cutBlocks (linesOf pre)).1 ++ (linesAfter post).takeWhile (· ≠ [])))

/-- `A` is `B` with one rejection reported in addition. -/
def DropsOnlyError (cb : ParserCallbacks) (A B : List Report) : Prop :=
  ∃ A₁ A₂, A = A₁ ++ (if cb.onError then [Report.error .idInvalid] else []) ++ A₂ ∧ B = A₁ ++ A₂

/-- What a fresh parser reports on a stream. -/
def reportsOn (cb : ParserCallbacks) (buf : ParserBuffers) (s : Bytes) : List Report :=
  (sseParserFeed (sseParserInit cb buf) s).2.map Callback.report

theorem reportsOn_eq (cb : ParserCallbacks) {buf : ParserBuffers} (hlim : buf.limits.Valid)
    {s : Bytes} (hs : Complete s) :
    reportsOn cb buf s = (reading buf.limits s).2.filter cb.accepts := by
  have hrest : (splitLines [] (dropBom s)).2 = [] := hs
  have hnone : ∀ b : Block, earlyReports buf.limits b [] = [] := fun _ => rfl
  have htail : readingWithTail buf.limits s = (reading buf.limits s).2 := by
    unfold readingWithTail textReports
    rw [hrest, hnone, List.append_nil]
    rfl
  rw [← htail]
  exact (feed_init cb buf hlim s).1.reports

/-- The block before the rejected line. -/
theorem id_before (lim : Limits) (pre : Bytes) :
    (reading lim pre).1.id = lastId lim (cutBlocks (linesOf pre)).1 := by
  have hblk : (reading lim pre).1 = (readBlock lim (cutBlocks (linesOf pre)).1).1 :=
    run_readLine_block lim (linesOf pre)
  rw [hblk]
  exact (readBlock_tracks lim (nil_not_mem_cutBlocks _)).id

/-- Both streams read the lines before and after the one line alike. -/
theorem reading_around (lim : Limits) (hpre : Complete pre) {c : Bytes} (hne : c ≠ [])
    (hplain : cr ∉ c ∧ lf ∉ c) (hbom : c.head? ≠ some 0xEF)
    (hterm : post.head? = some cr ∨ post.head? = some lf) :
    (reading lim (pre ++ c ++ post)).2 =
      (reading lim pre).2 ++ ((readLine lim (reading lim pre).1 c).2 ++
        (run (readLine lim) (readLine lim (reading lim pre).1 c).1 (linesAfter post)).2) := by
  unfold reading readText
  rw [splitLines_around hpre hne hplain hbom hterm, run_append]
  rfl

theorem nil_not_mem_takeWhile (B : List Bytes) : [] ∉ B.takeWhile (· ≠ []) := by
  intro hmem
  simpa using List.mem_takeWhile_imp hmem

/-- With an id line or without an end of the block, the lines that follow report the same. -/
theorem run_after_same (lim : Limits) (blk : Block) {B : List Bytes}
    (h : fieldValues .id (B.takeWhile (· ≠ [])) ≠ [] ∨ [] ∉ B) :
    (run (readLine lim) (blk.withId none) B).2 = (run (readLine lim) blk B).2 := by
  have hsplit : B.takeWhile (· ≠ []) ++ B.dropWhile (· ≠ []) = B := List.takeWhile_append_dropWhile
  by_cases hid : fieldValues .id (B.takeWhile (· ≠ [])) = []
  · have hB : [] ∉ B := h.resolve_left fun hno => hno hid
    have hall : B.takeWhile (· ≠ []) = B := by
      rw [List.takeWhile_eq_self_iff]
      intro line hline
      simpa using fun hnil : line = [] => hB (hnil ▸ hline)
    rw [hall] at hid
    rw [run_forget lim blk none hB hid]
  · rw [← hsplit, run_append, run_append, run_id none (nil_not_mem_takeWhile B) hid]

/-- Otherwise they differ in what the end of the block reports. -/
theorem run_after_dispatch (lim : Limits) (blk : Block) {B : List Bytes}
    (hid : fieldValues .id (B.takeWhile (· ≠ [])) = []) (hend : [] ∈ B) :
    ∃ X e Y, e = (run (readLine lim) blk (B.takeWhile (· ≠ []))).1 ∧ e.id = blk.id ∧
      (run (readLine lim) (blk.withId none) B).2 = X ++ (eventReports (e.withId none) ++ Y) ∧
      (run (readLine lim) blk B).2 = X ++ (dispatchReports e ++ Y) := by
  have hsplit : B.takeWhile (· ≠ []) ++ B.dropWhile (· ≠ []) = B := List.takeWhile_append_dropWhile
  have hM := nil_not_mem_takeWhile B
  have hforget := fun x => run_forget lim blk x hM hid
  -- the lines up to the empty one, and the rest
  obtain ⟨rest, hrest⟩ : ∃ rest, B.dropWhile (· ≠ []) = [] :: rest := by
    cases hdrop : B.dropWhile (· ≠ []) with
    | nil =>
      rw [hdrop, List.append_nil] at hsplit
      rw [hsplit] at hM
      exact absurd hend hM
    | cons line rest =>
      have hhead := List.head?_dropWhile_not (· ≠ []) B
      rw [hdrop] at hhead
      have hline : line = [] := by simpa using hhead
      exact ⟨rest, by rw [hline]⟩
  -- the run stops at the empty line, whose reports are those of the block
  have hrun : ∀ b : Block, (run (readLine lim) b B).2 =
      (run (readLine lim) b (B.takeWhile (· ≠ []))).2 ++
        (dispatchReports (run (readLine lim) b (B.takeWhile (· ≠ []))).1 ++
          (run (readLine lim) .empty rest).2) := by
    intro b
    conv_lhs => rw [← hsplit, hrest]
    rw [run_append]
    rfl
  refine ⟨(run (readLine lim) blk (B.takeWhile (· ≠ []))).2, _,
    (run (readLine lim) .empty rest).2, rfl, ?_, ?_, hrun blk⟩
  · -- running with the id it has leaves the id
    have hself : blk.withId blk.id = blk := rfl
    have hkeep := congrArg (fun r => r.1.id) (hforget blk.id)
    rw [hself] at hkeep
    exact hkeep
  · rw [hrun, hforget none]
    rfl

/-! ## §4 Exactly When Nothing Is Lost -/

theorem eventReports_eq_nil (blk : Block) :
    eventReports blk = [] ↔ blk.discarded = true ∨ blk.values = [] := by
  unfold eventReports
  cases blk.discarded <;> by_cases h : blk.values = [] <;> simp [h]

theorem delivers_iff {L : List Bytes} (hL : [] ∉ L) :
    Delivers lim L ↔ eventReports (readBlock lim L).1 ≠ [] := by
  have htracks := readBlock_tracks lim hL
  have hevent := eventReports_eq_nil (readBlock lim L).1
  unfold Delivers
  rw [ne_eq, ne_eq, hevent, not_or]
  constructor
  · rintro ⟨hd, hv⟩
    exact ⟨by simp [hd], by rwa [htracks.values hd]⟩
  · rintro ⟨hd, hv⟩
    have hd' : (readBlock lim L).1.discarded = false := by simpa using hd
    exact ⟨hd', by rwa [htracks.values hd'] at hv⟩

/-- The block as it stands at its empty line. -/
theorem block_at_end (lim : Limits) (pre : Bytes) (M : List Bytes) :
    (run (readLine lim) (reading lim pre).1 M).1 =
      (readBlock lim ((cutBlocks (linesOf pre)).1 ++ M)).1 := by
  have hblk : (reading lim pre).1 = (readBlock lim (cutBlocks (linesOf pre)).1).1 :=
    run_readLine_block lim (linesOf pre)
  rw [hblk]
  unfold readBlock
  rw [run_append]
  rfl

/-- What tells the two runs apart: id reports, or events without an id if ids are not reported. -/
def showsLoss (cb : ParserCallbacks) : Report → Bool
  | .id _ _ => cb.onId
  | .event _ none _ => !cb.onId && cb.onEvent
  | _ => false

/-- A block that loses its id reports differently. -/
theorem filter_dispatch_ne {v : Bytes} (hid : blk.id = some v)
    (hseen : cb.onId = true ∨ cb.onEvent = true ∧ eventReports blk ≠ []) :
    ((eventReports (blk.withId none)).filter cb.accepts).countP (showsLoss cb) ≠
      ((dispatchReports blk).filter cb.accepts).countP (showsLoss cb) := by
  have hevent : ∀ b : Block, eventReports b = [] ∨ eventReports b =
      [.event (if b.type = [] then none else some b.type) b.id ([lf].intercalate b.values)] := by
    intro b
    unfold eventReports
    split <;> simp
  cases honId : cb.onId with
  | true =>
    -- `on_id` shows the id once, and only with the id there
    have hzero : ∀ b : Block, ((eventReports b).filter cb.accepts).countP (showsLoss cb) = 0 := by
      intro b
      rcases hevent b with h | h
      · simp [h]
      · rw [h, List.countP_eq_zero]
        intro r hr
        rw [List.mem_singleton.mp (List.mem_filter.mp hr).1]
        cases hb : b.id <;> simp [showsLoss, honId]
    rw [dispatchReports, List.filter_append, List.countP_append, hzero, hzero, idReports, hid]
    simp [ParserCallbacks.accepts, showsLoss, honId]
  | false =>
    -- without `on_id` the event itself shows it
    have hboth : cb.onEvent = true ∧ eventReports blk ≠ [] := by simpa [honId] using hseen
    obtain ⟨honEvent, hsome⟩ := hboth
    have hsome' : eventReports (blk.withId none) ≠ [] := by
      rw [ne_eq, eventReports_eq_nil] at hsome ⊢
      exact hsome
    rw [(hevent _).resolve_left hsome', dispatchReports, (hevent _).resolve_left hsome, idReports,
      hid]
    simp [Block.withId, ParserCallbacks.accepts, showsLoss, honId, honEvent]

/-- A block that has no id to lose, or whose id no callback shows, reports the same. -/
theorem filter_dispatch_eq
    (h : blk.id = none ∨ ¬ (cb.onId = true ∨ cb.onEvent = true ∧ eventReports blk ≠ [])) :
    (eventReports (blk.withId none)).filter cb.accepts =
      (dispatchReports blk).filter cb.accepts := by
  rcases h with hid | hunseen
  · have hself : blk.withId none = blk := by rw [← hid]; rfl
    rw [hself, dispatchReports, idReports, hid]
    rfl
  · rw [not_or, not_and_or, not_not] at hunseen
    obtain ⟨honId, hevent⟩ := hunseen
    have hids : (idReports blk).filter cb.accepts = [] := by
      unfold idReports
      cases blk.id <;> simp [ParserCallbacks.accepts, honId]
    rw [dispatchReports, List.filter_append, hids, List.nil_append]
    rcases hevent with hno | hno
    · -- no callback shows events
      have hnone : ∀ b : Block, (eventReports b).filter cb.accepts = [] := by
        intro b
        unfold eventReports
        split <;> simp [ParserCallbacks.accepts, hno]
      rw [hnone, hnone]
    · -- there is no event to show
      have hno' : eventReports (blk.withId none) = [] := by
        rw [eventReports_eq_nil] at hno ⊢
        exact hno
      rw [hno, hno']

/-- **When a rejected id line has no effect but its error.** Replacing it by a comment takes its
error out of the reports and changes nothing else, exactly when its block does not forget an id. -/
theorem rejectedId_dropped_iff (cb : ParserCallbacks) (buf : ParserBuffers)
    (hlim : buf.limits.Valid) (pre content post : Bytes)
    (h : RejectedIdLine buf.limits pre content post) :
    DropsOnlyError cb (reportsOn cb buf (pre ++ content ++ post))
        (reportsOn cb buf (pre ++ [colon] ++ post)) ↔
      ¬ ForgetsId cb buf.limits pre post := by
  have hhead := head?_of_fieldName h.name
  have hne : content ≠ [] := by
    rintro rfl
    exact absurd hhead (by simp)
  have hbom : content.head? ≠ some 0xEF := by
    rw [hhead]
    decide
  -- both streams, as readings around the line
  have hsplit := splitLines_around h.before hne h.plain hbom h.terminated
  have hsplit' : splitLines [] (dropBom (pre ++ [colon] ++ post)) =
      (linesOf pre ++ [colon] :: linesAfter post, (splitLines [] post).2) :=
    splitLines_around h.before (by simp) (by decide) (by decide) h.terminated
  have hwhole : Complete (pre ++ [colon] ++ post) := by
    have hrest := h.whole
    unfold Complete at hrest ⊢
    rw [hsplit] at hrest
    rw [hsplit']
    exact hrest
  have hread := reading_around buf.limits h.before hne h.plain hbom h.terminated
  have hread' : (reading buf.limits (pre ++ [colon] ++ post)).2 =
      (reading buf.limits pre).2 ++
        ((readLine buf.limits (reading buf.limits pre).1 [colon]).2 ++
          (run (readLine buf.limits) (readLine buf.limits (reading buf.limits pre).1 [colon]).1
            (linesAfter post)).2) :=
    reading_around buf.limits h.before (by simp) (by decide) (by decide) h.terminated
  have hline : readLine buf.limits (reading buf.limits pre).1 content =
      ((reading buf.limits pre).1.withId none, [.error .idInvalid]) := by
    have hcomment : ¬ content.head? = some colon := by
      rw [hhead]
      decide
    have hfield : fieldOf (fieldName content) = .id := by
      rw [h.name]
      rfl
    rw [readLine_cons hne, if_neg hcomment, hfield]
    simp only [readField, h.rejected, if_true]
    rfl
  have hcomment : readLine buf.limits (reading buf.limits pre).1 [colon] =
      ((reading buf.limits pre).1, []) := rfl
  rw [hline] at hread
  rw [hcomment] at hread'
  have herr : ([.error .idInvalid] : List Report).filter cb.accepts =
      if cb.onError then [Report.error .idInvalid] else [] := by
    cases he : cb.onError <;> simp [ParserCallbacks.accepts, he]
  rw [reportsOn_eq cb hlim h.whole, reportsOn_eq cb hlim hwhole, hread, hread', List.filter_append,
    List.filter_append, List.filter_append, herr, List.filter_append, List.filter_nil,
    List.nil_append]
  -- the lines of the block around the rejected one
  have hL : [] ∉ (cutBlocks (linesOf pre)).1 ++ (linesAfter post).takeWhile (· ≠ []) := by
    rw [List.mem_append]
    rintro (hmem | hmem)
    · exact nil_not_mem_cutBlocks _ hmem
    · exact nil_not_mem_takeWhile _ hmem
  constructor
  · rintro ⟨A₁, A₂, hA, hB⟩ ⟨hlast, hnoId, hend, hseen⟩
    obtain ⟨v, hv⟩ := Option.ne_none_iff_exists'.mp hlast
    -- the error is the only difference, so both runs show the loss equally often
    have hcountA := congrArg (List.countP (showsLoss cb)) hA
    have hcountB := congrArg (List.countP (showsLoss cb)) hB
    have hquiet : (if cb.onError then [Report.error .idInvalid] else []).countP (showsLoss cb) = 0 := by
      cases cb.onError <;> rfl
    simp only [List.countP_append, hquiet] at hcountA hcountB
    obtain ⟨X, e, Y, he, heid, hA', hB'⟩ :=
      run_after_dispatch buf.limits (reading buf.limits pre).1 hnoId hend
    have hseen' : cb.onId = true ∨ cb.onEvent = true ∧ eventReports e ≠ [] := by
      rw [he, block_at_end]
      exact hseen.imp_right fun hs => ⟨hs.1, (delivers_iff hL).mp hs.2⟩
    have hdiff := filter_dispatch_ne (heid.trans ((id_before _ pre).trans hv)) hseen'
    simp only [hA', hB', List.filter_append, List.countP_append] at hcountA hcountB
    omega
  · intro hkeep
    refine ⟨(reading buf.limits pre).2.filter cb.accepts,
      (run (readLine buf.limits) (reading buf.limits pre).1 (linesAfter post)).2.filter cb.accepts,
      ?_, rfl⟩
    rw [List.append_assoc]
    congr 2
    -- the id is forgotten only if no later id line and an empty line follow
    by_cases hcase : fieldValues .id ((linesAfter post).takeWhile (· ≠ [])) ≠ [] ∨
        [] ∉ linesAfter post
    · rw [run_after_same _ _ hcase]
    · rw [not_or, not_not, not_not] at hcase
      obtain ⟨hnoId, hend⟩ := hcase
      obtain ⟨X, e, Y, he, heid, hA, hB⟩ :=
        run_after_dispatch buf.limits (reading buf.limits pre).1 hnoId hend
      rw [hA, hB]
      simp only [List.filter_append]
      rw [filter_dispatch_eq]
      by_contra hbad
      rw [not_or, not_not] at hbad
      obtain ⟨hsome, hseen⟩ := hbad
      refine hkeep ⟨?_, hnoId, hend, ?_⟩
      · rw [← id_before buf.limits pre, ← heid]
        exact hsome
      · rw [he, block_at_end] at hseen
        exact hseen.imp_right fun hs => ⟨hs.1, (delivers_iff hL).mpr hs.2⟩

/-- A rejected id line before a valid one. -/
theorem rejectedId_dropped_iff_later :
    DropsOnlyError ⟨true, true, true, true⟩
      (reportsOn ⟨true, true, true, true⟩ ⟨[0, 0], [0, 0], [0, 0]⟩
        ([] ++ (ascii ['i', 'd', ':'] ++ [0]) ++
          (lf :: ascii ['i', 'd', ':', '1'] ++ [lf, lf])))
      (reportsOn ⟨true, true, true, true⟩ ⟨[0, 0], [0, 0], [0, 0]⟩
        ([] ++ [colon] ++ (lf :: ascii ['i', 'd', ':', '1'] ++ [lf, lf]))) := by
  refine (rejectedId_dropped_iff ⟨true, true, true, true⟩ ⟨[0, 0], [0, 0], [0, 0]⟩
    ⟨by decide, by decide, by decide⟩ [] (ascii ['i', 'd', ':'] ++ [0])
    (lf :: ascii ['i', 'd', ':', '1'] ++ [lf, lf])
    ⟨rfl, by decide, by decide, by decide, by decide, by decide⟩).mpr ?_
  rintro ⟨-, hnoId, -⟩
  exact absurd hnoId (by decide)

/-- A rejected id line after a valid one takes the valid id back. -/
theorem rejectedId_not_dropped :
    ¬ ∀ (cb : ParserCallbacks) (buf : ParserBuffers) (pre content post : Bytes),
      buf.limits.Valid → RejectedIdLine buf.limits pre content post →
      DropsOnlyError cb (reportsOn cb buf (pre ++ content ++ post))
        (reportsOn cb buf (pre ++ [colon] ++ post)) := by
  intro h
  obtain ⟨A₁, A₂, hA, hB⟩ := h ⟨true, true, true, true⟩ ⟨[0, 0], [0, 0], [0, 0]⟩
    (ascii ['i', 'd', ':', '1'] ++ [lf]) (ascii ['i', 'd', ':'] ++ [0]) [lf, lf]
    ⟨by decide, by decide, by decide⟩
    ⟨by decide, by decide, by decide, by decide, by decide, by decide⟩
  -- one report on either side, though one of two was to disappear
  have hlenA := congrArg List.length hA
  have hlenB := congrArg List.length hB
  have hone : (reportsOn ⟨true, true, true, true⟩ ⟨[0, 0], [0, 0], [0, 0]⟩
      (ascii ['i', 'd', ':', '1'] ++ [lf] ++ (ascii ['i', 'd', ':'] ++ [0]) ++ [lf, lf])).length =
        1 := by decide
  have hone' : (reportsOn ⟨true, true, true, true⟩ ⟨[0, 0], [0, 0], [0, 0]⟩
      (ascii ['i', 'd', ':', '1'] ++ [lf] ++ [colon] ++ [lf, lf])).length = 1 := by decide
  rw [hone, List.length_append, List.length_append] at hlenA
  rw [hone', List.length_append] at hlenB
  simp only [if_true, List.length_singleton] at hlenA
  omega

end EventSource.Parser
