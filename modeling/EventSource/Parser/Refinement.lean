import EventSource.Parser.FieldSteps

/-!
# The Parser Refines the Line-Based Reading

The line machine against `EventSource.Parser.LineReading`: inside a line the parser stands for the
block before it and the bytes of the line so far (`LineRep`); each byte keeps this and reports what
it proves; each terminator turns the line into its effect. Over a whole stream the reports are
those of the reading, plus what an unterminated last line has reported so far.
-/

namespace EventSource.Parser

open EventSource.CMemory
open EventSource.Transducer

variable {cb : ParserCallbacks} {lim : Limits} {p : SseParser} {blk : Block} {cur : Bytes}

/-! ## §1 Lines in Progress -/

/-- A line whose bytes so far settle that it has no effect: a comment, or an unknown name. -/
def Skipped (cur : Bytes) : Prop :=
  cur.head? = some colon ∨ (colon ∉ cur ∧ 5 < cur.length) ∨
    (cur.head? ≠ some colon ∧ colon ∈ cur ∧ fieldOf (fieldName cur) = .none)

/-- The parser is inside a line that began with `cur`, in the block `blk`. -/
inductive LineRep (cb : ParserCallbacks) (lim : Limits) (p : SseParser) (blk : Block) :
    Bytes → Prop where
  | start (hs : p.state = .lineStart) (h : BlockRep cb lim p blk) :
      LineRep cb lim p blk []
  | name (cur : Bytes) (hne : cur ≠ []) (hcolon : colon ∉ cur) (hlen : cur.length ≤ 5)
      (hs : p.state = .fieldName) (hname : Holds p.name p.nameLen cur)
      (h : BlockRep cb lim p blk) : LineRep cb lim p blk cur
  | skip (cur : Bytes) (hskip : Skipped cur) (hs : p.state = .skipLine)
      (h : BlockRep cb lim p blk) : LineRep cb lim p blk cur
  | value (f : Field) (rest : Bytes) (hf : f ≠ .none) (hfield : p.field = f)
      (hs : p.state = if rest = [] then .afterColon else .value)
      (h : ValueRep cb lim p blk (stripSpace rest) f) :
      LineRep cb lim p blk (f.wireName ++ colon :: rest)

theorem Skipped.ne_nil (h : Skipped cur) : cur ≠ [] := by
  rintro rfl
  simp [Skipped] at h

/-- A skipped line stays skipped, and reports nothing more. -/
theorem Skipped.snoc (h : Skipped cur) (lim : Limits) (blk : Block) (b : UInt8) :
    Skipped (cur ++ [b]) ∧ earlyReports lim blk (cur ++ [b]) = earlyReports lim blk cur := by
  obtain ⟨c, s, rfl⟩ := List.exists_cons_of_ne_nil h.ne_nil
  rcases h with h | ⟨hno, hlen⟩ | ⟨hhead, hmem, hnone⟩
  · -- a comment
    have hc : c = colon := by simpa using h
    exact ⟨.inl (by simp [hc]), by simp [earlyReports, hc]⟩
  · -- six bytes without a colon: even if a colon comes now, no known name is that long
    have hc : c ≠ colon := fun hc => hno (by simp [hc])
    have hearly : earlyReports lim blk (c :: s) = [.error .unknownField] := by
      simp only [earlyReports, hc, if_false, hno, hlen, if_true]
    by_cases hb : b = colon
    · subst hb
      have hname : fieldName (c :: s ++ [colon]) = c :: s := fieldName_colon [] hno
      have hnone : fieldOf (c :: s) = .none := by
        by_contra hne
        have hle := length_wireName_le (fieldOf (c :: s))
        rw [← eq_wireName_of_fieldOf hne] at hle
        omega
      refine ⟨.inr (.inr ⟨by simpa using hc, by simp, by rw [hname, hnone]⟩), ?_⟩
      rw [hearly]
      show earlyReports lim blk (c :: (s ++ [colon])) = _
      have hmem : colon ∈ c :: (s ++ [colon]) := by simp
      simp only [earlyReports, hc, if_false, hmem, if_true]
      rw [← List.cons_append, hname, hnone]
      rfl
    · have hno' : colon ∉ c :: s ++ [b] := by
        rw [List.mem_append, List.mem_singleton]
        rintro (h | h)
        · exact hno h
        · exact hb h.symm
      have hlen' : 5 < (c :: s ++ [b]).length := by
        rw [List.length_append]
        omega
      refine ⟨.inr (.inl ⟨hno', hlen'⟩), ?_⟩
      rw [hearly]
      show earlyReports lim blk (c :: (s ++ [b])) = _
      simp only [List.cons_append] at hno' hlen'
      simp only [earlyReports, hc, if_false, hno', hlen', if_true]
  · -- an unknown name: the byte joins the value, and the name stays what it was
    have hc : c ≠ colon := by simpa using hhead
    obtain ⟨r, hsplit, hno⟩ := exists_split_colon hmem
    have hname : fieldName (c :: s ++ [b]) = fieldName (c :: s) := by
      rw [hsplit, List.append_assoc, List.cons_append, fieldName_colon _ hno,
        fieldName_colon _ hno]
    have hmem' : colon ∈ c :: (s ++ [b]) := by
      rw [← List.cons_append]
      exact List.mem_append_left _ hmem
    refine ⟨.inr (.inr ⟨by simpa using hc, hmem', by rw [hname, hnone]⟩), ?_⟩
    show earlyReports lim blk (c :: (s ++ [b])) = earlyReports lim blk (c :: s)
    simp only [earlyReports, hc, if_false, hmem, hmem', if_true]
    rw [← List.cons_append, hname, hnone]
    rfl

/-- A skipped line leaves the block alone and has already reported all it reports. -/
theorem Skipped.readLine (h : Skipped cur) :
    readLine lim blk cur = (blk, earlyReports lim blk cur) := by
  obtain ⟨c, s, rfl⟩ := List.exists_cons_of_ne_nil h.ne_nil
  rcases h with h | ⟨hno, hlen⟩ | ⟨hhead, hmem, hnone⟩
  · have hc : c = colon := by simpa using h
    simp [Parser.readLine, earlyReports, hc]
  · have hc : c ≠ colon := fun hc => hno (by simp [hc])
    have hnone : fieldOf (c :: s) = .none := by
      by_contra hne
      have hle := length_wireName_le (fieldOf (c :: s))
      rw [← eq_wireName_of_fieldOf hne] at hle
      omega
    simp only [Parser.readLine, earlyReports, hc, if_false, hno, hlen, if_true,
      fieldName_of_not_mem hno, hnone]
    rfl
  · have hc : c ≠ colon := by simpa using hhead
    simp only [Parser.readLine, earlyReports, hc, if_false, hmem, if_true, hnone]
    rfl

/-- A line with a known field reports what its value proves. -/
theorem earlyReports_value {f : Field} (hf : f ≠ .none) (rest : Bytes) :
    earlyReports lim blk (f.wireName ++ colon :: rest) =
      earlyField lim blk f (stripSpace rest) := by
  have hno := colon_not_mem_wireName f
  have hname := fieldName_colon rest hno
  have hvalue := fieldValue_colon rest hno
  obtain ⟨c, s, hcs⟩ := List.exists_cons_of_ne_nil (wireName_ne_nil hf)
  have hc : c ≠ colon := by
    rintro rfl
    rw [hcs] at hno
    exact hno (by simp)
  rw [hcs, List.cons_append] at hname hvalue ⊢
  have hmem : colon ∈ c :: (s ++ colon :: rest) := by simp
  simp only [earlyReports, hc, if_false, hmem, if_true, hname, hvalue]
  rw [← hcs, fieldOf_wireName f hf]

theorem readLine_value {f : Field} (hf : f ≠ .none) (rest : Bytes) :
    readLine lim blk (f.wireName ++ colon :: rest) =
      readField lim blk f (stripSpace rest) := by
  have hno := colon_not_mem_wireName f
  have hname := fieldName_colon rest hno
  have hvalue := fieldValue_colon rest hno
  obtain ⟨c, s, hcs⟩ := List.exists_cons_of_ne_nil (wireName_ne_nil hf)
  have hc : c ≠ colon := by
    rintro rfl
    rw [hcs] at hno
    exact hno (by simp)
  rw [hcs, List.cons_append] at hname hvalue ⊢
  simp only [Parser.readLine, hc, if_false, hname, hvalue]
  rw [← hcs, fieldOf_wireName f hf]

/-- A short line without a colon has reported nothing yet. -/
theorem earlyReports_name (hcolon : colon ∉ cur) (hlen : cur.length ≤ 5) :
    earlyReports lim blk cur = [] := by
  cases cur with
  | nil => rfl
  | cons c s =>
    have hc : c ≠ colon := fun hc => hcolon (by simp [hc])
    simp only [earlyReports, hc, if_false, hcolon]
    rw [if_neg (by omega)]

/-- At its end such a line is a field with an empty value. -/
theorem readLine_name (hne : cur ≠ []) (hcolon : colon ∉ cur) :
    readLine lim blk cur = readField lim blk (fieldOf cur) [] := by
  obtain ⟨c, s, rfl⟩ := List.exists_cons_of_ne_nil hne
  have hc : c ≠ colon := fun hc => hcolon (by simp [hc])
  simp only [Parser.readLine, hc, if_false, fieldName_of_not_mem hcolon,
    fieldValue_of_not_mem hcolon]

/-! ## §2 Names -/

/-- Only the buffers and the flags of the block matter to the block. -/
theorem BlockRep.cursor (h : BlockRep cb lim p blk) (s : LineState) (f : Field) (l : Bool)
    (n : Nat) :
    BlockRep cb lim { p with state := s, field := f, swallowLf := l, bomN := n } blk := by
  refine ⟨⟨h.fits.cb, h.fits.data, h.fits.id, h.fits.event, h.fits.name, h.fits.inBounds⟩,
    h.discarded, ?_, ?_, ⟨h.id.has, h.id.held⟩⟩
  · exact fun hd => ⟨(h.data hd).held, (h.data hd).lines⟩
  · exact fun hd => ⟨(h.type hd).held, (h.type hd).has, (h.type hd).noNul, (h.type hd).fits⟩

/-- The line state and the pending LF are no part of a value in progress. -/
theorem valueRep_cursor {f : Field} {v : Bytes} (h : ValueRep cb lim p blk v f) (s : LineState)
    (l : Bool) : ValueRep cb lim { p with state := s, swallowLf := l } blk v f := by
  cases f with
  | none => exact h.elim
  | data =>
    obtain ⟨hfits, hdisc, hdata, htype, hid⟩ := h
    refine ⟨⟨hfits.cb, hfits.data, hfits.id, hfits.event, hfits.name, hfits.inBounds⟩, hdisc,
      ?_, ?_, ⟨hid.has, hid.held⟩⟩
    · exact fun hd => ⟨(hdata hd).held, (hdata hd).lines⟩
    · exact fun hd => ⟨(htype hd).held, (htype hd).has, (htype hd).noNul, (htype hd).fits⟩
  | event =>
    obtain ⟨hfits, hdisc, hdata, hheld, hid⟩ := h
    refine ⟨⟨hfits.cb, hfits.data, hfits.id, hfits.event, hfits.name, hfits.inBounds⟩, hdisc,
      ?_, hheld, ⟨hid.has, hid.held⟩⟩
    exact fun hd => ⟨(hdata hd).held, (hdata hd).lines⟩
  | id =>
    obtain ⟨hfits, hdisc, hdata, htype, hinv, hheld⟩ := h
    refine ⟨⟨hfits.cb, hfits.data, hfits.id, hfits.event, hfits.name, hfits.inBounds⟩, hdisc,
      ?_, ?_, hinv, hheld⟩
    · exact fun hd => ⟨(hdata hd).held, (hdata hd).lines⟩
    · exact fun hd => ⟨(htype hd).held, (htype hd).has, (htype hd).noNul, (htype hd).fits⟩
  | retry => exact ⟨h.block.cursor s p.field l p.bomN, h.invalid, h.seen, h.acc⟩

theorem nameIs_eq (hname : Holds p.name p.nameLen cur) (f : Field) :
    nameIs p f = decide (cur = f.wireName) := by
  unfold nameIs
  rw [Bool.eq_iff_iff]
  simp only [Bool.and_eq_true, decide_eq_true_eq]
  constructor
  · rintro ⟨hlen, htake⟩
    rw [← hname.1, hlen, htake]
  · intro hcur
    have hlen : p.nameLen = f.wireName.length := by rw [hname.2, hcur]
    refine ⟨hlen, ?_⟩
    rw [← hlen, hname.1, hcur]

/-- The name collected is looked up. -/
theorem lookupField_eq (hname : Holds p.name p.nameLen cur) : lookupField p = fieldOf cur := by
  unfold lookupField fieldOf
  simp only [nameIs_eq hname, decide_eq_true_eq]

/-- No value is at fault before its first byte. -/
theorem earlyField_nil {f : Field} (hlim : lim.Valid) (h : BlockRep cb lim p blk)
    (hf : f ≠ .none) : earlyField lim blk f [] = [] := by
  have hid := hlim.id
  have hevent := hlim.event
  cases f with
  | none => exact absurd rfl hf
  | data =>
    simp only [earlyField]
    rw [if_neg]
    rintro ⟨hd, hover⟩
    have hle := h.size_le hd
    rw [List.length_nil] at hover
    omega
  | event =>
    have hok : typeFault lim [] = none := typeFault_eq_none.mpr ⟨by simp, by simp; omega⟩
    simp [earlyField, hok]
  | id =>
    have hok : idRejected lim [] = false := idRejected_eq_false.mpr ⟨by simp, by simp; omega⟩
    simp [earlyField, hok]
  | retry => rfl

theorem startValue_cursor (p : SseParser) :
    (startValue p).field = p.field ∧ SameCursor p (startValue p) := by
  unfold startValue
  split <;> exact ⟨rfl, rfl, rfl⟩

/-- A known name starts a value. -/
theorem resolveFieldName_known (hlim : lim.Valid) (h : BlockRep cb lim p blk)
    (hname : Holds p.name p.nameLen cur) (hf : fieldOf cur ≠ .none) :
    (resolveFieldName p).2 = [] ∧ (resolveFieldName p).1.state = .afterColon ∧
      (resolveFieldName p).1.field = fieldOf cur ∧
      (resolveFieldName p).1.swallowLf = p.swallowLf ∧
      ValueRep cb lim (resolveFieldName p).1 blk [] (fieldOf cur) := by
  have hlook : lookupField p = fieldOf cur := lookupField_eq hname
  have hne : ¬ ({ p with field := lookupField p } : SseParser).field = .none := by
    show lookupField p ≠ .none
    rwa [hlook]
  obtain ⟨hfield, hcursor⟩ := startValue_cursor { p with field := lookupField p }
  have hval := startValue_spec hlim (h.cursor p.state (lookupField p) p.swallowLf p.bomN) hne
  unfold resolveFieldName
  simp only
  rw [if_neg hne]
  refine ⟨rfl, rfl, hfield.trans hlook, hcursor.swallowLf, ?_⟩
  have hval' : ValueRep cb lim (startValue { p with field := lookupField p }) blk []
      (fieldOf cur) := hlook ▸ hval
  exact valueRep_cursor hval' .afterColon _

/-- An unknown name is reported and its line skipped. -/
theorem resolveFieldName_unknown (h : BlockRep cb lim p blk)
    (hname : Holds p.name p.nameLen cur) (hf : fieldOf cur = .none) :
    Reports cb (resolveFieldName p) [] [.error .unknownField] fun q =>
      q.state = .skipLine ∧ q.swallowLf = p.swallowLf ∧ BlockRep cb lim q blk := by
  have hlook : lookupField p = .none := (lookupField_eq hname).trans hf
  unfold resolveFieldName
  simp only
  rw [if_pos hlook]
  exact ⟨⟨rfl, rfl, h.cursor .skipLine (lookupField p) p.swallowLf p.bomN⟩,
    [.error .unknownField], emits_emitPerr h.fits.cb _, rfl⟩

/-! ## §3 One Byte of a Line -/

/-- The state after one more byte of the line begun with `cur`. -/
def Extends (cb : ParserCallbacks) (lim : Limits) (p : SseParser) (blk : Block) (line : Bytes)
    (q : SseParser) : Prop :=
  LineRep cb lim q blk line ∧ q.swallowLf = p.swallowLf

theorem nameByte_spec {b : UInt8} (hlim : lim.Valid) (h : BlockRep cb lim p blk)
    (hs : p.state = .fieldName) (hname : Holds p.name p.nameLen cur) (hcolon : colon ∉ cur)
    (hlen : cur.length ≤ 5) (hfirst : cur ≠ [] ∨ b ≠ colon) :
    Reports cb (nameByte p b) [] (earlyReports lim blk (cur ++ [b]))
      (Extends cb lim p blk (cur ++ [b])) := by
  unfold nameByte
  by_cases hb : b = colon
  · subst hb
    rw [if_pos rfl]
    by_cases hf : fieldOf cur = .none
    · -- the colon ends a name that no field has
      have hne : cur ≠ [] := hfirst.resolve_right (by simp)
      have hskip : Skipped (cur ++ [colon]) := by
        refine .inr (.inr ⟨?_, by simp, by rw [fieldName_colon [] hcolon, hf]⟩)
        obtain ⟨c, s, rfl⟩ := List.exists_cons_of_ne_nil hne
        simpa using fun hc : c = colon => hcolon (by simp [hc])
      have hearly : earlyReports lim blk (cur ++ [colon]) = [.error .unknownField] := by
        obtain ⟨c, s, rfl⟩ := List.exists_cons_of_ne_nil hne
        have hc : c ≠ colon := fun hc => hcolon (by simp [hc])
        have hn : fieldName (c :: (s ++ [colon])) = c :: s := fieldName_colon [] hcolon
        have hmem : colon ∈ c :: (s ++ [colon]) := by simp
        simp only [List.cons_append, earlyReports, hc, if_false, hmem, if_true, hn, hf]
        rfl
      rw [hearly]
      refine (resolveFieldName_unknown h hname hf).mono ?_
      rintro ⟨hstate, hswallow, hblk⟩
      exact ⟨.skip _ hskip hstate hblk, hswallow⟩
    · -- the colon ends a known name, and the value starts empty
      obtain ⟨hout, hstate, hfield, hswallow, hval⟩ := resolveFieldName_known hlim h hname hf
      have hcur : cur ++ [colon] = (fieldOf cur).wireName ++ colon :: [] := by
        rw [← eq_wireName_of_fieldOf hf]
      have hnone : earlyField lim blk (fieldOf cur) (stripSpace []) = [] :=
        earlyField_nil hlim h hf
      rw [hcur, earlyReports_value hf, hnone]
      refine ⟨⟨.value (fieldOf cur) [] hf hfield hstate hval, hswallow⟩, [], ?_, rfl⟩
      rw [hout]
      exact Emits.nil
  · rw [if_neg hb]
    -- six bytes fit the name buffer, so a name of at most five has room for one more
    have hroom : p.nameLen < p.name.length := by
      rw [h.fits.name, hname.2]
      omega
    have hheld := hname.push hroom b
    have hno : colon ∉ cur ++ [b] := by
      rw [List.mem_append, List.mem_singleton]
      rintro (hin | hin)
      · exact hcolon hin
      · exact hb hin.symm
    have hblk : ∀ s : LineState, BlockRep cb lim
        { storeName p p.nameLen b with nameLen := p.nameLen + 1, state := s } blk := by
      intro s
      refine ⟨⟨h.fits.cb, h.fits.data, h.fits.id, h.fits.event, ?_, ?_⟩,
        h.discarded, ?_, ?_, ⟨h.id.has, h.id.held⟩⟩
      · simp [storeName, h.fits.name]
      · simp [storeName, h.fits.inBounds, hroom]
      · exact fun hd => ⟨(h.data hd).held, (h.data hd).lines⟩
      · exact fun hd => ⟨(h.type hd).held, (h.type hd).has, (h.type hd).noNul, (h.type hd).fits⟩
    simp only [hroom, if_true]
    by_cases hlong : 5 < p.nameLen + 1
    · rw [if_pos hlong]
      have hlen' : 5 < (cur ++ [b]).length := by
        rw [List.length_append, ← hname.2]
        exact hlong
      have hearly : earlyReports lim blk (cur ++ [b]) = [.error .unknownField] := by
        have hskip : Skipped (cur ++ [b]) := .inr (.inl ⟨hno, hlen'⟩)
        obtain ⟨c, s, hcs⟩ := List.exists_cons_of_ne_nil hskip.ne_nil
        rw [hcs] at hno hlen' ⊢
        have hc : c ≠ colon := fun hc => hno (by simp [hc])
        simp only [earlyReports, hc, if_false, hno, hlen', if_true]
      rw [hearly]
      exact ⟨⟨.skip _ (.inr (.inl ⟨hno, hlen'⟩)) rfl (hblk .skipLine), rfl⟩,
        [.error .unknownField], emits_emitPerr h.fits.cb _, rfl⟩
    · rw [if_neg hlong]
      have hlen' : (cur ++ [b]).length ≤ 5 := by
        rw [List.length_append, ← hname.2]
        exact Nat.le_of_not_lt hlong
      rw [earlyReports_name hno hlen']
      exact Reports.quiet ⟨.name _ (by simp) hno hlen' hs hheld (hblk p.state), rfl⟩

theorem stripSpace_snoc {rest : Bytes} (hne : rest ≠ []) (b : UInt8) :
    stripSpace (rest ++ [b]) = stripSpace rest ++ [b] := by
  obtain ⟨c, s, rfl⟩ := List.exists_cons_of_ne_nil hne
  by_cases hc : c = space
  · subst hc
    rfl
  · have hstrip : ∀ t : Bytes, stripSpace (c :: t) = c :: t := by
      intro t
      unfold stripSpace
      split
      · next heq => exact absurd (List.cons.inj heq).1 hc
      · rfl
    rw [List.cons_append, hstrip, hstrip, List.cons_append]

/-- **One byte inside a line.** The line grows by the byte, and what the byte proves is reported. -/
theorem lineByte_plain {b : UInt8} (hlim : lim.Valid) (h : LineRep cb lim p blk cur)
    (hcr : b ≠ cr) (hlf : b ≠ lf) :
    Reports cb (lineByte p b) (earlyReports lim blk cur) (earlyReports lim blk (cur ++ [b]))
      (Extends cb lim p blk (cur ++ [b])) := by
  unfold lineByte
  rw [if_neg hcr, if_neg hlf]
  cases h with
  | start hs h =>
    rw [hs]
    simp only
    by_cases hb : b = colon
    · rw [if_pos hb]
      have hskip : Skipped ([] ++ [b]) := .inl (by simp [hb])
      have hearly : earlyReports lim blk ([] ++ [b]) = [] := by simp [earlyReports, hb]
      rw [hearly]
      exact Reports.quiet ⟨.skip _ hskip rfl (h.cursor .skipLine p.field p.swallowLf p.bomN), rfl⟩
    · rw [if_neg hb]
      have hblk : BlockRep cb lim { p with state := .fieldName, nameLen := 0 } blk := by
        refine ⟨⟨h.fits.cb, h.fits.data, h.fits.id, h.fits.event, h.fits.name,
          h.fits.inBounds⟩, h.discarded, ?_, ?_, ⟨h.id.has, h.id.held⟩⟩
        · exact fun hd => ⟨(h.data hd).held, (h.data hd).lines⟩
        · exact fun hd =>
            ⟨(h.type hd).held, (h.type hd).has, (h.type hd).noNul, (h.type hd).fits⟩
      exact nameByte_spec hlim hblk rfl (Holds.nil _) (by simp) (by simp) (.inr hb)
  | name cur hne hcolon hlen hs hname h =>
    rw [hs, earlyReports_name hcolon hlen]
    exact nameByte_spec hlim h hs hname hcolon hlen (.inl hne)
  | skip cur hskip hs h =>
    obtain ⟨hskip', hearly⟩ := hskip.snoc lim blk b
    rw [hs, hearly]
    exact Reports.quiet ⟨.skip _ hskip' hs h, rfl⟩
  | value f rest hf hfield hs h =>
    -- only the value grows; a first space is stripped and so adds nothing to it
    have hline : f.wireName ++ colon :: rest ++ [b] = f.wireName ++ colon :: (rest ++ [b]) := by
      simp
    have hstate : (if rest ++ [b] = [] then LineState.afterColon else .value) = .value := by
      simp
    rw [hline, earlyReports_value hf, earlyReports_value hf]
    by_cases hrest : rest = []
    · subst hrest
      rw [if_pos rfl] at hs
      rw [hs]
      simp only [List.nil_append]
      have hval := valueRep_cursor h .value p.swallowLf
      by_cases hb : b = space
      · subst hb
        rw [if_pos rfl]
        exact Reports.quiet ⟨.value f [space] hf hfield rfl hval, rfl⟩
      · rw [if_neg hb]
        have hstrip : stripSpace [b] = [b] := by
          unfold stripSpace
          split
          · next heq => exact absurd (List.cons.inj heq).1 hb
          · rfl
        rw [hstrip]
        refine (valueByte_spec hval hfield b).mono ?_
        rintro ⟨hv, hfield', hcursor⟩
        exact ⟨.value f [b] hf hfield' hcursor.state (by rwa [hstrip]), hcursor.swallowLf⟩
    · rw [if_neg hrest] at hs
      rw [hs, stripSpace_snoc hrest]
      refine (valueByte_spec h hfield b).mono ?_
      rintro ⟨hv, hfield', hcursor⟩
      refine ⟨.value f (rest ++ [b]) hf hfield' ?_ ?_, hcursor.swallowLf⟩
      · rw [hstate, hcursor.state, hs]
      · rwa [stripSpace_snoc hrest]

/-! ## §4 Line Ends -/

theorem dispatchBlock_swallowLf (p : SseParser) :
    (dispatchBlock p).1.swallowLf = p.swallowLf := by
  have hid : ∀ q : SseParser, (dispatchId q).1.swallowLf = q.swallowLf := by
    intro q
    unfold dispatchId
    split <;> rfl
  have hevent : ∀ q : SseParser, (dispatchEvent q).1.swallowLf = q.swallowLf := by
    intro q
    unfold dispatchEvent
    split
    · simp only
      split <;> rfl
    · rfl
  exact (hevent _).trans (hid p)

theorem finishLine_spec (hlim : lim.Valid) (h : LineRep cb lim p blk cur) :
    Reports cb (finishLine p) (earlyReports lim blk cur) (readLine lim blk cur).2 fun q =>
      BlockRep cb lim q (readLine lim blk cur).1 ∧ q.swallowLf = p.swallowLf := by
  unfold finishLine
  cases h with
  | start hs h =>
    rw [hs]
    obtain ⟨hblk, hout⟩ := dispatchBlock_spec hlim h
    refine ⟨⟨hblk, ?_⟩, _, hout, rfl⟩
    exact dispatchBlock_swallowLf p
  | name cur hne hcolon hlen hs hname h =>
    rw [hs, earlyReports_name hcolon hlen, readLine_name hne hcolon]
    simp only
    by_cases hf : fieldOf cur = .none
    · rw [hf]
      refine (resolveFieldName_unknown h hname hf).andThen ?_
      rintro ⟨hstate, hswallow, hblk⟩
      rw [if_neg (by simp [hstate])]
      exact Reports.quiet ⟨hblk, hswallow⟩
    · -- a name without a colon is a field with an empty value
      obtain ⟨hout, hstate, hfield, hswallow, hval⟩ := resolveFieldName_known hlim h hname hf
      have hquiet : Reports cb (resolveFieldName p) [] [] fun q => q.state = .afterColon :=
        ⟨hstate, [], by rw [hout]; exact Emits.nil, rfl⟩
      refine hquiet.andThen fun _ => ?_
      rw [if_pos hstate, ← earlyField_nil hlim h hf]
      refine (commitValue_spec hval hfield).mono ?_
      rintro ⟨hblk, hcursor⟩
      exact ⟨hblk, hcursor.swallowLf.trans hswallow⟩
  | skip cur hskip hs h =>
    rw [hs, hskip.readLine]
    exact Reports.quiet ⟨h, rfl⟩
  | value f rest hf hfield hs h =>
    rw [earlyReports_value hf, readLine_value hf]
    have hcommit : Reports cb (commitValue p) (earlyField lim blk f (stripSpace rest))
        (readField lim blk f (stripSpace rest)).2 fun q =>
          BlockRep cb lim q (readField lim blk f (stripSpace rest)).1 ∧
            q.swallowLf = p.swallowLf := by
      refine (commitValue_spec h hfield).mono ?_
      rintro ⟨hblk, hcursor⟩
      exact ⟨hblk, hcursor.swallowLf⟩
    by_cases hrest : rest = []
    · rw [if_pos hrest] at hs
      rw [hs]
      exact hcommit
    · rw [if_neg hrest] at hs
      rw [hs]
      exact hcommit

/-- **The end of a line.** The line takes its effect and the next one starts. -/
theorem lineEnd_spec (hlim : lim.Valid) (h : LineRep cb lim p blk cur) :
    Reports cb (lineEnd p) (earlyReports lim blk cur) (readLine lim blk cur).2
      (Extends cb lim p (readLine lim blk cur).1 []) := by
  refine (finishLine_spec hlim h).andThen ?_
  rintro ⟨hblk, hswallow⟩
  exact Reports.quiet ⟨.start rfl (hblk.cursor .lineStart _ _ _), hswallow⟩

end EventSource.Parser
