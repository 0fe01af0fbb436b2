import EventSource.Parser.Representation

/-!
# Field Values, Byte by Byte

What `value_byte` and `commit_value` do to a value in progress: one byte extends the value and
reports exactly the fault that this byte proves; the end of the line turns the value into its
effect on the block.
-/

namespace EventSource.Parser

open EventSource.CMemory
open EventSource.Transducer

variable {cb : ParserCallbacks} {lim : Limits} {p : SseParser} {blk : Block} {v : Bytes}

/-- The fields that steer the line machine are untouched. -/
structure SameCursor (p q : SseParser) : Prop where
  state : q.state = p.state
  swallowLf : q.swallowLf = p.swallowLf

theorem SameCursor.refl (p : SseParser) : SameCursor p p := ⟨rfl, rfl⟩

theorem SameCursor.trans {p q r : SseParser} (h₁ : SameCursor p q) (h₂ : SameCursor q r) :
    SameCursor p r :=
  ⟨h₂.state.trans h₁.state, h₂.swallowLf.trans h₁.swallowLf⟩

/-! ## §1 Faults -/

theorem typeFault_eq_none : typeFault lim v = none ↔ 0 ∉ v ∧ v.length < lim.event := by
  unfold typeFault
  constructor
  · intro h
    split_ifs at h with h0 hlen
    have hlt : v.length < lim.event := Nat.lt_of_not_le hlen
    rw [List.take_of_length_le (Nat.le_of_lt hlt)] at h0
    exact ⟨h0, hlt⟩
  · rintro ⟨h0, hlt⟩
    rw [List.take_of_length_le (Nat.le_of_lt hlt), if_neg h0, if_neg (Nat.not_le_of_lt hlt)]

/-- A fault found stays the fault of the longer value. -/
theorem typeFault_append {err : ParseError} (h : typeFault lim v = some err) (w : Bytes) :
    typeFault lim (v ++ w) = some err := by
  unfold typeFault at h ⊢
  by_cases h0 : 0 ∈ v.take lim.event
  · have h0' : 0 ∈ (v ++ w).take lim.event := by
      rw [List.take_append]
      exact List.mem_append_left _ h0
    rw [if_pos h0] at h
    rw [if_pos h0', h]
  · rw [if_neg h0] at h
    split_ifs at h with hlen
    have htake : (v ++ w).take lim.event = v.take lim.event :=
      List.take_append_of_le_length hlen
    rw [htake, if_neg h0, if_pos (by rw [List.length_append]; omega), h]

/-- The next byte of a sound type decides whether the longer one is sound. -/
theorem typeFault_snoc (h : typeFault lim v = none) (b : UInt8) :
    typeFault lim (v ++ [b]) =
      if b = 0 then some .eventTypeInvalid
      else if lim.event ≤ v.length + 1 then some .eventTypeTooLarge
      else none := by
  obtain ⟨h0, hlt⟩ := typeFault_eq_none.mp h
  have htake : (v ++ [b]).take lim.event = v ++ [b] :=
    List.take_of_length_le (by rw [List.length_append, List.length_singleton]; omega)
  have hmem : 0 ∈ v ++ [b] ↔ b = 0 := by
    simp [h0, eq_comm]
  unfold typeFault
  simp only [htake, hmem, List.length_append, List.length_singleton]

theorem idRejected_snoc (lim : Limits) (v : Bytes) (b : UInt8) :
    idRejected lim (v ++ [b]) = (idRejected lim v || decide (b = 0 ∨ lim.id ≤ v.length + 1)) := by
  unfold idRejected
  rw [Bool.eq_iff_iff]
  simp only [List.mem_append, List.mem_singleton, List.length_append, List.length_singleton,
    Bool.or_eq_true, decide_eq_true_eq, eq_comm (a := (0 : UInt8)) (b := b)]
  constructor
  · rintro ((h | h) | h)
    · exact .inl (.inl h)
    · exact .inr (.inl h)
    · exact .inr (.inr h)
  · rintro ((h | h) | (h | h))
    · exact .inl (.inl h)
    · exact .inr (by omega)
    · exact .inl (.inr h)
    · exact .inr h

theorem idRejected_eq_false : idRejected lim v = false ↔ 0 ∉ v ∧ v.length < lim.id := by
  simp [idRejected]

theorem decimal_snoc (v : Bytes) (b : UInt8) :
    decimal (v ++ [b]) = decimal v * 10 + (b.toNat - 0x30) := by
  simp [decimal]

/-- The accumulator saturates at the largest 32-bit number. -/
theorem toNat_retryDigit {acc : UInt32} {n : Nat} {b : UInt8} (hb : isDigit b)
    (h : acc.toNat = min n (2 ^ 32 - 1)) :
    (retryDigit acc b).toNat = min (n * 10 + (b.toNat - 0x30)) (2 ^ 32 - 1) := by
  simp only [isDigit, Bool.and_eq_true, decide_eq_true_eq, UInt8.le_iff_toNat_le] at hb
  have hlo : 0x30 ≤ b.toNat := hb.1
  have hhi : b.toNat ≤ 0x39 := hb.2
  have hd : (b - 0x30).toUInt32.toNat = b.toNat - 0x30 := by
    rw [UInt8.toNat_toUInt32, UInt8.toNat_sub_of_le]
    · rfl
    · exact UInt8.le_iff_toNat_le.mpr hlo
  -- the bound of the source, computed without wrapping
  have hcap : ((0xFFFFFFFF - (b - 0x30).toUInt32) / 10 : UInt32).toNat =
      (2 ^ 32 - 1 - (b.toNat - 0x30)) / 10 := by
    rw [UInt32.toNat_div, UInt32.toNat_sub_of_le, hd]
    · rfl
    · rw [UInt32.le_iff_toNat_le, hd]
      show b.toNat - 0x30 ≤ 4294967295
      omega
  unfold retryDigit
  by_cases hgt : acc > (0xFFFFFFFF - (b - 0x30).toUInt32) / 10
  · -- one more digit would exceed the largest number
    rw [if_pos hgt]
    have hlt := UInt32.lt_iff_toNat_lt.mp hgt
    rw [hcap] at hlt
    show (4294967295 : Nat) = _
    omega
  · -- it fits, so neither product nor sum wraps
    rw [if_neg hgt]
    have hle := UInt32.le_iff_toNat_le.mp (UInt32.not_lt.mp hgt)
    rw [hcap] at hle
    have hten : (10 : UInt32).toNat = 10 := rfl
    rw [UInt32.toNat_add, UInt32.toNat_mul, hd, hten]
    omega

/-! ## §2 One Byte of a Value -/

/-- Discarding a block that was not discarded. -/
theorem discardBlock_of_not (hd : p.blockDiscarded = false) (err : ParseError) :
    discardBlock p err = ({ p with blockDiscarded := true }, emitPerr p err) := by
  rw [discardBlock, if_neg (by simp [hd])]

private theorem fits_discarded (h : Fits cb lim p) :
    Fits cb lim { p with blockDiscarded := true } :=
  ⟨h.cb, h.data, h.id, h.event, h.name, h.inBounds⟩

theorem valueByte_data (h : DataValue cb lim p blk v) (hf : p.field = .data) (b : UInt8) :
    Reports cb (valueByte p b) (earlyField lim blk .data v) (earlyField lim blk .data (v ++ [b]))
      fun q => DataValue cb lim q blk (v ++ [b]) ∧ q.field = .data ∧ SameCursor p q := by
  have hlen : (v ++ [b]).length = v.length + 1 := by simp
  unfold valueByte
  rw [hf]
  simp only [earlyField, hlen]
  cases hd : p.blockDiscarded with
  | true =>
    -- discarded before: the byte is ignored, and the fault stays reported
    have hor : blk.discarded = true ∨ lim.data < blk.size + v.length := by
      simpa [hd] using h.discarded.symm
    have hsame : (blk.discarded = false ∧ lim.data < blk.size + (v.length + 1)) ↔
        (blk.discarded = false ∧ lim.data < blk.size + v.length) := by
      constructor
      · rintro ⟨hb, -⟩
        exact ⟨hb, hor.resolve_left (by simp [hb])⟩
      · rintro ⟨hb, hlt⟩
        exact ⟨hb, by omega⟩
    simp only [if_true, hsame]
    refine Reports.quiet ⟨⟨h.fits, ?_, ?_, ?_, h.id⟩, hf, SameCursor.refl p⟩
    · rw [hd, hlen]
      rcases hor with hb | hlt
      · simp [hb]
      · simp [show lim.data < blk.size + (v.length + 1) by omega]
    · exact fun hno => absurd (hd.symm.trans hno) (by simp)
    · exact fun hno => absurd (hd.symm.trans hno) (by simp)
  | false =>
    -- alive: the buffer holds the text and the value so far
    have hor : blk.discarded = false ∧ ¬ lim.data < blk.size + v.length := by
      simpa [hd] using h.discarded.symm
    obtain ⟨hheld, hlines⟩ := h.data hd
    have hat : p.dataLen = blk.size + v.length := by
      rw [hheld.2, List.length_append, length_text]
    simp only [Bool.false_eq_true, if_false]
    have hbefore : ¬ (blk.discarded = false ∧ lim.data < blk.size + v.length) :=
      fun hh => hor.2 hh.2
    rw [if_neg hbefore]
    by_cases hfull : p.dataLen = p.buf.dataBuf.length
    · -- this byte is the first that does not fit
      have hover : lim.data < blk.size + (v.length + 1) := by
        rw [h.fits.data] at hfull
        omega
      rw [if_pos hfull, if_pos ⟨hor.1, hover⟩, discardBlock_of_not hd]
      refine ⟨⟨⟨fits_discarded h.fits, ?_, by simp, by simp, ⟨h.id.has, h.id.held⟩⟩, hf, ⟨rfl, rfl⟩⟩,
        [.error .dataTooLarge], emits_emitPerr h.fits.cb _, rfl⟩
      simp [hlen, hover]
    · have hroom : p.dataLen < p.buf.dataBuf.length := by
        have hle := hheld.length_le
        rw [← hheld.2] at hle
        omega
      have hnot : ¬ lim.data < blk.size + (v.length + 1) := by
        rw [h.fits.data] at hroom
        omega
      have hafter : ¬ (blk.discarded = false ∧ lim.data < blk.size + (v.length + 1)) :=
        fun hh => hnot hh.2
      rw [if_neg hfull, if_neg hafter]
      refine Reports.quiet ⟨⟨⟨h.fits.cb, ?_, h.fits.id, h.fits.event, h.fits.name, ?_⟩, ?_, ?_, ?_,
        ⟨h.id.has, h.id.held⟩⟩, hf, ⟨rfl, rfl⟩⟩
      · simp [storeData, h.fits.data]
      · simp [storeData, h.fits.inBounds, hroom]
      · simp [storeData, hd, hor.1, hlen, hnot]
      · intro _
        refine ⟨?_, hlines⟩
        rw [← List.append_assoc]
        exact hheld.push hroom b
      · intro _
        have htype := h.type hd
        exact ⟨htype.held, htype.has, htype.noNul, htype.fits⟩

theorem valueByte_event (h : TypeValue cb lim p blk v) (hf : p.field = .event) (b : UInt8) :
    Reports cb (valueByte p b) (earlyField lim blk .event v)
      (earlyField lim blk .event (v ++ [b]))
      fun q => TypeValue cb lim q blk (v ++ [b]) ∧ q.field = .event ∧ SameCursor p q := by
  unfold valueByte
  rw [hf]
  simp only [earlyField]
  cases hd : p.blockDiscarded with
  | true =>
    have hor : blk.discarded = true ∨ (typeFault lim v).isSome := by
      simpa [hd] using h.discarded.symm
    -- the fault that discarded the block is still the fault of the longer value
    have hkeep : blk.discarded = false → typeFault lim (v ++ [b]) = typeFault lim v := by
      intro hb
      obtain ⟨err, herr⟩ := Option.isSome_iff_exists.mp (hor.resolve_left (by simp [hb]))
      rw [herr, typeFault_append herr]
    have hsame : (if blk.discarded then [] else (typeFault lim (v ++ [b])).toList.map Report.error) =
        if blk.discarded then [] else (typeFault lim v).toList.map Report.error := by
      cases hb : blk.discarded with
      | true => rfl
      | false => rw [hkeep hb]
    rw [hsame]
    simp only [if_true]
    refine Reports.quiet ⟨⟨h.fits, ?_, ?_, ?_, h.id⟩, hf, SameCursor.refl p⟩
    · cases hb : blk.discarded with
      | true => simp [hd]
      | false => rw [hkeep hb, h.discarded, hb]
    · exact fun hno => absurd (hd.symm.trans hno) (by simp)
    · exact fun hno => absurd (hd.symm.trans hno) (by simp)
  | false =>
    have hor : blk.discarded = false ∧ typeFault lim v = none := by
      simpa [hd] using h.discarded.symm
    obtain ⟨hnul, hlt⟩ := typeFault_eq_none.mp hor.2
    have hheld := h.held hd
    have hnext := typeFault_snoc hor.2 b
    simp only [hor.1, hor.2, Bool.false_eq_true, if_false]
    by_cases h0 : b = 0
    · -- a NUL cannot be part of a C string
      rw [if_pos h0] at hnext
      rw [if_pos h0, hnext, discardBlock_of_not hd]
      refine ⟨⟨⟨fits_discarded h.fits, ?_, by simp, by simp, ⟨h.id.has, h.id.held⟩⟩, hf, ⟨rfl, rfl⟩⟩,
        [.error .eventTypeInvalid], emits_emitPerr h.fits.cb _, rfl⟩
      simp [hnext]
    · rw [if_neg h0] at hnext
      rw [if_neg h0]
      by_cases hfull : p.eventLen + 1 ≥ p.buf.eventBuf.length
      · -- the byte would leave no room for the terminator
        have hover : lim.event ≤ v.length + 1 := by
          rw [h.fits.event, hheld.2] at hfull
          exact hfull
        rw [if_pos hover] at hnext
        rw [if_pos hfull, hnext, discardBlock_of_not hd]
        refine ⟨⟨⟨fits_discarded h.fits, ?_, by simp, by simp, ⟨h.id.has, h.id.held⟩⟩, hf,
          ⟨rfl, rfl⟩⟩, [.error .eventTypeTooLarge], emits_emitPerr h.fits.cb _, rfl⟩
        simp [hnext]
      · have hroom : p.eventLen < p.buf.eventBuf.length := by omega
        have hnot : ¬ lim.event ≤ v.length + 1 := by
          rw [h.fits.event, hheld.2] at hfull
          exact hfull
        rw [if_neg hnot] at hnext
        rw [if_neg hfull, hnext]
        refine Reports.quiet ⟨⟨⟨h.fits.cb, h.fits.data, h.fits.id, ?_, h.fits.name, ?_⟩, ?_, ?_, ?_,
          ⟨h.id.has, h.id.held⟩⟩, hf, ⟨rfl, rfl⟩⟩
        · simp [storeEvent, h.fits.event]
        · simp [storeEvent, h.fits.inBounds, hroom]
        · simp [storeEvent, hd, hor.1, hnext]
        · intro _
          have hdata := h.data hd
          exact ⟨hdata.held, hdata.lines⟩
        · exact fun _ => hheld.push hroom b

theorem valueByte_id (h : IdValue cb lim p blk v) (hf : p.field = .id) (b : UInt8) :
    Reports cb (valueByte p b) (earlyField lim blk .id v) (earlyField lim blk .id (v ++ [b]))
      fun q => IdValue cb lim q blk (v ++ [b]) ∧ q.field = .id ∧ SameCursor p q := by
  have hnext := idRejected_snoc lim v b
  unfold valueByte
  rw [hf]
  simp only [earlyField]
  cases hrej : idRejected lim v with
  | true =>
    -- rejected before: the byte is ignored
    rw [hrej, Bool.true_or] at hnext
    have hinv : p.idInvalid = true := h.invalid.trans hrej
    simp only [hinv, hnext, if_true]
    refine Reports.quiet ⟨⟨h.fits, h.discarded, h.data, h.type, ?_, ?_⟩, hf, SameCursor.refl p⟩
    · rw [hinv, hnext]
    · exact fun hno => absurd (hnext.symm.trans hno) (by simp)
  | false =>
    rw [hrej, Bool.false_or] at hnext
    have hinv : p.idInvalid = false := h.invalid.trans hrej
    have hheld := h.held hrej
    -- the condition of the source is that of the reading
    have hcond : (b = 0 ∨ p.idLen + 1 ≥ p.buf.idBuf.length) ↔ (b = 0 ∨ lim.id ≤ v.length + 1) := by
      rw [h.fits.id, hheld.2]
    simp only [hinv, Bool.false_eq_true, if_false, hcond]
    by_cases hbad : b = 0 ∨ lim.id ≤ v.length + 1
    · rw [decide_eq_true hbad] at hnext
      rw [if_pos hbad, hnext, if_pos rfl]
      refine ⟨⟨⟨⟨h.fits.cb, h.fits.data, h.fits.id, h.fits.event, h.fits.name, h.fits.inBounds⟩,
        h.discarded, ?_, ?_, hnext.symm, ?_⟩, rfl, ⟨rfl, rfl⟩⟩,
        [.error .idInvalid], emits_emitPerr h.fits.cb _, rfl⟩
      · exact fun hb => ⟨(h.data hb).held, (h.data hb).lines⟩
      · exact fun hb => ⟨(h.type hb).held, (h.type hb).has, (h.type hb).noNul, (h.type hb).fits⟩
      · exact fun hno => absurd (hnext.symm.trans hno) (by simp)
    · rw [decide_eq_false hbad] at hnext
      have hroom : p.idLen < p.buf.idBuf.length := by
        rw [h.fits.id, hheld.2]
        omega
      rw [if_neg hbad, hnext, if_neg (by simp)]
      refine Reports.quiet ⟨⟨⟨h.fits.cb, h.fits.data, ?_, h.fits.event, h.fits.name, ?_⟩,
        h.discarded, ?_, ?_, ?_, fun _ => hheld.push hroom b⟩, hf, ⟨rfl, rfl⟩⟩
      · simp [storeId, h.fits.id]
      · simp [storeId, h.fits.inBounds, hroom]
      · exact fun hb => ⟨(h.data hb).held, (h.data hb).lines⟩
      · exact fun hb => ⟨(h.type hb).held, (h.type hb).has, (h.type hb).noNul, (h.type hb).fits⟩
      · show p.idInvalid = _
        rw [hinv, hnext]

/-- The field and the retry flags are no part of the block. -/
private theorem blockRep_retry (h : BlockRep cb lim p blk) (f : Field) (acc : UInt32)
    (seen invalid : Bool) :
    BlockRep cb lim
      { p with field := f, retryAcc := acc, retrySeenDigit := seen, retryInvalid := invalid }
      blk := by
  refine ⟨⟨h.fits.cb, h.fits.data, h.fits.id, h.fits.event, h.fits.name, h.fits.inBounds⟩,
    h.discarded, ?_, ?_, ⟨h.id.has, h.id.held⟩⟩
  · exact fun hd => ⟨(h.data hd).held, (h.data hd).lines⟩
  · exact fun hd => ⟨(h.type hd).held, (h.type hd).has, (h.type hd).noNul, (h.type hd).fits⟩

theorem valueByte_retry (h : RetryValue cb lim p blk v) (hf : p.field = .retry) (b : UInt8) :
    Reports cb (valueByte p b) (earlyField lim blk .retry v)
      (earlyField lim blk .retry (v ++ [b]))
      fun q => RetryValue cb lim q blk (v ++ [b]) ∧ q.field = .retry ∧ SameCursor p q := by
  have hall : (v ++ [b]).all isDigit = (v.all isDigit && isDigit b) := by simp
  unfold valueByte
  rw [hf]
  simp only [earlyField]
  cases hv : v.all isDigit with
  | false =>
    -- a value with a foreign byte stays invalid
    have hinv : p.retryInvalid = true := by rw [h.invalid, hv]; rfl
    rw [hv, Bool.false_and] at hall
    simp only [hinv, if_true]
    refine Reports.quiet ⟨⟨h.block, by rw [hinv, hall]; rfl, ?_, ?_⟩, hf, SameCursor.refl p⟩
    · exact fun hyes => absurd (hall.symm.trans hyes) (by simp)
    · exact fun hyes => absurd (hall.symm.trans hyes) (by simp)
  | true =>
    have hinv : p.retryInvalid = false := by rw [h.invalid, hv]; rfl
    rw [hv, Bool.true_and] at hall
    simp only [hinv, Bool.false_eq_true, if_false]
    cases hb : isDigit b with
    | false =>
      rw [hb] at hall
      simp only [Bool.not_false, if_true]
      refine Reports.quiet ⟨⟨blockRep_retry h.block .retry p.retryAcc p.retrySeenDigit true, ?_, ?_, ?_⟩,
        rfl, ⟨rfl, rfl⟩⟩
      · rw [hall]; rfl
      · exact fun hyes => absurd (hall.symm.trans hyes) (by simp)
      · exact fun hyes => absurd (hall.symm.trans hyes) (by simp)
    | true =>
      rw [hb] at hall
      simp only [Bool.not_true, Bool.false_eq_true, if_false]
      refine Reports.quiet ⟨⟨blockRep_retry h.block .retry _ true false, ?_, ?_, ?_⟩, rfl,
        ⟨rfl, rfl⟩⟩
      · rw [hall]; rfl
      · simp
      · intro _
        -- the digit is shifted into the accumulator
        rw [decimal_snoc]
        exact toNat_retryDigit hb (h.acc hv)

/-- **One byte of a value.** It extends the value and reports the fault it proves. -/
theorem valueByte_spec {f : Field} (h : ValueRep cb lim p blk v f) (hf : p.field = f)
    (b : UInt8) :
    Reports cb (valueByte p b) (earlyField lim blk f v) (earlyField lim blk f (v ++ [b]))
      fun q => ValueRep cb lim q blk (v ++ [b]) f ∧ q.field = f ∧ SameCursor p q := by
  cases f with
  | none => exact h.elim
  | data => exact valueByte_data h hf b
  | event => exact valueByte_event h hf b
  | id => exact valueByte_id h hf b
  | retry => exact valueByte_retry h hf b

/-! ## §3 The End of a Value -/

theorem commitField_data (h : DataValue cb lim p blk v) (hf : p.field = .data) :
    Reports cb (commitField p) (earlyField lim blk .data v) (readField lim blk .data v).2
      fun q => BlockRep cb lim q (readField lim blk .data v).1 ∧ SameCursor p q := by
  unfold commitField
  rw [hf]
  simp only [earlyField, readField]
  cases hb : blk.discarded with
  | true =>
    have hd : p.blockDiscarded = true := by rw [h.discarded, hb]; rfl
    simp only [hd, Bool.true_eq_false, false_and, if_true, if_false]
    refine Reports.quiet ⟨⟨h.fits, hd.trans hb.symm, ?_, ?_, h.id⟩, SameCursor.refl p⟩
    · exact fun hno => absurd (hb.symm.trans hno) (by simp)
    · exact fun hno => absurd (hb.symm.trans hno) (by simp)
  | false =>
    have hdisc : p.blockDiscarded = decide (lim.data < blk.size + v.length) := by
      rw [h.discarded, hb, Bool.false_or]
    by_cases hearly : lim.data < blk.size + v.length
    · -- the value had overrun before its last byte
      have hd : p.blockDiscarded = true := by rw [hdisc, decide_eq_true hearly]
      have hover : lim.data < blk.size + (v.length + 1) := by omega
      simp only [hd, hearly, hover, and_self, if_true, Bool.false_eq_true, if_false]
      exact Reports.quiet ⟨⟨h.fits, hd, by simp, by simp, h.id⟩, SameCursor.refl p⟩
    · have hd : p.blockDiscarded = false := by rw [hdisc, decide_eq_false hearly]
      obtain ⟨hheld, hlines⟩ := h.data hd
      have hat : p.dataLen = blk.size + v.length := by
        rw [hheld.2, List.length_append, length_text]
      simp only [hd, hearly, and_false, if_false, Bool.false_eq_true]
      by_cases hfull : p.dataLen = p.buf.dataBuf.length
      · have hover : lim.data < blk.size + (v.length + 1) := by
          rw [h.fits.data] at hfull
          omega
        rw [if_pos hfull, if_pos hover, discardBlock_of_not hd]
        exact ⟨⟨⟨fits_discarded h.fits, rfl, by simp, by simp, ⟨h.id.has, h.id.held⟩⟩, ⟨rfl, rfl⟩⟩,
          [.error .dataTooLarge], emits_emitPerr h.fits.cb _, rfl⟩
      · have hroom : p.dataLen < p.buf.dataBuf.length := by
          have hle := hheld.length_le
          rw [← hheld.2] at hle
          omega
        have hnot : ¬ lim.data < blk.size + (v.length + 1) := by
          rw [h.fits.data] at hroom
          omega
        rw [if_neg hfull, if_neg hnot]
        refine Reports.quiet ⟨⟨⟨h.fits.cb, ?_, h.fits.id, h.fits.event, h.fits.name, ?_⟩,
          hd, ?_, ?_, ⟨h.id.has, h.id.held⟩⟩, ⟨rfl, rfl⟩⟩
        · simp [storeData, h.fits.data]
        · simp [storeData, h.fits.inBounds, hroom]
        · intro _
          refine ⟨?_, ?_⟩
          · exact text_push blk v _ _ _ ▸ hheld.push hroom lf
          · show p.dataLines + 1 = (blk.values ++ [v]).length
            rw [hlines, List.length_append, List.length_singleton]
        · intro _
          have htype := h.type hd
          exact ⟨htype.held, htype.has, htype.noNul, htype.fits⟩

theorem commitField_event (h : TypeValue cb lim p blk v) (hf : p.field = .event) :
    Reports cb (commitField p) (earlyField lim blk .event v) (readField lim blk .event v).2
      fun q => BlockRep cb lim q (readField lim blk .event v).1 ∧ SameCursor p q := by
  have hfits : Fits cb lim { p with hasEvent := 0 < p.eventLen } :=
    ⟨h.fits.cb, h.fits.data, h.fits.id, h.fits.event, h.fits.name, h.fits.inBounds⟩
  unfold commitField
  rw [hf]
  simp only [earlyField, readField]
  cases hb : blk.discarded with
  | true =>
    have hd : p.blockDiscarded = true := by rw [h.discarded, hb]; rfl
    simp only [if_true]
    refine Reports.quiet ⟨⟨⟨hfits.cb, hfits.data, hfits.id, hfits.event, hfits.name,
      hfits.inBounds⟩, hd.trans hb.symm, ?_, ?_, ⟨h.id.has, h.id.held⟩⟩, ⟨rfl, rfl⟩⟩
    · exact fun hno => absurd (hb.symm.trans hno) (by simp)
    · exact fun hno => absurd (hb.symm.trans hno) (by simp)
  | false =>
    simp only [Bool.false_eq_true, if_false]
    cases hfault : typeFault lim v with
    | some err =>
      have hd : p.blockDiscarded = true := by rw [h.discarded, hb, hfault]; rfl
      exact Reports.quiet ⟨⟨⟨hfits.cb, hfits.data, hfits.id, hfits.event, hfits.name,
        hfits.inBounds⟩, hd, by simp, by simp, ⟨h.id.has, h.id.held⟩⟩, ⟨rfl, rfl⟩⟩
    | none =>
      have hd : p.blockDiscarded = false := by rw [h.discarded, hb, hfault]; rfl
      obtain ⟨hnul, hlt⟩ := typeFault_eq_none.mp hfault
      have hheld := h.held hd
      refine Reports.quiet ⟨⟨⟨hfits.cb, hfits.data, hfits.id, hfits.event, hfits.name,
        hfits.inBounds⟩, hd, ?_, ?_, ⟨h.id.has, h.id.held⟩⟩, ⟨rfl, rfl⟩⟩
      · intro _
        have hdata := h.data hd
        exact ⟨hdata.held, hdata.lines⟩
      · intro _
        refine ⟨hheld, ?_, hnul, hlt⟩
        show decide (0 < p.eventLen) = _
        rw [hheld.2]
        simp [List.length_pos_iff]

theorem commitField_id (h : IdValue cb lim p blk v) (hf : p.field = .id) :
    Reports cb (commitField p) (earlyField lim blk .id v) (readField lim blk .id v).2
      fun q => BlockRep cb lim q (readField lim blk .id v).1 ∧ SameCursor p q := by
  unfold commitField
  rw [hf]
  simp only [earlyField, readField]
  cases hrej : idRejected lim v with
  | true =>
    have hinv : p.idInvalid = true := h.invalid.trans hrej
    simp only [hinv, if_true]
    refine Reports.quiet ⟨⟨⟨h.fits.cb, h.fits.data, h.fits.id, h.fits.event, h.fits.name,
      h.fits.inBounds⟩, h.discarded, ?_, ?_, ⟨rfl, by simp⟩⟩, ⟨rfl, rfl⟩⟩
    · exact fun hb => ⟨(h.data hb).held, (h.data hb).lines⟩
    · exact fun hb => ⟨(h.type hb).held, (h.type hb).has, (h.type hb).noNul, (h.type hb).fits⟩
  | false =>
    have hinv : p.idInvalid = false := h.invalid.trans hrej
    obtain ⟨hnul, hlt⟩ := idRejected_eq_false.mp hrej
    have hheld := h.held hrej
    simp only [hinv, Bool.false_eq_true, if_false]
    refine Reports.quiet ⟨⟨⟨h.fits.cb, h.fits.data, h.fits.id, h.fits.event, h.fits.name,
      h.fits.inBounds⟩, h.discarded, ?_, ?_, ⟨rfl, ?_⟩⟩, ⟨rfl, rfl⟩⟩
    · exact fun hb => ⟨(h.data hb).held, (h.data hb).lines⟩
    · exact fun hb => ⟨(h.type hb).held, (h.type hb).has, (h.type hb).noNul, (h.type hb).fits⟩
    · rintro w ⟨⟩
      exact ⟨hheld, hnul, hlt⟩

theorem commitField_retry (h : RetryValue cb lim p blk v) (hf : p.field = .retry) :
    Reports cb (commitField p) (earlyField lim blk .retry v) (readField lim blk .retry v).2
      fun q => BlockRep cb lim q (readField lim blk .retry v).1 ∧ SameCursor p q := by
  unfold commitField
  rw [hf]
  simp only [earlyField, readField]
  by_cases hok : v ≠ [] ∧ v.all isDigit
  · have hinv : p.retryInvalid = false := by rw [h.invalid, hok.2]; rfl
    have hseen : p.retrySeenDigit = true := by simp [h.seen hok.2, hok.1]
    have hacc : p.retryAcc = .ofNat (min (decimal v) (2 ^ 32 - 1)) := by
      rw [← h.acc hok.2, UInt32.ofNat_toNat]
    rw [if_pos hok, if_neg (by simp [hinv, hseen])]
    refine ⟨⟨h.block, SameCursor.refl p⟩, _,
      emits_fire (c := .onRetry p.retryAcc) h.block.fits.cb trivial, ?_⟩
    rw [hacc]
    rfl
  · have hbad : (p.retryInvalid || !p.retrySeenDigit) = true := by
      cases hall : v.all isDigit with
      | false => simp [h.invalid, hall]
      | true =>
        have hnil : v = [] := by
          by_contra hne
          exact hok ⟨hne, hall⟩
        simp [h.seen hall, hnil]
    rw [if_neg hok, if_pos hbad]
    exact ⟨⟨h.block, SameCursor.refl p⟩, [.error .invalidRetry], emits_emitPerr h.block.fits.cb _,
      rfl⟩

/-- **The end of a value.** The line takes its effect on the block. -/
theorem commitValue_spec {f : Field} (h : ValueRep cb lim p blk v f) (hf : p.field = f) :
    Reports cb (commitValue p) (earlyField lim blk f v) (readField lim blk f v).2
      fun q => BlockRep cb lim q (readField lim blk f v).1 ∧ SameCursor p q := by
  have hfield : Reports cb (commitField p) (earlyField lim blk f v) (readField lim blk f v).2
      fun q => BlockRep cb lim q (readField lim blk f v).1 ∧ SameCursor p q := by
    cases f with
    | none => exact h.elim
    | data => exact commitField_data h hf
    | event => exact commitField_event h hf
    | id => exact commitField_id h hf
    | retry => exact commitField_retry h hf
  refine hfield.andThen fun hq => Reports.quiet ⟨?_, ?_⟩
  · exact blockRep_retry hq.1 .none _ _ _
  · exact hq.2.trans ⟨rfl, rfl⟩

end EventSource.Parser
