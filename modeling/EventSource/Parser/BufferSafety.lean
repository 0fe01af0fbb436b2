import EventSource.Parser.Outcomes

/-!
# The Parser Stays Inside Its Buffers

How far the parser may fill its arrays, whatever bytes it is fed and however often it is reset. The
three buffers count differently: `data_buf` is filled to its last byte, since its terminator takes
the place of the last newline, while `id_buf` and `event_buf` keep one byte for theirs. What is handed
over is therefore terminated, an id and a type right behind the value that was on the wire.
-/

namespace EventSource.Parser

open EventSource.CMemory
open EventSource.Transducer

variable {cb : ParserCallbacks} {lim : Limits} {p : SseParser} {s : Bytes} {b : UInt8}

/-! ## §1 Counters -/

/-- The counters stay within their arrays. Nothing here depends on whether the block is discarded or
its id is dropped. -/
structure Counted (p : SseParser) : Prop where
  nameLen : p.nameLen ≤ 6
  -- the sixth byte of a name ends it, so an open name has room for one more
  nameOpen : p.state = .fieldName → p.nameLen ≤ 5
  bomN : p.bomN ≤ 2
  dataLen : p.dataLen ≤ p.buf.dataBuf.length
  -- each complete data line has stored at least its newline
  dataLines : p.dataLines ≤ p.dataLen
  eventLen : p.eventLen < p.buf.eventBuf.length
  idLen : p.idLen < p.buf.idBuf.length

/-- Leaving the name of a field. -/
theorem Counted.enter (h : Counted p) (state : LineState) (hs : state ≠ .fieldName) :
    Counted { p with state := state } :=
  { h with nameOpen := fun heq => absurd heq hs }

theorem Counted.dispatchId (h : Counted p) : Counted (dispatchId p).1 := by
  unfold Parser.dispatchId
  split
  · exact { h with idLen := by simpa [storeId] using h.idLen }
  · exact h

theorem Counted.dispatchEvent (h : Counted p) : Counted (dispatchEvent p).1 := by
  unfold Parser.dispatchEvent
  split
  · cases hev : p.hasEvent with
    | true =>
      exact { h with
        dataLen := by simpa [storeData, storeEvent, hev] using h.dataLen
        eventLen := by simpa [storeData, storeEvent, hev] using h.eventLen }
    | false => exact { h with dataLen := by simpa [storeData, hev] using h.dataLen }
  · exact h

theorem Counted.dispatchBlock (h : Counted p) : Counted (dispatchBlock p).1 := by
  have hsent := h.dispatchId.dispatchEvent
  exact { hsent with
    dataLen := Nat.zero_le _
    dataLines := le_rfl
    eventLen := Nat.zero_lt_of_lt hsent.eventLen
    idLen := Nat.zero_lt_of_lt hsent.idLen }

theorem Counted.startValue (h : Counted p) : Counted (startValue p) := by
  unfold Parser.startValue
  cases p.field with
  | none => exact h
  | data => exact h
  | event => exact { h with eventLen := Nat.zero_lt_of_lt h.eventLen }
  | id => exact { h with idLen := Nat.zero_lt_of_lt h.idLen }
  | retry => exact { h with }

theorem Counted.discardBlock (h : Counted p) (err : ParseError) :
    Counted (discardBlock p err).1 := by
  unfold Parser.discardBlock
  split
  · exact h
  · exact { h with }

/-- A byte behind the data text, be it of a value or the newline that completes a line. -/
theorem Counted.storeData (h : Counted p) (hfull : p.dataLen ≠ p.buf.dataBuf.length) (b : UInt8)
    {lines : Nat} (hlines : lines ≤ p.dataLen + 1) :
    Counted { storeData p p.dataLen b with dataLen := p.dataLen + 1, dataLines := lines } := by
  have hroom : p.dataLen + 1 ≤ p.buf.dataBuf.length := Nat.lt_of_le_of_ne h.dataLen hfull
  exact { h with
    dataLen := by simpa [Parser.storeData] using hroom
    dataLines := hlines }

theorem Counted.valueByte (h : Counted p) (b : UInt8) : Counted (valueByte p b).1 := by
  unfold Parser.valueByte
  cases p.field with
  | none => exact h
  | data =>
    simp only
    split
    · exact h
    · split
      · exact h.discardBlock _
      · -- the guard leaves room for this byte and for the newline of every data line
        next hfull => exact h.storeData hfull b (Nat.le_succ_of_le h.dataLines)
  | event =>
    simp only
    split
    · exact h
    · split
      · exact h.discardBlock _
      · split
        · exact h.discardBlock _
        · next hfull => exact { h with eventLen := by simpa [storeEvent] using Nat.lt_of_not_le hfull }
  | id =>
    simp only
    split
    · exact h
    · split
      · exact { h with }
      · next hfull =>
        have hroom : p.idLen + 1 < p.buf.idBuf.length := Nat.lt_of_not_le (not_or.mp hfull).2
        exact { h with idLen := by simpa [storeId] using hroom }
  | retry =>
    simp only
    split
    · exact h
    · split
      · exact { h with }
      · exact { h with }

theorem Counted.commitValue (h : Counted p) : Counted (commitValue p).1 := by
  have hfield : Counted (commitField p).1 := by
    unfold Parser.commitField
    cases p.field with
    | none => exact h
    | data =>
      simp only
      split
      · exact h
      · split
        · exact h.discardBlock _
        · next hfull => exact h.storeData hfull lf (Nat.succ_le_succ h.dataLines)
    | event => exact { h with }
    | id =>
      simp only
      split
      · exact { h with idLen := Nat.zero_lt_of_lt h.idLen }
      · exact { h with }
    | retry =>
      simp only
      split <;> exact h
  exact { hfield with }

theorem Counted.resolveFieldName (h : Counted p) : Counted (resolveFieldName p).1 := by
  have hlooked : Counted { p with field := lookupField p } := { h with }
  unfold Parser.resolveFieldName
  simp only
  split
  · exact hlooked.enter _ LineState.noConfusion
  · exact hlooked.startValue.enter _ LineState.noConfusion

theorem Counted.lineEnd (h : Counted p) : Counted (lineEnd p).1 := by
  have hfinished : Counted (finishLine p).1 := by
    unfold Parser.finishLine
    cases p.state with
    | bom => exact h
    | lineStart => exact h.dispatchBlock
    | fieldName =>
      show Counted (if (Parser.resolveFieldName p).1.state = .afterColon then
        Parser.commitValue (Parser.resolveFieldName p).1 else ((Parser.resolveFieldName p).1, [])).1
      split
      · exact h.resolveFieldName.commitValue
      · exact h.resolveFieldName
    | afterColon => exact h.commitValue
    | value => exact h.commitValue
    | skipLine => exact h
  exact hfinished.enter _ LineState.noConfusion

/-- A name is open for a byte as long as it is shorter than six. -/
theorem Counted.nameByte (h : Counted p) (hs : p.state = .fieldName) (b : UInt8) :
    Counted (nameByte p b).1 := by
  unfold Parser.nameByte
  split
  · exact h.resolveFieldName
  · have hopen : p.nameLen ≤ 5 := h.nameOpen hs
    have hnext : ∀ q : SseParser, Counted { q with state := .skipLine } → q.nameLen ≤ 6 →
        Counted (if 5 < q.nameLen then
          ({ q with state := LineState.skipLine }, emitPerr q .unknownField) else (q, [])).1 := by
      intro q hq hlen
      split
      · exact hq
      · next hshort => exact { hq with nameOpen := fun _ => Nat.le_of_not_lt hshort }
    have hskip : Counted { p with state := .skipLine } := h.enter _ LineState.noConfusion
    apply hnext
    · split
      · exact { hskip with nameLen := Nat.succ_le_succ hopen, nameOpen := LineState.noConfusion }
      · exact hskip
    · split
      · exact Nat.succ_le_succ hopen
      · exact h.nameLen

theorem Counted.lineByte (h : Counted p) (b : UInt8) : Counted (lineByte p b).1 := by
  unfold Parser.lineByte
  split
  · exact { h.lineEnd with }
  · split
    · exact h.lineEnd
    · cases hs : p.state with
      | bom => exact h
      | lineStart =>
        simp only
        split
        · exact h.enter _ LineState.noConfusion
        · have hfresh : Counted { p with state := .fieldName, nameLen := 0 } :=
            { h with nameLen := Nat.zero_le _, nameOpen := fun _ => Nat.zero_le _ }
          exact hfresh.nameByte rfl b
      | fieldName => exact h.nameByte hs b
      | afterColon =>
        have hvalue : Counted { p with state := .value } := h.enter _ LineState.noConfusion
        simp only
        split
        · exact hvalue
        · exact hvalue.valueByte b
      | value => exact h.valueByte b
      | skipLine => exact h

/-- **Every byte, in every state, keeps the counters within the arrays.** -/
theorem Counted.processByte (h : Counted p) (b : UInt8) : Counted (processByte p b).1 := by
  unfold Parser.processByte
  split
  · exact { h with }
  · unfold bomByte
    split
    · split
      · next hmatch =>
        split
        · exact { h.enter .lineStart LineState.noConfusion with bomN := Nat.zero_le _ }
        · next hmore =>
          have hlt : p.bomN < 3 := hmatch.1
          have hne : p.bomN + 1 ≠ 3 := hmore
          exact { h with bomN := Nat.le_of_lt_succ (Nat.lt_of_le_of_ne hlt hne) }
      · -- the replayed bytes are ordinary ones
        have hstart : Counted { p with swallowLf := false, bomN := 0, state := .lineStart } :=
          { h.enter .lineStart LineState.noConfusion with bomN := Nat.zero_le _ }
        exact (run_invariant (fun q c hq => hq.lineByte c) _ hstart).lineByte b
    · have hheard : Counted { p with swallowLf := false } := { h with }
      exact hheard.lineByte b

/-- A fresh parser has counted nothing. -/
theorem counted_init (cb : ParserCallbacks) {buf : ParserBuffers} (hlim : buf.limits.Valid) :
    Counted (sseParserInit cb buf) where
  nameLen := Nat.zero_le _
  nameOpen := LineState.noConfusion
  bomN := Nat.zero_le _
  dataLen := Nat.zero_le _
  dataLines := le_rfl
  eventLen := Nat.lt_of_lt_of_le Nat.zero_lt_two hlim.event
  idLen := Nat.lt_of_lt_of_le Nat.zero_lt_two hlim.id

/-! ## §2 The Retry Accumulator -/

/-- A byte keeps the accumulator, clears it, or shifts a digit into it up to the largest 32-bit
number. -/
def Accumulates (b : UInt8) (acc acc' : UInt32) : Prop :=
  acc' = acc ∨
    if isDigit b then acc'.toNat = min (acc.toNat * 10 + (b.toNat - 0x30)) (2 ^ 32 - 1)
    else acc' = 0

/-- What is no digit may only clear. -/
theorem accumulates_of_cleared {acc acc' : UInt32} (hb : isDigit b = false)
    (h : acc' = acc ∨ acc' = 0) : Accumulates b acc acc' :=
  h.imp_right fun hzero => by rwa [if_neg (by simp [hb])]

theorem retryAcc_dispatchBlock (p : SseParser) : (dispatchBlock p).1.retryAcc = p.retryAcc := by
  have hid : (dispatchId p).1.retryAcc = p.retryAcc := by
    unfold dispatchId
    split <;> rfl
  have hevent : ∀ q : SseParser, (dispatchEvent q).1.retryAcc = q.retryAcc := by
    intro q
    unfold dispatchEvent
    split
    · cases hev : q.hasEvent <;> simp [storeData, storeEvent]
    · rfl
  exact (hevent _).trans hid

theorem retryAcc_discardBlock (p : SseParser) (err : ParseError) :
    (discardBlock p err).1.retryAcc = p.retryAcc := by
  unfold discardBlock
  split <;> rfl

theorem retryAcc_commitValue (p : SseParser) : (commitValue p).1.retryAcc = p.retryAcc := by
  show (commitField p).1.retryAcc = p.retryAcc
  unfold commitField
  cases p.field with
  | none => rfl
  | data =>
    simp only
    split
    · rfl
    · split
      · exact retryAcc_discardBlock p _
      · rfl
  | event => rfl
  | id =>
    simp only
    split <;> rfl
  | retry =>
    simp only
    split <;> rfl

/-- Only the start of a retry value clears the accumulator. -/
theorem retryAcc_resolveFieldName (p : SseParser) :
    (resolveFieldName p).1.retryAcc = p.retryAcc ∨ (resolveFieldName p).1.retryAcc = 0 := by
  have hstart : ∀ q : SseParser, (startValue q).retryAcc = q.retryAcc ∨
      (startValue q).retryAcc = 0 := by
    intro q
    unfold startValue
    cases q.field with
    | retry => exact .inr rfl
    | none => exact .inl rfl
    | data => exact .inl rfl
    | event => exact .inl rfl
    | id => exact .inl rfl
  unfold resolveFieldName
  simp only
  split
  · exact .inl rfl
  · exact hstart { p with field := lookupField p }

theorem retryAcc_lineEnd (p : SseParser) :
    (lineEnd p).1.retryAcc = p.retryAcc ∨ (lineEnd p).1.retryAcc = 0 := by
  show (finishLine p).1.retryAcc = p.retryAcc ∨ (finishLine p).1.retryAcc = 0
  unfold finishLine
  cases p.state with
  | bom => exact .inl rfl
  | lineStart => exact .inl (retryAcc_dispatchBlock p)
  | fieldName =>
    have hresolve := retryAcc_resolveFieldName p
    have hcommit := retryAcc_commitValue (resolveFieldName p).1
    simp only [andThen_fst]
    split
    · rwa [hcommit]
    · exact hresolve
  | afterColon => exact .inl (retryAcc_commitValue p)
  | value => exact .inl (retryAcc_commitValue p)
  | skipLine => exact .inl rfl

theorem accumulates_valueByte (p : SseParser) (b : UInt8) :
    Accumulates b p.retryAcc (valueByte p b).1.retryAcc := by
  unfold valueByte
  cases p.field with
  | none => exact .inl rfl
  | data =>
    simp only
    split
    · exact .inl rfl
    · split
      · exact .inl (retryAcc_discardBlock p _)
      · exact .inl rfl
  | event =>
    simp only
    split
    · exact .inl rfl
    · split
      · exact .inl (retryAcc_discardBlock p _)
      · split
        · exact .inl (retryAcc_discardBlock p _)
        · exact .inl rfl
  | id =>
    simp only
    split
    · exact .inl rfl
    · split <;> exact .inl rfl
  | retry =>
    simp only
    split
    · exact .inl rfl
    · cases hb : isDigit b with
      | false => exact .inl rfl
      | true =>
        -- the accumulator holds what the digits so far are worth, capped
        have hself : p.retryAcc.toNat = min p.retryAcc.toNat (2 ^ 32 - 1) :=
          (Nat.min_eq_left (Nat.le_of_lt_succ p.retryAcc.toNat_lt)).symm
        right
        rw [if_pos hb]
        exact toNat_retryDigit hb hself

/-- The bytes of a name leave the accumulator alone; its colon may start a retry value. -/
theorem accumulates_nameByte (p : SseParser) (b : UInt8) :
    Accumulates b p.retryAcc (nameByte p b).1.retryAcc ∧
      (b ≠ colon → (nameByte p b).1.retryAcc = p.retryAcc) := by
  have hname : ∀ q : SseParser, (if 5 < q.nameLen then
      ({ q with state := LineState.skipLine }, emitPerr q .unknownField) else (q, [])).1.retryAcc =
        q.retryAcc := by
    intro q
    split <;> rfl
  unfold nameByte
  split
  · next hcolon =>
    refine ⟨accumulates_of_cleared ?_ (retryAcc_resolveFieldName p), fun hne => absurd hcolon hne⟩
    rw [hcolon]
    rfl
  · simp only [hname]
    split
    · exact ⟨.inl rfl, fun _ => rfl⟩
    · exact ⟨.inl rfl, fun _ => rfl⟩

theorem accumulates_lineByte (p : SseParser) (b : UInt8) :
    Accumulates b p.retryAcc (lineByte p b).1.retryAcc := by
  unfold lineByte
  split
  · -- a line end clears the accumulator with the rest of the line
    next hcr =>
    apply accumulates_of_cleared
    · rw [hcr]
      rfl
    · exact retryAcc_lineEnd p
  · split
    · next hlf =>
      apply accumulates_of_cleared
      · rw [hlf]
        rfl
      · exact retryAcc_lineEnd p
    · cases p.state with
      | bom => exact .inl rfl
      | lineStart =>
        simp only
        split
        · exact .inl rfl
        · exact (accumulates_nameByte { p with state := .fieldName, nameLen := 0 } b).1
      | fieldName => exact (accumulates_nameByte p b).1
      | afterColon =>
        simp only
        split
        · exact .inl rfl
        · exact accumulates_valueByte { p with state := .value } b
      | value => exact accumulates_valueByte p b
      | skipLine => exact .inl rfl

/-- The replayed bytes of a mark begin no value. -/
theorem retryAcc_replayed (hp : Replaying p) (hb : b ∈ sseBom) :
    (lineByte p b).1.retryAcc = p.retryAcc := by
  obtain ⟨hcr, hlf, hcolon⟩ := sseBom_plain b hb
  unfold lineByte
  rw [if_neg hcr, if_neg hlf]
  rcases hp with hs | hs | hs
  · simp only [hs, if_neg hcolon]
    exact (accumulates_nameByte { p with state := .fieldName, nameLen := 0 } b).2 hcolon
  · simp only [hs]
    exact (accumulates_nameByte p b).2 hcolon
  · simp only [hs]

/-- **The accumulator never wraps.** -/
theorem accumulates_processByte (p : SseParser) (b : UInt8) :
    Accumulates b p.retryAcc (processByte p b).1.retryAcc := by
  unfold processByte
  split
  · exact .inl rfl
  · unfold bomByte
    split
    · split
      · split <;> exact .inl rfl
      · let start : SseParser := { p with swallowLf := false, bomN := 0, state := .lineStart }
        -- the replay stays among the states that begin no value
        have hreplay : ∀ q : SseParser, ∀ c ∈ sseBom.take p.bomN,
            Replaying q ∧ q.retryAcc = p.retryAcc →
            Replaying (lineByte q c).1 ∧ (lineByte q c).1.retryAcc = p.retryAcc := by
          rintro q c hc ⟨hq, hacc⟩
          have hmark := List.mem_of_mem_take hc
          exact ⟨(lineByte_replaying hq hmark).1, (retryAcc_replayed hq hmark).trans hacc⟩
        have hstart : Replaying start ∧ start.retryAcc = p.retryAcc := ⟨.inl rfl, rfl⟩
        have hkept := (run_invariant_of_mem hreplay hstart).2
        have hbyte := accumulates_lineByte (run lineByte start (sseBom.take p.bomN)).1 b
        rwa [hkept] at hbyte
    · exact accumulates_lineByte { p with swallowLf := false } b

/-! ## §3 What Is Handed Over -/

/-- What a callback hands over at the byte that ends the stream `s`, where `p` is the parser that the
byte finds. The data is terminated at its length. A type or an id is terminated at its stored length
and nowhere before, and read as a C string it is the value of the last such line of the block that the
byte ends. -/
def HandsOver (p : SseParser) (s : Bytes) : Callback → Prop
  | .onEvent ev =>
    ev.data[ev.dataLen]? = some 0 ∧
      ∃ L, (completeBlocks s).getLast? = some L ∧
        (∀ m, ev.event = some m →
          TerminatedAt m p.eventLen ∧ (fieldValues .event L).getLast? = some (cstr m)) ∧
        ∀ m, ev.id = some m →
          TerminatedAt m p.idLen ∧ (fieldValues .id L).getLast? = some (cstr m)
  | .onId m len =>
    len = p.idLen ∧ TerminatedAt m len ∧
      ∃ L, (completeBlocks s).getLast? = some L ∧ (fieldValues .id L).getLast? = some (cstr m)
  | .onRetry _ => True
  | .onError _ => True

variable {blk : Block} {L : List Bytes} {m : Mem}

theorem BlockRep.type_whole (h : BlockRep cb lim p blk) (ht : Tracks lim blk L)
    (hd : blk.discarded = false) (htype : blk.type = cstr m) (hne : cstr m ≠ []) (h0 : 0 ∈ m) :
    TerminatedAt m p.eventLen ∧ (fieldValues .event L).getLast? = some (cstr m) := by
  have hlen : p.eventLen = (cstr m).length := (h.type hd).held.2.trans (congrArg List.length htype)
  have hlast : (fieldValues .event L).getLast?.getD [] = cstr m := (ht.type hd).symm.trans htype
  refine ⟨hlen ▸ terminatedAt_cstr h0, ?_⟩
  cases hv : (fieldValues .event L).getLast? with
  | none =>
    rw [hv] at hlast
    exact absurd hlast.symm hne
  | some v =>
    rw [hv] at hlast
    exact congrArg some hlast

theorem BlockRep.id_whole (h : BlockRep cb lim p blk) (ht : Tracks lim blk L)
    (hid : blk.id = some (cstr m)) (h0 : 0 ∈ m) :
    TerminatedAt m p.idLen ∧ (fieldValues .id L).getLast? = some (cstr m) := by
  obtain ⟨hheld, -, -⟩ := h.id.held _ hid
  have hlast : lastId lim L = some (cstr m) := ht.id.symm.trans hid
  exact ⟨hheld.2 ▸ terminatedAt_cstr h0, (Option.filter_eq_some_iff.mp hlast).1⟩

/-- Between two lines the parser stands for the lines of the unfinished block. -/
theorem StreamRep.block (h : StreamRep cb lim p s) (hline : openLine s = []) :
    BlockRep cb lim p (readBlock lim (openBlock s)).1 := by
  cases h with
  | bom n hn _ _ _ h =>
    have hlines : linesOf (sseBom.take n) = [] := by
      unfold linesOf
      rw [dropBom_sseBom n hn, splitLines_sseBom n hn]
    unfold openBlock
    rw [hlines]
    exact h
  | text s _ h =>
    have hrep := h.line
    have hread : (readText lim (dropBom s)).1 = (readBlock lim (openBlock s)).1 :=
      run_readLine_block lim _
    rw [hread, show (splitLines [] (dropBom s)).2 = [] from hline] at hrep
    generalize hcur : ([] : Bytes) = cur at hrep
    cases hrep with
    | start _ h => exact h
    | name _ hne => exact absurd hcur.symm hne
    | skip _ hskip => exact absurd hcur.symm hskip.ne_nil
    | value f rest => exact absurd hcur (by simp)

/-- Where a line is complete, the data of the block ends with the newline of its last data line. -/
theorem StreamRep.newline (h : StreamRep cb lim p s) (hs : p.state = .lineStart)
    (hd : p.blockDiscarded = false) (hlines : 0 < p.dataLines) :
    p.buf.dataBuf[p.dataLen - 1]? = some lf := by
  obtain ⟨blk, hblk⟩ : ∃ blk, BlockRep cb lim p blk := by
    cases h with
    | bom _ _ _ _ _ h => exact ⟨_, h⟩
    | text _ _ h =>
      have hrep := h.line
      generalize (splitLines [] (dropBom s)).2 = cur at hrep
      -- of the states within a line only the first stands at a line start
      cases hrep with
      | start _ h => exact ⟨_, h⟩
      | name _ _ _ _ _ _ h => exact ⟨_, h⟩
      | skip _ _ _ h => exact ⟨_, h⟩
      | value f rest _ _ hvalue _ =>
        rw [hs] at hvalue
        split at hvalue <;> exact LineState.noConfusion hvalue
  have hdata := hblk.data (hblk.discarded ▸ hd)
  have hne : blk.values ≠ [] := by
    rw [hdata.lines] at hlines
    exact List.ne_nil_of_length_pos hlines
  have hlast : blk.text.getLast? = some lf := by
    obtain ⟨vs, v, hvs⟩ := List.eq_nil_or_concat blk.values |>.resolve_left hne
    unfold Block.text
    rw [hvs]
    simp
  rw [List.getLast?_eq_getElem?, ← hdata.held.2, ← hdata.held.1, List.getElem?_take] at hlast
  split at hlast
  · exact hlast
  · exact absurd hlast (by simp)

/-- **What one byte makes the parser hand over.** -/
theorem processByte_handsOver (hlim : lim.Valid) (h : StreamRep cb lim p s) (b : UInt8) :
    ∀ c ∈ (processByte p b).2, HandsOver p (s ++ [b]) c := by
  intro c hc
  obtain ⟨-, new, hemits, hnew⟩ := processByte_spec hlim h b
  have hterm : c.Terminated := hemits.terminated c hc
  have hreport : c.report ∈ new := by
    have hmem : c.report ∈ new.filter cb.accepts := hemits.reports ▸ List.mem_map_of_mem hc
    exact List.mem_of_mem_filter hmem
  have htracks := readBlock_tracks lim (nil_not_mem_openBlock s)
  rcases reports_of_new hnew with ⟨hmore, hline, hdispatch⟩ | hopen
  · -- the byte ends the block for which the parser stands
    have hblk := h.block hline
    have hended : (completeBlocks (s ++ [b])).getLast? = some (openBlock s) := by
      rw [hmore, List.getLast?_concat]
    rw [hdispatch] at hreport
    cases c with
    | onRetry _ => trivial
    | onError _ => trivial
    | onId m len =>
      -- an id that a report shows up to its NUL is the whole id that the wire has
      rcases mem_dispatchReports hreport with ⟨v, hv, heq⟩ | ⟨-, heq⟩
      · obtain ⟨hcstr, hlen⟩ := Report.id.inj heq
        have hread : (readBlock lim (openBlock s)).1.id = some (cstr m) := hv.trans (hcstr ▸ rfl)
        obtain ⟨hwhole, hwire⟩ := hblk.id_whole htracks hread (List.mem_of_getElem? hterm)
        have hstored : len = p.idLen := hlen.trans (hblk.id.held v hv).1.2.symm
        exact ⟨hstored, hstored ▸ hwhole, _, hended, hwire⟩
      · exact Report.noConfusion heq
    | onEvent ev =>
      rcases mem_dispatchReports hreport with ⟨v, -, heq⟩ | ⟨hd, heq⟩
      · exact Report.noConfusion heq
      · obtain ⟨htype, hid, -⟩ := Report.event.inj heq
        refine ⟨hterm.1, _, hended, ?_, ?_⟩
        · intro m hm
          rw [hm, Option.map_some] at htype
          split at htype
          · exact absurd htype (Option.some_ne_none _)
          · next hne =>
            have hcstr := (Option.some.inj htype).symm
            exact hblk.type_whole htracks hd hcstr (hcstr ▸ hne) (hterm.2.1 m hm)
        · intro m hm
          rw [hm, Option.map_some] at hid
          exact hblk.id_whole htracks hid.symm (hterm.2.2 m hm)
  · -- before its end a block hands nothing over
    rcases mem_openReports (nil_not_mem_openBlock _) (hopen _ hreport) with ⟨err, heq⟩ | ⟨ms, heq⟩
    · cases c with
      | onError _ => trivial
      | onRetry _ => trivial
      | onEvent _ => exact Report.noConfusion heq
      | onId _ _ => exact Report.noConfusion heq
    · cases c with
      | onError _ => trivial
      | onRetry _ => trivial
      | onEvent _ => exact Report.noConfusion heq
      | onId _ _ => exact Report.noConfusion heq

/-! ## §4 Sequences of Calls -/

/-- A call on a parser that has been initialised. -/
inductive ParserCall where
  | feed (chunk : Bytes)
  | reset
  deriving DecidableEq, Repr

def ParserCall.apply (p : SseParser) : ParserCall → SseParser
  | .feed chunk => (sseParserFeed p chunk).1
  | .reset => sseParserReset p

/-- The bytes fed since the last reset, when `s` is what had been fed before the call. -/
def ParserCall.hear (s : Bytes) : ParserCall → Bytes
  | .feed chunk => s ++ chunk
  | .reset => []

/-- The parser after a sequence of calls. A feed cut short is a feed, so this is the parser between any
two bytes of a run. -/
def afterCalls (cb : ParserCallbacks) (buf : ParserBuffers) (calls : List ParserCall) : SseParser :=
  calls.foldl ParserCall.apply (sseParserInit cb buf)

def fedSinceReset (calls : List ParserCall) : Bytes :=
  calls.foldl ParserCall.hear []

/-- The counters fit the buffer lengths, complete data lines end with their newline, and no store has
left its array. -/
structure BufferInvariant (lim : Limits) (p : SseParser) : Prop where
  nameLen : p.nameLen ≤ 6
  bomN : p.bomN ≤ 2
  dataLen : p.dataLen ≤ lim.data
  eventLen : p.eventLen ≤ lim.event - 1
  idLen : p.idLen ≤ lim.id - 1
  dataLines : p.blockDiscarded = false → 0 < p.dataLines → p.dataLines ≤ p.dataLen
  newline : p.state = .lineStart → p.blockDiscarded = false → 0 < p.dataLines →
    p.buf.dataBuf[p.dataLen - 1]? = some lf
  inBounds : p.oob = false

/-- The counters of a parser that has read a stream. -/
theorem Counted.invariant (h : Counted p) (hrep : StreamRep cb lim p s) : BufferInvariant lim p where
  nameLen := h.nameLen
  bomN := h.bomN
  dataLen := hrep.fits.data ▸ h.dataLen
  eventLen := Nat.le_sub_one_of_lt (hrep.fits.event ▸ h.eventLen)
  idLen := Nat.le_sub_one_of_lt (hrep.fits.id ▸ h.idLen)
  dataLines := fun _ _ => h.dataLines
  newline := hrep.newline
  inBounds := hrep.fits.inBounds

/-- A call keeps the counters and the stream read so far in step. -/
theorem Counted.apply (hlim : lim.Valid) (h : Counted p) (hrep : StreamRep cb lim p s)
    (call : ParserCall) :
    Counted (call.apply p) ∧ StreamRep cb lim (call.apply p) (call.hear s) := by
  cases call with
  | feed chunk =>
    have hfed : Counted (sseParserFeed p chunk).1 := run_invariant (fun q c hq => hq.processByte c) _ h
    exact ⟨hfed, (feed_spec hlim hrep chunk).1⟩
  | reset =>
    have hlim' : p.buf.limits.Valid := hrep.fits.limits ▸ hlim
    exact ⟨counted_init p.cb hlim', streamRep_reset hlim hrep⟩

/-- Every sequence of calls. -/
theorem afterCalls_spec (cb : ParserCallbacks) (buf : ParserBuffers) (hlim : buf.limits.Valid)
    (calls : List ParserCall) :
    Counted (afterCalls cb buf calls) ∧
      StreamRep cb buf.limits (afterCalls cb buf calls) (fedSinceReset calls) := by
  have hrun : ∀ (p : SseParser) (s : Bytes), Counted p → StreamRep cb buf.limits p s →
      Counted (calls.foldl ParserCall.apply p) ∧
        StreamRep cb buf.limits (calls.foldl ParserCall.apply p) (calls.foldl ParserCall.hear s) := by
    induction calls with
    | nil => exact fun p s h hrep => ⟨h, hrep⟩
    | cons call calls ih =>
      intro p s h hrep
      obtain ⟨h', hrep'⟩ := h.apply hlim hrep call
      exact ih _ _ h' hrep'
  exact hrun _ _ (counted_init cb hlim) (streamRep_init cb buf buf.limits hlim rfl rfl rfl)

/-- **The parser never leaves its buffers.** After any feeds and resets, in the middle of a feed too,
the counters fit and no store has left its array. The next byte does not wrap the retry accumulator,
and the strings that it hands over are terminated right behind the values that were on the wire. -/
theorem buffers_never_overrun (cb : ParserCallbacks) (buf : ParserBuffers) (hlim : buf.limits.Valid)
    (calls : List ParserCall) :
    BufferInvariant buf.limits (afterCalls cb buf calls) ∧
      ∀ b, Accumulates b (afterCalls cb buf calls).retryAcc
          (processByte (afterCalls cb buf calls) b).1.retryAcc ∧
        ∀ c ∈ (processByte (afterCalls cb buf calls) b).2,
          HandsOver (afterCalls cb buf calls) (fedSinceReset calls ++ [b]) c := by
  obtain ⟨hcounted, hrep⟩ := afterCalls_spec cb buf hlim calls
  refine ⟨hcounted.invariant hrep, fun b => ⟨accumulates_processByte _ b, ?_⟩⟩
  exact processByte_handsOver hlim hrep b

/-- The least buffers, a reset in the middle of a line, and then a block up to its empty line. -/
theorem buffers_never_overrun_of_least :
    let buf : ParserBuffers := ⟨[7, 7], [7, 7], [7, 7]⟩
    let calls : List ParserCall :=
      [.feed (ascii "data:abc".toList), .reset, .feed (ascii "id:1\nevent:a\ndata:x\n".toList)]
    let p := afterCalls ⟨true, true, true, true⟩ buf calls
    BufferInvariant ⟨2, 2, 2⟩ p ∧
      (processByte p lf).2 =
        [.onId [0x31, 0] 1, .onEvent ⟨some [0x61, 0], some [0x31, 0], [0x78, 0], 1⟩] ∧
      ∀ c ∈ (processByte p lf).2, HandsOver p (fedSinceReset calls ++ [lf]) c := by
  intro buf calls p
  obtain ⟨hinv, hbyte⟩ := buffers_never_overrun ⟨true, true, true, true⟩ buf
    ⟨by decide, by decide, by decide⟩ calls
  exact ⟨hinv, by decide +kernel, (hbyte lf).2⟩

end EventSource.Parser
