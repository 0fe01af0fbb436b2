import EventSource.Parser.LineReading

/-!
# What a Parser State Stands For

The relation between the parser's buffers and flags and the reading of the bytes seen so far, one
part for each field, and what every function below `process_byte` does to it. Buffers are compared
up to their lengths only, so whatever bytes lie beyond never matter.
-/

namespace EventSource.Parser

open EventSource.CMemory
open EventSource.Transducer

variable {cb : ParserCallbacks} {lim : Limits} {p : SseParser} {blk : Block}

/-! ## §1 Callbacks and Reports -/

/-- The strings that a callback hands over are terminated inside their arrays, data and the id of
`on_id` right at their length. -/
def Callback.Terminated : Callback → Prop
  | .onEvent ev => ev.data[ev.dataLen]? = some 0 ∧ (∀ m, ev.event = some m → 0 ∈ m) ∧
      ∀ m, ev.id = some m → 0 ∈ m
  | .onId id len => id[len]? = some 0
  | _ => True

/-- The callbacks fired are the reports, less those whose callback is not set, and what they hand
over is terminated. -/
structure Emits (cb : ParserCallbacks) (outs : List Callback) (reports : List Report) : Prop where
  reports : outs.map Callback.report = reports.filter cb.accepts
  terminated : ∀ c ∈ outs, c.Terminated

theorem Emits.nil : Emits cb [] [] := ⟨rfl, by simp⟩

theorem Emits.append {o₁ o₂ : List Callback} {r₁ r₂ : List Report} (h₁ : Emits cb o₁ r₁)
    (h₂ : Emits cb o₂ r₂) : Emits cb (o₁ ++ o₂) (r₁ ++ r₂) := by
  refine ⟨by rw [List.map_append, List.filter_append, h₁.reports, h₂.reports], ?_⟩
  intro c hc
  rcases List.mem_append.mp hc with hc | hc
  · exact h₁.terminated c hc
  · exact h₂.terminated c hc

theorem accepts_report (cb : ParserCallbacks) (c : Callback) : cb.accepts c.report = cb.has c := by
  cases c <;> rfl

theorem emits_fire (hcb : p.cb = cb) {c : Callback} (hc : c.Terminated) :
    Emits cb (fire p c) [c.report] := by
  unfold fire
  rw [hcb]
  cases h : cb.has c with
  | true => exact ⟨by simp [accepts_report, h], by simpa using hc⟩
  | false => exact ⟨by simp [accepts_report, h], by simp⟩

theorem emits_emitPerr (hcb : p.cb = cb) (err : ParseError) :
    Emits cb (emitPerr p err) [.error err] :=
  emits_fire (c := .onError err) hcb trivial

/-! ## §2 Blocks -/

/-- Limits that `sse_client_init` accepts. -/
structure Limits.Valid (lim : Limits) : Prop where
  data : 2 ≤ lim.data
  id : 2 ≤ lim.id
  event : 2 ≤ lim.event

/-- The arrays have their declared lengths and no store has left them. -/
structure Fits (cb : ParserCallbacks) (lim : Limits) (p : SseParser) : Prop where
  cb : p.cb = cb
  data : p.buf.dataBuf.length = lim.data
  id : p.buf.idBuf.length = lim.id
  event : p.buf.eventBuf.length = lim.event
  name : p.name.length = 8
  inBounds : p.oob = false

/-- `data_buf` holds the text of `lines` complete data values, or of those and an unfinished one. -/
structure DataRep (p : SseParser) (text : Bytes) (lines : Nat) : Prop where
  held : Holds p.buf.dataBuf p.dataLen text
  lines : p.dataLines = lines

/-- `event_buf` holds the event type. -/
structure TypeRep (lim : Limits) (p : SseParser) (type : Bytes) : Prop where
  held : Holds p.buf.eventBuf p.eventLen type
  has : p.hasEvent = decide (type ≠ [])
  noNul : 0 ∉ type
  fits : type.length < lim.event

/-- `id_buf` holds the id, if there is one. -/
structure IdRep (lim : Limits) (p : SseParser) (id : Option Bytes) : Prop where
  has : p.hasId = id.isSome
  held : ∀ v, id = some v → Holds p.buf.idBuf p.idLen v ∧ 0 ∉ v ∧ v.length < lim.id

/-- At the start of a line the parser stands for the block read so far. A discarded block keeps
only its id. -/
structure BlockRep (cb : ParserCallbacks) (lim : Limits) (p : SseParser) (blk : Block) :
    Prop where
  fits : Fits cb lim p
  discarded : p.blockDiscarded = blk.discarded
  data : blk.discarded = false → DataRep p blk.text blk.values.length
  type : blk.discarded = false → TypeRep lim p blk.type
  id : IdRep lim p blk.id

theorem length_text (blk : Block) : blk.text.length = blk.size := by
  unfold Block.text Block.size
  rw [List.length_flatMap]
  simp

theorem text_push (blk : Block) (v type : Bytes) (id : Option Bytes) (discarded : Bool) :
    Block.text ⟨blk.values ++ [v], type, id, discarded⟩ = blk.text ++ v ++ [lf] := by
  simp [Block.text]

/-- The joined values are the text without its last newline. -/
theorem intercalate_eq_dropLast {values : List Bytes} (h : values ≠ []) :
    [lf].intercalate values = (values.flatMap (· ++ [lf])).dropLast := by
  induction values with
  | nil => exact absurd rfl h
  | cons v vs ih =>
    cases vs with
    | nil => simp
    | cons w ws =>
      have hne : (w :: ws).flatMap (· ++ [lf]) ≠ [] := by simp
      have hsplit : (v :: w :: ws).flatMap (· ++ [lf]) =
          (v ++ [lf]) ++ (w :: ws).flatMap (· ++ [lf]) := List.flatMap_cons
      rw [List.intercalate_cons_cons, ih (by simp), hsplit, List.dropLast_append_of_ne_nil hne]

theorem Block.size_pos {blk : Block} (h : blk.values ≠ []) : 0 < blk.size := by
  rw [← length_text, Block.text]
  cases hv : blk.values with
  | nil => exact absurd hv h
  | cons v vs =>
    rw [List.flatMap_cons, List.length_append, List.length_append, List.length_singleton]
    omega

/-- What is in `data_buf` before the terminator replaces the last newline. -/
theorem DataRep.take_joined (h : DataRep p blk.text blk.values.length) (hne : blk.values ≠ []) :
    p.buf.dataBuf.take (p.dataLen - 1) = [lf].intercalate blk.values := by
  rw [intercalate_eq_dropLast hne]
  show _ = blk.text.dropLast
  rw [List.dropLast_eq_take, ← h.held.2, ← h.held.1, List.take_take]
  congr 1
  omega

theorem BlockRep.size_le (h : BlockRep cb lim p blk) (hd : blk.discarded = false) :
    blk.size ≤ lim.data := by
  rw [← length_text, ← h.fits.data]
  exact (h.data hd).held.length_le

/-! ## §3 Dispatch -/

/-- Everything but the stores: terminators land past the held texts. -/
theorem dispatchId_spec (h : BlockRep cb lim p blk) :
    BlockRep cb lim (dispatchId p).1 blk ∧
      Emits cb (dispatchId p).2 (idReports blk) ∧
      ∀ v, blk.id = some v →
        cstr (dispatchId p).1.buf.idBuf = v ∧ 0 ∈ (dispatchId p).1.buf.idBuf := by
  unfold dispatchId idReports
  cases hid : blk.id with
  | none =>
    have hno : p.hasId = false := by rw [h.id.has, hid]; rfl
    rw [if_neg (by simp [hno])]
    exact ⟨h, Emits.nil, by simp⟩
  | some v =>
    have hyes : p.hasId = true := by rw [h.id.has, hid]; rfl
    obtain ⟨hheld, hnul, hlt⟩ := h.id.held v hid
    have hin : p.idLen < p.buf.idBuf.length := by rw [h.fits.id, hheld.2]; exact hlt
    -- the terminator goes right behind the id, which has no NUL
    have hcstr : cstr (p.buf.idBuf.set p.idLen 0) = v := hheld.cstr_set_nul hin hnul
    have hterm : (p.buf.idBuf.set p.idLen 0)[p.idLen]? = some 0 := List.getElem?_set_self hin
    rw [if_pos hyes]
    refine ⟨?_, ?_, ?_⟩
    · refine ⟨⟨h.fits.cb, h.fits.data, ?_, h.fits.event, h.fits.name, ?_⟩, h.discarded, ?_, ?_, ?_⟩
      · simp [storeId, h.fits.id]
      · simp [storeId, h.fits.inBounds, hin]
      · exact fun hd => ⟨(h.data hd).held, (h.data hd).lines⟩
      · exact fun hd => ⟨(h.type hd).held, (h.type hd).has, (h.type hd).noNul, (h.type hd).fits⟩
      · refine ⟨h.id.has, ?_⟩
        intro w hw
        obtain ⟨hheldw, hrest⟩ := h.id.held w hw
        exact ⟨⟨by rw [← hheldw.1]; exact take_set_self .., hheldw.2⟩, hrest⟩
    · have hfire := emits_fire (p := storeId p p.idLen 0)
        (c := .onId (storeId p p.idLen 0).buf.idBuf (storeId p p.idLen 0).idLen) h.fits.cb hterm
      have hrep : Callback.report (.onId (storeId p p.idLen 0).buf.idBuf (storeId p p.idLen 0).idLen)
          = .id v v.length := by
        show Report.id (cstr (p.buf.idBuf.set p.idLen 0)) p.idLen = _
        rw [hcstr, hheld.2]
      rw [hrep] at hfire
      exact hfire
    · rintro w ⟨⟩
      exact ⟨hcstr, List.mem_of_getElem? hterm⟩

/-- The event half reports the event, whose id `hid` has just been terminated. -/
theorem dispatchEvent_spec (h : BlockRep cb lim p blk)
    (hid : ∀ v, blk.id = some v → cstr p.buf.idBuf = v ∧ 0 ∈ p.buf.idBuf) :
    Fits cb lim (dispatchEvent p).1 ∧
      Emits cb (dispatchEvent p).2 (eventReports blk) := by
  unfold dispatchEvent eventReports
  cases hd : blk.discarded with
  | true =>
    rw [if_neg (by simp [h.discarded, hd])]
    exact ⟨h.fits, Emits.nil⟩
  | false =>
    have hdata := h.data hd
    have htype := h.type hd
    by_cases hv : blk.values = []
    · rw [if_neg (by simp [hdata.lines, hv])]
      simp only [hv, decide_true, Bool.or_true, if_true]
      exact ⟨h.fits, Emits.nil⟩
    · cases hcb : p.cb.onEvent with
      | false =>
        rw [if_neg (by simp)]
        refine ⟨h.fits, ?_, by simp⟩
        simp [hv, ParserCallbacks.accepts, ← h.fits.cb, hcb]
      | true =>
        have hpos : 0 < p.dataLines := by
          rw [hdata.lines]
          exact List.length_pos_of_ne_nil hv
        -- with a data line there is a last newline to replace
        have hlen : 0 < p.dataLen ∧ p.dataLen ≤ lim.data := by
          rw [hdata.held.2, length_text]
          exact ⟨Block.size_pos hv, h.size_le hd⟩
        have hin : p.dataLen - 1 < p.buf.dataBuf.length := by
          rw [h.fits.data]
          omega
        have hjoined : (p.buf.dataBuf.set (p.dataLen - 1) 0).take (p.dataLen - 1) =
            [lf].intercalate blk.values := by
          rw [take_set_self]
          exact hdata.take_joined hv
        -- the id has been terminated by the id half
        have hidrep : (if p.hasId then some p.buf.idBuf else none).map cstr = blk.id := by
          cases hb : blk.id with
          | none => simp [h.id.has, hb]
          | some v => simp [h.id.has, hb, (hid v hb).1]
        have hidterm : ∀ m, (if p.hasId then some p.buf.idBuf else none) = some m → 0 ∈ m := by
          intro m hm
          cases hb : blk.id with
          | none => simp [h.id.has, hb] at hm
          | some v =>
            simp only [h.id.has, hb, Option.isSome_some, if_true, Option.some.injEq] at hm
            rw [← hm]
            exact (hid v hb).2
        have hdataterm : (p.buf.dataBuf.set (p.dataLen - 1) 0)[p.dataLen - 1]? = some 0 :=
          List.getElem?_set_self hin
        -- the type leaves room for its terminator
        have hinev : p.eventLen < p.buf.eventBuf.length := by
          rw [h.fits.event, htype.held.2]
          exact htype.fits
        have hcstr : cstr (p.buf.eventBuf.set p.eventLen 0) = blk.type :=
          htype.held.cstr_set_nul hinev htype.noNul
        have htypeterm : (0 : UInt8) ∈ p.buf.eventBuf.set p.eventLen 0 :=
          List.mem_of_getElem? (List.getElem?_set_self hinev)
        rw [if_pos (by simp [h.discarded, hd, hpos])]
        simp only [hv, decide_false, Bool.or_false, Bool.false_eq_true, if_false]
        cases hev : p.hasEvent with
        | true =>
          have hne : blk.type ≠ [] := by simpa [htype.has] using hev
          refine ⟨⟨h.fits.cb, ?_, h.fits.id, ?_, h.fits.name, ?_⟩, ?_, ?_⟩
          · simp [storeData, storeEvent, h.fits.data]
          · simp [storeData, storeEvent, h.fits.event]
          · simp [storeData, storeEvent, h.fits.inBounds, hin, hinev]; omega
          · simp [fire, storeData, storeEvent, ParserCallbacks.has, hcb,
              ParserCallbacks.accepts, ← h.fits.cb, Callback.report, hjoined, hcstr, hne, hidrep]
          · simpa [fire, storeData, storeEvent, ParserCallbacks.has, hcb, Callback.Terminated]
              using ⟨hdataterm, htypeterm, by simpa using hidterm⟩
        | false =>
          -- an empty type is no type, and nothing is stored
          have hnil : blk.type = [] := by simpa [htype.has] using hev
          refine ⟨⟨h.fits.cb, ?_, h.fits.id, h.fits.event, h.fits.name, ?_⟩, ?_, ?_⟩
          · simp [storeData, h.fits.data]
          · simp [storeData, h.fits.inBounds, hin]; omega
          · simp [fire, storeData, ParserCallbacks.has, hcb,
              ParserCallbacks.accepts, ← h.fits.cb, Callback.report, hjoined, hnil, hidrep]
          · simpa [fire, storeData, ParserCallbacks.has, hcb, Callback.Terminated]
              using ⟨hdataterm, by simpa using hidterm⟩

/-- A cleared parser stands for the empty block. -/
theorem blockRep_clearBlock (hf : Fits cb lim p) (hlim : lim.Valid) :
    BlockRep cb lim (clearBlock p) .empty := by
  refine ⟨⟨hf.cb, hf.data, hf.id, hf.event, hf.name, hf.inBounds⟩, rfl, ?_, ?_, ?_⟩
  · exact fun _ => ⟨Holds.nil _, rfl⟩
  · exact fun _ => ⟨Holds.nil _, rfl, by simp [Block.empty], by
      simpa [Block.empty] using Nat.lt_of_lt_of_le Nat.zero_lt_two hlim.event⟩
  · exact ⟨rfl, by simp [Block.empty]⟩

/-- The empty line reports the block and starts a new one. -/
theorem dispatchBlock_spec (hlim : lim.Valid) (h : BlockRep cb lim p blk) :
    BlockRep cb lim (dispatchBlock p).1 .empty ∧
      Emits cb (dispatchBlock p).2 (dispatchReports blk) := by
  obtain ⟨h₁, hout₁, hid⟩ := dispatchId_spec h
  obtain ⟨h₂, hout₂⟩ := dispatchEvent_spec h₁ hid
  refine ⟨blockRep_clearBlock h₂ hlim, ?_⟩
  unfold dispatchBlock dispatchReports
  simpa using hout₁.append hout₂

/-! ## §4 Values in Progress -/

/-- A data line has written part of its value behind the block's text. -/
structure DataValue (cb : ParserCallbacks) (lim : Limits) (p : SseParser) (blk : Block)
    (v : Bytes) : Prop where
  fits : Fits cb lim p
  discarded : p.blockDiscarded = (blk.discarded || lim.data < blk.size + v.length)
  data : p.blockDiscarded = false → DataRep p (blk.text ++ v) blk.values.length
  type : p.blockDiscarded = false → TypeRep lim p blk.type
  id : IdRep lim p blk.id

/-- An event line has overwritten the block's type with part of its value. -/
structure TypeValue (cb : ParserCallbacks) (lim : Limits) (p : SseParser) (blk : Block)
    (v : Bytes) : Prop where
  fits : Fits cb lim p
  discarded : p.blockDiscarded = (blk.discarded || (typeFault lim v).isSome)
  data : p.blockDiscarded = false → DataRep p blk.text blk.values.length
  held : p.blockDiscarded = false → Holds p.buf.eventBuf p.eventLen v
  id : IdRep lim p blk.id

/-- An id line has overwritten the block's id with part of its value. -/
structure IdValue (cb : ParserCallbacks) (lim : Limits) (p : SseParser) (blk : Block)
    (v : Bytes) : Prop where
  fits : Fits cb lim p
  discarded : p.blockDiscarded = blk.discarded
  data : blk.discarded = false → DataRep p blk.text blk.values.length
  type : blk.discarded = false → TypeRep lim p blk.type
  invalid : p.idInvalid = idRejected lim v
  held : idRejected lim v = false → Holds p.buf.idBuf p.idLen v

/-- A retry line has accumulated its digits. -/
structure RetryValue (cb : ParserCallbacks) (lim : Limits) (p : SseParser) (blk : Block)
    (v : Bytes) : Prop where
  block : BlockRep cb lim p blk
  invalid : p.retryInvalid = !v.all isDigit
  seen : v.all isDigit → p.retrySeenDigit = decide (v ≠ [])
  acc : v.all isDigit → p.retryAcc.toNat = min (decimal v) (2 ^ 32 - 1)

/-- The parser is inside the value `v` of a line with field `f`. -/
def ValueRep (cb : ParserCallbacks) (lim : Limits) (p : SseParser) (blk : Block) (v : Bytes) :
    Field → Prop
  | .data => DataValue cb lim p blk v
  | .event => TypeValue cb lim p blk v
  | .id => IdValue cb lim p blk v
  | .retry => RetryValue cb lim p blk v
  | .none => False

/-- What one function call of the parser reports beyond `early`, with the state it leaves. -/
def Reports (cb : ParserCallbacks) (r : SseParser × List Callback) (before after : List Report)
    (P : SseParser → Prop) : Prop :=
  P r.1 ∧ ∃ new, Emits cb r.2 new ∧ after = before ++ new

theorem Reports.quiet {q : SseParser} {rs : List Report} {P : SseParser → Prop} (h : P q) :
    Reports cb (q, []) rs rs P :=
  ⟨h, [], Emits.nil, (List.append_nil rs).symm⟩

theorem Reports.mono {r : SseParser × List Callback} {before after : List Report}
    {P Q : SseParser → Prop} (h : Reports cb r before after P) (hPQ : P r.1 → Q r.1) :
    Reports cb r before after Q :=
  ⟨hPQ h.1, h.2⟩

/-- Reports add up along `andThen`. -/
theorem Reports.andThen {r : SseParser × List Callback} {f : SseParser → SseParser × List Callback}
    {a b c : List Report} {P Q : SseParser → Prop} (h : Reports cb r a b P)
    (hf : P r.1 → Reports cb (f r.1) b c Q) : Reports cb (Transducer.andThen r f) a c Q := by
  obtain ⟨hP, new₁, hout₁, rfl⟩ := h
  obtain ⟨hQ, new₂, hout₂, rfl⟩ := hf hP
  exact ⟨hQ, new₁ ++ new₂, hout₁.append hout₂, List.append_assoc ..⟩

theorem startValue_spec (hlim : lim.Valid) (h : BlockRep cb lim p blk) (hf : p.field ≠ .none) :
    ValueRep cb lim (startValue p) blk [] p.field := by
  unfold startValue
  cases hfield : p.field with
  | none => exact absurd hfield hf
  | data =>
    -- data lines append to the text there is
    refine ⟨h.fits, ?_, ?_, ?_, h.id⟩
    · cases hd : blk.discarded with
      | true => simp [h.discarded, hd]
      | false => simpa [h.discarded, hd] using h.size_le hd
    · intro hd
      rw [List.append_nil]
      exact h.data (h.discarded ▸ hd)
    · exact fun hd => h.type (h.discarded ▸ hd)
  | event =>
    -- an event line overwrites the type
    have hok : typeFault lim [] = none := by
      have := hlim.event
      simp [typeFault]
      omega
    refine ⟨⟨h.fits.cb, h.fits.data, h.fits.id, h.fits.event, h.fits.name, h.fits.inBounds⟩,
      ?_, ?_, fun _ => Holds.nil _, ⟨h.id.has, h.id.held⟩⟩
    · simp [h.discarded, hok]
    · intro hd
      have hrep := h.data (h.discarded ▸ hd)
      exact ⟨hrep.held, hrep.lines⟩
  | id =>
    -- an id line overwrites the id
    have hok : idRejected lim [] = false := by
      have := hlim.id
      simp [idRejected]
      omega
    refine ⟨⟨h.fits.cb, h.fits.data, h.fits.id, h.fits.event, h.fits.name, h.fits.inBounds⟩,
      h.discarded, ?_, ?_, hok.symm, fun _ => Holds.nil _⟩
    · exact fun hd => ⟨(h.data hd).held, (h.data hd).lines⟩
    · exact fun hd => ⟨(h.type hd).held, (h.type hd).has, (h.type hd).noNul, (h.type hd).fits⟩
  | retry =>
    refine ⟨⟨⟨h.fits.cb, h.fits.data, h.fits.id, h.fits.event, h.fits.name, h.fits.inBounds⟩,
      h.discarded, ?_, ?_, ⟨h.id.has, h.id.held⟩⟩, rfl, fun _ => rfl, fun _ => rfl⟩
    · exact fun hd => ⟨(h.data hd).held, (h.data hd).lines⟩
    · exact fun hd => ⟨(h.type hd).held, (h.type hd).has, (h.type hd).noNul, (h.type hd).fits⟩

end EventSource.Parser
