import EventSource.Lib.Cut
import EventSource.Parser.Outcomes

/-!
# Writing an Event Stream

The other direction of the format: events, comments and retry times written as lines. What is written
is read back as it was, whatever the line ends and however the bytes are cut into chunks; and of a
stream that breaks off anywhere, the items written completely are read and nothing else.
-/

namespace EventSource.Parser

open EventSource.CMemory
open EventSource.Cut
open EventSource.Transducer

variable {lim : Limits}

/-! ## §1 Items -/

/-- An event that a parser with the given buffers can hold. Its data may have several lines; what no
stream can carry is left out by the fields. -/
structure Message (lim : Limits) where
  type : Bytes
  data : Bytes
  id : Option Bytes
  data_plain : cr ∉ data
  data_fits : data.length < lim.data
  type_plain : cr ∉ type ∧ lf ∉ type ∧ 0 ∉ type
  type_fits : type.length < lim.event
  id_plain : ∀ v ∈ id, cr ∉ v ∧ lf ∉ v ∧ 0 ∉ v
  id_fits : ∀ v ∈ id, v.length < lim.id

/-- What a server writes: an event, a comment, or the time to wait before a reconnect. -/
inductive Item (lim : Limits) where
  | message (m : Message lim)
  | comment (text : Bytes) (plain : cr ∉ text ∧ lf ∉ text)
  | retry (ms : UInt32)

/-- The id of an event, empty if there is none. -/
def Message.key (m : Message lim) : Bytes :=
  m.id.getD []

def Item.toMessage : Item lim → Option (Message lim)
  | .message m => some m
  | _ => none

/-- How a server ends its lines. -/
inductive Eol where
  | lf
  | cr
  | crlf
  deriving DecidableEq, Repr

def Eol.bytes : Eol → Bytes
  | .lf => [Parser.lf]
  | .cr => [Parser.cr]
  | .crlf => [Parser.cr, Parser.lf]

/-! ## §2 Writing -/

/-- A field line. The space behind the colon keeps a space that the value begins with. -/
def fieldLine (f : Field) (v : Bytes) : Bytes :=
  f.wireName ++ colon :: space :: v

/-- The decimal digits of a number. -/
def digitsOf (n : Nat) : Bytes :=
  if n < 10 then [0x30 + .ofNat n] else digitsOf (n / 10) ++ [0x30 + .ofNat (n % 10)]

/-- The field lines of an event. -/
def Message.fieldLines (m : Message lim) : List Bytes :=
  m.id.toList.map (fieldLine .id) ++ (if m.type = [] then [] else [fieldLine .event m.type]) ++
    (m.data.splitOn lf).map (fieldLine .data)

def Item.lines : Item lim → List Bytes
  | .message m => m.fieldLines ++ [[]]
  | .comment text _ => [colon :: text]
  | .retry ms => [fieldLine .retry (digitsOf ms.toNat)]

def writeLines (eol : Eol) (lines : List Bytes) : Bytes :=
  lines.flatMap (· ++ eol.bytes)

/-- A stream. -/
def writeItems (eol : Eol) (items : List (Item lim)) : Bytes :=
  writeLines eol (items.flatMap Item.lines)

/-- What a reader is told of an event. -/
def Message.reports (m : Message lim) : List Report :=
  m.id.toList.map (fun v => .id v v.length) ++
    [.event (if m.type = [] then none else some m.type) m.id m.data]

def Item.reports : Item lim → List Report
  | .message m => m.reports
  | .comment _ _ => []
  | .retry ms => [.retry ms]

/-! ## §3 Lines -/

/-- A line without a terminator in it. -/
def Plain (line : Bytes) : Prop :=
  cr ∉ line ∧ lf ∉ line

theorem Plain.append {a b : Bytes} (ha : Plain a) (hb : Plain b) : Plain (a ++ b) := by
  constructor
  · rw [List.mem_append, not_or]
    exact ⟨ha.1, hb.1⟩
  · rw [List.mem_append, not_or]
    exact ⟨ha.2, hb.2⟩

theorem splitLines_plain_append (cur : Bytes) {line : Bytes} (h : Plain line) (t : Bytes) :
    splitLines cur (line ++ t) = splitLines (cur ++ line) t := by
  induction line generalizing cur with
  | nil => rw [List.append_nil, List.nil_append]
  | cons b line ih =>
    have hcr : b ≠ cr := fun heq => h.1 (heq ▸ List.mem_cons_self)
    have hlf : b ≠ lf := fun heq => h.2 (heq ▸ List.mem_cons_self)
    have hrest : Plain line :=
      ⟨fun hmem => h.1 (List.mem_cons_of_mem _ hmem), fun hmem => h.2 (List.mem_cons_of_mem _ hmem)⟩
    rw [List.cons_append, splitLines_plain cur _ b hcr hlf, ih _ hrest, List.append_assoc,
      List.singleton_append]

/-- Nothing written with CR ends begins with an LF. -/
theorem dropLf_writeLines {lines : List Bytes} (h : ∀ l ∈ lines, Plain l) :
    dropLf (writeLines .cr lines) = writeLines .cr lines := by
  have hhead : (writeLines .cr lines).head? ≠ some lf := by
    cases lines with
    | nil => simp [writeLines]
    | cons line lines =>
      cases line with
      | nil => exact fun heq => absurd (Option.some.inj heq) (by decide)
      | cons b line =>
        intro heq
        exact (h _ List.mem_cons_self).2 (Option.some.inj heq ▸ List.mem_cons_self)
  have hself := dropLf_append (t := []) (.inr (by simp)) hhead
  rwa [List.append_nil] at hself

/-- **Lines are read back.** -/
theorem splitLines_writeLines (eol : Eol) {lines : List Bytes} (h : ∀ l ∈ lines, Plain l) :
    splitLines [] (writeLines eol lines) = (lines, []) := by
  induction lines with
  | nil => rfl
  | cons line lines ih =>
    have hrest : ∀ l ∈ lines, Plain l := fun l hl => h l (List.mem_cons_of_mem _ hl)
    have hih := ih hrest
    have hsplit : writeLines eol (line :: lines) = line ++ (eol.bytes ++ writeLines eol lines) := by
      unfold writeLines
      rw [List.flatMap_cons, List.append_assoc]
    have hend : splitLines line (eol.bytes ++ writeLines eol lines) =
        consLine line (splitLines [] (writeLines eol lines)) := by
      cases eol with
      | lf => exact splitLines_lf line _
      | cr =>
        -- no line that follows begins with an LF
        have hcr := splitLines_cr line (writeLines .cr lines)
        rw [dropLf_writeLines hrest] at hcr
        exact hcr
      | crlf => exact splitLines_cr line (lf :: writeLines .crlf lines)
    rw [hsplit, splitLines_plain_append [] (h line List.mem_cons_self), List.nil_append, hend, hih]
    rfl

/-! ## §4 Numbers -/

theorem toNat_digit {d : Nat} (h : d < 10) : ((0x30 : UInt8) + .ofNat d).toNat = 0x30 + d := by
  rw [UInt8.toNat_add, UInt8.toNat_ofNat']
  simp
  omega

theorem isDigit_digit {d : Nat} (h : d < 10) : isDigit (0x30 + .ofNat d) = true := by
  have hval := toNat_digit h
  unfold isDigit
  rw [Bool.and_eq_true, decide_eq_true_eq, decide_eq_true_eq, UInt8.le_iff_toNat_le,
    UInt8.le_iff_toNat_le, hval]
  simp
  omega

theorem digitsOf_ne_nil (n : Nat) : digitsOf n ≠ [] := by
  unfold digitsOf
  split <;> simp

theorem isDigit_of_mem_digitsOf {n : Nat} {b : UInt8} (hb : b ∈ digitsOf n) :
    isDigit b = true := by
  induction n using digitsOf.induct with
  | case1 n h =>
    unfold digitsOf at hb
    rw [if_pos h, List.mem_singleton] at hb
    rw [hb]
    exact isDigit_digit h
  | case2 n h ih =>
    unfold digitsOf at hb
    rw [if_neg h, List.mem_append, List.mem_singleton] at hb
    rcases hb with hb | rfl
    · exact ih hb
    · exact isDigit_digit (Nat.mod_lt n (by decide))

/-- A number is read back from its digits. -/
theorem decimal_digitsOf (n : Nat) : decimal (digitsOf n) = n := by
  induction n using digitsOf.induct with
  | case1 n h =>
    unfold digitsOf
    rw [if_pos h]
    have hone := decimal_snoc [] (0x30 + .ofNat n)
    have hnil : decimal [] = 0 := rfl
    rw [hnil, toNat_digit h] at hone
    rw [List.nil_append] at hone
    omega
  | case2 n h ih =>
    have hlast : n % 10 < 10 := Nat.mod_lt n (by decide)
    unfold digitsOf
    rw [if_neg h, decimal_snoc, ih, toNat_digit hlast]
    omega

/-! ## §5 The Lines of an Item -/

theorem plain_fieldLine (f : Field) {v : Bytes} (hv : Plain v) : Plain (fieldLine f v) := by
  have hname : Plain f.wireName := by
    unfold Plain
    cases f <;> decide
  have hsep : Plain [colon, space] := by
    unfold Plain
    decide
  have happ := hname.append (hsep.append hv)
  exact happ

/-- The beginning of a line tells it from a byte-order mark. -/
theorem head_fieldLine (f : Field) (v : Bytes) : (fieldLine f v).head? ≠ some 0xEF := by
  cases f <;> exact fun h => absurd (Option.some.inj h) (by decide)

theorem Message.plain_of_mem {m : Message lim} {line : Bytes} (h : line ∈ m.fieldLines) :
    ∃ f v, line = fieldLine f v ∧ Plain v := by
  unfold fieldLines at h
  rw [List.mem_append, List.mem_append] at h
  rcases h with (h | h) | h
  · obtain ⟨v, hv, rfl⟩ := List.mem_map.mp h
    have hplain := m.id_plain v (Option.mem_toList.mp hv)
    exact ⟨.id, v, rfl, hplain.1, hplain.2.1⟩
  · split at h
    · exact absurd h List.not_mem_nil
    · rw [List.mem_singleton] at h
      exact ⟨.event, m.type, h, m.type_plain.1, m.type_plain.2.1⟩
  · obtain ⟨v, hv, rfl⟩ := List.mem_map.mp h
    have hpiece := Cut.of_mem_splitOn hv
    exact ⟨.data, v, rfl, fun hcr => m.data_plain (hpiece.2 _ hcr), hpiece.1⟩

theorem plain_digitsOf (n : Nat) : Plain (digitsOf n) := by
  constructor
  · intro hmem
    exact absurd (isDigit_of_mem_digitsOf hmem) (by decide)
  · intro hmem
    exact absurd (isDigit_of_mem_digitsOf hmem) (by decide)

theorem Item.plain_of_mem {it : Item lim} {line : Bytes} (h : line ∈ it.lines) :
    Plain line ∧ line.head? ≠ some 0xEF := by
  cases it with
  | message m =>
    rcases List.mem_append.mp h with h | h
    · obtain ⟨f, v, rfl, hv⟩ := m.plain_of_mem h
      exact ⟨plain_fieldLine f hv, head_fieldLine f v⟩
    · rw [List.mem_singleton.mp h]
      exact ⟨⟨List.not_mem_nil, List.not_mem_nil⟩, by simp⟩
  | comment text plain =>
    rw [List.mem_singleton.mp h]
    have hcolon : Plain [colon] := by
      unfold Plain
      decide
    exact ⟨hcolon.append plain, fun heq => absurd (Option.some.inj heq) (by decide)⟩
  | retry ms =>
    rw [List.mem_singleton.mp h]
    exact ⟨plain_fieldLine .retry (plain_digitsOf _), head_fieldLine _ _⟩

theorem Item.lines_ne_nil (it : Item lim) : it.lines ≠ [] := by
  cases it with
  | message m => simp [Item.lines]
  | comment text plain => simp [Item.lines]
  | retry ms => simp [Item.lines]

theorem plain_of_mem_lines {items : List (Item lim)} {line : Bytes}
    (h : line ∈ items.flatMap Item.lines) : Plain line ∧ line.head? ≠ some 0xEF := by
  obtain ⟨it, -, hline⟩ := List.mem_flatMap.mp h
  exact it.plain_of_mem hline

/-! ## §6 Reading the Lines of an Item -/

theorem readLine_fieldLine {f : Field} (hf : f ≠ .none) (blk : Block) (v : Bytes) :
    readLine lim blk (fieldLine f v) = readField lim blk f v :=
  readLine_value hf (space :: v)

/-- Data lines that fit are collected. -/
theorem run_dataLines (blk : Block) (hd : blk.discarded = false) (vs : List Bytes)
    (hfit : blk.size + (vs.map (·.length + 1)).sum ≤ lim.data) :
    run (readLine lim) blk (vs.map (fieldLine .data)) =
      ({ blk with values := blk.values ++ vs }, []) := by
  induction vs generalizing blk with
  | nil => simp
  | cons v vs ih =>
    rw [List.map_cons, List.sum_cons] at hfit
    have hline : readLine lim blk (fieldLine .data v) =
        ({ blk with values := blk.values ++ [v] }, []) := by
      rw [readLine_fieldLine (by decide)]
      simp only [readField, hd, Bool.false_eq_true, if_false]
      rw [if_neg (by omega)]
    have hsize : Block.size { blk with values := blk.values ++ [v] } =
        blk.size + (v.length + 1) := by
      simp [Block.size]
    have hrest := ih { blk with values := blk.values ++ [v] } hd (by
      rw [hsize]
      omega)
    rw [List.map_cons, run_cons, hline]
    simp only [andThen, hrest]
    simp

theorem Message.sum_dataLines (m : Message lim) :
    ((m.data.splitOn lf).map (·.length + 1)).sum = m.data.length + 1 := by
  have hne : m.data.splitOn lf ≠ [] := List.splitOn_ne_nil lf m.data
  let blk : Block := ⟨m.data.splitOn lf, [], none, false⟩
  have hdata : m.data = blk.text.dropLast := by
    have hjoin := intercalate_eq_dropLast hne
    rwa [List.intercalate_splitOn] at hjoin
  have hpos : 0 < blk.size := Block.size_pos hne
  have hlen := congrArg List.length hdata
  rw [List.length_dropLast, length_text] at hlen
  have hsize : blk.size = ((m.data.splitOn lf).map (·.length + 1)).sum := rfl
  omega

/-- The block that an event's field lines make. -/
def Message.block (m : Message lim) : Block :=
  ⟨m.data.splitOn lf, m.type, m.id, false⟩

/-- **The field lines of an event make its block,** and report nothing. -/
theorem Message.run_fieldLines (m : Message lim) :
    run (readLine lim) .empty m.fieldLines = (m.block, []) := by
  -- field by field, in the order in which they are written
  have hid : run (readLine lim) .empty (m.id.toList.map (fieldLine .id)) =
      (⟨[], [], m.id, false⟩, []) := by
    cases hm : m.id with
    | none => rfl
    | some v =>
      have hplain := m.id_plain v (Option.mem_def.mpr hm)
      have hok : idRejected lim v = false :=
        idRejected_eq_false.mpr ⟨hplain.2.2, m.id_fits v (Option.mem_def.mpr hm)⟩
      show andThen (readLine lim .empty (fieldLine .id v)) _ = _
      rw [readLine_fieldLine (by decide)]
      simp only [readField, hok]
      rfl
  have htype : run (readLine lim) ⟨[], [], m.id, false⟩
      (if m.type = [] then [] else [fieldLine .event m.type]) =
        (⟨[], m.type, m.id, false⟩, []) := by
    split
    · next hnone => rw [hnone]; rfl
    · have hok : typeFault lim m.type = none :=
        typeFault_eq_none.mpr ⟨m.type_plain.2.2, m.type_fits⟩
      show andThen (readLine lim _ (fieldLine .event m.type)) _ = _
      rw [readLine_fieldLine (by decide)]
      simp only [readField, hok]
      rfl
  have hfit : Block.size ⟨[], m.type, m.id, false⟩ +
      ((m.data.splitOn lf).map (·.length + 1)).sum ≤ lim.data := by
    rw [m.sum_dataLines]
    have hfits := m.data_fits
    show 0 + _ ≤ _
    omega
  have hdata := run_dataLines ⟨[], m.type, m.id, false⟩ rfl (m.data.splitOn lf) hfit
  unfold fieldLines
  rw [run_append, run_append, hid]
  simp only [andThen, htype, hdata]
  rfl

/-- Nothing of an event is reported before its last line. -/
theorem Item.run_partial {it : Item lim} {part : List Bytes} (h : part <+: it.lines)
    (hne : part ≠ it.lines) : (run (readLine lim) .empty part).2 = [] := by
  cases it with
  | message m =>
    -- the last line is the blank one
    have hfields : part <+: m.fieldLines := by
      rcases (List.prefix_concat_iff).mp h with heq | hpre
      · exact absurd heq hne
      · exact hpre
    obtain ⟨rest, hrest⟩ := hfields
    have hall := congrArg Prod.snd m.run_fieldLines
    rw [← hrest, run_append, andThen_snd] at hall
    exact (List.append_eq_nil_iff.mp hall).1
  | comment text plain =>
    have hnil : part = [] := by
      rcases eq_of_prefix_singleton h with hnil | heq
      · exact hnil
      · exact absurd heq hne
    rw [hnil]
    rfl
  | retry ms =>
    have hnil : part = [] := by
      rcases eq_of_prefix_singleton h with hnil | heq
      · exact hnil
      · exact absurd heq hne
    rw [hnil]
    rfl

/-- **An item is read back,** and what follows starts afresh. -/
theorem Item.run_lines (it : Item lim) :
    run (readLine lim) .empty it.lines = (.empty, it.reports) := by
  cases it with
  | message m =>
    have hne : m.data.splitOn lf ≠ [] := List.splitOn_ne_nil lf m.data
    -- the blank line dispatches the block
    show run (readLine lim) .empty (m.fieldLines ++ [[]]) = _
    rw [run_snoc, m.run_fieldLines]
    show (Block.empty, [] ++ dispatchReports m.block) = _
    have hevent : eventReports m.block =
        [.event (if m.type = [] then none else some m.type) m.id m.data] := by
      unfold eventReports Message.block
      simp only [Bool.false_or, decide_eq_true_eq, if_neg hne]
      rw [List.intercalate_splitOn]
    have hid : idReports m.block = m.id.toList.map fun v => .id v v.length := by
      unfold idReports Message.block
      cases m.id <;> rfl
    rw [List.nil_append, dispatchReports, hevent, hid]
    rfl
  | comment text plain => rfl
  | retry ms =>
    have hdigits : digitsOf ms.toNat ≠ [] ∧ (digitsOf ms.toNat).all isDigit = true :=
      ⟨digitsOf_ne_nil _, List.all_eq_true.mpr fun b hb => isDigit_of_mem_digitsOf hb⟩
    -- a time of 32 bits is never clamped
    have hclamp : min ms.toNat (2 ^ 32 - 1) = ms.toNat := by
      have hlt := ms.toNat_lt
      omega
    show andThen (readLine lim .empty (fieldLine .retry _)) _ = _
    rw [readLine_fieldLine (by decide)]
    simp only [readField, if_pos hdigits, decimal_digitsOf, hclamp]
    simp [andThen, Item.reports]

theorem run_items (items : List (Item lim)) :
    run (readLine lim) .empty (items.flatMap Item.lines) =
      (.empty, items.flatMap Item.reports) := by
  induction items with
  | nil => rfl
  | cons it items ih =>
    rw [List.flatMap_cons, run_append, it.run_lines]
    show ((run (readLine lim) .empty _).1, it.reports ++ (run (readLine lim) .empty _).2) = _
    rw [ih, List.flatMap_cons]

/-! ## §7 Whole Streams -/

/-- A stream, with or without a byte-order mark. -/
def writeStream (bom : Bool) (eol : Eol) (items : List (Item lim)) : Bytes :=
  (if bom then sseBom else []) ++ writeItems eol items

/-- What is written is not mistaken for a byte-order mark. -/
theorem not_bom_prefix_writeItems (eol : Eol) (items : List (Item lim)) {s : Bytes}
    (hs : s <+: writeItems eol items) : ¬ sseBom <+: s := by
  intro hbom
  have hhead : (writeItems eol items).head? = some 0xEF := by
    obtain ⟨t, ht⟩ := hbom.trans hs
    rw [← ht]
    rfl
  unfold writeItems writeLines at hhead
  cases hlines : items.flatMap Item.lines with
  | nil =>
    rw [hlines] at hhead
    exact absurd hhead (by simp)
  | cons line lines =>
    have hline := plain_of_mem_lines (hlines ▸ List.mem_cons_self : line ∈ items.flatMap Item.lines)
    rw [hlines, List.flatMap_cons] at hhead
    cases line with
    | nil => cases eol <;> exact absurd (Option.some.inj hhead) (by decide)
    | cons b line => exact hline.2 hhead

/-- An unfinished terminator is that of a finished line, or no terminator yet. -/
theorem splitLines_partial (eol : Eol) {line q : Bytes} (hline : Plain line)
    (hq : q <+: line ++ eol.bytes) (hne : q ≠ line ++ eol.bytes) :
    splitLines [] q = ([line], []) ∨ (splitLines [] q = ([], q) ∧ q <+: line) := by
  have hplain : ∀ {q : Bytes}, q <+: line → splitLines [] q = ([], q) := by
    intro q hq
    have hself : Plain q := ⟨fun h => hline.1 (hq.subset h), fun h => hline.2 (hq.subset h)⟩
    have hsplit := splitLines_plain_append [] hself []
    rwa [List.append_nil, List.nil_append] at hsplit
  rcases List.prefix_or_prefix_of_prefix hq (List.prefix_append line eol.bytes) with hin | ⟨t, rfl⟩
  · exact .inr ⟨hplain hin, hin⟩
  · have ht : t <+: eol.bytes := (List.prefix_append_right_inj _).mp hq
    have htne : t ≠ eol.bytes := fun heq => hne (by rw [heq])
    -- only a CRLF has a first half, and its CR ends the line
    have hcases : t = [] ∨ t = [cr] := by
      cases eol with
      | lf =>
        rcases eq_of_prefix_singleton ht with hnil | heq
        · exact .inl hnil
        · exact absurd heq htne
      | cr =>
        rcases eq_of_prefix_singleton ht with hnil | heq
        · exact .inl hnil
        · exact absurd heq htne
      | crlf =>
        have hpair : t <+: [cr] ++ [lf] := ht
        rcases List.prefix_concat_iff.mp hpair with heq | hpre
        · exact absurd heq htne
        · exact eq_of_prefix_singleton hpre
    rcases hcases with rfl | rfl
    · rw [List.append_nil]
      exact .inr ⟨hplain List.prefix_rfl, List.prefix_rfl⟩
    · rw [splitLines_plain_append [] hline, List.nil_append]
      exact .inl rfl

/-- The border between two lines cuts no CRLF in two. -/
theorem no_cut_crlf (eol : Eol) (lines : List Bytes) {line q : Bytes} (hline : Plain line)
    (hq : q <+: line ++ eol.bytes) :
    (writeLines eol lines).getLast? ≠ some cr ∨ q.head? ≠ some lf := by
  by_cases hcr : eol = .cr
  · -- no line begins with an LF, and no terminator does
    right
    intro hlf
    obtain ⟨t, ht⟩ := hq
    have hhead : (line ++ eol.bytes).head? = some lf := by
      rw [← ht, List.head?_append, hlf]
      rfl
    cases line with
    | nil =>
      rw [hcr] at hhead
      exact absurd (Option.some.inj hhead) (by decide)
    | cons b line => exact hline.2 (Option.some.inj hhead ▸ List.mem_cons_self)
  · -- every other terminator ends with an LF
    left
    induction lines using List.reverseRecOn with
    | nil => simp [writeLines]
    | append_singleton lines l _ =>
      have hlast : (writeLines eol (lines ++ [l])).getLast? = some lf := by
        unfold writeLines
        rw [List.flatMap_append]
        cases eol with
        | cr => exact absurd rfl hcr
        | lf => simp [Eol.bytes]
        | crlf => simp [Eol.bytes]
      rw [hlast]
      decide

/-- The lines of a stream that breaks off: complete ones, then the beginning of another. -/
theorem splitLines_prefix (eol : Eol) {lines : List Bytes} (h : ∀ l ∈ lines, Plain l) {s : Bytes}
    (hs : s <+: writeLines eol lines) : (splitLines [] s).1 <+: lines := by
  obtain ⟨j, q, -, rfl, hq⟩ := Cut.prefix_flatMap hs
  have htake : ∀ l ∈ lines.take j, Plain l := fun l hl => h l (List.mem_of_mem_take hl)
  have hdone : splitLines [] (writeLines eol (lines.take j)) = (lines.take j, []) :=
    splitLines_writeLines eol htake
  rcases hq with rfl | ⟨line, hline, hpre, hne⟩
  · rw [List.append_nil]
    show (splitLines [] (writeLines eol (lines.take j))).1 <+: lines
    rw [hdone]
    exact List.take_prefix _ _
  · have hplain : Plain line := h line (List.mem_of_getElem? hline)
    have hborder := no_cut_crlf eol (lines.take j) hplain hpre
    show (splitLines [] (writeLines eol (lines.take j) ++ q)).1 <+: lines
    rw [splitLines_append _ _ _ hborder, hdone]
    show lines.take j ++ (splitLines [] q).1 <+: lines
    rcases splitLines_partial eol hplain hpre hne with hend | ⟨hopen, -⟩
    · rw [hend]
      have hnext : lines.take j ++ [line] = lines.take (j + 1) := by
        rw [List.take_add_one, hline]
        rfl
      rw [hnext]
      exact List.take_prefix _ _
    · rw [hopen, List.append_nil]
      exact List.take_prefix _ _

/-- More bytes only add lines. -/
theorem splitLines_mono (s t : Bytes) : (splitLines [] s).1 <+: (splitLines [] (s ++ t)).1 := by
  induction t using List.reverseRecOn with
  | nil => exact (List.append_nil s).symm ▸ List.prefix_rfl
  | append_singleton t b ih =>
    rw [← List.append_assoc]
    apply ih.trans
    by_cases hcr : b = cr
    · rw [hcr, splitLines_snoc_cr]
      exact List.prefix_append _ _
    · by_cases hlf : b = lf
      · subst hlf
        by_cases hlast : (s ++ t).getLast? = some cr
        · exact splitLines_snoc_crlf [] hlast ▸ List.prefix_rfl
        · rw [splitLines_snoc_lf [] hlast]
          exact List.prefix_append _ _
      · exact splitLines_snoc_plain [] _ hcr hlf ▸ List.prefix_rfl

theorem splitLines_writeItems (eol : Eol) (items : List (Item lim)) :
    splitLines [] (writeItems eol items) = (items.flatMap Item.lines, []) :=
  splitLines_writeLines eol fun _ hl => (plain_of_mem_lines hl).1

theorem textReports_writeItems (eol : Eol) (items : List (Item lim)) :
    textReports lim (writeItems eol items) = items.flatMap Item.reports := by
  unfold textReports readText
  rw [splitLines_writeItems, run_items]
  exact List.append_nil _

theorem dropBom_writeItems (eol : Eol) {items : List (Item lim)} {s : Bytes}
    (hs : s <+: writeItems eol items) : dropBom s = s :=
  dropBom_eq_self (not_bom_prefix_writeItems eol items hs)

/-- **What is written is read back.** -/
theorem reading_writeStream (bom : Bool) (eol : Eol) (items : List (Item lim)) :
    readingWithTail lim (writeStream bom eol items) = items.flatMap Item.reports := by
  unfold readingWithTail writeStream
  cases bom with
  | false =>
    show textReports lim (dropBom ([] ++ writeItems eol items)) = _
    rw [List.nil_append, dropBom_writeItems eol List.prefix_rfl, textReports_writeItems]
  | true =>
    show textReports lim (dropBom (sseBom ++ writeItems eol items)) = _
    rw [dropBom_bom, textReports_writeItems]

/-- No item is reported as an error. -/
theorem Item.no_error {it : Item lim} {r : Report} (hr : r ∈ it.reports) (err : ParseError) :
    r ≠ .error err := by
  rintro rfl
  cases it with
  | message m =>
    rcases List.mem_append.mp hr with hr | hr
    · obtain ⟨v, -, heq⟩ := List.mem_map.mp hr
      exact Report.noConfusion heq
    · exact Report.noConfusion (List.mem_singleton.mp hr)
  | comment text plain => exact absurd hr List.not_mem_nil
  | retry ms => exact Report.noConfusion (List.mem_singleton.mp hr)

/-- The line that a stream breaks off in has reported nothing: all it could report are faults, and
they would stay in the reading of the whole stream. -/
theorem earlyReports_writeItems (hlim : lim.Valid) (eol : Eol) {items : List (Item lim)} {s : Bytes}
    (hs : s <+: writeItems eol items) :
    earlyReports lim (readText lim s).1 (splitLines [] s).2 = [] := by
  obtain ⟨t, ht⟩ := hs
  have hmono := readingWithTail_mono hlim s t
  rw [ht] at hmono
  unfold readingWithTail at hmono
  rw [dropBom_writeItems eol ⟨t, ht⟩, dropBom_writeItems eol List.prefix_rfl,
    textReports_writeItems] at hmono
  by_contra hsome
  obtain ⟨r, hr⟩ := List.exists_mem_of_ne_nil _ hsome
  obtain ⟨err, heq⟩ := mem_earlyReports hr
  obtain ⟨it, -, hit⟩ := List.mem_flatMap.mp (hmono.subset (List.mem_append_right _ hr))
  exact Item.no_error hit err heq

/-- Items whose lines are among the complete ones come before the item that is cut. -/
theorem le_of_complete {items : List (Item lim)} {i k : Nat} {part : List Bytes}
    (hcut : part = [] ∨ ∃ it, items[i]? = some it ∧ part <+: it.lines ∧ part ≠ it.lines)
    (hk : k ≤ items.length)
    (hle : ((items.take k).flatMap Item.lines).length ≤
      ((items.take i).flatMap Item.lines ++ part).length) : k ≤ i := by
  by_contra hlt
  rw [not_le] at hlt
  have hnext : i < items.length := by omega
  -- the first `k` items contain the one that is cut, with all its lines
  have hmore : ((items.take i).flatMap Item.lines).length + items[i].lines.length ≤
      ((items.take k).flatMap Item.lines).length := by
    have hpre : items.take (i + 1) <+: items.take k := by
      rw [List.prefix_take_iff]
      exact ⟨List.take_prefix _ _, by rw [List.length_take]; omega⟩
    obtain ⟨more, hsplit⟩ := hpre
    rw [← hsplit, List.take_succ_eq_append_getElem hnext, List.flatMap_append,
      List.flatMap_append, List.flatMap_singleton, List.length_append, List.length_append]
    omega
  have hpartial : part.length < items[i].lines.length := by
    rcases hcut with rfl | ⟨it, hit, hpre, hne⟩
    · exact List.length_pos_iff.mpr (Item.lines_ne_nil _)
    · rw [List.getElem?_eq_getElem hnext] at hit
      rw [Option.some.inj hit]
      exact Nat.lt_of_le_of_ne hpre.length_le fun heq => hne (hpre.eq_of_length heq)
  rw [List.length_append] at hle
  omega

/-- The text of a stream that breaks off. -/
theorem textReports_prefix (hlim : lim.Valid) (eol : Eol) {items : List (Item lim)} {s : Bytes}
    (hs : s <+: writeItems eol items) :
    ∃ i ≤ items.length, textReports lim s = (items.take i).flatMap Item.reports ∧
      ∀ k ≤ items.length, writeItems eol (items.take k) <+: s → k ≤ i := by
  have hlines := splitLines_prefix eol (fun l hl => (plain_of_mem_lines hl).1) hs
  obtain ⟨i, part, hi, hpart, hcut⟩ := Cut.prefix_flatMap hlines
  have hquiet : (run (readLine lim) .empty part).2 = [] := by
    rcases hcut with rfl | ⟨it, -, hpre, hne⟩
    · rfl
    · exact Item.run_partial hpre hne
  have hread : (readText lim s).2 = (items.take i).flatMap Item.reports := by
    unfold readText
    rw [hpart, run_append, run_items, andThen_snd, hquiet, List.append_nil]
  refine ⟨i, hi, ?_, fun k hk hwhole => le_of_complete hcut hk ?_⟩
  · unfold textReports
    rw [hread, earlyReports_writeItems hlim eol hs, List.append_nil]
  · -- the lines of the first `k` items are among the complete ones
    rw [← hpart]
    obtain ⟨t, rfl⟩ := hwhole
    have hmono := (splitLines_mono (writeItems eol (items.take k)) t).length_le
    rwa [splitLines_writeItems] at hmono

/-- **Of a stream that breaks off the complete items are read.** The item it breaks off in leaves no
trace; every item written completely is told. -/
theorem reading_prefix (hlim : lim.Valid) (bom : Bool) (eol : Eol) {items : List (Item lim)}
    {s : Bytes} (hs : s <+: writeStream bom eol items) :
    ∃ i ≤ items.length, readingWithTail lim s = (items.take i).flatMap Item.reports ∧
      ∀ k ≤ items.length, writeStream bom eol (items.take k) <+: s → k ≤ i := by
  unfold readingWithTail
  cases bom with
  | false =>
    have hs' : s <+: writeItems eol items := hs
    rw [dropBom_writeItems eol hs']
    exact textReports_prefix hlim eol hs'
  | true =>
    have hs' : s <+: sseBom ++ writeItems eol items := hs
    rcases List.prefix_or_prefix_of_prefix hs' (List.prefix_append _ _) with hin | ⟨t, rfl⟩
    · by_cases hbom : s = sseBom
      · -- the mark alone
        obtain ⟨i, hi, hread, hmost⟩ :=
          textReports_prefix hlim eol (List.nil_prefix (l := writeItems eol items))
        refine ⟨i, hi, by rw [hbom]; exact hread, fun k hk hwhole => hmost k hk ?_⟩
        rw [hbom] at hwhole
        have hnil : sseBom ++ writeItems eol (items.take k) <+: sseBom ++ [] := by
          rw [List.append_nil]
          exact hwhole
        exact (List.prefix_append_right_inj _).mp hnil
      · -- a part of it
        have hshort : s.length ≤ 2 := by
          have hlt := Nat.lt_of_le_of_ne hin.length_le fun heq => hbom (hin.eq_of_length heq)
          exact Nat.le_of_lt_succ hlt
        rw [List.prefix_iff_eq_take.mp hin, dropBom_sseBom _ hshort, (readText_sseBom lim _ hshort).2]
        refine ⟨0, Nat.zero_le _, rfl, fun k _ hwhole => ?_⟩
        have hlen : (sseBom ++ writeItems eol (items.take k)).length ≤ (sseBom.take s.length).length :=
          hwhole.length_le
        rw [List.length_append, List.length_take] at hlen
        have hthree : sseBom.length = 3 := rfl
        omega
    · have ht : t <+: writeItems eol items := (List.prefix_append_right_inj _).mp hs'
      rw [dropBom_bom]
      obtain ⟨i, hi, hread, hmost⟩ := textReports_prefix hlim eol ht
      refine ⟨i, hi, hread, fun k hk hwhole => hmost k hk ?_⟩
      exact (List.prefix_append_right_inj sseBom).mp hwhole

/-! ## §8 Through the Parser -/

/-- What a fresh parser fires for a stream in chunks. -/
theorem feedChunks_reports (cb : ParserCallbacks) (buf : ParserBuffers) (chunks : List Bytes)
    (hlim : buf.limits.Valid) :
    (feedChunks (sseParserInit cb buf) chunks).2.map Callback.report =
      (readingWithTail buf.limits chunks.flatten).filter cb.accepts := by
  rw [feedChunks_eq]
  exact (feed_init cb buf hlim chunks.flatten).1.reports

/-- **Round trip.** Whatever the line ends, with or without a byte-order mark, however the bytes are
cut and whatever the buffers held, a fresh parser fires exactly the callbacks of what was written. -/
theorem feedChunks_writeStream (cb : ParserCallbacks) (buf : ParserBuffers) (bom : Bool) (eol : Eol)
    (items : List (Item buf.limits)) (chunks : List Bytes) (hlim : buf.limits.Valid)
    (hsent : chunks.flatten = writeStream bom eol items) :
    (feedChunks (sseParserInit cb buf) chunks).2.map Callback.report =
      (items.flatMap Item.reports).filter cb.accepts := by
  rw [feedChunks_reports cb buf chunks hlim, hsent, reading_writeStream]

/-- Buffers for short messages, with old bytes in them. -/
def shortBuffers : ParserBuffers :=
  ⟨List.replicate 8 7, List.replicate 4 7, List.replicate 4 7⟩

/-- A comment, then a message with two lines. -/
def shortItems : List (Item shortBuffers.limits) :=
  [.comment (ascii ['h', 'i']) (by decide),
    .message
      { type := []
        data := [0x61, lf, 0x62]
        id := some (ascii ['7'])
        data_plain := by decide
        data_fits := by decide
        type_plain := by decide
        type_fits := by decide
        id_plain := by decide
        id_fits := by decide }]

/-- The CRLF behind the comment arrives in two chunks. -/
theorem feedChunks_writeStream_short :
    (feedChunks (sseParserInit ⟨true, true, true, true⟩ shortBuffers)
        [(writeStream true .crlf shortItems).take 7,
          (writeStream true .crlf shortItems).drop 7]).2.map Callback.report =
      [.id (ascii ['7']) 1, .event none (some (ascii ['7'])) [0x61, lf, 0x62]] :=
  feedChunks_writeStream ⟨true, true, true, true⟩ shortBuffers true .crlf shortItems
    [(writeStream true .crlf shortItems).take 7, (writeStream true .crlf shortItems).drop 7]
    ⟨by decide, by decide, by decide⟩ (by decide)

/-- **A stream may break off at any byte.** The parser has told the first items in full, all that
arrived completely among them, and not a word of the others. -/
theorem feedChunks_brokenOff (cb : ParserCallbacks) (buf : ParserBuffers) (bom : Bool) (eol : Eol)
    (items : List (Item buf.limits)) (chunks : List Bytes) (hlim : buf.limits.Valid)
    (hsent : chunks.flatten <+: writeStream bom eol items) :
    ∃ i ≤ items.length,
      (feedChunks (sseParserInit cb buf) chunks).2.map Callback.report =
          ((items.take i).flatMap Item.reports).filter cb.accepts ∧
        ∀ k ≤ items.length, writeStream bom eol (items.take k) <+: chunks.flatten → k ≤ i := by
  obtain ⟨i, hi, hread, hmost⟩ := reading_prefix hlim bom eol hsent
  refine ⟨i, hi, ?_, hmost⟩
  rw [feedChunks_reports cb buf chunks hlim, hread]

/-- Broken off inside the message's second line. -/
theorem feedChunks_brokenOff_short :
    ∃ i ≤ 2,
      (feedChunks (sseParserInit ⟨true, true, true, true⟩ shortBuffers)
          [(writeStream false .lf shortItems).take 20]).2.map Callback.report =
          ((shortItems.take i).flatMap Item.reports).filter
            (ParserCallbacks.accepts ⟨true, true, true, true⟩) ∧
        ∀ k ≤ 2, writeStream false .lf (shortItems.take k) <+:
          [(writeStream false .lf shortItems).take 20].flatten → k ≤ i :=
  feedChunks_brokenOff ⟨true, true, true, true⟩ shortBuffers false .lf shortItems
    [(writeStream false .lf shortItems).take 20] ⟨by decide, by decide, by decide⟩ (by decide)

end EventSource.Parser
