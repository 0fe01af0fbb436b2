import EventSource.Parser.Machine

/-!
# The Line-Based Reading of an Event Stream

What a stream means, read line by line and block by block over whole lists of bytes: no buffers,
no per-byte states. `EventSource.Parser.Refinement` shows that the incremental parser reports
exactly this reading.
-/

namespace EventSource.Parser

open EventSource.CMemory
open EventSource.Transducer

abbrev Bytes := List UInt8

/-! ## §1 Reports -/

/-- What an application can read off one callback. -/
inductive Report where
  | event (type : Option Bytes) (id : Option Bytes) (data : Bytes)
  | id (value : Bytes) (len : Nat)
  | retry (ms : UInt32)
  | error (err : ParseError)
  deriving DecidableEq, Repr

/-- Types and ids are read as C strings, data by its length. -/
def Callback.report : Callback → Report
  | .onEvent ev => .event (ev.event.map cstr) (ev.id.map cstr) (ev.data.take ev.dataLen)
  | .onId id len => .id (cstr id) len
  | .onRetry ms => .retry ms
  | .onError err => .error err

/-- Whether the callback that would carry a report is set. -/
def ParserCallbacks.accepts (cb : ParserCallbacks) : Report → Bool
  | .event _ _ _ => cb.onEvent
  | .id _ _ => cb.onId
  | .retry _ => cb.onRetry
  | .error _ => cb.onError

/-! ## §2 Lines -/

/-- Drop one leading byte-order mark. -/
def dropBom : Bytes → Bytes
  | 0xEF :: 0xBB :: 0xBF :: s => s
  | s => s

/-- Drop one leading LF. -/
def dropLf : Bytes → Bytes
  | 0x0A :: s => s
  | s => s

/-- Put a line in front of a split. -/
def consLine (line : Bytes) (r : List Bytes × Bytes) : List Bytes × Bytes :=
  (line :: r.1, r.2)

/-- Split into lines ended by CRLF, CR or LF, the line begun with `cur` being the first. The second
component is the unterminated rest. -/
def splitLines (cur : Bytes) : Bytes → List Bytes × Bytes
  | [] => ([], cur)
  | 0x0D :: 0x0A :: s => consLine cur (splitLines [] s)
  | 0x0D :: s => consLine cur (splitLines [] s)
  | 0x0A :: s => consLine cur (splitLines [] s)
  | b :: s => splitLines (cur ++ [b]) s

/-- The bytes before the first colon, or the whole line. -/
def fieldName (line : Bytes) : Bytes :=
  line.takeWhile (· ≠ colon)

/-- Remove one leading space. -/
def stripSpace : Bytes → Bytes
  | 0x20 :: v => v
  | v => v

/-- The bytes after the first colon minus one leading space, empty when there is no colon. -/
def fieldValue (line : Bytes) : Bytes :=
  stripSpace ((line.dropWhile (· ≠ colon)).drop 1)

/-- The field of a name, `none` for a name the standard does not know. -/
def fieldOf (name : Bytes) : Field :=
  if name = Field.data.wireName then .data
  else if name = Field.event.wireName then .event
  else if name = Field.id.wireName then .id
  else if name = Field.retry.wireName then .retry
  else .none

/-! ## §3 Fields -/

/-- The buffer lengths `data_buf_len`, `id_buf_len` and `event_buf_len`. -/
structure Limits where
  data : Nat
  id : Nat
  event : Nat
  deriving DecidableEq, Repr

/-- What a block has said so far. An empty type is the same as none. -/
structure Block where
  values : List Bytes
  type : Bytes
  id : Option Bytes
  discarded : Bool
  deriving DecidableEq, Repr

def Block.empty : Block := ⟨[], [], none, false⟩

/-- The data values, each with the newline that ends it. -/
def Block.text (blk : Block) : Bytes :=
  blk.values.flatMap (· ++ [lf])

/-- The sum of (length + 1) over the data values. -/
def Block.size (blk : Block) : Nat :=
  (blk.values.map (·.length + 1)).sum

/-- Why an event type cannot be represented, if it cannot. -/
def typeFault (lim : Limits) (v : Bytes) : Option ParseError :=
  if 0 ∈ v.take lim.event then some .eventTypeInvalid
  else if lim.event ≤ v.length then some .eventTypeTooLarge
  else none

/-- Whether an id value is dropped. -/
def idRejected (lim : Limits) (v : Bytes) : Bool :=
  0 ∈ v ∨ lim.id ≤ v.length

/-- The number written by decimal digits. -/
def decimal (v : Bytes) : Nat :=
  v.foldl (fun n b => n * 10 + (b.toNat - 0x30)) 0

/-- The block after a field line, and what the line reports. -/
def readField (lim : Limits) (blk : Block) (f : Field) (v : Bytes) : Block × List Report :=
  match f with
  | .data =>
    if blk.discarded then (blk, [])
    else if lim.data < blk.size + (v.length + 1) then
      ({ blk with discarded := true }, [.error .dataTooLarge])
    else ({ blk with values := blk.values ++ [v] }, [])
  | .event =>
    if blk.discarded then (blk, [])
    else
      match typeFault lim v with
      | some err => ({ blk with discarded := true }, [.error err])
      | none => ({ blk with type := v }, [])
  | .id =>
    if idRejected lim v then ({ blk with id := none }, [.error .idInvalid])
    else ({ blk with id := some v }, [])
  | .retry =>
    if v ≠ [] ∧ v.all isDigit then (blk, [.retry (.ofNat (min (decimal v) (2 ^ 32 - 1)))])
    else (blk, [.error .invalidRetry])
  | .none => (blk, [.error .unknownField])

/-! ## §4 Blocks -/

/-- The id a block reports at its end, even when it was discarded. -/
def idReports (blk : Block) : List Report :=
  match blk.id with
  | some v => [.id v v.length]
  | none => []

/-- The event a block reports at its end. -/
def eventReports (blk : Block) : List Report :=
  if blk.discarded || blk.values = [] then []
  else
    [.event (if blk.type = [] then none else some blk.type) blk.id
      ([lf].intercalate blk.values)]

/-- What the empty line that ends a block reports. -/
def dispatchReports (blk : Block) : List Report :=
  idReports blk ++ eventReports blk

/-- The block after a complete line, and what the line reports. -/
def readLine (lim : Limits) (blk : Block) (line : Bytes) : Block × List Report :=
  match line with
  | [] => (.empty, dispatchReports blk)
  | b :: _ =>
    if b = colon then (blk, [])
    else readField lim blk (fieldOf (fieldName line)) (fieldValue line)

/-- The reading of a text's complete lines. -/
def readText (lim : Limits) (t : Bytes) : Block × List Report :=
  run (readLine lim) .empty (splitLines [] t).1

/-- The reading of a stream's complete lines. -/
def reading (lim : Limits) (s : Bytes) : Block × List Report :=
  readText lim (dropBom s)

/-! ## §5 Unterminated Lines -/

/-- What a field line has reported before its terminator: the faults its bytes already prove. -/
def earlyField (lim : Limits) (blk : Block) (f : Field) (v : Bytes) : List Report :=
  match f with
  | .data =>
    if blk.discarded = false ∧ lim.data < blk.size + v.length then [.error .dataTooLarge] else []
  | .event => if blk.discarded then [] else (typeFault lim v).toList.map .error
  | .id => if idRejected lim v then [.error .idInvalid] else []
  | .retry => []
  | .none => [.error .unknownField]

/-- What an unterminated line has reported so far. A name of six bytes is unknown before its
colon. -/
def earlyReports (lim : Limits) (blk : Block) (cur : Bytes) : List Report :=
  match cur with
  | [] => []
  | b :: _ =>
    if b = colon then []
    else if colon ∈ cur then earlyField lim blk (fieldOf (fieldName cur)) (fieldValue cur)
    else if 5 < cur.length then [.error .unknownField]
    else []

/-- The reading of a text's complete lines, then what its unterminated last line has reported so
far. -/
def textReports (lim : Limits) (t : Bytes) : List Report :=
  (readText lim t).2 ++ earlyReports lim (readText lim t).1 (splitLines [] t).2

/-- The reading of a whole stream, unterminated last line included. -/
def readingWithTail (lim : Limits) (s : Bytes) : List Report :=
  textReports lim (dropBom s)

/-! ## §6 Splitting Lemmas -/

theorem splitLines_cr (cur s : Bytes) :
    splitLines cur (cr :: s) = consLine cur (splitLines [] (dropLf s)) := by
  unfold dropLf
  split
  · rfl
  · next h =>
    cases s with
    | nil => rfl
    | cons b s =>
      show splitLines cur (0x0D :: b :: s) = _
      rw [splitLines]
      exact h

theorem splitLines_lf (cur s : Bytes) :
    splitLines cur (lf :: s) = consLine cur (splitLines [] s) := by
  show splitLines cur (0x0A :: s) = _
  rw [splitLines]

theorem splitLines_plain (cur s : Bytes) (b : UInt8) (hcr : b ≠ cr) (hlf : b ≠ lf) :
    splitLines cur (b :: s) = splitLines (cur ++ [b]) s := by
  apply splitLines.eq_5
  · intro _ h
    exact absurd h hcr
  · exact hcr
  · exact hlf

theorem dropLf_append {s t : Bytes} (h : s ≠ [] ∨ t.head? ≠ some lf) (hs : s.head? ≠ some lf) :
    dropLf (s ++ t) = s ++ t := by
  have hhead : (s ++ t).head? ≠ some lf := by
    cases s with
    | nil => exact h.resolve_left (by simp)
    | cons b s => exact hs
  unfold dropLf
  split
  · next heq => exact absurd (congrArg List.head? heq) hhead
  · rfl

/-- Where no CRLF is cut in two, a stream can be split piece by piece. -/
theorem splitLines_append (cur s t : Bytes) (h : s.getLast? ≠ some cr ∨ t.head? ≠ some lf) :
    splitLines cur (s ++ t) =
      ((splitLines cur s).1 ++ (splitLines (splitLines cur s).2 t).1,
        (splitLines (splitLines cur s).2 t).2) := by
  -- the border is the same for what follows a first byte
  have hlast : ∀ {b : UInt8} {s : Bytes}, (b :: s).getLast? ≠ some cr ∨ t.head? ≠ some lf →
      s.getLast? ≠ some cr ∨ t.head? ≠ some lf := by
    intro b s h
    refine h.imp_left fun hne heq => hne ?_
    simp [List.getLast?_cons, heq]
  induction cur, s using splitLines.induct with
  | case1 cur => rfl
  | case2 cur s ih =>
    -- CRLF
    have hcons := ih (hlast (hlast h))
    show splitLines cur (cr :: (lf :: s ++ t)) = _
    rw [splitLines_cr]
    show consLine cur (splitLines [] (s ++ t)) = _
    rw [hcons]
    rfl
  | case3 cur s hhead ih =>
    -- a CR that no LF follows, not even across the border
    have hs : s.head? ≠ some lf := by
      cases s with
      | nil => simp
      | cons b s => exact fun heq => hhead s (by rw [Option.some.inj heq]; rfl)
    have hkeep : s ≠ [] ∨ t.head? ≠ some lf := by
      rcases h with h | h
      · exact .inl fun hnil => h (by rw [hnil]; rfl)
      · exact .inr h
    have hself : dropLf s = s := by
      have := dropLf_append (t := []) (.inr (by simp)) hs
      simpa using this
    have hsplit : splitLines cur (cr :: s) = consLine cur (splitLines [] s) := by
      rw [splitLines_cr, hself]
    show splitLines cur (cr :: (s ++ t)) = (_ ++ _, _)
    rw [splitLines_cr, dropLf_append hkeep hs, ih (hlast h)]
    show _ = ((splitLines cur (cr :: s)).1 ++ (splitLines (splitLines cur (cr :: s)).2 t).1,
      (splitLines (splitLines cur (cr :: s)).2 t).2)
    rw [hsplit]
    rfl
  | case4 cur s ih =>
    show splitLines cur (lf :: (s ++ t)) = _
    rw [splitLines_lf, ih (hlast h)]
    show _ = ((splitLines cur (lf :: s)).1 ++ (splitLines (splitLines cur (lf :: s)).2 t).1,
      (splitLines (splitLines cur (lf :: s)).2 t).2)
    rw [splitLines_lf]
    rfl
  | case5 cur b s _ hcr hlf ih =>
    rw [List.cons_append, splitLines_plain _ _ b hcr hlf, splitLines_plain _ _ b hcr hlf,
      ih (hlast h)]

theorem splitLines_snoc_plain (cur s : Bytes) {b : UInt8} (hcr : b ≠ cr) (hlf : b ≠ lf) :
    splitLines cur (s ++ [b]) = ((splitLines cur s).1, (splitLines cur s).2 ++ [b]) := by
  rw [splitLines_append _ _ _ (.inr (by simpa using hlf)), splitLines_plain _ _ b hcr hlf]
  simp [splitLines]

theorem splitLines_snoc_cr (cur s : Bytes) :
    splitLines cur (s ++ [cr]) = ((splitLines cur s).1 ++ [(splitLines cur s).2], []) := by
  rw [splitLines_append _ _ _ (.inr (by decide))]
  rfl

theorem splitLines_snoc_lf (cur : Bytes) {s : Bytes} (h : s.getLast? ≠ some cr) :
    splitLines cur (s ++ [lf]) = ((splitLines cur s).1 ++ [(splitLines cur s).2], []) := by
  rw [splitLines_append _ _ _ (.inl h)]
  rfl

/-- The LF of a CRLF ends no line of its own. -/
theorem splitLines_snoc_crlf (cur : Bytes) {s : Bytes} (h : s.getLast? = some cr) :
    splitLines cur (s ++ [lf]) = splitLines cur s := by
  obtain ⟨s, rfl⟩ := List.getLast?_eq_some_iff.mp h
  rw [List.append_assoc, splitLines_append _ _ _ (.inr (by decide)), splitLines_snoc_cr]
  rfl

/-- No line contains a terminator. -/
theorem plain_of_mem_splitLines (cur : Bytes) (hcur : cr ∉ cur ∧ lf ∉ cur) {s line : Bytes}
    (h : line ∈ (splitLines cur s).1) : cr ∉ line ∧ lf ∉ line := by
  have hnil : cr ∉ ([] : Bytes) ∧ lf ∉ ([] : Bytes) := ⟨by simp, by simp⟩
  induction cur, s using splitLines.induct with
  | case1 cur => exact absurd h (by simp [splitLines])
  | case2 cur s ih =>
    rcases List.mem_cons.mp h with rfl | h
    · exact hcur
    · exact ih hnil h
  | case3 cur s hhead ih =>
    rw [splitLines] at h
    · rcases List.mem_cons.mp h with rfl | h
      · exact hcur
      · exact ih hnil h
    · exact hhead
  | case4 cur s ih =>
    rcases List.mem_cons.mp h with rfl | h
    · exact hcur
    · exact ih hnil h
  | case5 cur b s hcrlf hcr hlf ih =>
    rw [splitLines_plain cur s b hcr hlf] at h
    refine ih ⟨?_, ?_⟩ h
    · rw [List.mem_append, List.mem_singleton]
      rintro (hmem | heq)
      · exact hcur.1 hmem
      · exact hcr heq.symm
    · rw [List.mem_append, List.mem_singleton]
      rintro (hmem | heq)
      · exact hcur.2 hmem
      · exact hlf heq.symm

private theorem forall_ne_colon {n : Bytes} (hn : colon ∉ n) :
    ∀ b ∈ n, decide (b ≠ colon) = true := by
  intro b hb
  simpa using fun h : b = colon => hn (h ▸ hb)

theorem fieldName_colon {n : Bytes} (r : Bytes) (hn : colon ∉ n) :
    fieldName (n ++ colon :: r) = n := by
  rw [fieldName, List.takeWhile_append_of_pos (forall_ne_colon hn)]
  simp

theorem fieldValue_colon {n : Bytes} (r : Bytes) (hn : colon ∉ n) :
    fieldValue (n ++ colon :: r) = stripSpace r := by
  rw [fieldValue, List.dropWhile_append_of_pos (forall_ne_colon hn)]
  simp

/-- A line without a colon is a name with an empty value. -/
theorem fieldName_of_not_mem {n : Bytes} (hn : colon ∉ n) : fieldName n = n := by
  rw [fieldName, List.takeWhile_eq_self_iff]
  exact forall_ne_colon hn

theorem fieldValue_of_not_mem {n : Bytes} (hn : colon ∉ n) : fieldValue n = [] := by
  have hdrop : n.dropWhile (· ≠ colon) = [] := 
    List.dropWhile_eq_nil_iff.mpr (forall_ne_colon hn)
  rw [fieldValue, hdrop]
  rfl

/-- Every line with a colon is a name, the colon and the rest. -/
theorem exists_split_colon {line : Bytes} (h : colon ∈ line) :
    ∃ r, line = fieldName line ++ colon :: r ∧ colon ∉ fieldName line := by
  obtain ⟨n, r, rfl, hn⟩ := List.eq_append_cons_of_mem h
  exact ⟨r, by rw [fieldName_colon r hn], by rwa [fieldName_colon r hn]⟩

/-- A value is a part of its line. -/
theorem mem_of_mem_fieldValue {line : Bytes} {b : UInt8} (h : b ∈ fieldValue line) : b ∈ line := by
  have hstrip : ∀ r : Bytes, stripSpace r <:+ r := by
    intro r
    unfold stripSpace
    split
    · exact List.suffix_cons _ _
    · exact List.suffix_rfl
  have hdrop : b ∈ (line.dropWhile (· ≠ colon)).drop 1 := (hstrip _).subset h
  exact (List.dropWhile_suffix _).subset (List.mem_of_mem_drop hdrop)

@[simp] theorem fieldOf_wireName (f : Field) (h : f ≠ .none) : fieldOf f.wireName = f := by
  cases f
  · exact absurd rfl h
  all_goals decide

theorem colon_not_mem_wireName (f : Field) : colon ∉ f.wireName := by
  cases f <;> decide

theorem wireName_ne_nil {f : Field} (h : f ≠ .none) : f.wireName ≠ [] := by
  cases f
  · exact absurd rfl h
  all_goals decide

theorem length_wireName_le (f : Field) : f.wireName.length ≤ 5 := by
  cases f <;> decide

/-- A name with a field is that field's wire name. -/
theorem eq_wireName_of_fieldOf {name : Bytes} (h : fieldOf name ≠ .none) :
    name = (fieldOf name).wireName := by
  unfold fieldOf at h ⊢
  split_ifs at h ⊢ with h1 h2 h3 h4
  · exact h1
  · exact h2
  · exact h3
  · exact h4
  · exact absurd rfl h

end EventSource.Parser
