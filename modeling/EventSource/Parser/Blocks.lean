import EventSource.Parser.LineReading
import Mathlib.Data.List.Induction

/-!
# Blocks of Lines

The lines of a stream fall into blocks, each ended by an empty line. What a block has to say is read
off its field lines directly (`dataValues`, `eventType`, `lastId`), without the state that the
line-by-line reading carries; the reading of a block agrees with this.
-/

namespace EventSource.Parser

open EventSource.CMemory
open EventSource.Transducer

variable {lim : Limits} {L : List Bytes}

/-! ## §1 Cutting Lines into Blocks -/

/-- Collect the lines of a block; the empty line completes it. -/
def blockLine (cur : List Bytes) (line : Bytes) : List Bytes × List (List Bytes) :=
  match line with
  | [] => ([], [cur])
  | _ => (cur ++ [line], [])

/-- The lines of the unfinished block, and the lines of each completed block, in order. -/
def cutBlocks (lines : List Bytes) : List Bytes × List (List Bytes) :=
  run blockLine [] lines

/-- The lines of a stream. -/
def linesOf (s : Bytes) : List Bytes :=
  (splitLines [] (dropBom s)).1

/-- What a block says, and what its lines report before its end. -/
def readBlock (lim : Limits) (L : List Bytes) : Block × List Report :=
  run (readLine lim) .empty L

/-! ## §2 What a Block's Lines Say -/

/-- The values of the lines with field `f`, in order. -/
def fieldValues (f : Field) (L : List Bytes) : List Bytes :=
  (L.filter fun line => fieldName line = f.wireName).map fieldValue

def dataValues (L : List Bytes) : List Bytes :=
  fieldValues .data L

/-- The last event type, empty if there is none. -/
def eventType (L : List Bytes) : Bytes :=
  (fieldValues .event L).getLast?.getD []

/-- The value of the last id line, unless that line is rejected. -/
def lastId (lim : Limits) (L : List Bytes) : Option Bytes :=
  (fieldValues .id L).getLast?.filter fun v => !idRejected lim v

/-- The lines that matter for field `f` are those whose name resolves to it. -/
theorem fieldName_eq_wireName {f : Field} (hf : f ≠ .none) (line : Bytes) :
    fieldName line = f.wireName ↔ fieldOf (fieldName line) = f := by
  constructor
  · intro h
    rw [h, fieldOf_wireName f hf]
  · rintro rfl
    exact eq_wireName_of_fieldOf hf

theorem fieldValues_snoc {f : Field} (hf : f ≠ .none) (L : List Bytes) (line : Bytes) :
    fieldValues f (L ++ [line]) =
      fieldValues f L ++ if fieldOf (fieldName line) = f then [fieldValue line] else [] := by
  unfold fieldValues
  by_cases h : fieldOf (fieldName line) = f
  · have hname := (fieldName_eq_wireName hf line).mpr h
    simp [hname, fieldOf_wireName f hf]
  · have hname : fieldName line ≠ f.wireName := fun heq =>
      h ((fieldName_eq_wireName hf line).mp heq)
    simp [h, hname]

theorem fieldValues_append (f : Field) (L M : List Bytes) :
    fieldValues f (L ++ M) = fieldValues f L ++ fieldValues f M := by
  simp [fieldValues]

theorem fieldName_comment {line : Bytes} (h : line.head? = some colon) : fieldName line = [] := by
  cases line with
  | nil => rfl
  | cons b s =>
    have hb : b = colon := by simpa using h
    simp [fieldName, hb]

/-- A non-empty line that is no comment is a field line. -/
theorem readLine_cons {blk : Block} {line : Bytes} (hne : line ≠ []) :
    readLine lim blk line =
      if line.head? = some colon then (blk, [])
      else readField lim blk (fieldOf (fieldName line)) (fieldValue line) := by
  cases line with
  | nil => exact absurd rfl hne
  | cons b s => simp [readLine]

/-! ## §3 The Reading of a Block -/

theorem readField_id (lim : Limits) (blk : Block) (f : Field) (v : Bytes) :
    (readField lim blk f v).1.id =
      if f = .id then (if idRejected lim v then none else some v) else blk.id := by
  cases f with
  | none => rfl
  | retry =>
    simp only [readField]
    split <;> rfl
  | id =>
    simp only [readField, if_true]
    split <;> rfl
  | data =>
    simp only [readField, reduceCtorEq, if_false]
    split_ifs <;> rfl
  | event =>
    simp only [readField, reduceCtorEq, if_false]
    split_ifs
    · rfl
    · cases typeFault lim v <;> rfl

/-- A line that leaves the block alive has taken its effect on data or type. -/
theorem readField_alive {blk : Block} {f : Field} {v : Bytes}
    (h : (readField lim blk f v).1.discarded = false) :
    blk.discarded = false ∧
      (readField lim blk f v).1.values = blk.values ++ (if f = .data then [v] else []) ∧
      (readField lim blk f v).1.type = if f = .event then v else blk.type := by
  cases f with
  | none => exact ⟨h, (List.append_nil _).symm, rfl⟩
  | retry =>
    simp only [readField] at h ⊢
    split at h <;> rename_i hok
    · rw [if_pos hok]
      exact ⟨h, (List.append_nil _).symm, rfl⟩
    · rw [if_neg hok]
      exact ⟨h, (List.append_nil _).symm, rfl⟩
  | id =>
    simp only [readField] at h ⊢
    split at h <;> rename_i hrej
    · rw [if_pos hrej]
      exact ⟨h, (List.append_nil _).symm, rfl⟩
    · rw [if_neg hrej]
      exact ⟨h, (List.append_nil _).symm, rfl⟩
  | data =>
    -- a data line that does not fit discards the block
    simp only [readField, reduceCtorEq, if_true, if_false] at h ⊢
    cases hd : blk.discarded with
    | true => simp [hd] at h
    | false =>
      simp only [hd, Bool.false_eq_true, if_false] at h ⊢
      split at h
      · exact absurd h (by simp)
      · rename_i hover
        rw [if_neg hover]
        exact ⟨trivial, rfl, rfl⟩
  | event =>
    -- so does a type that cannot be represented
    simp only [readField, reduceCtorEq, if_true, if_false] at h ⊢
    cases hd : blk.discarded with
    | true => simp [hd] at h
    | false =>
      simp only [hd, Bool.false_eq_true, if_false] at h ⊢
      cases hfault : typeFault lim v with
      | some err => simp [hfault] at h
      | none => exact ⟨trivial, (List.append_nil _).symm, rfl⟩

/-- The state of a reading says what the block's lines say; data and type only while the block is
not discarded. -/
structure Tracks (lim : Limits) (blk : Block) (L : List Bytes) : Prop where
  id : blk.id = lastId lim L
  values : blk.discarded = false → blk.values = dataValues L
  type : blk.discarded = false → blk.type = eventType L

theorem Tracks.field {blk : Block} (h : Tracks lim blk L) (line : Bytes) :
    Tracks lim (readField lim blk (fieldOf (fieldName line)) (fieldValue line)).1
      (L ++ [line]) := by
  refine ⟨?_, ?_, ?_⟩
  · rw [readField_id, lastId, fieldValues_snoc (by decide)]
    split_ifs with hf hrej
    · simp [Option.filter, hrej]
    · simp [Option.filter, hrej]
    · rw [List.append_nil]
      exact h.id
  · intro hd
    obtain ⟨hblk, hvalues, -⟩ := readField_alive hd
    rw [hvalues, dataValues, fieldValues_snoc (by decide), h.values hblk, dataValues]
  · intro hd
    obtain ⟨hblk, -, htype⟩ := readField_alive hd
    rw [htype, eventType, fieldValues_snoc (by decide)]
    split_ifs with hf
    · simp
    · rw [List.append_nil]
      exact h.type hblk

theorem Tracks.snoc {blk : Block} (h : Tracks lim blk L) {line : Bytes} (hne : line ≠ []) :
    Tracks lim (readLine lim blk line).1 (L ++ [line]) := by
  rw [readLine_cons hne]
  split_ifs with hcomment
  · -- a comment has no name, so it counts for no field
    have hskip : ∀ f, f ≠ Field.none → fieldValues f (L ++ [line]) = fieldValues f L := by
      intro f hf
      have hname : fieldOf (fieldName line) ≠ f := by
        rw [fieldName_comment hcomment]
        exact Ne.symm hf
      rw [fieldValues_snoc hf, if_neg hname, List.append_nil]
    refine ⟨?_, ?_, ?_⟩
    · rw [lastId, hskip .id (by decide)]
      exact h.id
    · rw [dataValues, hskip .data (by decide)]
      exact h.values
    · rw [eventType, hskip .event (by decide)]
      exact h.type
  · exact h.field line

/-- **The reading of a block says what its lines say.** -/
theorem readBlock_tracks (lim : Limits) (hL : [] ∉ L) : Tracks lim (readBlock lim L).1 L := by
  induction L using List.reverseRecOn with
  | nil => exact ⟨rfl, fun _ => rfl, fun _ => rfl⟩
  | append_singleton L line ih =>
    rw [List.mem_append, List.mem_singleton, not_or] at hL
    unfold readBlock at ih ⊢
    rw [run_snoc]
    exact (ih hL.1).snoc (Ne.symm hL.2)

/-- The unfinished block has no empty line. -/
theorem nil_not_mem_cutBlocks (lines : List Bytes) : [] ∉ (cutBlocks lines).1 := by
  have hstep : ∀ cur line, [] ∉ cur → [] ∉ (blockLine cur line).1 := by
    intro cur line h
    cases line with
    | nil => simp [blockLine]
    | cons b s => simpa [blockLine] using h
  exact run_invariant hstep lines (by simp)

/-- After any number of lines, the block being read is that of the unfinished block's lines. -/
theorem run_readLine_block (lim : Limits) (lines : List Bytes) :
    (run (readLine lim) .empty lines).1 = (readBlock lim (cutBlocks lines).1).1 := by
  induction lines using List.reverseRecOn with
  | nil => rfl
  | append_singleton lines line ih =>
    unfold cutBlocks at ih ⊢
    rw [run_snoc, run_snoc, andThen_fst, andThen_fst, ih]
    cases line with
    | nil => rfl
    | cons b s =>
      show _ = (readBlock lim ((run blockLine [] lines).1 ++ [b :: s])).1
      unfold readBlock
      rw [run_snoc]
      rfl

end EventSource.Parser
