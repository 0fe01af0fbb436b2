import Mathlib.Algebra.Ring.Nat
import Mathlib.Data.List.Basic

/-!
# Ring Buffers

An array whose cells are used round and round. A position is any number and stands for the cell it
has modulo the capacity, so the used part is the text between two positions, wherever it wraps.
-/

namespace EventSource.RingBuffer

variable {α : Type*} {cap : Nat} [NeZero cap]

/-- The value at a position. -/
def cell (ring : Vector α cap) (pos : Nat) : α :=
  ring.get ⟨pos % cap, Nat.mod_lt _ (Nat.pos_of_neZero cap)⟩

/-- Store a value at a position. -/
def put (ring : Vector α cap) (pos : Nat) (a : α) : Vector α cap :=
  ring.set (pos % cap) a (Nat.mod_lt _ (Nat.pos_of_neZero cap))

/-- Store values from a position on. -/
def putAll (ring : Vector α cap) (pos : Nat) : List α → Vector α cap
  | [] => ring
  | a :: as => putAll (put ring pos a) (pos + 1) as

/-- The `n` values from a position on. -/
def contents (ring : Vector α cap) (pos : Nat) : Nat → List α
  | 0 => []
  | n + 1 => cell ring pos :: contents ring (pos + 1) n

/-! ## Reading -/

@[simp] theorem length_contents (ring : Vector α cap) (pos n : Nat) :
    (contents ring pos n).length = n := by
  induction n generalizing pos with
  | zero => rfl
  | succ n ih => exact congrArg (· + 1) (ih (pos + 1))

theorem cell_mod (ring : Vector α cap) (pos i : Nat) :
    cell ring (pos % cap + i) = cell ring (pos + i) := by
  unfold cell
  congr 2
  exact Nat.mod_add_mod pos cap i

/-- Only the cell of a position matters. -/
theorem contents_mod (ring : Vector α cap) (pos n : Nat) :
    contents ring (pos % cap) n = contents ring pos n := by
  have hfrom : ∀ i, contents ring (pos % cap + i) n = contents ring (pos + i) n := by
    induction n with
    | zero => exact fun i => rfl
    | succ n ih =>
      intro i
      show cell ring (pos % cap + i) :: contents ring (pos % cap + i + 1) n = _
      rw [cell_mod, Nat.add_assoc, ih]
      rfl
  exact hfrom 0

/-- What is read first and what is read then. -/
theorem contents_add (ring : Vector α cap) (pos m n : Nat) :
    contents ring pos (m + n) = contents ring pos m ++ contents ring (pos + m) n := by
  induction m generalizing pos with
  | zero =>
    rw [Nat.zero_add, Nat.add_zero]
    rfl
  | succ m ih =>
    rw [Nat.succ_add]
    show cell ring pos :: contents ring (pos + 1) (m + n) = _
    rw [ih, Nat.add_assoc, Nat.add_comm 1 m]
    rfl

/-! ## Storing -/

theorem cell_put_self (ring : Vector α cap) (pos : Nat) (a : α) :
    cell (put ring pos a) pos = a := by
  unfold cell put
  exact Vector.getElem_set_self _

theorem cell_put_ne (ring : Vector α cap) {pos q : Nat} (a : α) (h : pos % cap ≠ q % cap) :
    cell (put ring pos a) q = cell ring q := by
  unfold cell put
  exact Vector.getElem_set_ne _ _ h

/-- Fewer than `cap` steps do not lead around. -/
theorem mod_ne_of_lt {c pos i : Nat} (hpos : 0 < i) (hi : i < c) : (pos + i) % c ≠ pos % c := by
  intro h
  have hmod : i % c = 0 := by
    have hsub := Nat.sub_mod_eq_zero_of_mod_eq h
    rwa [Nat.add_sub_cancel_left] at hsub
  rw [Nat.mod_eq_of_lt hi] at hmod
  omega

/-- A store behind the text leaves the text alone. -/
theorem contents_put (ring : Vector α cap) (pos n i : Nat) (a : α) (hi : n ≤ i) (hcap : i < cap) :
    contents (put ring (pos + i) a) pos n = contents ring pos n := by
  induction n generalizing pos i with
  | zero => rfl
  | succ n ih =>
    have hne : (pos + i) % cap ≠ pos % cap := mod_ne_of_lt (by omega) hcap
    have hrest := ih (pos + 1) (i - 1) (by omega) (by omega)
    have hsame : pos + 1 + (i - 1) = pos + i := by omega
    rw [hsame] at hrest
    show cell _ pos :: contents _ (pos + 1) n = _
    rw [cell_put_ne _ _ hne, hrest]
    rfl

/-- **Stored behind the text, the values extend it**, however often it wraps. -/
theorem contents_putAll (ring : Vector α cap) (pos n : Nat) (as : List α)
    (hcap : n + as.length ≤ cap) :
    contents (putAll ring (pos + n) as) pos (n + as.length) = contents ring pos n ++ as := by
  induction as generalizing ring n with
  | nil => exact (List.append_nil _).symm
  | cons a as ih =>
    rw [List.length_cons] at hcap
    have hrest := ih (put ring (pos + n) a) (n + 1) (by omega)
    have hstored : contents (put ring (pos + n) a) pos (n + 1) = contents ring pos n ++ [a] := by
      rw [contents_add, contents_put ring pos n n a (Nat.le_refl n) (by omega)]
      show _ ++ [cell _ (pos + n)] = _
      rw [cell_put_self]
    have hlen : n + (a :: as).length = n + 1 + as.length := by
      rw [List.length_cons]
      omega
    rw [hlen]
    show contents (putAll (put ring (pos + n) a) (pos + (n + 1)) as) pos _ = _
    rw [hrest, hstored, List.append_assoc]
    rfl

end EventSource.RingBuffer
