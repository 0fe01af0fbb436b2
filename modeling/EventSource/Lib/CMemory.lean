import Mathlib.Algebra.Ring.Nat
import Mathlib.Data.List.Basic
import Mathlib.Data.List.TakeWhile

/-!
# C Memory

Byte arrays and C strings as lists of bytes. A pointer is modelled by the bytes found from it
on, an array by all of its bytes. A store outside an array leaves the list alone; callers that
must know whether this happened compare the index with the length.
-/

namespace EventSource.CMemory

/-- The bytes of an array, or the bytes found from a pointer on. -/
abbrev Mem := List UInt8

/-- The C string at a pointer: everything before the first NUL. -/
def cstr (m : Mem) : List UInt8 :=
  m.takeWhile (· ≠ 0)

/-- `memcpy(dst, src, n)`. -/
def memcpy (dst src : Mem) (n : Nat) : Mem :=
  src.take n ++ dst.drop n

/-- `snprintf` of the text `s` into an array of `cap` bytes: as much of `s` as leaves room for
the terminator. -/
def snprintf (dst : Mem) (cap : Nat) (s : List UInt8) : Mem :=
  memcpy dst (s.take (cap - 1) ++ [0]) (min s.length (cap - 1) + 1)

/-! ## Stores -/

theorem take_set_self {α : Type*} (l : List α) (n : Nat) (a : α) :
    (l.set n a).take n = l.take n := by
  rw [List.take_set]
  exact List.set_eq_of_length_le (by simp only [List.length_take]; omega)

/-- Storing at the end of the used part extends the used part by the stored byte. -/
theorem take_succ_set {α : Type*} (l : List α) (n : Nat) (a : α) (h : n < l.length) :
    (l.set n a).take (n + 1) = l.take n ++ [a] := by
  rw [List.take_add_one, take_set_self, List.getElem?_set_self h]
  rfl

/-- The first `len` bytes of the array are `s`, and `len` counts exactly these. -/
def Holds (m : Mem) (len : Nat) (s : List UInt8) : Prop :=
  m.take len = s ∧ len = s.length

theorem Holds.nil (m : Mem) : Holds m 0 [] := by
  simp [Holds]

theorem Holds.length_le {m : Mem} {len : Nat} {s : List UInt8} (h : Holds m len s) :
    s.length ≤ m.length := by
  rw [← h.1, List.length_take]
  exact Nat.min_le_right ..

/-- A store at the end of the used part appends to the held text. -/
theorem Holds.push {m : Mem} {len : Nat} {s : List UInt8} (h : Holds m len s)
    (hlt : len < m.length) (b : UInt8) : Holds (m.set len b) (len + 1) (s ++ [b]) := by
  refine ⟨?_, ?_⟩
  · rw [take_succ_set m len b hlt, h.1]
  · rw [List.length_append, List.length_singleton, h.2]

/-! ## C strings -/

theorem cstr_append_nul (s rest : List UInt8) (h : (0 : UInt8) ∉ s) :
    cstr (s ++ 0 :: rest) = s := by
  have hs : ∀ b ∈ s, decide (b ≠ 0) = true := by
    intro b hb
    simpa using fun h0 : b = 0 => h (h0 ▸ hb)
  rw [cstr, List.takeWhile_append_of_pos hs]
  simp

/-- Writing the terminator right after a used part without NUL makes the array read as that
part. -/
theorem cstr_set_nul (m : Mem) (n : Nat) (hn : n < m.length) (h : (0 : UInt8) ∉ m.take n) :
    cstr (m.set n 0) = m.take n := by
  have hsplit : m.set n 0 = m.take n ++ 0 :: m.drop (n + 1) := by
    rw [List.set_eq_take_append_cons_drop, if_pos hn]
  rw [hsplit, cstr_append_nul _ _ h]

theorem Holds.cstr_set_nul {m : Mem} {len : Nat} {s : List UInt8} (h : Holds m len s)
    (hlt : len < m.length) (h0 : (0 : UInt8) ∉ s) : cstr (m.set len 0) = s := by
  rw [CMemory.cstr_set_nul m len hlt (h.1 ▸ h0), h.1]

theorem not_mem_cstr (m : Mem) : (0 : UInt8) ∉ cstr m := by
  intro h
  have h0 := List.mem_takeWhile_imp h
  simp at h0

/-- The first NUL of the memory is at `len`. -/
structure TerminatedAt (m : Mem) (len : Nat) : Prop where
  terminator : m[len]? = some 0
  plain : (0 : UInt8) ∉ m.take len

theorem terminatedAt_cstr {m : Mem} (h : (0 : UInt8) ∈ m) : TerminatedAt m (cstr m).length := by
  obtain ⟨s, t, hsplit, hs⟩ := List.eq_append_cons_of_mem h
  have hcstr : cstr m = s := by rw [hsplit, cstr_append_nul s t hs]
  rw [hcstr, hsplit]
  exact ⟨by simp, by simpa using hs⟩

/-- A C string without NUL inside its text is read back whole. -/
theorem cstr_memcpy (dst src : Mem) (n : Nat) (hsrc : src.take (n + 1) = src.take n ++ [0])
    (h : (0 : UInt8) ∉ src.take n) : cstr (memcpy dst src (n + 1)) = src.take n := by
  rw [memcpy, hsrc, List.append_assoc]
  exact cstr_append_nul _ _ h

theorem length_memcpy (dst src : Mem) (n : Nat) (hs : n ≤ src.length) (hd : n ≤ dst.length) :
    (memcpy dst src n).length = dst.length := by
  simp only [memcpy, List.length_append, List.length_take, List.length_drop]
  omega

theorem cstr_of_not_mem {m : Mem} (h : (0 : UInt8) ∉ m) : cstr m = m := by
  rw [cstr, List.takeWhile_eq_self_iff]
  intro b hb
  simpa using fun h0 : b = 0 => h (h0 ▸ hb)

/-- A text is printed as far as it fits. -/
theorem cstr_snprintf_take (dst : Mem) (cap : Nat) (s : List UInt8) (h : (0 : UInt8) ∉ s) :
    cstr (snprintf dst cap s) = s.take (cap - 1) := by
  have hlen : (s.take (cap - 1) ++ [(0 : UInt8)]).length = min s.length (cap - 1) + 1 := by
    rw [List.length_append, List.length_take, Nat.min_comm]
    rfl
  have hcopy : (s.take (cap - 1) ++ [(0 : UInt8)]).take (min s.length (cap - 1) + 1) =
      s.take (cap - 1) ++ [0] := by
    rw [← hlen, List.take_length]
  rw [snprintf, memcpy, hcopy, List.append_assoc]
  exact cstr_append_nul _ _ fun h0 => h (List.mem_of_mem_take h0)

/-- A text that fits is printed whole. -/
theorem cstr_snprintf (dst : Mem) (cap : Nat) (s : List UInt8) (hfit : s.length < cap)
    (h : (0 : UInt8) ∉ s) : cstr (snprintf dst cap s) = s := by
  rw [cstr_snprintf_take dst cap s h, List.take_of_length_le (by omega)]

/-- A C string read up to a length is the memory up to there, if that has no NUL. -/
theorem take_cstr {m : Mem} {n : Nat} (h : (0 : UInt8) ∉ m.take n) : (cstr m).take n = m.take n := by
  have hsplit : cstr m = m.take n ++ cstr (m.drop n) := by
    rw [cstr, ← List.take_append_drop n m, List.takeWhile_append_of_pos, List.take_append_drop]
    · rfl
    · intro b hb
      simpa using fun h0 : b = 0 => h (h0 ▸ hb)
  rw [hsplit, List.take_append, List.take_take, Nat.min_self]
  by_cases hn : n ≤ m.length
  · rw [List.length_take, Nat.min_eq_left hn, Nat.sub_self, List.take_zero, List.append_nil]
  · have hnil : cstr ([] : Mem) = [] := rfl
    rw [List.drop_eq_nil_of_le (by omega), hnil, List.take_nil, List.append_nil]

end EventSource.CMemory
