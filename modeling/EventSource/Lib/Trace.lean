import Mathlib.Data.List.Induction
import Mathlib.Logic.Relation

/-!
# Traces

Properties of every entry of a trace and the entries before it, and invariants of runs of a step
relation.
-/

namespace EventSource.Trace

variable {α σ : Type*}

/-! ## §1 Every Entry and Its Past -/

/-- Every entry of the trace has the property, which may look at the entries before it. -/
def Always (P : List α → α → Prop) (l : List α) : Prop :=
  ∀ pre a post, l = pre ++ a :: post → P pre a

theorem always_nil (P : List α → α → Prop) : Always P [] := by
  intro pre a post h
  exact absurd h (by simp)

/-- A longer trace adds only its last entry to what must be shown. -/
theorem always_snoc {P : List α → α → Prop} {l : List α} {a : α} :
    Always P (l ++ [a]) ↔ Always P l ∧ P l a := by
  constructor
  · intro h
    refine ⟨?_, h l a [] rfl⟩
    intro pre b post hl
    exact h pre b (post ++ [a]) (by rw [hl]; simp)
  · rintro ⟨h, ha⟩ pre b post hl
    rcases List.eq_nil_or_concat post with rfl | ⟨post, c, rfl⟩
    · obtain ⟨rfl, hb⟩ := List.append_inj' hl rfl
      rw [← (List.cons.inj hb).1]
      exact ha
    · have hl' : l ++ [a] = (pre ++ b :: post) ++ [c] := by rw [hl]; simp
      obtain ⟨hpre, -⟩ := List.append_inj' hl' rfl
      exact h pre b post hpre

/-- Entries that have the property after any past can be added. -/
theorem Always.append {P : List α → α → Prop} {l es : List α} (h : Always P l)
    (hes : ∀ a ∈ es, ∀ pre, P pre a) : Always P (l ++ es) := by
  induction es using List.reverseRecOn with
  | nil =>
    rw [List.append_nil]
    exact h
  | append_singleton es a ih =>
    rw [← List.append_assoc]
    exact always_snoc.mpr ⟨ih fun b hb => hes b (List.mem_append_left _ hb), hes a (by simp) _⟩

/-- The entries by their index. -/
theorem always_iff_getElem {P : List α → α → Prop} {l : List α} :
    Always P l ↔ ∀ i, ∀ h : i < l.length, P (l.take i) l[i] := by
  constructor
  · intro h i hi
    apply h (l.take i) l[i] (l.drop (i + 1))
    rw [List.getElem_cons_drop, List.take_append_drop]
  · rintro h pre a post rfl
    have ha := h pre.length (by simp)
    simpa using ha

instance {P : List α → α → Prop} [∀ pre a, Decidable (P pre a)] {l : List α} :
    Decidable (Always P l) :=
  decidable_of_iff _ always_iff_getElem.symm

/-- Entries can be left out at the end. -/
theorem Always.of_append {P : List α → α → Prop} {l es : List α} (h : Always P (l ++ es)) :
    Always P l := by
  intro pre a post hl
  exact h pre a (post ++ es) (by rw [hl]; simp)

theorem Always.mono {P Q : List α → α → Prop} {l : List α} (h : Always P l)
    (hPQ : ∀ pre a, P pre a → Q pre a) : Always Q l :=
  fun pre a post hl => hPQ pre a (h pre a post hl)

/-- An entry that only comes when none like it came before comes at most once. -/
theorem Always.countP_le_one {p : α → Bool} {l : List α}
    (h : Always (fun pre a => p a = true → ∀ x ∈ pre, p x ≠ true) l) : l.countP p ≤ 1 := by
  induction l using List.reverseRecOn with
  | nil => exact Nat.zero_le 1
  | append_singleton l a ih =>
    obtain ⟨hl, ha⟩ := always_snoc.mp h
    rw [List.countP_append, List.countP_singleton]
    split
    · next hp =>
      have hnone := List.countP_eq_zero.mpr (ha hp)
      omega
    · exact ih hl

/-! ## §2 Runs -/

/-- An invariant of every step is an invariant of every run. -/
theorem invariant_of_steps {R : σ → σ → Prop} {I : σ → Prop}
    (hstep : ∀ s t, R s t → I s → I t) {s t : σ} (h : Relation.ReflTransGen R s t) (hs : I s) :
    I t := by
  induction h with
  | refl => exact hs
  | tail _ hlast ih => exact hstep _ _ hlast ih

/-- A left fold is a run, seen through `e`, if each of its steps is. -/
theorem foldl_steps {ι τ : Type*} {R : τ → τ → Prop} {e : σ → τ} {f : σ → ι → σ}
    (hf : ∀ s i, Relation.ReflTransGen R (e s) (e (f s i))) (s : σ) (is : List ι) :
    Relation.ReflTransGen R (e s) (e (is.foldl f s)) := by
  induction is generalizing s with
  | nil => exact .refl
  | cons i is ih => exact (hf s i).trans (ih (f s i))

end EventSource.Trace
