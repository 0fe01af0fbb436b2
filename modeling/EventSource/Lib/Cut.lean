import Mathlib.Data.List.DropRight
import Mathlib.Data.List.TakeWhile

/-!
# Cutting Lists

A list cut before the first of some elements, after the last of some elements, or at the first
occurrence of a list. A text that is put together from parts is cut into these parts again, as long
as no part contains what it is cut at.
-/

namespace EventSource.Cut

variable {α : Type*}

/-! ## Before the First -/

/-- The part before the first element that `stop` holds of. -/
def before (stop : α → Bool) (l : List α) : List α :=
  l.takeWhile fun a => !stop a

/-- The part from that element on. -/
def fromFirst (stop : α → Bool) (l : List α) : List α :=
  l.dropWhile fun a => !stop a

/-- Nothing, or a list that begins with such an element. -/
def Begins (stop : α → Bool) (l : List α) : Prop :=
  ∀ a ∈ l.head?, stop a = true

theorem begins_nil (stop : α → Bool) : Begins stop [] :=
  fun a ha => absurd ha (by simp)

theorem Begins.append {stop : α → Bool} {x y : List α} (hx : Begins stop x) (hy : Begins stop y) :
    Begins stop (x ++ y) := by
  cases x with
  | nil => exact hy
  | cons a x => exact hx

theorem Begins.of_append {stop : α → Bool} {x y : List α} (h : Begins stop (x ++ y)) :
    Begins stop x := by
  cases x with
  | nil => exact begins_nil stop
  | cons a x => exact h

theorem before_append_fromFirst (stop : α → Bool) (l : List α) :
    before stop l ++ fromFirst stop l = l :=
  List.takeWhile_append_dropWhile

theorem stop_before {stop : α → Bool} {l : List α} {a : α} (h : a ∈ before stop l) :
    stop a = false := by
  have ha := List.mem_takeWhile_imp h
  rwa [Bool.not_eq_true'] at ha

theorem begins_fromFirst (stop : α → Bool) (l : List α) : Begins stop (fromFirst stop l) := by
  intro a ha
  have hnot := List.head?_dropWhile_not (fun a => !stop a) l
  unfold fromFirst at ha
  rw [Option.mem_def.mp ha] at hnot
  simpa using hnot

/-- A text is cut where its second part begins. -/
theorem cut_append {stop : α → Bool} {x y : List α} (hx : ∀ a ∈ x, stop a = false)
    (hy : Begins stop y) : before stop (x ++ y) = x ∧ fromFirst stop (x ++ y) = y := by
  have hx' : ∀ a ∈ x, (!stop a) = true := by
    intro a ha
    rw [hx a ha]
    rfl
  have hy' : y.takeWhile (fun a => !stop a) = [] ∧ y.dropWhile (fun a => !stop a) = y := by
    cases y with
    | nil => exact ⟨rfl, rfl⟩
    | cons b y =>
      have hb : stop b = true := hy b rfl
      simp [hb]
  refine ⟨?_, ?_⟩
  · unfold before
    rw [List.takeWhile_append_of_pos hx', hy'.1, List.append_nil]
  · unfold fromFirst
    rw [List.dropWhile_append_of_pos hx', hy'.2]

/-- What follows the cut does not matter. -/
theorem before_append {stop : α → Bool} {x y : List α}
    (h : (before stop (x ++ y)).length ≤ x.length) : before stop (x ++ y) = before stop x := by
  unfold before at h ⊢
  rw [List.takeWhile_append] at h ⊢
  split
  · next hall =>
    rw [if_pos hall, List.length_append] at h
    have hy : y.takeWhile (fun a => !stop a) = [] := List.length_eq_zero_iff.mp (by omega)
    rw [hy, List.append_nil]
    exact (List.IsPrefix.eq_of_length (List.takeWhile_prefix _) hall).symm
  · rfl

/-! ## After the Last -/

/-- The part after the last element that `stop` holds of. -/
def afterLast (stop : α → Bool) (l : List α) : List α :=
  l.rtakeWhile fun a => !stop a

/-- The part up to that element. -/
def uptoLast (stop : α → Bool) (l : List α) : List α :=
  l.rdropWhile fun a => !stop a

/-- Nothing, or a list that ends with such an element. -/
def Ends (stop : α → Bool) (l : List α) : Prop :=
  ∀ a ∈ l.getLast?, stop a = true

theorem uptoLast_append_afterLast (stop : α → Bool) (l : List α) :
    uptoLast stop l ++ afterLast stop l = l :=
  List.rdropWhile_append_rtakeWhile

theorem stop_afterLast {stop : α → Bool} {l : List α} {a : α} (h : a ∈ afterLast stop l) :
    stop a = false := by
  have ha := List.mem_rtakeWhile_imp h
  rwa [Bool.not_eq_true'] at ha

theorem ends_uptoLast (stop : α → Bool) (l : List α) : Ends stop (uptoLast stop l) := by
  intro a ha
  have hne : uptoLast stop l ≠ [] := by
    intro hnil
    rw [hnil] at ha
    cases ha
  have hlast : (uptoLast stop l).getLast hne = a :=
    (List.getLast_eq_iff_getLast?_eq_some hne).mpr ha
  have hnot : ¬ (!stop ((uptoLast stop l).getLast hne)) = true :=
    List.rdropWhile_last_not (fun a => !stop a) l hne
  rw [← hlast]
  simpa using hnot

theorem afterLast_append {stop : α → Bool} {x y : List α} (hx : Ends stop x)
    (hy : ∀ a ∈ y, stop a = false) : afterLast stop (x ++ y) = y := by
  unfold afterLast List.rtakeWhile
  rw [List.reverse_append]
  have hcut := @cut_append α stop y.reverse x.reverse
    (fun a ha => hy a (List.mem_reverse.mp ha)) (by
      intro a ha
      rw [List.head?_reverse] at ha
      exact hx a ha)
  unfold before at hcut
  rw [hcut.1, List.reverse_reverse]

/-! ## Inside One of the Parts -/

theorem eq_of_prefix_singleton {β : Type*} {p : List β} {b : β} (h : p <+: [b]) :
    p = [] ∨ p = [b] := by
  rcases List.prefix_cons_iff.mp h with hnil | ⟨t, rfl, ht⟩
  · exact .inl hnil
  · rw [List.prefix_nil.mp ht]
    exact .inr rfl

/-- The beginning of a text that is put together from parts ends inside one of them. -/
theorem prefix_flatMap {β : Type*} {f : α → List β} {l : List α} {p : List β}
    (h : p <+: l.flatMap f) :
    ∃ i q, i ≤ l.length ∧ p = (l.take i).flatMap f ++ q ∧
      (q = [] ∨ ∃ a, l[i]? = some a ∧ q <+: f a ∧ q ≠ f a) := by
  induction l generalizing p with
  | nil => exact ⟨0, [], Nat.le_refl 0, List.prefix_nil.mp h, .inl rfl⟩
  | cons a l ih =>
    rw [List.flatMap_cons] at h
    -- the beginning reaches beyond the first part or it does not
    rcases List.prefix_or_prefix_of_prefix h (List.prefix_append _ _) with hfirst | ⟨p, rfl⟩
    · by_cases hwhole : p = f a
      · refine ⟨1, [], Nat.succ_le_succ (Nat.zero_le _), ?_, .inl rfl⟩
        rw [hwhole]
        simp
      · exact ⟨0, p, Nat.zero_le _, rfl, .inr ⟨a, rfl, hfirst, hwhole⟩⟩
    · obtain ⟨i, q, hi, rfl, hq⟩ := ih ((List.prefix_append_right_inj _).mp h)
      refine ⟨i + 1, q, Nat.succ_le_succ hi, ?_, hq⟩
      rw [List.take_succ_cons, List.flatMap_cons, List.append_assoc]

/-! ## At Every Occurrence -/

/-- The pieces of a list between the occurrences of `a` are free of it, and made of its elements. -/
theorem of_mem_splitOn [DecidableEq α] {a : α} {l piece : List α} (h : piece ∈ l.splitOn a) :
    a ∉ piece ∧ ∀ b ∈ piece, b ∈ l := by
  induction l generalizing piece with
  | nil =>
    rw [List.splitOn_nil, List.mem_singleton] at h
    subst h
    exact ⟨List.not_mem_nil, fun b hb => hb⟩
  | cons c l ih =>
    rw [List.splitOn_cons_eq_if_modifyHead] at h
    split at h
    · -- a separator: an empty piece in front
      rcases List.mem_cons.mp h with rfl | h
      · exact ⟨List.not_mem_nil, fun b hb => absurd hb List.not_mem_nil⟩
      · exact ⟨(ih h).1, fun b hb => List.mem_cons_of_mem _ ((ih h).2 b hb)⟩
    · next hc =>
      -- any other element joins the first piece
      obtain ⟨first, rest, hsplit⟩ := List.exists_cons_of_ne_nil (List.splitOn_ne_nil a l)
      rw [hsplit, List.modifyHead_cons] at h
      rcases List.mem_cons.mp h with rfl | h
      · have hfirst := ih (hsplit ▸ List.mem_cons_self)
        constructor
        · intro ha
          rcases List.mem_cons.mp ha with rfl | ha
          · exact hc (beq_self_eq_true a)
          · exact hfirst.1 ha
        · intro b hb
          rcases List.mem_cons.mp hb with rfl | hb
          · exact List.mem_cons_self
          · exact List.mem_cons_of_mem _ (hfirst.2 b hb)
      · have hrest := ih (hsplit ▸ List.mem_cons_of_mem _ h)
        exact ⟨hrest.1, fun b hb => List.mem_cons_of_mem _ (hrest.2 b hb)⟩

/-! ## At the First Occurrence -/

variable [DecidableEq α]

/-- The parts before and after the first occurrence of `sep`. -/
def splitOn (sep : List α) : List α → Option (List α × List α)
  | [] => none
  | a :: l =>
    if sep <+: a :: l then some ([], (a :: l).drop sep.length)
    else (splitOn sep l).map fun p => (a :: p.1, p.2)

theorem append_of_splitOn {sep l x y : List α} (h : splitOn sep l = some (x, y)) :
    l = x ++ sep ++ y := by
  induction l generalizing x with
  | nil => cases h
  | cons a l ih =>
    unfold splitOn at h
    split at h
    · next hsep =>
      obtain ⟨rfl, rfl⟩ := Prod.mk.inj (Option.some.inj h)
      obtain ⟨t, ht⟩ := hsep
      rw [← ht]
      simp
    · obtain ⟨p, hp, heq⟩ := Option.map_eq_some_iff.mp h
      obtain ⟨rfl, rfl⟩ := Prod.mk.inj heq
      rw [ih hp]
      simp

/-- A first part without the first element of `sep` is found again. -/
theorem splitOn_append {s : α} {sep x : List α} (hx : s ∉ x) (y : List α) :
    splitOn (s :: sep) (x ++ s :: sep ++ y) = some (x, y) := by
  induction x with
  | nil =>
    show (if s :: sep <+: s :: (sep ++ y) then _ else _) = _
    rw [if_pos ⟨y, rfl⟩]
    simp
  | cons a x ih =>
    rw [List.mem_cons, not_or] at hx
    have hnot : ¬ s :: sep <+: a :: (x ++ s :: sep ++ y) := by
      intro hsep
      exact hx.1 (List.cons_prefix_cons.mp hsep).1
    have hcons : splitOn (s :: sep) (a :: (x ++ s :: sep ++ y)) =
        (splitOn (s :: sep) (x ++ s :: sep ++ y)).map fun p => (a :: p.1, p.2) := if_neg hnot
    rw [ih hx.2] at hcons
    exact hcons

/-- What follows the first occurrence does not matter. -/
theorem splitOn_extend {sep x y : List α} (h : splitOn sep (x ++ sep ++ y) = some (x, y))
    (hsep : sep ≠ []) (z : List α) : splitOn sep (x ++ sep ++ z) = some (x, z) := by
  induction x with
  | nil =>
    obtain ⟨s, sep, rfl⟩ := List.exists_cons_of_ne_nil hsep
    show (if s :: sep <+: s :: (sep ++ z) then _ else _) = _
    rw [if_pos ⟨z, rfl⟩]
    simp
  | cons a x ih =>
    have hcons : ∀ t, splitOn sep (a :: x ++ sep ++ t) =
        if sep <+: a :: (x ++ sep ++ t) then some ([], (a :: (x ++ sep ++ t)).drop sep.length)
        else (splitOn sep (x ++ sep ++ t)).map fun p => (a :: p.1, p.2) := fun t => rfl
    rw [hcons] at h
    -- the separator does not begin here, or nothing would come before it
    have hnot : ¬ sep <+: a :: (x ++ sep ++ y) := by
      intro hpre
      rw [if_pos hpre] at h
      exact absurd (Prod.mk.inj (Option.some.inj h)).1 (List.cons_ne_nil _ _).symm
    rw [if_neg hnot] at h
    obtain ⟨p, hp, heq⟩ := Option.map_eq_some_iff.mp h
    obtain ⟨hx, hy⟩ := Prod.mk.inj heq
    have hp' : splitOn sep (x ++ sep ++ y) = some (x, y) := by
      rw [hp, ← (List.cons.inj hx).2, ← hy]
    have hnot' : ¬ sep <+: a :: (x ++ sep ++ z) := by
      -- an occurrence this early would end before `z`
      intro hpre
      apply hnot
      have htake : sep <+: a :: (x ++ sep) := by
        refine List.prefix_of_prefix_length_le hpre (List.prefix_append (a :: (x ++ sep)) z) ?_
        rw [List.length_cons, List.length_append]
        omega
      exact htake.trans (List.prefix_append (a :: (x ++ sep)) y)
    rw [hcons, if_neg hnot', ih hp']
    rfl

end EventSource.Cut
