import EventSource.Lib.Trace

/-!
# Components and Their Contracts

A component answers calls and changes its state. A typestate says in which order its user may call
it, where what comes next may depend on the answers. Whatever the component keeps along a typestate
holds after every history that obeys it.
-/

namespace EventSource.Contract

open EventSource.Trace

variable {κ ρ σ Q : Type*}

/-! ## §1 Histories -/

/-- What a component answers, and what a call makes of it. -/
structure Component (κ ρ σ : Type*) where
  start : σ
  answer : σ → κ → ρ
  next : σ → κ → σ

/-- The component after the calls of a history. -/
def Component.after (C : Component κ ρ σ) (history : List (κ × ρ)) : σ :=
  history.foldl (fun s x => C.next s x.1) C.start

/-- The answers of the history are those of the component. -/
def Component.Genuine (C : Component κ ρ σ) (history : List (κ × ρ)) : Prop :=
  Always (fun pre x => x.2 = C.answer (C.after pre) x.1) history

@[simp] theorem Component.after_nil (C : Component κ ρ σ) : C.after [] = C.start := rfl

@[simp] theorem Component.after_snoc (C : Component κ ρ σ) (history : List (κ × ρ)) (x : κ × ρ) :
    C.after (history ++ [x]) = C.next (C.after history) x.1 := by
  unfold Component.after
  rw [List.foldl_append]
  rfl

/-! ## §2 Typestates -/

/-- The order of calls: `none` where a call must not be made. -/
structure Typestate (κ ρ Q : Type*) where
  start : Q
  next : Q → κ → ρ → Option Q

/-- Where a history leads, if it obeys the typestate. -/
def Typestate.after (T : Typestate κ ρ Q) (history : List (κ × ρ)) : Option Q :=
  history.foldlM (fun q x => T.next q x.1 x.2) T.start

@[simp] theorem Typestate.after_nil (T : Typestate κ ρ Q) : T.after [] = some T.start := rfl

theorem Typestate.after_snoc (T : Typestate κ ρ Q) (history : List (κ × ρ)) (x : κ × ρ) :
    T.after (history ++ [x]) = (T.after history).bind fun q => T.next q x.1 x.2 := by
  unfold Typestate.after
  rw [List.foldlM_append]
  cases h : history.foldlM (fun q x => T.next q x.1 x.2) T.start with
  | none => rfl
  | some q =>
    show (T.next q x.1 x.2).bind pure = T.next q x.1 x.2
    cases T.next q x.1 x.2 <;> rfl

/-- A history that obeys has obeyed before its last call. -/
theorem Typestate.of_after_snoc {T : Typestate κ ρ Q} {history : List (κ × ρ)} {x : κ × ρ} {q : Q}
    (h : T.after (history ++ [x]) = some q) :
    ∃ p, T.after history = some p ∧ T.next p x.1 x.2 = some q := by
  rw [T.after_snoc] at h
  exact Option.bind_eq_some_iff.mp h

/-- So has every beginning of it. -/
theorem Typestate.isSome_of_append {T : Typestate κ ρ Q} {history rest : List (κ × ρ)} {q : Q}
    (h : T.after (history ++ rest) = some q) : (T.after history).isSome := by
  unfold Typestate.after at h ⊢
  rw [List.foldlM_append] at h
  obtain ⟨p, hp, -⟩ := Option.bind_eq_some_iff.mp h
  rw [hp]
  rfl

/-! ## §3 Contracts -/

/-- The component keeps `I` if it is called in the order of the typestate. -/
structure Keeps (C : Component κ ρ σ) (T : Typestate κ ρ Q) (I : Q → σ → Prop) : Prop where
  start : I T.start C.start
  next : ∀ q q' s k, I q s → T.next q k (C.answer s k) = some q' → I q' (C.next s k)

/-- **The rule of contracts.** What a component keeps holds after every history that obeys. -/
theorem Keeps.after {C : Component κ ρ σ} {T : Typestate κ ρ Q} {I : Q → σ → Prop}
    (h : Keeps C T I) {history : List (κ × ρ)} (hgenuine : C.Genuine history) {q : Q}
    (hobeys : T.after history = some q) : I q (C.after history) := by
  induction history using List.reverseRecOn generalizing q with
  | nil =>
    rw [T.after_nil, Option.some.injEq] at hobeys
    rw [← hobeys]
    exact h.start
  | append_singleton history x ih =>
    obtain ⟨hpre, hx⟩ := always_snoc.mp hgenuine
    obtain ⟨p, hp, hnext⟩ := Typestate.of_after_snoc hobeys
    rw [hx] at hnext
    rw [C.after_snoc]
    exact h.next p q _ x.1 (ih hpre hp) hnext

/-- And before each of its calls. -/
theorem Keeps.before {C : Component κ ρ σ} {T : Typestate κ ρ Q} {I : Q → σ → Prop}
    (h : Keeps C T I) {history : List (κ × ρ)} (hgenuine : C.Genuine history) {q : Q}
    (hobeys : T.after history = some q) :
    Always (fun pre x => ∃ p q', T.next p x.1 x.2 = some q' ∧ I p (C.after pre)) history := by
  induction history using List.reverseRecOn generalizing q with
  | nil => exact always_nil _
  | append_singleton history x ih =>
    obtain ⟨hpre, -⟩ := always_snoc.mp hgenuine
    obtain ⟨p, hp, hnext⟩ := Typestate.of_after_snoc hobeys
    exact always_snoc.mpr ⟨ih hpre hp, p, q, hnext, h.after hpre hp⟩

end EventSource.Contract
