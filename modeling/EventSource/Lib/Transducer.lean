import Mathlib.Data.List.Basic

/-!
# Transducers

A transducer reads one symbol at a time and answers each with a new state and any number of
outputs. Its run over a word does not depend on how the word is cut into chunks.
-/

namespace EventSource.Transducer

variable {σ ι ω : Type*}

/-- Continue a computation that has already produced outputs. -/
def andThen (r : σ × List ω) (f : σ → σ × List ω) : σ × List ω :=
  ((f r.1).1, r.2 ++ (f r.1).2)

@[simp] theorem andThen_fst (r : σ × List ω) (f : σ → σ × List ω) :
    (andThen r f).1 = (f r.1).1 := rfl

@[simp] theorem andThen_snd (r : σ × List ω) (f : σ → σ × List ω) :
    (andThen r f).2 = r.2 ++ (f r.1).2 := rfl

/-- Run a transducer over a word, collecting its outputs in order. -/
def run (step : σ → ι → σ × List ω) : σ → List ι → σ × List ω
  | s, [] => (s, [])
  | s, b :: bs => andThen (step s b) fun s' => run step s' bs

@[simp] theorem run_nil (step : σ → ι → σ × List ω) (s : σ) : run step s [] = (s, []) := rfl

theorem run_cons (step : σ → ι → σ × List ω) (s : σ) (b : ι) (bs : List ι) :
    run step s (b :: bs) = andThen (step s b) fun s' => run step s' bs := rfl

theorem run_append (step : σ → ι → σ × List ω) (s : σ) (as bs : List ι) :
    run step s (as ++ bs) = andThen (run step s as) fun s' => run step s' bs := by
  induction as generalizing s with
  | nil => simp [andThen]
  | cons a as ih => simp [run_cons, ih, andThen]

theorem run_snoc (step : σ → ι → σ × List ω) (s : σ) (as : List ι) (b : ι) :
    run step s (as ++ [b]) = andThen (run step s as) fun s' => step s' b := by
  rw [run_append]
  simp [run_cons, andThen]

/-- Run a transducer over a word that arrives in chunks. -/
def runChunks (step : σ → ι → σ × List ω) : σ → List (List ι) → σ × List ω :=
  run (run step)

/-- However the word is cut, the state reached and the outputs are those of the whole word. -/
theorem runChunks_eq (step : σ → ι → σ × List ω) (s : σ) (chunks : List (List ι)) :
    runChunks step s chunks = run step s chunks.flatten := by
  induction chunks generalizing s with
  | nil => rfl
  | cons c cs ih =>
    have hcs : ∀ s', run (run step) s' cs = run step s' cs.flatten := ih
    simp only [runChunks, run_cons, List.flatten_cons, run_append, hcs]

/-! ## Invariants -/

/-- What every single step on the word's symbols preserves, the run over the word preserves. -/
theorem run_invariant_of_mem {step : σ → ι → σ × List ω} {I : σ → Prop} {bs : List ι}
    (hstep : ∀ s, ∀ b ∈ bs, I s → I (step s b).1) {s : σ} (hs : I s) : I (run step s bs).1 := by
  induction bs generalizing s with
  | nil => exact hs
  | cons b bs ih =>
    exact ih (fun s c hc => hstep s c (List.mem_cons_of_mem _ hc)) (hstep s b List.mem_cons_self hs)

/-- An invariant of the single step is an invariant of every run. -/
theorem run_invariant {step : σ → ι → σ × List ω} {I : σ → Prop}
    (hstep : ∀ s b, I s → I (step s b).1) {s : σ} (bs : List ι) (hs : I s) :
    I (run step s bs).1 :=
  run_invariant_of_mem (fun s b _ => hstep s b) hs

/-- A property of the outputs of every single step on the word's symbols holds of all outputs of the
run. -/
theorem run_outputs {step : σ → ι → σ × List ω} {I : σ → Prop} {P : ω → Prop} {bs : List ι}
    (hstep : ∀ s, ∀ b ∈ bs, I s → I (step s b).1)
    (hout : ∀ s, ∀ b ∈ bs, I s → ∀ o ∈ (step s b).2, P o) {s : σ} (hs : I s) :
    ∀ o ∈ (run step s bs).2, P o := by
  induction bs generalizing s with
  | nil => simp
  | cons b bs ih =>
    intro o ho
    have hstep' : ∀ s, ∀ c ∈ bs, I s → I (step s c).1 :=
      fun s c hc => hstep s c (List.mem_cons_of_mem _ hc)
    have hout' : ∀ s, ∀ c ∈ bs, I s → ∀ o ∈ (step s c).2, P o :=
      fun s c hc => hout s c (List.mem_cons_of_mem _ hc)
    rw [run_cons, andThen_snd, List.mem_append] at ho
    rcases ho with ho | ho
    · exact hout s b List.mem_cons_self hs o ho
    · exact ih hstep' hout' (hstep s b List.mem_cons_self hs) o ho

end EventSource.Transducer
