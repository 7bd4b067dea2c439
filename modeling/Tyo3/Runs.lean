import Mathlib.Tactic.Common

/-!
# Runs of a step function

A system takes one step after another. A property of a state and its next
step may hold along a whole run; an invariant carries such properties from
single steps to runs. Nothing here names a program.
-/

namespace Tyo3.Runs

variable {σ ι : Type*} (step : σ → ι → σ)

/-- The state after a run. -/
def run (s : σ) (steps : List ι) : σ := steps.foldl step s

/-- A property of a state and its next step holds along a run. -/
def Along (P : σ → ι → Prop) : σ → List ι → Prop
  | _, [] => True
  | s, i :: steps => P s i ∧ Along P (step s i) steps

instance Along.decidable {P : σ → ι → Prop} [∀ s i, Decidable (P s i)] :
    ∀ s steps, Decidable (Along step P s steps)
  | _, [] => isTrue trivial
  | s, i :: steps =>
    have := Along.decidable (P := P) (step s i) steps
    inferInstanceAs (Decidable (P s i ∧ Along step P (step s i) steps))

/-- A property of a state and its next step holds at some point of a run. -/
def Sometime (P : σ → ι → Prop) : σ → List ι → Prop
  | _, [] => False
  | s, i :: steps => P s i ∨ Sometime P (step s i) steps

variable {step}

@[simp] theorem run_nil (s : σ) : run step s [] = s := rfl

@[simp] theorem run_cons (s : σ) (i : ι) (steps : List ι) :
    run step s (i :: steps) = run step (step s i) steps := rfl

theorem run_append (s : σ) (early late : List ι) :
    run step s (early ++ late) = run step (run step s early) late := List.foldl_append

theorem along_append {P : σ → ι → Prop} {s : σ} {early late : List ι} :
    Along step P s (early ++ late) ↔ Along step P s early ∧ Along step P (run step s early) late := by
  induction early generalizing s with
  | nil => simp [Along]
  | cons i early ih => simp only [List.cons_append, Along, run_cons, ih, and_assoc]

/-- A property that fails nowhere along a run holds along it. -/
theorem not_sometime_not {P : σ → ι → Prop} {s : σ} {steps : List ι} :
    ¬ Sometime step (fun s i => ¬ P s i) s steps ↔ Along step P s steps := by
  induction steps generalizing s with
  | nil => simp [Sometime, Along]
  | cons i steps ih => simp only [Sometime, Along, not_or, not_not, ih]

/-- Two properties along a run. -/
theorem along_and {P Q : σ → ι → Prop} {s : σ} {steps : List ι} :
    Along step (fun s i => P s i ∧ Q s i) s steps ↔
      Along step P s steps ∧ Along step Q s steps := by
  induction steps generalizing s with
  | nil => simp [Along]
  | cons i steps ih =>
    simp only [Along]
    rw [ih]
    tauto

/-- A property of the steps alone holds along every run of such steps. -/
theorem along_of_forall {P : ι → Prop} {s : σ} {steps : List ι} (h : ∀ i ∈ steps, P i) :
    Along step (fun _ i => P i) s steps := by
  induction steps generalizing s with
  | nil => trivial
  | cons i steps ih =>
    exact ⟨h i List.mem_cons_self, ih fun j hj => h j (List.mem_cons_of_mem _ hj)⟩

section Projections

variable {τ : Type*} {step' : τ → ι → τ} {view : τ → σ}

/-- A run with more in its states goes through the same states. -/
theorem run_view (hview : ∀ s i, view (step' s i) = step (view s) i) (s : τ) (steps : List ι) :
    view (run step' s steps) = run step (view s) steps := by
  induction steps generalizing s with
  | nil => rfl
  | cons i steps ih => rw [run_cons, run_cons, ih, hview]

/-- What holds along a run holds along one with more in its states. -/
theorem along_view (hview : ∀ s i, view (step' s i) = step (view s) i) {P : σ → ι → Prop} {s : τ}
    {steps : List ι} (h : Along step P (view s) steps) :
    Along step' (fun s i => P (view s) i) s steps := by
  induction steps generalizing s with
  | nil => trivial
  | cons i steps ih =>
    refine ⟨h.1, ih ?_⟩
    rw [hview]
    exact h.2

end Projections

section Invariants

variable {inv : σ → Prop} {C : σ → ι → Prop}

/-- An invariant that the permitted steps keep holds after every permitted
run. -/
theorem invariant_run (hstep : ∀ s i, inv s → C s i → inv (step s i)) {s : σ} (hs : inv s)
    {steps : List ι} (hC : Along step C s steps) : inv (run step s steps) := by
  induction steps generalizing s with
  | nil => exact hs
  | cons i steps ih => exact ih (hstep s i hs hC.1) hC.2

/-- Under an invariant a property of single steps holds along every permitted
run. -/
theorem along_of_invariant {P : σ → ι → Prop} (hstep : ∀ s i, inv s → C s i → inv (step s i))
    (hP : ∀ s i, inv s → C s i → P s i) {s : σ} (hs : inv s) {steps : List ι}
    (hC : Along step C s steps) : Along step P s steps := by
  induction steps generalizing s with
  | nil => trivial
  | cons i steps ih => exact ⟨hP s i hs hC.1, ih (hstep s i hs hC.1) hC.2⟩

/-- Under an invariant two properties that agree on single steps agree along
runs. -/
theorem along_iff_of_invariant {P Q : σ → ι → Prop}
    (hstep : ∀ s i, inv s → C s i → inv (step s i))
    (hPQ : ∀ s i, inv s → C s i → (P s i ↔ Q s i)) {s : σ} (hs : inv s) {steps : List ι}
    (hC : Along step C s steps) : Along step P s steps ↔ Along step Q s steps := by
  induction steps generalizing s with
  | nil => exact Iff.rfl
  | cons i steps ih => exact and_congr (hPQ s i hs hC.1) (ih (hstep s i hs hC.1) hC.2)

/-- Under an invariant, a flag that is raised exactly by certain steps and
never lowered tells whether such a step was taken. -/
theorem flag_run {P : σ → ι → Prop} {flag : σ → Prop}
    (hstep : ∀ s i, inv s → C s i → inv (step s i))
    (hflag : ∀ s i, inv s → C s i → (flag (step s i) ↔ flag s ∨ P s i)) {s : σ} (hs : inv s)
    {steps : List ι} (hC : Along step C s steps) :
    flag (run step s steps) ↔ flag s ∨ Sometime step P s steps := by
  induction steps generalizing s with
  | nil => exact ⟨Or.inl, fun h => h.elim id False.elim⟩
  | cons i steps ih =>
    rw [run_cons, ih (hstep s i hs hC.1) hC.2, hflag s i hs hC.1, or_assoc]
    rfl

end Invariants

end Tyo3.Runs
