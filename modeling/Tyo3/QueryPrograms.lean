import Mathlib.Tactic.Common

/-!
# Programs that ask

A deterministic program asks questions, each of which may depend on the
answers so far, and then returns. Two sources that give the same answers to
the questions of one run are the same to the program. Nothing here names a
program.
-/

namespace Tyo3.QueryPrograms

/-- A program that asks questions and returns a result. -/
inductive Program (Q A R : Type) where
  | done (result : R)
  | ask (question : Q) (next : A → Program Q A R)

namespace Program

variable {Q A R : Type}

/-- The result of a run. -/
def result (answer : Q → A) : Program Q A R → R
  | .done result => result
  | .ask question next => (next (answer question)).result answer

/-- The questions of a run, in order. -/
def asked (answer : Q → A) : Program Q A R → List Q
  | .done _ => []
  | .ask question next => question :: (next (answer question)).asked answer

/-- A source that answers the questions of a run alike gets the same questions
and the same result. -/
theorem run_congr {answer answer' : Q → A} (program : Program Q A R)
    (hsame : ∀ question ∈ program.asked answer, answer' question = answer question) :
    program.asked answer' = program.asked answer ∧
      program.result answer' = program.result answer := by
  induction program with
  | done result => exact ⟨rfl, rfl⟩
  | ask question next ih =>
    have hfirst : answer' question = answer question := hsame question List.mem_cons_self
    have hrest := ih (answer question) fun later hlater =>
      hsame later (List.mem_cons_of_mem _ hlater)
    rw [asked, asked, result, result, hfirst, hrest.1, hrest.2]
    exact ⟨rfl, rfl⟩

end Program

end Tyo3.QueryPrograms
