/-
Tasks that each work on a state of their own, stepped in any order: the order
does not show in the states they reach.
-/
import Mathlib

namespace Interleaving

universe u

variable {ι ε σ : Type u} [DecidableEq ι]

/-- One step of task `i`; the other tasks stay where they are. -/
def stepTask (step : ι → σ → Except ε σ) (states : ι → σ) (i : ι) :
    Except ε (ι → σ) :=
  (fun next => Function.update states i next) <$> step i (states i)

/-- The steps of the tasks in the given order. -/
def runTasks (step : ι → σ → Except ε σ) (states : ι → σ) (order : List ι) :
    Except ε (ι → σ) :=
  order.foldlM (stepTask step) states

/-- If every task has a course of `n` steps without an error, then in any
order with at most `n` steps for each task all tasks follow their courses. -/
theorem runTasks_eq {step : ι → σ → Except ε σ} {course : ι → Nat → σ}
    {n : Nat} {order : List ι}
    (hstep : ∀ i ∈ order, ∀ k < n, step i (course i k) =
      .ok (course i (k + 1)))
    (done : ι → Nat) (hroom : ∀ i, done i + order.count i ≤ n) :
    runTasks step (fun i => course i (done i)) order =
      .ok fun i => course i (done i + order.count i) := by
  induction order generalizing done with
  | nil => simp [runTasks, pure, Except.pure]
  | cons i order ih =>
      have hi : done i < n := by
        have hle := hroom i
        rw [List.count_cons_self] at hle
        omega
      have hnext : stepTask step (fun j => course j (done j)) i =
          .ok fun j => course j (Function.update done i (done i + 1) j) := by
        rw [stepTask, hstep i List.mem_cons_self _ hi]
        apply congrArg Except.ok
        funext j
        by_cases hj : j = i
        · subst hj
          simp only [Function.update_self]
        · simp only [Function.update_of_ne hj]
      have hcount : ∀ j, Function.update done i (done i + 1) j +
          order.count j = done j + (i :: order).count j := by
        intro j
        by_cases hj : j = i
        · subst hj
          rw [Function.update_self, List.count_cons_self]
          omega
        · rw [Function.update_of_ne hj, List.count_cons_of_ne (Ne.symm hj)]
      rw [runTasks, List.foldlM_cons, hnext]
      change runTasks step _ order = _
      rw [ih (fun j hj => hstep j (List.mem_cons_of_mem i hj)) _
        fun j => (hcount j).trans_le (hroom j)]
      simp only [hcount]

end Interleaving
