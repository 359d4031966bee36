/-
A softmax taken piece by piece: what a piece of a row is summarised by, and how
summaries of neighbouring pieces are put together.
-/
import SelfDistillation.Library.ExtendedArith

namespace OnlineSoftmax

open ExtNum Finset

/-- The weight of the columns from `lo` up to `hi` relative to `m`, and the sum
of the logits weighted by it. -/
structure Summarizes (x : ℕ → ℝ) (lo hi : ℕ) (m a b : ℝ) : Prop where
  weight : a = ∑ c ∈ Ico lo hi, Real.exp (x c - m)
  moment : b = ∑ c ∈ Ico lo hi, x c * Real.exp (x c - m)

variable {x : ℕ → ℝ} {lo mid hi : ℕ} {m a b : ℝ}

namespace Summarizes

theorem empty (x : ℕ → ℝ) (lo : ℕ) (m : ℝ) : Summarizes x lo lo m 0 0 := by
  constructor <;> simp

/-- The same columns relative to another number. -/
theorem rescale (h : Summarizes x lo hi m a b) (m' : ℝ) :
    Summarizes x lo hi m' (Real.exp (m - m') * a) (Real.exp (m - m') * b) := by
  have hexp : ∀ c, Real.exp (x c - m') =
      Real.exp (m - m') * Real.exp (x c - m) := by
    intro c
    rw [← Real.exp_add]
    congr 1
    ring
  constructor
  · rw [h.weight, mul_sum]
    exact sum_congr rfl fun c _ => (hexp c).symm
  · rw [h.moment, mul_sum]
    refine sum_congr rfl fun c _ => ?_
    rw [hexp]
    ring

theorem append {a' b' : ℝ} (h : Summarizes x lo mid m a b)
    (h' : Summarizes x mid hi m a' b') (hlo : lo ≤ mid) (hhi : mid ≤ hi) :
    Summarizes x lo hi m (a + a') (b + b') := by
  constructor
  · rw [h.weight, h'.weight, sum_Ico_consecutive _ hlo hhi]
  · rw [h.moment, h'.moment, sum_Ico_consecutive _ hlo hhi]

/-- Pieces that follow each other, each summarised relative to `m`. -/
theorem family {place : ℕ → ℕ} (hplace : Monotone place) {f g : ℕ → ℝ}
    {n k : ℕ} (hnk : n ≤ k) (h : ∀ i, n ≤ i → i < k →
      Summarizes x (place i) (place (i + 1)) m (f i) (g i)) :
    Summarizes x (place n) (place k) m (∑ i ∈ Ico n k, f i)
      (∑ i ∈ Ico n k, g i) := by
  induction k, hnk using Nat.le_induction with
  | base => simpa using empty x (place n) m
  | succ k hnk ih =>
      rw [sum_Ico_succ_top hnk, sum_Ico_succ_top hnk]
      have hrest := ih fun i hni hik => h i hni (hik.trans k.lt_succ_self)
      exact hrest.append (h k hnk k.lt_succ_self) (hplace hnk)
        (hplace k.le_succ)

theorem weight_pos (h : Summarizes x lo hi m a b) (hlt : lo < hi) : 0 < a := by
  rw [h.weight]
  exact sum_pos (fun c _ => Real.exp_pos _) (nonempty_Ico.mpr hlt)

end Summarizes

/-- The logarithm of the sum of the exponentials. -/
noncomputable def logSumExp (x : ℕ → ℝ) (lo hi : ℕ) : ℝ :=
  Real.log (∑ c ∈ Ico lo hi, Real.exp (x c))

/-- The mean of the logits, weighted by their softmax. -/
noncomputable def softmaxMean (x : ℕ → ℝ) (lo hi : ℕ) : ℝ :=
  ∑ c ∈ Ico lo hi,
    Real.exp (x c) / (∑ d ∈ Ico lo hi, Real.exp (x d)) * x c

section Whole

variable (h : Summarizes x lo hi m a b) (hlt : lo < hi)

include h

/-- Undone the shift by `m`. -/
theorem Summarizes.unshift :
    ∑ c ∈ Ico lo hi, Real.exp (x c) = Real.exp m * a ∧
      ∑ c ∈ Ico lo hi, x c * Real.exp (x c) = Real.exp m * b := by
  have hzero := h.rescale 0
  simp only [sub_zero] at hzero
  exact ⟨by simpa using hzero.weight.symm, by simpa using hzero.moment.symm⟩

include hlt

theorem Summarizes.add_log : m + Real.log a = logSumExp x lo hi := by
  have ha := h.weight_pos hlt
  rw [logSumExp, h.unshift.1, Real.log_mul (Real.exp_pos m).ne' ha.ne',
    Real.log_exp]

theorem Summarizes.div : b / a = softmaxMean x lo hi := by
  have ha := h.weight_pos hlt
  have hsum : softmaxMean x lo hi =
      (∑ c ∈ Ico lo hi, x c * Real.exp (x c)) /
        ∑ c ∈ Ico lo hi, Real.exp (x c) := by
    rw [softmaxMean, sum_div]
    exact sum_congr rfl fun c _ => by ring
  rw [hsum, h.unshift.1, h.unshift.2,
    mul_div_mul_left _ _ (Real.exp_pos m).ne']

end Whole

/-- What a loop over pieces carries: nothing yet, or a summary. -/
inductive Covers (x : ℕ → ℝ) (lo : ℕ) :
    ℕ → ExtNum ℝ → ExtNum ℝ → ExtNum ℝ → Prop
  | start : Covers x lo lo (inf true) (fin 0) (fin 0)
  | piece {hi : ℕ} {m a b : ℝ} (h : Summarizes x lo hi m a b) :
      Covers x lo hi (fin m) (fin a) (fin b)

/-- The maximum stays a number where a piece was seen or one comes that has
a number. -/
theorem Covers.max_eq_fin {maximum accu moment y : ExtNum ℝ}
    (h : Covers x lo hi maximum accu moment)
    (hy : (∃ m, y = fin m) ∨ lo ≠ hi ∧ (y = nan ∨ y = inf true)) :
    ∃ m, max maximum y = fin m := by
  cases h with
  | start =>
      rcases hy with ⟨m, rfl⟩ | ⟨hne, -⟩
      · exact ⟨m, bot_max_fin m⟩
      · exact absurd rfl hne
  | piece h => rcases hy with ⟨m, rfl⟩ | ⟨-, rfl | rfl⟩ <;> simp

/-- One more piece, relative to a new number. -/
theorem Covers.absorb {maximum accu moment : ExtNum ℝ}
    (h : Covers x lo mid maximum accu moment)
    (h' : Summarizes x mid hi m a b) (hlo : lo ≤ mid) (hhi : mid ≤ hi) :
    Covers x lo hi (fin m) (exp (maximum - fin m) * accu + fin a)
      (exp (maximum - fin m) * moment + fin b) := by
  cases h with
  | start =>
      simpa using Covers.piece h'
  | piece h =>
      simpa using Covers.piece ((h.rescale m).append h' hlo hhi)

end OnlineSoftmax
