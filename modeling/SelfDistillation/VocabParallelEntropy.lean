/-
`_VocabParallelEntropy` (verl/utils/megatron/tensor_parallel.py) in exact real
arithmetic: the entropy of logits whose vocabulary is on several ranks, and the
backward pass that works in the buffers the forward pass saved.
-/
import SelfDistillation.Library.KernelLaunch
import SelfDistillation.Library.SoftmaxGradient

namespace SelfDistillation.VocabParallel

open ExtNum KernelLaunch OnlineSoftmax SoftmaxGradient Finset

/-- An element of a tensor. -/
abbrev Val := ExtNum ℝ

/-- The logits of the ranks: each has the columns of its part of the vocabulary,
one part after the other. -/
structure Shards where
  worldSize : ℕ
  vocabSize : ℕ
  numTokens : ℕ
  worldSize_pos : 0 < worldSize
  vocabSize_pos : 0 < vocabSize
  logits : ℕ → ℕ → ℝ

/-- The saved tensors of a rank. -/
structure Ctx where
  vocabParallelLogits : ℕ → ℕ → Val
  softmaxLogits : ℕ → ℕ → Val
  sumSoftmaxTimesLogits : ℕ → Val

/-- `_VocabParallelEntropy.backward`: the gradient, which is in the buffer of
the softmax, and the saved tensors after it. -/
noncomputable def backward (ctx : Ctx) (gradOutput : ℕ → Val) :
    (ℕ → ℕ → Val) × Ctx :=
  let shifted := fun t j =>
    ctx.vocabParallelLogits t j - ctx.sumSoftmaxTimesLogits t
  let grad := fun t j => ctx.softmaxLogits t j * shifted t j
  let grad := fun t j => grad t j * gradOutput t
  let recovered := fun t j => shifted t j + ctx.sumSoftmaxTimesLogits t
  let grad := fun t j => grad t j * fin (-1)
  (grad, { vocabParallelLogits := recovered
           softmaxLogits := grad
           sumSoftmaxTimesLogits := ctx.sumSoftmaxTimesLogits })

namespace Shards

variable (x : Shards)

/-- `vocab_parallel_logits` of a rank. -/
def rankLogits (rank t j : ℕ) : Val := fin (x.logits t (rank * x.vocabSize + j))

/-- `logits_max` after `dist.all_reduce` -/
noncomputable def logitsMax (t : ℕ) : Val :=
  maxOver (fun q => maxOver (x.rankLogits q t) x.vocabSize) x.worldSize

/-- `normalized_exp_logits` -/
noncomputable def normalizedExpLogits (rank t j : ℕ) : Val :=
  exp (x.rankLogits rank t j - x.logitsMax t)

/-- `normalized_sum_exp_logits` after `dist.all_reduce` -/
noncomputable def normalizedSumExpLogits (t : ℕ) : Val :=
  ∑ q ∈ range x.worldSize,
    ∑ j ∈ range x.vocabSize, x.normalizedExpLogits q t j

/-- `softmax_logits` -/
noncomputable def softmaxLogits (rank t j : ℕ) : Val :=
  x.normalizedExpLogits rank t j / x.normalizedSumExpLogits t

/-- `sum_softmax_times_logits` after `dist.all_reduce` -/
noncomputable def sumSoftmaxTimesLogits (t : ℕ) : Val :=
  ∑ q ∈ range x.worldSize, ∑ j ∈ range x.vocabSize,
    x.softmaxLogits q t j * x.rankLogits q t j

/-- `_VocabParallelEntropy.forward`, on one rank. -/
noncomputable def forward (rank : ℕ) : (ℕ → Val) × Ctx :=
  (fun t => x.logitsMax t + log (x.normalizedSumExpLogits t) -
      x.sumSoftmaxTimesLogits t,
    { vocabParallelLogits := x.rankLogits rank
      softmaxLogits := x.softmaxLogits rank
      sumSoftmaxTimesLogits := x.sumSoftmaxTimesLogits })

def totalVocab : ℕ := x.worldSize * x.vocabSize

theorem totalVocab_pos : 0 < x.totalVocab :=
  Nat.mul_pos x.worldSize_pos x.vocabSize_pos

/-- The maximum is a number. -/
theorem exists_logitsMax (t : ℕ) : ∃ m, x.logitsMax t = fin m := by
  have hlocal : ∀ q, ∃ m, maxOver (x.rankLogits q t) x.vocabSize = fin m :=
    fun q => maxOver_eq_fin (fun j _ => .inr ⟨_, rfl⟩) x.vocabSize_pos rfl
  obtain ⟨m, hm⟩ := hlocal 0
  exact maxOver_eq_fin (fun q _ => .inr (hlocal q)) x.worldSize_pos hm

/-- The ranks' columns, summarised relative to the maximum. -/
theorem exists_summary (t : ℕ) : ∃ m a b,
    Summarizes (x.logits t) 0 x.totalVocab m a b ∧ x.logitsMax t = fin m ∧
      x.normalizedSumExpLogits t = fin a := by
  obtain ⟨m, hm⟩ := x.exists_logitsMax t
  refine ⟨m, ∑ c ∈ Ico 0 x.totalVocab, Real.exp (x.logits t c - m), _,
    ⟨rfl, rfl⟩, hm, ?_⟩
  rw [← range_eq_Ico, totalVocab,
    ← sum_blocks fun c => Real.exp (x.logits t c - m)]
  simp only [normalizedSumExpLogits, normalizedExpLogits, rankLogits, hm,
    fin_sub_fin, exp_fin, sum_fin]

theorem softmaxLogits_eq (rank t j : ℕ) : x.softmaxLogits rank t j =
    fin (softmax (x.logits t) 0 x.totalVocab (rank * x.vocabSize + j)) := by
  obtain ⟨m, a, b, hsum, hm, ha⟩ := x.exists_summary t
  have hne := (hsum.weight_pos x.totalVocab_pos).ne'
  rw [softmax_of_summarizes hsum, softmaxLogits, ha, normalizedExpLogits, hm,
    rankLogits, fin_sub_fin, exp_fin, fin_div_fin _ hne, mul_one_div]

theorem sumSoftmaxTimesLogits_eq (t : ℕ) : x.sumSoftmaxTimesLogits t =
    fin (softmaxMean (x.logits t) 0 x.totalVocab) := by
  have hmean : softmaxMean (x.logits t) 0 x.totalVocab =
      ∑ c ∈ range (x.worldSize * x.vocabSize),
        softmax (x.logits t) 0 x.totalVocab c * x.logits t c := by
    rw [range_eq_Ico]
    rfl
  rw [hmean, ← sum_blocks fun c =>
    softmax (x.logits t) 0 x.totalVocab c * x.logits t c]
  simp only [sumSoftmaxTimesLogits, softmaxLogits_eq, rankLogits, fin_mul_fin,
    sum_fin]

/-- Every rank returns the entropy of the whole vocabulary. -/
theorem forward_entropy (rank t : ℕ) : (x.forward rank).1 t =
    fin (entropy (x.logits t) 0 x.totalVocab) := by
  obtain ⟨m, a, b, hsum, hm, ha⟩ := x.exists_summary t
  have hpos := hsum.weight_pos x.totalVocab_pos
  rw [forward]
  dsimp only
  rw [hm, ha, sumSoftmaxTimesLogits_eq, log_fin hpos, fin_add_fin, fin_sub_fin,
    hsum.add_log x.totalVocab_pos, entropy]

variable (gradOutput : ℕ → ℝ)

/-- The gradient of a logit. -/
theorem backward_grad (rank t j : ℕ) :
    (backward (x.forward rank).2 fun t => fin (gradOutput t)).1 t j =
      fin (-(softmax (x.logits t) 0 x.totalVocab (rank * x.vocabSize + j) *
        (x.logits t (rank * x.vocabSize + j) -
          softmaxMean (x.logits t) 0 x.totalVocab)) * gradOutput t) := by
  simp only [backward, forward, softmaxLogits_eq, sumSoftmaxTimesLogits_eq,
    rankLogits, fin_sub_fin, fin_mul_fin]
  congr 1
  ring

/-- The logits are in their buffer again as they were. -/
theorem backward_recovers (rank : ℕ) :
    (backward (x.forward rank).2
      fun t => fin (gradOutput t)).2.vocabParallelLogits =
        x.rankLogits rank := by
  funext t j
  simp only [backward, forward, sumSoftmaxTimesLogits_eq, rankLogits,
    fin_sub_fin, fin_add_fin, sub_add_cancel]

/-- The ranks with other logits. -/
def withLogits (logits : ℕ → ℕ → ℝ) : Shards where
  worldSize := x.worldSize
  vocabSize := x.vocabSize
  numTokens := x.numTokens
  worldSize_pos := x.worldSize_pos
  vocabSize_pos := x.vocabSize_pos
  logits := logits

/-- Forward and backward together: the ranks agree on the entropies, and each
returns its columns of the gradient of any loss on them, with its logits as they
were. -/
theorem backward_is_entropy_gradient {logits : ℝ → ℕ → ℕ → ℝ}
    {logits' : ℕ → ℕ → ℝ} (hzero : logits 0 = x.logits)
    (hcurve : ∀ t c, HasDerivAt (fun s => logits s t c) (logits' t c) 0) :
    ∃ (entropies : ℝ → ℕ → ℝ) (grads : ℕ → ℕ → ℕ → ℝ),
      (∀ s rank t,
        ((x.withLogits (logits s)).forward rank).1 t = fin (entropies s t)) ∧
      (∀ rank, (∀ t j, (backward (x.forward rank).2
          fun t => fin (gradOutput t)).1 t j = fin (grads rank t j)) ∧
        (backward (x.forward rank).2
          fun t => fin (gradOutput t)).2.vocabParallelLogits =
            x.rankLogits rank) ∧
      HasDerivAt
        (fun s => ∑ t ∈ range x.numTokens, gradOutput t * entropies s t)
        (∑ rank ∈ range x.worldSize, ∑ t ∈ range x.numTokens,
          ∑ j ∈ range x.vocabSize,
            grads rank t j * logits' t (rank * x.vocabSize + j)) 0 := by
  refine ⟨fun s t => entropy (logits s t) 0 x.totalVocab, _,
    fun s rank t => (x.withLogits (logits s)).forward_entropy rank t,
    fun rank => ⟨fun t j => x.backward_grad gradOutput rank t j,
      x.backward_recovers gradOutput rank⟩, ?_⟩
  have hrow : ∀ t, HasDerivAt (fun s => entropy (logits s t) 0 x.totalVocab)
      (∑ c ∈ Ico 0 x.totalVocab, -(softmax (x.logits t) 0 x.totalVocab c *
        (x.logits t c - softmaxMean (x.logits t) 0 x.totalVocab)) *
          logits' t c) 0 := by
    intro t
    rw [← hzero]
    exact hasDerivAt_entropy (fun c _ => hcurve t c) x.totalVocab_pos
  have hsum := HasDerivAt.fun_sum (u := range x.numTokens)
    fun t _ => (hrow t).const_mul (gradOutput t)
  refine hsum.congr_deriv ?_
  rw [sum_comm]
  refine sum_congr rfl fun t _ => ?_
  rw [sum_blocks fun c => -(softmax (x.logits t) 0 x.totalVocab c *
      (x.logits t c - softmaxMean (x.logits t) 0 x.totalVocab)) *
        gradOutput t * logits' t c, mul_sum, range_eq_Ico]
  exact sum_congr rfl fun c _ => by ring

end Shards

section TwoShards

/-- Two ranks of two columns, one token. -/
def twoShards : Shards where
  worldSize := 2
  vocabSize := 2
  numTokens := 1
  worldSize_pos := Nat.zero_lt_two
  vocabSize_pos := Nat.zero_lt_two
  logits _ _ := 0

theorem backward_is_entropy_gradient_twoShards :
    ∃ (entropies : ℝ → ℕ → ℝ) (grads : ℕ → ℕ → ℕ → ℝ),
      (∀ s rank t, ((twoShards.withLogits fun _ c => s * c).forward rank).1 t =
        fin (entropies s t)) ∧
      HasDerivAt (fun s => ∑ t ∈ range 1, 1 * entropies s t)
        (∑ rank ∈ range 2, ∑ t ∈ range 1, ∑ j ∈ range 2,
          grads rank t j * (rank * 2 + j : ℕ)) 0 := by
  have hcurve : ∀ (_ : ℕ) (c : ℕ), HasDerivAt (fun s : ℝ => s * c) (c : ℝ) 0 :=
    fun _ c => hasDerivAt_mul_const (c : ℝ)
  obtain ⟨entropies, grads, hforward, -, hderiv⟩ :=
    twoShards.backward_is_entropy_gradient (fun _ => 1)
      (funext fun _ => funext fun _ => zero_mul _) hcurve
  exact ⟨entropies, grads, hforward, hderiv⟩

end TwoShards

end SelfDistillation.VocabParallel
