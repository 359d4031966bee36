/-
`agg_loss` (verl/trainer/ppo/core_algos.py) and `masked_sum`
(verl/utils/torch_functional.py) on losses with infinities and NaN: what the
entries outside the mask can do to the loss.
-/
import SelfDistillation.Library.ExtendedNum
import SelfDistillation.LossAggregation

namespace SelfDistillation

namespace MaskedLoss

open ExtNum

variable {F ι : Type} {b w : Nat}

section AggLoss

variable [Field F] [LinearOrder F]

/-- `masked_sum` over all axes -/
def maskedSum [Fintype ι] (values : ι → ExtNum F) (mask : ι → Bool) :
    ExtNum F :=
  ∑ i, (if mask i then values i else 0).times (maskVal (mask i))

/-- `torch.sum(loss_mat * loss_mask, dim=-1)` -/
def seqLoss (loss : Fin w → ExtNum F) (mask : Fin w → Bool) : ExtNum F :=
  ∑ t, (loss t).times (maskVal (mask t))

/-- The end of the `seq-mean` modes. -/
def seqMean (seqLosses : Fin b → ExtNum F) (lossMask : Fin b → Fin w → Bool)
    (options : AggOptions F) : Py (ExtNum F) := do
  let globalBatchSize ← countOr options.globalBatchSize options.dpSize
    "global_batch_size is required when dp_size > 1"
    (∑ i, maskVal (seqMask F (lossMask i)))
  return ((maskedSum seqLosses fun i => seqMask F (lossMask i)).dividedBy
    globalBatchSize).times (options.dpSize : F)

/-- `agg_loss` -/
def aggLoss (lossMat : Fin b → Fin w → ExtNum F)
    (lossMask : Fin b → Fin w → Bool) (lossAggMode : LossAggMode)
    (options : AggOptions F) : Py (ExtNum F) :=
  match lossAggMode with
  | .tokenMean => do
      let batchNumTokens ← countOr options.batchNumTokens options.dpSize
        "(global) batch_num_tokens is required when dp_size > 1"
        (∑ i, ∑ t, maskVal (lossMask i t))
      return ((maskedSum (fun p : Fin b × Fin w => lossMat p.1 p.2)
        fun p => lossMask p.1 p.2).dividedBy batchNumTokens).times
          (options.dpSize : F)
  | .seqMeanTokenSum =>
      seqMean (fun i => seqLoss (lossMat i) (lossMask i)) lossMask options
  | .seqMeanTokenSumNorm => do
      let loss ←
        seqMean (fun i => seqLoss (lossMat i) (lossMask i)) lossMask options
      return loss.dividedBy (options.lossScaleFactor.getD (w : F))
  | .seqMeanTokenMean =>
      seqMean (fun i => (seqLoss (lossMat i) (lossMask i)).dividedBy
        (seqTokens F (lossMask i) + lossEps)) lossMask options
  | .other name => .error (.valueError s!"Invalid loss_agg_mode: {name}")

section Finite

theorem maskedSum_fin [Fintype ι] (values : ι → F) (mask : ι → Bool) :
    maskedSum (fun i => fin (values i)) mask =
      fin (SelfDistillation.maskedSum values mask) := by
  unfold maskedSum SelfDistillation.maskedSum
  rw [← sum_fin]
  apply Finset.sum_congr rfl
  intro i _
  cases mask i <;> rfl

theorem seqLoss_fin (loss : Fin w → F) (mask : Fin w → Bool) :
    seqLoss (fun t => fin (loss t)) mask =
      fin (SelfDistillation.seqLoss loss mask) :=
  sum_fin _ _

theorem dividedBy_of_divide {x y z : F}
    (h : ExactNum.divide x y = some z) : (fin x).dividedBy y = fin z := by
  by_cases hy : y = 0
  · rw [hy, ExactNum.divide_zero] at h
    cases h
  · rw [ExactNum.divide_of_ne_zero x hy] at h
    cases h
    exact fin_dividedBy_of_ne_zero x hy

theorem scaled_of_divide {x y d z : F}
    (h : (ExactNum.divide x y).map (· * d) = some z) :
    ((fin x).dividedBy y).times d = fin z := by
  obtain ⟨q, hq, rfl⟩ := Option.map_eq_some_iff.mp h
  rw [dividedBy_of_divide hq]
  rfl

theorem seqMean_fin {seqLosses : Fin b → F} {lossMask : Fin b → Fin w → Bool}
    {options : AggOptions F} {x : F}
    (h : SelfDistillation.seqMean seqLosses lossMask options = .ok (some x)) :
    seqMean (fun i => fin (seqLosses i)) lossMask options = .ok (fin x) := by
  unfold SelfDistillation.seqMean at h
  unfold seqMean
  cases hsize : countOr options.globalBatchSize options.dpSize
      "global_batch_size is required when dp_size > 1"
      (∑ i, maskVal (seqMask F (lossMask i))) with
  | error e =>
      rw [hsize] at h
      cases h
  | ok n =>
      rw [hsize] at h
      rw [maskedSum_fin]
      exact congrArg Except.ok (scaled_of_divide (Except.ok.inj h))

/-- On finite losses this is `agg_loss` in exact arithmetic, as long as that
never divides by 0. -/
theorem aggLoss_fin [IsStrictOrderedRing F] {lossMat : Fin b → Fin w → F}
    {lossMask : Fin b → Fin w → Bool} {mode : LossAggMode}
    {options : AggOptions F} {x : F}
    (h : SelfDistillation.aggLoss lossMat lossMask mode options =
      .ok (some x)) :
    aggLoss (fun i t => fin (lossMat i t)) lossMask mode options =
      .ok (fin x) := by
  unfold aggLoss
  cases mode with
  | other name => cases h
  | tokenMean =>
      simp only [SelfDistillation.aggLoss] at h ⊢
      cases hsize : countOr options.batchNumTokens options.dpSize
          "(global) batch_num_tokens is required when dp_size > 1"
          (∑ i, ∑ t, maskVal (lossMask i t)) with
      | error e =>
          rw [hsize] at h
          cases h
      | ok n =>
          rw [hsize] at h
          rw [maskedSum_fin fun p : Fin b × Fin w => lossMat p.1 p.2]
          exact congrArg Except.ok (scaled_of_divide (Except.ok.inj h))
  | seqMeanTokenSum =>
      simp only [seqLoss_fin]
      exact seqMean_fin h
  | seqMeanTokenMean =>
      simp only [seqLoss_fin]
      rw [funext fun i => fin_dividedBy_of_ne_zero _
        (seqTokens_add_lossEps_pos (lossMask i)).ne']
      exact seqMean_fin h
  | seqMeanTokenSumNorm =>
      simp only [SelfDistillation.aggLoss] at h
      simp only [seqLoss_fin]
      cases hmean : SelfDistillation.seqMean
          (fun i => SelfDistillation.seqLoss (lossMat i) (lossMask i))
          lossMask options with
      | error e =>
          rw [hmean] at h
          cases h
      | ok loss =>
          rw [hmean] at h
          obtain ⟨y, rfl, hy⟩ := Option.bind_eq_some_iff.mp (Except.ok.inj h)
          rw [seqMean_fin hmean]
          exact congrArg Except.ok (dividedBy_of_divide hy)

end Finite

end AggLoss

/-- The modes that sum every row before the rows are summed. -/
def SeqMean : LossAggMode → Prop
  | .seqMeanTokenSum | .seqMeanTokenSumNorm | .seqMeanTokenMean => True
  | .tokenMean | .other _ => False

/-- Divisors that are not 0, as the sizes of a training step are. -/
structure ProperSizes [Zero F] (options : AggOptions F) : Prop where
  dpSize : 0 < options.dpSize
  globalBatchSize : ∀ n, options.globalBatchSize = some n → n ≠ 0
  lossScaleFactor : ∀ n, options.lossScaleFactor = some n → n ≠ 0

/-- A row with a token of the mask has an infinity or a NaN outside it. -/
def Poisoned (lossMat : Fin b → Fin w → ExtNum F)
    (lossMask : Fin b → Fin w → Bool) : Prop :=
  ∃ i, (∃ t, lossMask i t = true) ∧
    ∃ t, lossMask i t = false ∧ (lossMat i t).isFinite = false

/-- The entries of the mask alone have no number for a sum. -/
def ShowsNan (lossMat : Fin b → Fin w → ExtNum F)
    (lossMask : Fin b → Fin w → Bool) : Prop :=
  (∃ i t, lossMask i t = true ∧ lossMat i t = nan) ∨
    ((∃ i t, lossMask i t = true ∧ lossMat i t = inf true) ∧
      ∃ i t, lossMask i t = true ∧ lossMat i t = inf false)

section Rows

variable [Field F] [LinearOrder F]

/-- The entries of the mask, with 0 for every other. -/
def shown (loss : Fin w → ExtNum F) (mask : Fin w → Bool) :
    Fin w → ExtNum F :=
  fun t => if mask t then loss t else 0

/-- What a row comes to in a mode of `SeqMean`. -/
def rowLoss (mode : LossAggMode) (loss : Fin w → ExtNum F)
    (mask : Fin w → Bool) : ExtNum F :=
  match mode with
  | .seqMeanTokenMean =>
      (seqLoss loss mask).dividedBy (seqTokens F mask + lossEps)
  | _ => seqLoss loss mask

/-- The sum over the rows that are not fully masked. -/
def rowsLoss (mode : LossAggMode) (lossMat : Fin b → Fin w → ExtNum F)
    (lossMask : Fin b → Fin w → Bool) : ExtNum F :=
  maskedSum (fun i => rowLoss mode (lossMat i) (lossMask i))
    fun i => seqMask F (lossMask i)

/-- What is done with that sum. -/
def finish (mode : LossAggMode) (w : Nat) (options : AggOptions F)
    (globalBatchSize : F) (loss : ExtNum F) : ExtNum F :=
  let scaled := (loss.dividedBy globalBatchSize).times (options.dpSize : F)
  match mode with
  | .seqMeanTokenSumNorm =>
      scaled.dividedBy (options.lossScaleFactor.getD (w : F))
  | _ => scaled

/-- The number of rows `agg_loss` divides by. -/
def batchSize (lossMask : Fin b → Fin w → Bool) (options : AggOptions F) :
    Py F :=
  countOr options.globalBatchSize options.dpSize
    "global_batch_size is required when dp_size > 1"
    (∑ i, maskVal (seqMask F (lossMask i)))

variable {mode : LossAggMode} {options : AggOptions F}
  {lossMask : Fin b → Fin w → Bool}

theorem aggLoss_eq (hmode : SeqMean mode)
    (lossMat : Fin b → Fin w → ExtNum F) :
    aggLoss lossMat lossMask mode options =
      (batchSize lossMask options).map fun globalBatchSize =>
        finish mode w options globalBatchSize
          (rowsLoss mode lossMat lossMask) := by
  cases mode with
  | tokenMean => exact hmode.elim
  | other name => exact hmode.elim
  | seqMeanTokenSum =>
      simp only [aggLoss, seqMean, batchSize]
      cases countOr options.globalBatchSize options.dpSize _ _ <;> rfl
  | seqMeanTokenMean =>
      simp only [aggLoss, seqMean, batchSize]
      cases countOr options.globalBatchSize options.dpSize _ _ <;> rfl
  | seqMeanTokenSumNorm =>
      simp only [aggLoss, seqMean, batchSize]
      cases countOr options.globalBatchSize options.dpSize _ _ <;> rfl

theorem finish_nan (n : F) : finish mode w options n nan = nan := by
  unfold finish
  cases mode <;> rfl

theorem finish_eq_nan_iff [CharZero F] (hoptions : ProperSizes options)
    (hw : w ≠ 0) {n : F} (hn : n ≠ 0) {loss : ExtNum F} :
    finish mode w options n loss = nan ↔ loss = nan := by
  have hdp : (options.dpSize : F) ≠ 0 :=
    Nat.cast_ne_zero.mpr hoptions.dpSize.ne'
  have hscale : options.lossScaleFactor.getD (w : F) ≠ 0 := by
    cases h : options.lossScaleFactor with
    | none => exact Nat.cast_ne_zero.mpr hw
    | some c => exact hoptions.lossScaleFactor c h
  unfold finish
  cases mode <;>
    simp only [dividedBy_eq_nan_iff hscale, times_eq_nan_iff hdp,
      dividedBy_eq_nan_iff hn]

end Rows

section Shown

variable [Field F] [LinearOrder F] [IsStrictOrderedRing F]
  {loss : Fin w → ExtNum F} {mask : Fin w → Bool}

/-- `torch.where` in front of the product keeps every value out. -/
theorem where_times_maskVal (m : Bool) (x : ExtNum F) :
    (if m then x else 0).times (maskVal m) = if m then x else 0 := by
  cases m with
  | true => exact times_one x
  | false => exact congrArg fin (zero_mul _)

theorem maskedSum_eq [Fintype ι] (values : ι → ExtNum F) (mask : ι → Bool) :
    maskedSum values mask = ∑ i, if mask i then values i else 0 := by
  simp only [maskedSum, where_times_maskVal]

/-- The plain product keeps out finite values only. -/
theorem seqLoss_of_finite
    (h : ∀ t, mask t = false → (loss t).isFinite = true) :
    seqLoss loss mask = ∑ t, shown loss mask t := by
  apply Finset.sum_congr rfl
  intro t _
  cases ht : mask t with
  | true => simp [shown, ht, maskVal]
  | false => simp [shown, ht, maskVal, times_zero, h t ht]

omit [IsStrictOrderedRing F] in
theorem seqLoss_of_not_finite
    (h : ∃ t, mask t = false ∧ (loss t).isFinite = false) :
    seqLoss loss mask = nan := by
  obtain ⟨t, ht, hloss⟩ := h
  apply sum_eq_nan_of_mem (Finset.mem_univ t)
  rw [ht, maskVal_false, times_zero, hloss]
  rfl

theorem kind_rowLoss (mode : LossAggMode) :
    kind (rowLoss mode loss mask) = kind (seqLoss loss mask) := by
  cases mode with
  | seqMeanTokenMean =>
      exact kind_dividedBy_of_pos (seqTokens_add_lossEps_pos mask) _
  | tokenMean => rfl
  | seqMeanTokenSum => rfl
  | seqMeanTokenSumNorm => rfl
  | other name => rfl

end Shown

section Batch

variable [Field F] [LinearOrder F] [IsStrictOrderedRing F]
  {mode : LossAggMode} {options : AggOptions F}
  {lossMat lossMat' : Fin b → Fin w → ExtNum F}
  {lossMask : Fin b → Fin w → Bool}

theorem rowsLoss_of_poisoned (h : Poisoned lossMat lossMask) :
    rowsLoss mode lossMat lossMask = nan := by
  obtain ⟨i, hactive, hentry⟩ := h
  rw [rowsLoss, maskedSum_eq]
  apply sum_eq_nan_of_mem (Finset.mem_univ i)
  rw [if_pos (seqMask_eq_true_iff.mpr hactive), ← kind_eq_nan_iff,
    kind_rowLoss, seqLoss_of_not_finite hentry, kind_nan]

theorem finite_of_not_poisoned (h : ¬ Poisoned lossMat lossMask) {i : Fin b}
    (hi : seqMask F (lossMask i) = true) {t : Fin w}
    (ht : lossMask i t = false) : (lossMat i t).isFinite = true := by
  by_contra hfinite
  exact h ⟨i, seqMask_eq_true_iff.mp hi, t, ht, Bool.not_eq_true _ ▸ hfinite⟩

omit [LinearOrder F] [IsStrictOrderedRing F] in
theorem shown_congr
    (h : ∀ i t, lossMask i t = true → lossMat i t = lossMat' i t)
    (i : Fin b) :
    shown (lossMat i) (lossMask i) = shown (lossMat' i) (lossMask i) := by
  funext t
  by_cases ht : lossMask i t = true
  · simp [shown, ht, h i t ht]
  · simp [shown, ht]

/-- Without poison the sum depends on the entries of the mask alone. -/
theorem rowsLoss_congr
    (h : ∀ i t, lossMask i t = true → lossMat i t = lossMat' i t)
    (hclean : ¬ Poisoned lossMat lossMask)
    (hclean' : ¬ Poisoned lossMat' lossMask) :
    rowsLoss mode lossMat lossMask = rowsLoss mode lossMat' lossMask := by
  rw [rowsLoss, rowsLoss, maskedSum_eq, maskedSum_eq]
  apply Finset.sum_congr rfl
  intro i _
  by_cases hi : seqMask F (lossMask i) = true
  · have hseq : seqLoss (lossMat i) (lossMask i) =
        seqLoss (lossMat' i) (lossMask i) := by
      rw [seqLoss_of_finite fun t => finite_of_not_poisoned hclean hi,
        seqLoss_of_finite fun t => finite_of_not_poisoned hclean' hi,
        shown_congr h]
    rw [if_pos hi, if_pos hi]
    cases mode <;> simp only [rowLoss, hseq]
  · rw [if_neg hi, if_neg hi]

/-- Up to the size of numbers it is the sum of the entries of the mask. -/
theorem kind_rowsLoss (hclean : ¬ Poisoned lossMat lossMask) :
    kind (rowsLoss mode lossMat lossMask) = ∑ p : Fin b × Fin w,
      kind (shown (lossMat p.1) (lossMask p.1) p.2) := by
  rw [rowsLoss, maskedSum_eq, map_sum, Fintype.sum_prod_type]
  apply Finset.sum_congr rfl
  intro i _
  by_cases hi : seqMask F (lossMask i) = true
  · rw [if_pos hi, kind_rowLoss,
      seqLoss_of_finite fun t => finite_of_not_poisoned hclean hi, map_sum]
  · have hmask : ∀ t, lossMask i t = false := by
      simpa [seqMask_eq_true_iff] using hi
    simp [shown, hmask, hi]

theorem rowsLoss_eq_nan_iff (hclean : ¬ Poisoned lossMat lossMask) :
    rowsLoss mode lossMat lossMask = nan ↔ ShowsNan lossMat lossMask := by
  have hshown : ∀ (x : ExtNum F) (i : Fin b) (t : Fin w), x ≠ 0 →
      (shown (lossMat i) (lossMask i) t = x ↔
        lossMask i t = true ∧ lossMat i t = x) := by
    intro x i t hx
    by_cases ht : lossMask i t = true
    · simp [shown, ht]
    · simp [shown, ht, hx.symm]
  rw [← kind_eq_nan_iff, kind_rowsLoss hclean, sum_eq_nan_iff]
  simp only [Finset.mem_univ, true_and, kind_eq_nan_iff, kind_eq_inf_iff,
    Prod.exists, ShowsNan]
  simp only [hshown nan _ _ (by simp [zero_def]),
    hshown (inf _) _ _ (by simp [zero_def])]

omit [IsStrictOrderedRing F] in
/-- A sequence mode has no value exactly when a size is missing. -/
theorem batchSize_cases (lossMask : Fin b → Fin w → Bool)
    (options : AggOptions F) :
    ((options.globalBatchSize = none ∧ 1 < options.dpSize) ∧
      batchSize lossMask options = .error (.valueError
        "global_batch_size is required when dp_size > 1")) ∨
    (¬ (options.globalBatchSize = none ∧ 1 < options.dpSize) ∧
      ∃ n, batchSize lossMask options = .ok n ∧
        (options.globalBatchSize = some n ∨
          n = ∑ i, maskVal (seqMask F (lossMask i)))) := by
  unfold batchSize countOr
  cases hsize : options.globalBatchSize with
  | some n => exact Or.inr ⟨by simp, n, rfl, Or.inl rfl⟩
  | none =>
      by_cases hdp : 1 < options.dpSize
      · exact Or.inl ⟨⟨rfl, hdp⟩, if_pos hdp⟩
      · exact Or.inr ⟨by simp [hdp], _, if_neg hdp, Or.inr rfl⟩

theorem aggLoss_of_not_seqMean (hmode : ¬ SeqMean mode)
    (hagree : ∀ i t, lossMask i t = true → lossMat i t = lossMat' i t) :
    aggLoss lossMat lossMask mode options =
      aggLoss lossMat' lossMask mode options := by
  have hsum : maskedSum (fun p : Fin b × Fin w => lossMat p.1 p.2)
      (fun p => lossMask p.1 p.2) =
        maskedSum (fun p : Fin b × Fin w => lossMat' p.1 p.2)
          fun p => lossMask p.1 p.2 := by
    rw [maskedSum_eq, maskedSum_eq]
    apply Finset.sum_congr rfl
    intro p _
    by_cases hp : lossMask p.1 p.2 = true
    · rw [if_pos hp, if_pos hp, hagree p.1 p.2 hp]
    · rw [if_neg hp, if_neg hp]
  cases mode with
  | tokenMean => simp only [aggLoss, hsum]
  | other name => rfl
  | seqMeanTokenSum => exact absurd trivial hmode
  | seqMeanTokenSumNorm => exact absurd trivial hmode
  | seqMeanTokenMean => exact absurd trivial hmode

/-- The loss of a batch that is poisoned, against one that is not. -/
theorem finish_rowsLoss_ne (hoptions : ProperSizes options)
    (hpoison : Poisoned lossMat lossMask)
    (hclean : ¬ Poisoned lossMat' lossMask) {n : F}
    (hn : options.globalBatchSize = some n ∨
      n = ∑ i, maskVal (seqMask F (lossMask i))) :
    finish mode w options n (rowsLoss mode lossMat lossMask) =
      finish mode w options n (rowsLoss mode lossMat' lossMask) ↔
        ShowsNan lossMat' lossMask := by
  have hnan : rowsLoss mode lossMat lossMask = nan :=
    rowsLoss_of_poisoned hpoison
  obtain ⟨i, ⟨t, ht⟩, _⟩ := hpoison
  have hw : w ≠ 0 := Nat.ne_of_gt (Nat.lt_of_le_of_lt (Nat.zero_le _) t.isLt)
  have hsize : n ≠ 0 := by
    rcases hn with hsome | rfl
    · exact hoptions.globalBatchSize n hsome
    · exact (sum_seqMask_pos_iff.mpr ⟨i, t, ht⟩).ne'
  rw [hnan, finish_nan, eq_comm, finish_eq_nan_iff hoptions hw hsize,
    rowsLoss_eq_nan_iff hclean]

omit [Field F] [LinearOrder F] [IsStrictOrderedRing F] in
theorem showsNan_congr [AddCommMonoid F]
    (hagree : ∀ i t, lossMask i t = true → lossMat i t = lossMat' i t) :
    ShowsNan lossMat lossMask ↔ ShowsNan lossMat' lossMask := by
  have hentry : ∀ x, (∃ i t, lossMask i t = true ∧ lossMat i t = x) ↔
      ∃ i t, lossMask i t = true ∧ lossMat' i t = x := by
    intro x
    constructor
    · rintro ⟨i, t, ht, hx⟩
      exact ⟨i, t, ht, hagree i t ht ▸ hx⟩
    · rintro ⟨i, t, ht, hx⟩
      exact ⟨i, t, ht, (hagree i t ht).symm ▸ hx⟩
  unfold ShowsNan
  rw [hentry, hentry, hentry]

/-- When two losses that agree on the mask have the same aggregate. -/
theorem maskedEntries_iff (hoptions : ProperSizes options)
    (hagree : ∀ i t, lossMask i t = true → lossMat i t = lossMat' i t) :
    aggLoss lossMat lossMask mode options =
        aggLoss lossMat' lossMask mode options ↔
      ¬ SeqMean mode ∨
        (options.globalBatchSize = none ∧ 1 < options.dpSize) ∨
        (Poisoned lossMat lossMask ↔ Poisoned lossMat' lossMask) ∨
        ShowsNan lossMat lossMask := by
  by_cases hmode : SeqMean mode
  · rw [aggLoss_eq hmode, aggLoss_eq hmode]
    rcases batchSize_cases lossMask options with
      ⟨hraises, herror⟩ | ⟨hsize, n, hok, hn⟩
    · rw [herror]
      exact ⟨fun _ => Or.inr (Or.inl hraises), fun _ => rfl⟩
    · rw [hok]
      simp only [Except.map, Except.ok.injEq, hmode, hsize, not_true,
        false_or]
      by_cases hpoison : Poisoned lossMat lossMask
      · by_cases hpoison' : Poisoned lossMat' lossMask
        · simp [rowsLoss_of_poisoned, hpoison, hpoison']
        · rw [finish_rowsLoss_ne hoptions hpoison hpoison' hn,
            showsNan_congr hagree]
          simp [hpoison, hpoison']
      · by_cases hpoison' : Poisoned lossMat' lossMask
        · rw [eq_comm, finish_rowsLoss_ne hoptions hpoison' hpoison hn]
          simp [hpoison, hpoison']
        · simp [rowsLoss_congr hagree hpoison hpoison', hpoison, hpoison']
  · exact ⟨fun _ => Or.inl hmode, fun _ => aggLoss_of_not_seqMean hmode hagree⟩

end Batch

theorem maskedEntries_iff_padding :
    aggLoss (F := ℚ) ![![fin 3, fin 5]] ![![true, false]] .seqMeanTokenMean {} =
        aggLoss ![![fin 3, nan]] ![![true, false]] .seqMeanTokenMean {} ↔
      ¬ SeqMean .seqMeanTokenMean ∨
        (({} : AggOptions ℚ).globalBatchSize = none ∧
          1 < ({} : AggOptions ℚ).dpSize) ∨
        (Poisoned (F := ℚ) ![![fin 3, fin 5]] ![![true, false]] ↔
          Poisoned (F := ℚ) ![![fin 3, nan]] ![![true, false]]) ∨
        ShowsNan (F := ℚ) ![![fin 3, fin 5]] ![![true, false]] :=
  maskedEntries_iff ⟨Nat.one_pos, nofun, nofun⟩ (by decide)

/-- A NaN at a padding position of a row makes the loss NaN. -/
theorem masked_nan_counts :
    ¬ ∀ (b w : Nat) (lossMat lossMat' : Fin b → Fin w → ExtNum ℚ)
        (lossMask : Fin b → Fin w → Bool) (mode : LossAggMode),
      (∀ i t, lossMask i t = true → lossMat i t = lossMat' i t) →
      aggLoss lossMat lossMask mode {} = aggLoss lossMat' lossMask mode {} := by
  intro hclaim
  have h := hclaim 1 2 ![![fin 3, nan]] ![![fin 3, fin 5]] ![![true, false]]
    .seqMeanTokenSum (by decide)
  exact absurd h (by decide +kernel)

end MaskedLoss

end SelfDistillation
