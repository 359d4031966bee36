/-
The inner loop of `update_policy` (verl/workers/actor/dp_actor.py): the scaled
losses of the micro-batches of one mini-batch, against `agg_loss` of the whole
mini-batch.
-/
import SelfDistillation.LossAggregation
import SelfDistillation.Library.Chunks

namespace SelfDistillation

namespace GradientAccumulation

open ExactNum Chunks

variable {F : Type} {n w : Nat}

/-- What the loop reads of `ActorConfig`. -/
structure UpdateConfig (F : Type) where
  useDynamicBsz : Bool
  ppoMiniBatchSize : Nat
  ppoMicroBatchSizePerGpu : Nat
  lossAggMode : LossAggMode
  calculateEntropy : Bool
  entropyCoeff : F
  useKlLoss : Bool
  klLossCoef : F

/-- The per-token losses of a batch with `n` rows: of the policy, the entropy
and the divergence from the reference policy. -/
structure TokenLosses (F : Type) (n w : Nat) where
  pgLosses : Fin n → Fin w → F
  entropy : Fin n → Fin w → F
  kld : Fin n → Fin w → F

/-- The rows of a micro-batch. -/
def TokenLosses.pick (losses : TokenLosses F n w) (rows : List (Fin n)) :
    TokenLosses F rows.length w where
  pgLosses := pickRows losses.pgLosses rows
  entropy := pickRows losses.entropy rows
  kld := pickRows losses.kld rows

section Loop

variable [Field F] [LinearOrder F]

/-- `calculate_entropy`, which a coefficient switches on too. -/
def UpdateConfig.entropyWanted (config : UpdateConfig F) : Bool :=
  config.calculateEntropy || decide (config.entropyCoeff ≠ 0)

/-- `policy_loss` after the entropy bonus. -/
def lessEntropy (config : UpdateConfig F) (losses : TokenLosses F n w)
    (responseMask : Fin n → Fin w → Bool) (policyLoss : Num F) : Py (Num F) :=
  if config.entropyWanted then do
    let entropyAgg ← aggLoss losses.entropy responseMask config.lossAggMode {}
    return if config.entropyCoeff = 0 then policyLoss
      else policyLoss.bind fun p =>
        entropyAgg.map fun e => p - e * config.entropyCoeff
  else .ok policyLoss

/-- `policy_loss` after the divergence from the reference policy. -/
def plusKl (config : UpdateConfig F) (losses : TokenLosses F n w)
    (responseMask : Fin n → Fin w → Bool) (policyLoss : Num F) : Py (Num F) :=
  if config.useKlLoss then do
    let klLoss ← aggLoss losses.kld responseMask config.lossAggMode {}
    return policyLoss.bind fun p =>
      klLoss.map fun k => p + k * config.klLossCoef
  else .ok policyLoss

/-- `policy_loss` -/
def policyLoss (config : UpdateConfig F) (losses : TokenLosses F n w)
    (responseMask : Fin n → Fin w → Bool) : Py (Num F) := do
  let pgLoss ← aggLoss losses.pgLosses responseMask config.lossAggMode {}
  let withEntropy ← lessEntropy config losses responseMask pgLoss
  plusKl config losses responseMask withEntropy

/-- `gradient_accumulation`, of use without dynamic batches only. -/
def gradientAccumulation (config : UpdateConfig F) : Py Nat :=
  if config.useDynamicBsz then .ok 0
  else if config.ppoMicroBatchSizePerGpu = 0 then .error .zeroDivisionError
  else .ok (config.ppoMiniBatchSize / config.ppoMicroBatchSizePerGpu)

/-- A quotient of two Python integers. -/
def trueDiv (x y : Nat) : Py F :=
  if y = 0 then .error .zeroDivisionError else .ok ((x : F) / (y : F))

/-- `loss_scale_factor` of a micro-batch with `rows` rows. -/
def lossScaleFactor (config : UpdateConfig F) (accumulation rows : Nat) :
    Py F :=
  if config.useDynamicBsz then trueDiv rows config.ppoMiniBatchSize
  else trueDiv 1 accumulation

/-- The loss a micro-batch back-propagates. -/
def scaledLoss (config : UpdateConfig F) (accumulation : Nat)
    (losses : TokenLosses F n w) (responseMask : Fin n → Fin w → Bool)
    (rows : List (Fin n)) : Py (Num F) := do
  let factor ← lossScaleFactor config accumulation rows.length
  let loss ← policyLoss config (losses.pick rows) (pickRows responseMask rows)
  return loss.map (· * factor)

/-- The loop over the micro-batches, and what it back-propagates in all. -/
def accumulatedLoss (config : UpdateConfig F) (losses : TokenLosses F n w)
    (responseMask : Fin n → Fin w → Bool) (microBatches : List (List (Fin n))) :
    Py (Num F) := do
  let accumulation ← gradientAccumulation config
  let scaled ←
    microBatches.mapM (scaledLoss config accumulation losses responseMask)
  return total scaled

/-- What the splits of a mini-batch come to: pieces of a fixed size in order,
or any partition of the rows. -/
def IsMicroSplit (config : UpdateConfig F)
    (microBatches : List (List (Fin n))) : Prop :=
  if config.useDynamicBsz then
    microBatches.flatten.Perm (List.finRange n) ∧ [] ∉ microBatches
  else microBatches =
    chunksOf config.ppoMicroBatchSizePerGpu (List.finRange n)

/-- The per-token loss `policy_loss` aggregates. -/
def tokenLoss (config : UpdateConfig F) (losses : TokenLosses F n w) :
    Fin n → Fin w → F := fun i t =>
  losses.pgLosses i t - config.entropyCoeff * losses.entropy i t +
    if config.useKlLoss then config.klLossCoef * losses.kld i t else 0

end Loop

section Weight

/-- The number of tokens of a row. -/
def rowTokens (mask : Fin w → Bool) : Nat :=
  ∑ t, if mask t then 1 else 0

/-- What a row adds to the divisor of `agg_loss`: its tokens, or itself if it
has one. -/
def rowWeight (mode : LossAggMode) (mask : Fin w → Bool) : Nat :=
  match mode with
  | .tokenMean => rowTokens mask
  | _ => if rowTokens mask = 0 then 0 else 1

/-- The divisor of a micro-batch. -/
def weight (mode : LossAggMode) (responseMask : Fin n → Fin w → Bool)
    (rows : List (Fin n)) : Nat :=
  (rows.map fun i => rowWeight mode (responseMask i)).sum

end Weight

section Aggregate

variable [Field F] [LinearOrder F]

/-- The counts `agg_loss` takes from its own batch. -/
def ownCounts (responseMask : Fin n → Fin w → Bool) : GlobalCounts F where
  batchNumTokens := ∑ i, ∑ t, maskVal (responseMask i t)
  globalBatchSize := ∑ i, maskVal (seqMask F (responseMask i))
  lossScaleFactor := none

theorem aggLoss_default (lossMat : Fin n → Fin w → F)
    (responseMask : Fin n → Fin w → Bool) (mode : LossAggMode) :
    aggLoss lossMat responseMask mode {} =
      aggLoss lossMat responseMask mode
        ((ownCounts responseMask).options 1) := by
  cases mode <;> rfl

/-- The part of the factor that no count enters. -/
def unitFactor (F : Type) [Field F] (mode : LossAggMode) (w : Nat) : F :=
  match mode with
  | .seqMeanTokenSumNorm => 1 / (w : F)
  | _ => 1

variable [IsStrictOrderedRing F]

omit [LinearOrder F] [IsStrictOrderedRing F] in
theorem seqTokens_eq (mask : Fin w → Bool) :
    seqTokens F mask = (rowTokens mask : F) := by
  rw [seqTokens, rowTokens, Nat.cast_sum]
  apply Finset.sum_congr rfl
  intro t _
  cases mask t <;> simp [maskVal]

theorem seqMask_iff (mask : Fin w → Bool) :
    seqMask F mask = true ↔ rowTokens mask ≠ 0 := by
  rw [seqMask, decide_eq_true_eq, seqTokens_eq, Nat.cast_pos,
    Nat.pos_iff_ne_zero]

theorem maskVal_seqMask (mask : Fin w → Bool) :
    (maskVal (seqMask F mask) : F) =
      ((if rowTokens mask = 0 then 0 else 1 : Nat) : F) := by
  by_cases h : rowTokens mask = 0
  · have hmask : seqMask F mask = false := by
      simpa [h] using (seqMask_iff (F := F) mask).not
    simp [h, hmask, maskVal]
  · have hmask : seqMask F mask = true := (seqMask_iff mask).mpr h
    simp [h, hmask, maskVal]

omit [LinearOrder F] [IsStrictOrderedRing F] in
theorem weight_finRange (mode : LossAggMode)
    (responseMask : Fin n → Fin w → Bool) :
    weight mode responseMask (List.finRange n) =
      ∑ i, rowWeight mode (responseMask i) :=
  (Fin.sum_univ_def _).symm

omit [LinearOrder F] [IsStrictOrderedRing F] in
theorem width_ne_zero {mode : LossAggMode} {mask : Fin w → Bool}
    (h : rowWeight mode mask ≠ 0) : w ≠ 0 := by
  rintro rfl
  apply h
  cases mode <;> rfl

/-- The factor of `agg_loss` on its own counts. -/
theorem coefficient_ownCounts {mode : LossAggMode} (hmode : mode.Accepted)
    (responseMask : Fin n → Fin w → Bool) :
    coefficient (F := F) mode w (ownCounts responseMask) =
      if weight mode responseMask (List.finRange n) = 0 then none
      else some (unitFactor F mode w /
        (weight mode responseMask (List.finRange n) : F)) := by
  have htokens : (∑ i, ∑ t, maskVal (responseMask i t) : F) =
      ((∑ i, rowWeight .tokenMean (responseMask i) : Nat) : F) := by
    rw [Nat.cast_sum]
    exact Finset.sum_congr rfl fun i _ => seqTokens_eq (responseMask i)
  have hrows : (∑ i, maskVal (seqMask F (responseMask i)) : F) =
      ((∑ i, rowWeight .seqMeanTokenSum (responseMask i) : Nat) : F) := by
    rw [Nat.cast_sum]
    exact Finset.sum_congr rfl fun i _ => maskVal_seqMask (responseMask i)
  have hdivide : ∀ m : Nat, divide (1 : F) (m : F) =
      if m = 0 then none else some (1 / (m : F)) := by
    intro m
    by_cases hm : m = 0
    · simp [hm]
    · rw [divide_of_ne_zero _ (Nat.cast_ne_zero.mpr hm), if_neg hm]
  have hnorm : ((divide 1 (∑ i, maskVal (seqMask F (responseMask i)))).bind
      fun k => divide k (w : F)) =
        if ∑ i, rowWeight .seqMeanTokenSum (responseMask i) = 0 then none
        else some (1 / (w : F) /
          ((∑ i, rowWeight .seqMeanTokenSum (responseMask i) : Nat) : F)) := by
    rw [hrows, hdivide]
    by_cases hsum : ∑ i, rowWeight .seqMeanTokenSum (responseMask i) = 0
    · rw [if_pos hsum, if_pos hsum]
      rfl
    · obtain ⟨i, _, hi⟩ := Finset.exists_ne_zero_of_sum_ne_zero hsum
      have hw : (w : F) ≠ 0 := Nat.cast_ne_zero.mpr (width_ne_zero hi)
      rw [if_neg hsum, if_neg hsum, Option.bind_some, divide_of_ne_zero _ hw,
        div_right_comm]
  rw [weight_finRange]
  cases mode with
  | other name => exact hmode.elim
  | tokenMean => exact (congrArg (divide 1) htokens).trans (hdivide _)
  | seqMeanTokenSum => exact (congrArg (divide 1) hrows).trans (hdivide _)
  | seqMeanTokenMean => exact (congrArg (divide 1) hrows).trans (hdivide _)
  | seqMeanTokenSumNorm => exact hnorm

/-- What `agg_loss` makes of the sum of the rows of its batch. -/
def average (mode : LossAggMode) (responseMask : Fin n → Fin w → Bool)
    (sum : F) : Num F :=
  if weight mode responseMask (List.finRange n) = 0 then none
  else some (sum * (unitFactor F mode w /
    (weight mode responseMask (List.finRange n) : F)))

/-- `agg_loss` on its own counts, as a sum over the rows. -/
theorem aggLoss_own {mode : LossAggMode} (hmode : mode.Accepted)
    (lossMat : Fin n → Fin w → F) (responseMask : Fin n → Fin w → Bool) :
    aggLoss lossMat responseMask mode {} = .ok (average mode responseMask
      (∑ i, rowTerm mode (lossMat i) (responseMask i))) := by
  rw [aggLoss_default, aggLoss_eq hmode, coefficient_ownCounts hmode, average]
  by_cases h : weight mode responseMask (List.finRange n) = 0
  · rw [if_pos h, if_pos h]
    rfl
  · rw [if_neg h, if_neg h, Option.map_some, Nat.cast_one, mul_one]

omit [LinearOrder F] [IsStrictOrderedRing F] in
theorem average_sub (mode : LossAggMode) (responseMask : Fin n → Fin w → Bool)
    (x y c : F) :
    ((average mode responseMask x).bind fun p =>
      (average mode responseMask y).map fun e => p - e * c) =
        average mode responseMask (x - y * c) := by
  unfold average
  by_cases h : weight mode responseMask (List.finRange n) = 0
  · rw [if_pos h, if_pos h, if_pos h]
    rfl
  · rw [if_neg h, if_neg h, if_neg h]
    exact congrArg some (by ring)

omit [LinearOrder F] [IsStrictOrderedRing F] in
theorem average_add (mode : LossAggMode) (responseMask : Fin n → Fin w → Bool)
    (x y c : F) :
    ((average mode responseMask x).bind fun p =>
      (average mode responseMask y).map fun e => p + e * c) =
        average mode responseMask (x + y * c) := by
  unfold average
  by_cases h : weight mode responseMask (List.finRange n) = 0
  · rw [if_pos h, if_pos h, if_pos h]
    rfl
  · rw [if_neg h, if_neg h, if_neg h]
    exact congrArg some (by ring)

omit [LinearOrder F] [IsStrictOrderedRing F] in
theorem seqLoss_mul_add (c : F) (left right : Fin w → F)
    (mask : Fin w → Bool) :
    seqLoss (fun t => c * left t + right t) mask =
      c * seqLoss left mask + seqLoss right mask := by
  unfold seqLoss
  rw [Finset.mul_sum, ← Finset.sum_add_distrib]
  apply Finset.sum_congr rfl
  intro t _
  ring

omit [IsStrictOrderedRing F] in
/-- A row contributes linearly. -/
theorem rowTerm_mul_add (mode : LossAggMode) (c : F) (left right : Fin w → F)
    (mask : Fin w → Bool) :
    rowTerm mode (fun t => c * left t + right t) mask =
      c * rowTerm mode left mask + rowTerm mode right mask := by
  by_cases hmask : seqMask F mask = true
  · cases mode <;> simp only [rowTerm, hmask, if_true, seqLoss_mul_add,
      mul_zero, add_zero]
    ring
  · cases mode <;> simp [rowTerm, hmask, seqLoss_mul_add]

omit [IsStrictOrderedRing F] in
theorem rowTerm_tokenLoss (config : UpdateConfig F) (losses : TokenLosses F n w)
    (mode : LossAggMode) (mask : Fin w → Bool) (i : Fin n) :
    rowTerm mode (tokenLoss config losses i) mask =
      rowTerm mode (losses.pgLosses i) mask -
          rowTerm mode (losses.entropy i) mask * config.entropyCoeff +
        if config.useKlLoss then
          rowTerm mode (losses.kld i) mask * config.klLossCoef
        else 0 := by
  have hbonus : (fun t => losses.pgLosses i t -
      config.entropyCoeff * losses.entropy i t) =
        fun t => (-config.entropyCoeff) * losses.entropy i t +
          losses.pgLosses i t := by
    funext t
    ring
  have hloss : tokenLoss config losses i = fun t =>
      (if config.useKlLoss then config.klLossCoef else 0) * losses.kld i t +
        (losses.pgLosses i t - config.entropyCoeff * losses.entropy i t) := by
    funext t
    unfold tokenLoss
    cases config.useKlLoss <;> simp [add_comm]
  rw [hloss, rowTerm_mul_add, hbonus, rowTerm_mul_add]
  cases config.useKlLoss <;> simp <;> ring

theorem lessEntropy_eq {config : UpdateConfig F}
    (hmode : config.lossAggMode.Accepted) (losses : TokenLosses F n w)
    (responseMask : Fin n → Fin w → Bool) (sum : F) :
    lessEntropy config losses responseMask
        (average config.lossAggMode responseMask sum) =
      .ok (average config.lossAggMode responseMask (sum -
        (∑ i, rowTerm config.lossAggMode (losses.entropy i)
          (responseMask i)) * config.entropyCoeff)) := by
  rw [lessEntropy, aggLoss_own hmode]
  by_cases hcoeff : config.entropyCoeff = 0
  · rw [hcoeff, mul_zero, sub_zero]
    cases config.entropyWanted with
    | false => rfl
    | true => exact congrArg Except.ok (if_pos rfl)
  · have hwanted : config.entropyWanted = true := by
      simp [UpdateConfig.entropyWanted, hcoeff]
    rw [if_pos hwanted, ← average_sub]
    exact congrArg Except.ok (if_neg hcoeff)

theorem plusKl_eq {config : UpdateConfig F}
    (hmode : config.lossAggMode.Accepted) (losses : TokenLosses F n w)
    (responseMask : Fin n → Fin w → Bool) (sum : F) :
    plusKl config losses responseMask
        (average config.lossAggMode responseMask sum) =
      .ok (average config.lossAggMode responseMask (sum +
        if config.useKlLoss then (∑ i, rowTerm config.lossAggMode
          (losses.kld i) (responseMask i)) * config.klLossCoef else 0)) := by
  rw [plusKl, aggLoss_own hmode]
  cases config.useKlLoss with
  | false => simp
  | true =>
      rw [if_pos rfl, if_pos rfl, ← average_add]
      rfl

/-- `policy_loss` aggregates one loss per token. -/
theorem policyLoss_eq (config : UpdateConfig F) (losses : TokenLosses F n w)
    (responseMask : Fin n → Fin w → Bool) :
    policyLoss config losses responseMask =
      aggLoss (tokenLoss config losses) responseMask config.lossAggMode {} := by
  by_cases hmode : config.lossAggMode.Accepted
  · have hsum : (∑ i, rowTerm config.lossAggMode (tokenLoss config losses i)
        (responseMask i)) =
          (∑ i, rowTerm config.lossAggMode (losses.pgLosses i)
            (responseMask i)) -
          (∑ i, rowTerm config.lossAggMode (losses.entropy i)
            (responseMask i)) * config.entropyCoeff +
          if config.useKlLoss then (∑ i, rowTerm config.lossAggMode
            (losses.kld i) (responseMask i)) * config.klLossCoef else 0 := by
      simp only [rowTerm_tokenLoss, Finset.sum_add_distrib,
        Finset.sum_sub_distrib, Finset.sum_mul]
      cases config.useKlLoss <;> simp
    rw [policyLoss, aggLoss_own hmode, aggLoss_own hmode, hsum,
      ← plusKl_eq hmode]
    change (lessEntropy config losses responseMask _ >>= _) = _
    rw [lessEntropy_eq hmode]
    rfl
  · cases hname : config.lossAggMode with
    | other name => simp only [policyLoss, hname, aggLoss]; rfl
    | tokenMean => exact absurd (hname ▸ trivial) hmode
    | seqMeanTokenSum => exact absurd (hname ▸ trivial) hmode
    | seqMeanTokenSumNorm => exact absurd (hname ▸ trivial) hmode
    | seqMeanTokenMean => exact absurd (hname ▸ trivial) hmode

end Aggregate

section Accumulated

variable [Field F] [LinearOrder F] [IsStrictOrderedRing F]
  {config : UpdateConfig F} {responseMask : Fin n → Fin w → Bool}
  {microBatches : List (List (Fin n))}

/-- The integer `loss_scale_factor` divides by. -/
def UpdateConfig.divisor (config : UpdateConfig F) : Nat :=
  if config.useDynamicBsz then config.ppoMiniBatchSize
  else config.ppoMiniBatchSize / config.ppoMicroBatchSizePerGpu

/-- The integer it divides. -/
def UpdateConfig.dividend (config : UpdateConfig F) (rows : Nat) : Nat :=
  if config.useDynamicBsz then rows else 1

/-- What the loop makes of the rows of a micro-batch. -/
def microTerm (config : UpdateConfig F) (losses : TokenLosses F n w)
    (responseMask : Fin n → Fin w → Bool) (rows : List (Fin n)) : Num F :=
  if weight config.lossAggMode responseMask rows = 0 then none
  else some ((rows.map fun i => rowTerm config.lossAggMode
      (tokenLoss config losses i) (responseMask i)).sum *
    (unitFactor F config.lossAggMode w /
      (weight config.lossAggMode responseMask rows : F)) *
    ((config.dividend rows.length : F) / (config.divisor : F)))

omit [LinearOrder F] [IsStrictOrderedRing F] in
theorem weight_pick (mode : LossAggMode) (responseMask : Fin n → Fin w → Bool)
    (rows : List (Fin n)) :
    weight mode (pickRows responseMask rows) (List.finRange rows.length) =
      weight mode responseMask rows := by
  rw [weight_finRange, weight, ← Fin.sum_univ_fun_getElem]
  rfl

theorem policyLoss_pick (hmode : config.lossAggMode.Accepted)
    (losses : TokenLosses F n w) (responseMask : Fin n → Fin w → Bool)
    (rows : List (Fin n)) :
    policyLoss config (losses.pick rows) (pickRows responseMask rows) =
      .ok (if weight config.lossAggMode responseMask rows = 0 then none
        else some ((rows.map fun i => rowTerm config.lossAggMode
            (tokenLoss config losses i) (responseMask i)).sum *
          (unitFactor F config.lossAggMode w /
            (weight config.lossAggMode responseMask rows : F)))) := by
  rw [policyLoss_eq, aggLoss_own hmode, average, weight_pick,
    ← Fin.sum_univ_fun_getElem]
  rfl

omit [LinearOrder F] [IsStrictOrderedRing F] in
/-- With a divisor every micro-batch has a factor. -/
theorem factor_of_divisor_ne_zero (h : config.divisor ≠ 0) :
    ∃ accumulation, gradientAccumulation config = .ok accumulation ∧
      ∀ rows, lossScaleFactor config accumulation rows =
        .ok ((config.dividend rows : F) / (config.divisor : F)) := by
  unfold UpdateConfig.divisor at h
  unfold gradientAccumulation lossScaleFactor trueDiv UpdateConfig.dividend
    UpdateConfig.divisor
  cases hdyn : config.useDynamicBsz with
  | true =>
      simp only [hdyn, if_true] at h
      exact ⟨0, rfl, fun rows => by simp [h]⟩
  | false =>
      simp only [hdyn, Bool.false_eq_true, if_false] at h
      have hmicro : config.ppoMicroBatchSizePerGpu ≠ 0 := by
        intro hzero
        rw [hzero, Nat.div_zero] at h
        exact h rfl
      exact ⟨config.ppoMiniBatchSize / config.ppoMicroBatchSizePerGpu,
        by simp [hmicro], fun rows => by simp [h]⟩

omit [LinearOrder F] [IsStrictOrderedRing F] in
/-- Without one the first micro-batch, or the line in front of the split,
raises. -/
theorem factor_of_divisor_eq_zero (h : config.divisor = 0) :
    gradientAccumulation config = .error .zeroDivisionError ∨
      ∃ accumulation, gradientAccumulation config = .ok accumulation ∧
        ∀ rows, lossScaleFactor config accumulation rows =
          .error .zeroDivisionError := by
  unfold UpdateConfig.divisor at h
  unfold gradientAccumulation lossScaleFactor trueDiv
  cases hdyn : config.useDynamicBsz with
  | true =>
      simp only [hdyn, if_true] at h
      exact Or.inr ⟨0, rfl, fun rows => by simp [h]⟩
  | false =>
      simp only [hdyn, Bool.false_eq_true, if_false] at h
      by_cases hmicro : config.ppoMicroBatchSizePerGpu = 0
      · exact Or.inl (by simp [hmicro])
      · exact Or.inr ⟨config.ppoMiniBatchSize /
          config.ppoMicroBatchSizePerGpu, by simp [hmicro],
          fun rows => by simp [h]⟩

theorem accumulatedLoss_eq (hmode : config.lossAggMode.Accepted)
    (h : config.divisor ≠ 0) (losses : TokenLosses F n w)
    (responseMask : Fin n → Fin w → Bool)
    (microBatches : List (List (Fin n))) :
    accumulatedLoss config losses responseMask microBatches =
      .ok (total (microBatches.map
        (microTerm config losses responseMask))) := by
  obtain ⟨accumulation, hacc, hfactor⟩ := factor_of_divisor_ne_zero h
  have hscaled : microBatches.mapM
      (scaledLoss config accumulation losses responseMask) =
        .ok (microBatches.map (microTerm config losses responseMask)) := by
    apply mapM_eq_ok_of_forall
    intro rows _
    rw [scaledLoss, hfactor, policyLoss_pick hmode, microTerm]
    by_cases hweight : weight config.lossAggMode responseMask rows = 0
    · rw [if_pos hweight, if_pos hweight]
      rfl
    · rw [if_neg hweight, if_neg hweight]
      rfl
  rw [accumulatedLoss, hacc]
  change (microBatches.mapM
    (scaledLoss config accumulation losses responseMask) >>= _) = _
  rw [hscaled]
  rfl

omit [LinearOrder F] [IsStrictOrderedRing F] in
theorem exists_name_of_not_accepted {mode : LossAggMode}
    (h : ¬ mode.Accepted) : ∃ name, mode = .other name := by
  cases mode with
  | other name => exact ⟨name, rfl⟩
  | tokenMean => exact absurd trivial h
  | seqMeanTokenSum => exact absurd trivial h
  | seqMeanTokenSumNorm => exact absurd trivial h
  | seqMeanTokenMean => exact absurd trivial h

omit [IsStrictOrderedRing F] in
/-- What the first micro-batch raises ends the loop. -/
theorem accumulatedLoss_of_error {accumulation : Nat} {rows : List (Fin n)}
    {rest : List (List (Fin n))} {e : PyErr} {losses : TokenLosses F n w}
    (hacc : gradientAccumulation config = .ok accumulation)
    (h : scaledLoss config accumulation losses responseMask rows = .error e) :
    accumulatedLoss config losses responseMask (rows :: rest) = .error e := by
  rw [accumulatedLoss, hacc]
  change (List.mapM (scaledLoss config accumulation losses responseMask)
    (rows :: rest) >>= _) = _
  rw [List.mapM_cons, h]
  rfl

omit [IsStrictOrderedRing F] in
theorem accumulatedLoss_of_divisor_eq_zero (h : config.divisor = 0)
    (losses : TokenLosses F n w) (hne : microBatches ≠ []) :
    accumulatedLoss config losses responseMask microBatches =
      .error .zeroDivisionError := by
  rcases factor_of_divisor_eq_zero h with hacc | ⟨accumulation, hacc, hfactor⟩
  · rw [accumulatedLoss, hacc]
    rfl
  · obtain ⟨rows, rest, rfl⟩ := List.exists_cons_of_ne_nil hne
    apply accumulatedLoss_of_error hacc
    rw [scaledLoss, hfactor]
    rfl

/-- A mode `agg_loss` does not know is the same error in both. -/
theorem accumulatedLoss_of_not_accepted
    (hmode : ¬ config.lossAggMode.Accepted) (h : config.divisor ≠ 0)
    (losses : TokenLosses F n w) (hne : microBatches ≠ []) :
    accumulatedLoss config losses responseMask microBatches =
      aggLoss (tokenLoss config losses) responseMask
        config.lossAggMode {} := by
  obtain ⟨accumulation, hacc, hfactor⟩ := factor_of_divisor_ne_zero h
  obtain ⟨rows, rest, rfl⟩ := List.exists_cons_of_ne_nil hne
  obtain ⟨name, hname⟩ := exists_name_of_not_accepted hmode
  rw [hname]
  apply accumulatedLoss_of_error hacc
  rw [scaledLoss, hfactor, policyLoss_eq, hname]
  rfl

end Accumulated

section Shares

variable [Field F] [LinearOrder F] [IsStrictOrderedRing F]
  {config : UpdateConfig F} {responseMask : Fin n → Fin w → Bool}
  {microBatches : List (List (Fin n))}

/-- Every micro-batch has the share of the tokens, or of the rows with one,
that its factor gives it. -/
def SharesMatch (config : UpdateConfig F) (responseMask : Fin n → Fin w → Bool)
    (microBatches : List (List (Fin n))) : Prop :=
  ∀ rows ∈ microBatches,
    weight config.lossAggMode responseMask rows * config.divisor =
      config.dividend rows.length *
        weight config.lossAggMode responseMask (List.finRange n)

/-- A micro-batch with its share counts every row as the mini-batch does. -/
theorem microTerm_of_share (hdivisor : config.divisor ≠ 0)
    (losses : TokenLosses F n w) {rows : List (Fin n)}
    (hweight : weight config.lossAggMode responseMask (List.finRange n) ≠ 0)
    (hdividend : config.dividend rows.length ≠ 0)
    (hshare : weight config.lossAggMode responseMask rows * config.divisor =
      config.dividend rows.length *
        weight config.lossAggMode responseMask (List.finRange n)) :
    microTerm config losses responseMask rows =
      some ((rows.map fun i => rowTerm config.lossAggMode
          (tokenLoss config losses i) (responseMask i)).sum *
        (unitFactor F config.lossAggMode w /
          (weight config.lossAggMode responseMask (List.finRange n) : F))) := by
  have hrows : weight config.lossAggMode responseMask rows ≠ 0 := by
    intro hzero
    rw [hzero, Nat.zero_mul] at hshare
    exact (Nat.mul_ne_zero hdividend hweight) hshare.symm
  have hcast : (weight config.lossAggMode responseMask rows : F) *
      (config.divisor : F) = (config.dividend rows.length : F) *
        (weight config.lossAggMode responseMask (List.finRange n) : F) := by
    exact_mod_cast hshare
  have hw : (weight config.lossAggMode responseMask (List.finRange n) : F) ≠
      0 := Nat.cast_ne_zero.mpr hweight
  have hr : (weight config.lossAggMode responseMask rows : F) ≠ 0 :=
    Nat.cast_ne_zero.mpr hrows
  have hd : (config.divisor : F) ≠ 0 := Nat.cast_ne_zero.mpr hdivisor
  rw [microTerm, if_neg hrows, mul_assoc]
  apply congrArg
  apply congrArg
  rw [div_mul_div_comm, div_eq_div_iff (mul_ne_zero hr hd) hw, hcast]
  ring

omit [LinearOrder F] [IsStrictOrderedRing F] in
theorem sum_microBatches (hperm : microBatches.flatten.Perm (List.finRange n))
    (f : Fin n → F) :
    (microBatches.map fun rows => (rows.map f).sum).sum = ∑ i, f i := by
  rw [← sum_map_flatten, (hperm.map f).sum_eq, ← Fin.sum_univ_def]

theorem total_of_shares (hdivisor : config.divisor ≠ 0)
    (losses : TokenLosses F n w)
    (hperm : microBatches.flatten.Perm (List.finRange n))
    (hweight : weight config.lossAggMode responseMask (List.finRange n) ≠ 0)
    (hdividend : ∀ rows ∈ microBatches, config.dividend rows.length ≠ 0)
    (hshares : SharesMatch config responseMask microBatches) :
    total (microBatches.map (microTerm config losses responseMask)) =
      average config.lossAggMode responseMask
        (∑ i, rowTerm config.lossAggMode (tokenLoss config losses i)
          (responseMask i)) := by
  rw [List.map_congr_left fun rows hrows => microTerm_of_share hdivisor losses
    hweight (hdividend rows hrows) (hshares rows hrows), total_map_some,
    List.sum_map_mul_right, sum_microBatches hperm, average, if_neg hweight]

/-- The loss of one row, 1 at each of its tokens. -/
def rowLosses (i : Fin n) : TokenLosses F n w where
  pgLosses := fun j _ => if j = i then 1 else 0
  entropy := fun _ _ => 0
  kld := fun _ _ => 0

omit [LinearOrder F] [IsStrictOrderedRing F] in
theorem tokenLoss_rowLosses (i j : Fin n) :
    tokenLoss (w := w) config (rowLosses i) j =
      fun _ => if j = i then 1 else 0 := by
  funext t
  simp [tokenLoss, rowLosses]

omit [IsStrictOrderedRing F] in
theorem rowTerm_zero (mode : LossAggMode) (mask : Fin w → Bool) :
    rowTerm (F := F) mode (fun _ => 0) mask = 0 := by
  cases mode <;> simp [rowTerm, seqLoss]

theorem rowTerm_one_ne_zero {mode : LossAggMode} (hmode : mode.Accepted)
    {mask : Fin w → Bool} (h : rowWeight mode mask ≠ 0) :
    rowTerm (F := F) mode (fun _ => 1) mask ≠ 0 := by
  have hloss : seqLoss (fun _ => 1) mask = (rowTokens mask : F) := by
    rw [← seqTokens_eq]
    simp [seqLoss, seqTokens]
  have htokens : rowTokens mask ≠ 0 := by
    intro hzero
    apply h
    cases mode <;> simp [rowWeight, hzero]
  have hcast : (rowTokens mask : F) ≠ 0 := Nat.cast_ne_zero.mpr htokens
  have hmask : seqMask F mask = true := (seqMask_iff mask).mpr htokens
  cases mode with
  | other name => exact hmode.elim
  | tokenMean => simpa [rowTerm, hloss] using hcast
  | seqMeanTokenSum => simpa [rowTerm, hloss, hmask] using htokens
  | seqMeanTokenSumNorm => simpa [rowTerm, hloss, hmask] using htokens
  | seqMeanTokenMean =>
      simp only [rowTerm, hmask, if_true, hloss]
      exact div_ne_zero hcast (seqTokens_add_lossEps_pos mask).ne'

omit [LinearOrder F] [IsStrictOrderedRing F] in
/-- Only the micro-batch of row `i` counts what row `i` alone has. -/
theorem sum_of_one_row {rows : List (Fin n)} {i : Fin n} {f : Fin n → F}
    (g : List (Fin n) → F) (hf : ∀ j, j ≠ i → f j = 0)
    (hperm : microBatches.flatten.Perm (List.finRange n))
    (hrows : rows ∈ microBatches) (hi : i ∈ rows) :
    (microBatches.map fun part => (part.map f).sum * g part).sum =
      f i * g rows := by
  have hsplit := List.perm_cons_erase hrows
  have hnodup : (rows ++ (microBatches.erase rows).flatten).Nodup := by
    rw [← List.flatten_cons, ← hsplit.flatten.nodup_iff, hperm.nodup_iff]
    exact List.nodup_finRange n
  have hothers : ∀ part ∈ microBatches.erase rows,
      (part.map f).sum * g part = 0 := by
    intro part hpart
    have hnot : i ∉ part := fun hmem =>
      List.disjoint_of_nodup_append hnodup hi
        (List.mem_flatten.mpr ⟨part, hpart, hmem⟩)
    have hzero : (part.map f).sum = 0 := by
      rw [List.sum_map_eq_nsmul_single i f fun j hj _ => hf j hj,
        List.count_eq_zero_of_not_mem hnot, zero_nsmul]
    rw [hzero, zero_mul]
  have hown : (rows.map f).sum = f i := by
    rw [List.sum_map_eq_nsmul_single i f fun j hj _ => hf j hj,
      List.count_eq_one_of_mem hnodup.of_append_left hi, one_nsmul]
  rw [(hsplit.map _).sum_eq, List.map_cons, List.sum_cons, hown,
    List.map_congr_left hothers]
  simp

/-- If the losses of one row at a time are accumulated as the mini-batch has
them, every micro-batch has its share. -/
theorem shares_of_total (hmode : config.lossAggMode.Accepted)
    (hdivisor : config.divisor ≠ 0)
    (hperm : microBatches.flatten.Perm (List.finRange n))
    (hweight : weight config.lossAggMode responseMask (List.finRange n) ≠ 0)
    (h : ∀ losses : TokenLosses F n w,
      total (microBatches.map (microTerm config losses responseMask)) =
        average config.lossAggMode responseMask
          (∑ i, rowTerm config.lossAggMode (tokenLoss config losses i)
            (responseMask i))) :
    SharesMatch config responseMask microBatches := by
  intro rows hrows
  -- a micro-batch without a token would leave no number
  have hall : ∀ part ∈ microBatches,
      weight config.lossAggMode responseMask part ≠ 0 := by
    intro part hpart hzero
    have hterm : microTerm config ⟨fun _ _ => 0, fun _ _ => 0,
        fun _ _ => 0⟩ responseMask part = none := if_pos hzero
    have hnone := total_eq_none_of_mem
      (List.mem_map.mpr ⟨part, hpart, hterm⟩)
    rw [h, average, if_neg hweight] at hnone
    cases hnone
  obtain ⟨i, hi, hrow⟩ : ∃ i ∈ rows,
      rowWeight config.lossAggMode (responseMask i) ≠ 0 := by
    by_contra hnone
    push Not at hnone
    apply hall rows hrows
    apply List.sum_eq_zero
    intro x hx
    obtain ⟨j, hj, rfl⟩ := List.mem_map.mp hx
    exact hnone j hj
  have hunit : unitFactor F config.lossAggMode w ≠ 0 := by
    have hw : (w : F) ≠ 0 := Nat.cast_ne_zero.mpr (width_ne_zero hrow)
    cases config.lossAggMode <;> simp [unitFactor, hw]
  have hf : ∀ j, j ≠ i → rowTerm (F := F) config.lossAggMode
      (tokenLoss config (rowLosses i) j) (responseMask j) = 0 := by
    intro j hj
    rw [tokenLoss_rowLosses, if_neg hj, rowTerm_zero]
  have hone : rowTerm (F := F) config.lossAggMode
      (tokenLoss config (rowLosses i) i) (responseMask i) ≠ 0 := by
    rw [tokenLoss_rowLosses, if_pos rfl]
    exact rowTerm_one_ne_zero hmode hrow
  have hmicro : ∀ part ∈ microBatches,
      microTerm config (rowLosses i) responseMask part =
        some ((part.map fun j => rowTerm config.lossAggMode
            (tokenLoss config (rowLosses i) j) (responseMask j)).sum *
          (unitFactor F config.lossAggMode w /
              (weight config.lossAggMode responseMask part : F) *
            ((config.dividend part.length : F) / (config.divisor : F)))) := by
    intro part hpart
    rw [microTerm, if_neg (hall part hpart), mul_assoc]
  have hsum := h (rowLosses i)
  rw [List.map_congr_left hmicro, total_map_some, average, if_neg hweight,
    sum_of_one_row _ hf hperm hrows hi,
    Fintype.sum_eq_single i fun j hj => hf j hj] at hsum
  have hfactor := mul_left_cancel₀ hone (Option.some.inj hsum)
  rw [div_mul_div_comm, div_eq_div_iff
    (mul_ne_zero (Nat.cast_ne_zero.mpr (hall rows hrows))
      (Nat.cast_ne_zero.mpr hdivisor)) (Nat.cast_ne_zero.mpr hweight),
    mul_assoc] at hfactor
  have hshare := mul_left_cancel₀ hunit hfactor
  exact_mod_cast hshare.symm

end Shares

section Split

variable [Field F] [LinearOrder F] [IsStrictOrderedRing F]
  {config : UpdateConfig F} {responseMask : Fin n → Fin w → Bool}
  {microBatches : List (List (Fin n))}

omit [Field F] [LinearOrder F] [IsStrictOrderedRing F] in
theorem IsMicroSplit.perm (h : IsMicroSplit config microBatches)
    (hdivisor : config.divisor ≠ 0) :
    microBatches.flatten.Perm (List.finRange n) := by
  unfold IsMicroSplit at h
  unfold UpdateConfig.divisor at hdivisor
  cases hdyn : config.useDynamicBsz with
  | true =>
      simp only [hdyn, if_true] at h
      exact h.1
  | false =>
      simp only [hdyn, Bool.false_eq_true, if_false] at h hdivisor
      have hmicro : 0 < config.ppoMicroBatchSizePerGpu := by
        rcases Nat.eq_zero_or_pos config.ppoMicroBatchSizePerGpu with hz | hp
        · rw [hz, Nat.div_zero] at hdivisor
          exact absurd rfl hdivisor
        · exact hp
      rw [h, flatten_chunksOf hmicro]

omit [Field F] [LinearOrder F] [IsStrictOrderedRing F] in
theorem IsMicroSplit.dividend_ne_zero (h : IsMicroSplit config microBatches)
    {rows : List (Fin n)} (hrows : rows ∈ microBatches) :
    config.dividend rows.length ≠ 0 := by
  unfold IsMicroSplit at h
  unfold UpdateConfig.dividend
  cases hdyn : config.useDynamicBsz with
  | true =>
      simp only [hdyn, if_true] at h
      intro hlength
      rw [if_pos rfl] at hlength
      exact h.2 (List.length_eq_zero_iff.mp hlength ▸ hrows)
  | false => simp

omit [Field F] [LinearOrder F] [IsStrictOrderedRing F] in
/-- A mini-batch without rows has no micro-batches. -/
theorem IsMicroSplit.rows_ne_zero (h : IsMicroSplit config microBatches)
    (hne : microBatches ≠ []) : n ≠ 0 := by
  rintro rfl
  apply hne
  unfold IsMicroSplit at h
  cases hdyn : config.useDynamicBsz with
  | true =>
      simp only [hdyn, if_true] at h
      have hflat : microBatches.flatten = [] := h.1.eq_nil
      apply List.eq_nil_iff_forall_not_mem.mpr
      intro rows hrows
      exact h.2 (List.flatten_eq_nil_iff.mp hflat rows hrows ▸ hrows)
  | false =>
      simp only [hdyn, Bool.false_eq_true, if_false] at h
      rw [h]
      exact chunksOf_nil _

omit [Field F] [LinearOrder F] [IsStrictOrderedRing F] in
/-- Rows that make no micro-batch have no size to be cut to. -/
theorem IsMicroSplit.rows_eq_zero
    (h : IsMicroSplit config ([] : List (List (Fin n)))) {accumulation : Nat}
    (hacc : gradientAccumulation config = .ok accumulation) : n = 0 := by
  unfold IsMicroSplit at h
  unfold gradientAccumulation at hacc
  have hfin : List.finRange n = [] := by
    cases hdyn : config.useDynamicBsz with
    | true =>
        simp only [hdyn, if_true] at h
        exact h.1.symm.eq_nil
    | false =>
        simp only [hdyn, Bool.false_eq_true, if_false] at h hacc
        have hmicro : 0 < config.ppoMicroBatchSizePerGpu := by
          by_contra hzero
          rw [if_pos (Nat.eq_zero_of_not_pos hzero)] at hacc
          cases hacc
        by_contra hne
        rw [chunksOf_eq_cons hmicro hne] at h
        cases h
  rw [← List.length_finRange (n := n), hfin, List.length_nil]

omit [IsStrictOrderedRing F] in
/-- Without rows or without a divisor the loop raises or adds up nothing. -/
theorem accumulatedLoss_degenerate (hsplit : IsMicroSplit config microBatches)
    (h : n = 0 ∨ config.divisor = 0) (losses : TokenLosses F n w) :
    accumulatedLoss config losses responseMask microBatches =
        .error .zeroDivisionError ∨
      (n = 0 ∧ accumulatedLoss config losses responseMask microBatches =
        .ok (some 0)) := by
  cases hacc : gradientAccumulation config with
  | error e =>
      left
      have he : e = .zeroDivisionError := by
        unfold gradientAccumulation at hacc
        split at hacc
        · cases hacc
        · split at hacc
          · cases hacc
            rfl
          · cases hacc
      rw [accumulatedLoss, hacc, he]
      rfl
  | ok accumulation =>
      by_cases hne : microBatches = []
      · subst hne
        right
        refine ⟨hsplit.rows_eq_zero hacc, ?_⟩
        rw [accumulatedLoss, hacc]
        rfl
      · left
        have hdivisor := h.resolve_left (hsplit.rows_ne_zero hne)
        exact accumulatedLoss_of_divisor_eq_zero hdivisor losses hne

omit [LinearOrder F] [IsStrictOrderedRing F] in
theorem weight_eq_zero_of_total {mode : LossAggMode}
    (h : weight mode responseMask (List.finRange n) = 0)
    (rows : List (Fin n)) : weight mode responseMask rows = 0 := by
  rw [weight_finRange, Finset.sum_eq_zero_iff] at h
  apply List.sum_eq_zero
  intro x hx
  obtain ⟨i, _, rfl⟩ := List.mem_map.mp hx
  exact h i (Finset.mem_univ i)

omit [LinearOrder F] [IsStrictOrderedRing F] in
theorem sum_weight (mode : LossAggMode)
    (hperm : microBatches.flatten.Perm (List.finRange n)) :
    (microBatches.map (weight mode responseMask)).sum =
      weight mode responseMask (List.finRange n) := by
  unfold weight
  rw [← (hperm.map _).sum_eq, sum_map_flatten]

omit [Field F] [LinearOrder F] [IsStrictOrderedRing F] in
/-- With dynamic batches a mini-batch shorter than `ppo_mini_batch_size` is
never cut into the right shares. -/
theorem rows_eq_ppoMiniBatchSize (hdyn : config.useDynamicBsz = true)
    (hperm : microBatches.flatten.Perm (List.finRange n))
    (hweight : weight config.lossAggMode responseMask (List.finRange n) ≠ 0)
    (hshares : SharesMatch config responseMask microBatches) :
    n = config.ppoMiniBatchSize := by
  have hrows : (microBatches.map List.length).sum = n := by
    rw [← List.length_flatten, hperm.length_eq, List.length_finRange]
  have hsum : (microBatches.map fun rows =>
      weight config.lossAggMode responseMask rows *
        config.ppoMiniBatchSize).sum =
      (microBatches.map fun rows => rows.length *
        weight config.lossAggMode responseMask (List.finRange n)).sum := by
    apply congrArg
    apply List.map_congr_left
    intro rows hmem
    have hshare := hshares rows hmem
    simpa only [UpdateConfig.divisor, UpdateConfig.dividend, hdyn,
      if_true] using hshare
  rw [List.sum_map_mul_right, List.sum_map_mul_right, sum_weight _ hperm,
    hrows, Nat.mul_comm] at hsum
  exact (Nat.eq_of_mul_eq_mul_right (Nat.pos_of_ne_zero hweight) hsum).symm

end Split

/-- Micro-batches of a fixed size, without entropy and reference policy. -/
def fixedConfig (mini micro : Nat) (mode : LossAggMode) : UpdateConfig ℚ where
  useDynamicBsz := false
  ppoMiniBatchSize := mini
  ppoMicroBatchSizePerGpu := micro
  lossAggMode := mode
  calculateEntropy := false
  entropyCoeff := 0
  useKlLoss := false
  klLossCoef := 0

end GradientAccumulation

end SelfDistillation
