/-
`compute_self_distillation_loss` (verl/trainer/ppo/core_algos.py) in exact
arithmetic: when its value is defined, and what becomes of
`global_batch_info`.
-/
import SelfDistillation.LossAggregation

namespace SelfDistillation

open ExactNum

variable {F : Type} {b w v k n : Nat}

/-- What is used of `exp` and `log`. -/
structure TorchMath (F : Type) [Field F] [LinearOrder F] where
  exp : F → F
  ln : F → F
  exp_pos : ∀ x, 0 < exp x
  exp_lt_one : ∀ x, x < 0 → exp x < 1
  ln_exp : ∀ x, ln (exp x) = x
  ln_lt_ln : ∀ x y, 0 < x → x < y → ln x < ln y

/-- The exponential and the logarithm of the reals. -/
noncomputable def realMath : TorchMath ℝ where
  exp := Real.exp
  ln := Real.log
  exp_pos := Real.exp_pos
  exp_lt_one _ hx := Real.exp_lt_one_iff.mpr hx
  ln_exp := Real.log_exp
  ln_lt_ln _ _ hx hxy := Real.log_lt_log hx hxy

section Divergence

variable [Field F] [LinearOrder F] (m : TorchMath F)

/-- `torch.log`, which has no value at or below zero. -/
def TorchMath.log (x : F) : Num F := if 0 < x then some (m.ln x) else none

/-- `torch.logsumexp(log_probs, dim=-1)` -/
def logsumexp (logProbs : Fin n → F) : Num F :=
  m.log (∑ j, m.exp (logProbs j))

/-- `add_tail` -/
def addTail (logProbs : Fin n → F) : Num (Fin (n + 1) → F) := do
  let logS ← logsumexp m logProbs
  let tailLog ← m.log (-(m.exp (min logS (-1e-7)) - 1))
  return Fin.snoc (α := fun _ => F) logProbs tailLog

/-- `renorm_topk_log_probs` -/
def renormTopkLogProbs (logp : Fin n → F) : Num (Fin n → F) := do
  let logz ← logsumexp m logp
  return fun j => logp j - logz

/-- `F.kl_div(input, target, reduction="none", log_target=True)` -/
def klDiv (input target : F) : F := m.exp target * (target - input)

/-- One entry of the interpolated divergence, `0 < alpha < 1`. -/
def mixtureLoss (alpha student teacher : F) : Num F := do
  let logStudent ← m.log (1 - alpha)
  let logTeacher ← m.log alpha
  let mixture ← m.log (m.exp (student + logStudent) + m.exp (teacher + logTeacher))
  let klTeacher := klDiv m mixture teacher
  let klStudent := klDiv m mixture student
  return klStudent + alpha * (klTeacher - klStudent)

/-- `kl_loss.sum(-1)` -/
def klLoss (alpha : F) (student teacher : Fin n → F) : Num F :=
  if alpha = 0 then some (∑ j, klDiv m (student j) (teacher j))
  else if alpha = 1 then some (∑ j, klDiv m (teacher j) (student j))
  else total ((List.finRange n).map fun j =>
    mixtureLoss m alpha (student j) (teacher j))

end Divergence

/-- The fields of `SelfDistillationConfig` the loss reads, as its
`__post_init__` accepts them. -/
structure LossConfig (F : Type) [Field F] [LinearOrder F] where
  fullLogitDistillation : Bool
  alpha : F
  distillationTopk : Option Nat
  distillationAddTail : Bool
  isClip : Option F
  alpha_nonneg : 0 ≤ alpha
  alpha_le_one : alpha ≤ 1
  distillationTopk_pos : ∀ topk ∈ distillationTopk, 0 < topk
  isClip_pos : ∀ clip ∈ isClip, 0 < clip

/-- The tensor arguments: `b` rows of `w` response tokens, with log-probs of a
vocabulary and of a top-k selection that are not empty. -/
structure LossInputs (F : Type) (b w v k : Nat) where
  studentLogProbs : Fin b → Fin w → F
  teacherLogProbs : Fin b → Fin w → F
  responseMask : Fin b → Fin w → Bool
  oldLogProbs : Option (Fin b → Fin w → F) := none
  studentAllLogProbs : Option (Fin b → Fin w → Fin (v + 1) → F) := none
  teacherAllLogProbs : Option (Fin b → Fin w → Fin (v + 1) → F) := none
  studentTopkLogProbs : Option (Fin b → Fin w → Fin (k + 1) → F) := none
  teacherTopkLogProbs : Option (Fin b → Fin w → Fin (k + 1) → F) := none
  selfDistillationMask : Option (Fin b → Bool) := none
  rolloutIsWeights : Option (Fin b → Fin w → F) := none

/-- `loss_mask = response_mask * self_distillation_mask.unsqueeze(1)` -/
def LossInputs.lossMask (inputs : LossInputs F b w v k) (i : Fin b)
    (t : Fin w) : Bool :=
  match inputs.selfDistillationMask with
  | none => inputs.responseMask i t
  | some sampleMask => inputs.responseMask i t && sampleMask i

/-- The rows of a micro-batch. -/
def LossInputs.pick (inputs : LossInputs F b w v k) (rows : List (Fin b)) :
    LossInputs F rows.length w v k where
  studentLogProbs := pickRows inputs.studentLogProbs rows
  teacherLogProbs := pickRows inputs.teacherLogProbs rows
  responseMask := pickRows inputs.responseMask rows
  oldLogProbs := inputs.oldLogProbs.map (pickRows · rows)
  studentAllLogProbs := inputs.studentAllLogProbs.map (pickRows · rows)
  teacherAllLogProbs := inputs.teacherAllLogProbs.map (pickRows · rows)
  studentTopkLogProbs := inputs.studentTopkLogProbs.map (pickRows · rows)
  teacherTopkLogProbs := inputs.teacherTopkLogProbs.map (pickRows · rows)
  selfDistillationMask := inputs.selfDistillationMask.map (pickRows · rows)
  rolloutIsWeights := inputs.rolloutIsWeights.map (pickRows · rows)

/-- `global_batch_info`: the documented keys, each present or not, and the
names of any others. -/
structure GlobalBatchInfo (F : Type) where
  dpSize : Option Nat := none
  batchNumTokens : Option (Option F) := none
  globalBatchSize : Option (Option F) := none
  lossScaleFactor : Option (Option F) := none
  otherKeys : List String := []

section Loss

variable [Field F] [LinearOrder F] (m : TorchMath F)

/-- The keyword arguments of the `agg_loss` call: its own `batch_num_tokens`
next to those of the mapping. -/
def bindAggOptions (batchNumTokens : F) (info : GlobalBatchInfo F) :
    Py (AggOptions F) :=
  if info.batchNumTokens.isSome then
    .error (.typeError (s!"verl.trainer.ppo.core_algos.agg_loss() got multiple " ++
      s!"values for keyword argument 'batch_num_tokens'"))
  else match info.otherKeys with
    | key :: _ =>
        .error (.typeError
          s!"agg_loss() got an unexpected keyword argument '{key}'")
    | [] => .ok {
        dpSize := info.dpSize.getD 1
        batchNumTokens := some batchNumTokens
        globalBatchSize := info.globalBatchSize.join
        lossScaleFactor := info.lossScaleFactor.join }

/-- `per_token_loss` before importance weights -/
def perTokenLoss (inputs : LossInputs F b w v k) (config : LossConfig F) :
    Py (Fin b → Fin w → Num F) :=
  if config.fullLogitDistillation then
    match config.distillationTopk with
    | some _ =>
        match inputs.studentTopkLogProbs, inputs.teacherTopkLogProbs with
        | some student, some teacher => .ok fun i t =>
            if config.distillationAddTail then do
              klLoss m config.alpha (← addTail m (student i t))
                (← addTail m (teacher i t))
            else do
              klLoss m config.alpha (← renormTopkLogProbs m (student i t))
                (← renormTopkLogProbs m (teacher i t))
        | _, _ => .error (.valueError "top-k distillation requires student_topk_log_probs and teacher_topk_log_probs.")
    | none =>
        match inputs.studentAllLogProbs, inputs.teacherAllLogProbs with
        | some student, some teacher => .ok fun i t =>
            klLoss m config.alpha (student i t) (teacher i t)
        | _, _ => .error (.valueError "full_logit_distillation requires student_all_log_probs and teacher_all_log_probs.")
  else if config.alpha ≠ 1 then
    .error (.valueError "Only reverse KL is supported when full_logit_distillation is disabled.")
  else .ok fun i t => some
    ((inputs.studentLogProbs i t - inputs.teacherLogProbs i t) *
      inputs.studentLogProbs i t)

/-- The importance ratio of the old policy, clipped from above. -/
def isRatio (isClip student old : F) : F :=
  min (m.exp (min (max (student - old) (-20)) 20)) isClip

/-- The importance ratios, when `is_clip` asks for them. -/
def isRatios (inputs : LossInputs F b w v k) (config : LossConfig F) :
    Py (Option (Fin b → Fin w → F)) :=
  match config.isClip with
  | none => .ok none
  | some isClip =>
      match inputs.oldLogProbs with
      | none => .error (.valueError "old_log_probs is required for distillation IS ratio.")
      | some old => .ok (some fun i t =>
          isRatio m isClip (inputs.studentLogProbs i t) (old i t))

/-- `mask.sum()` -/
def maskTotal (F : Type) [Field F] (mask : Fin b → Fin w → Bool) : F :=
  ∑ i, ∑ t, maskVal (mask i t)

/-- `masked_mean` -/
def maskedMean (values : Fin b → Fin w → F) (mask : Fin b → Fin w → Bool) :
    Num F :=
  divide (maskedSum (fun p : Fin b × Fin w => values p.1 p.2)
    fun p => mask p.1 p.2) (maskTotal F mask + lossEps)

/-- The metrics of the log ratio of teacher and student. -/
def logRatioMetrics (inputs : LossInputs F b w v k) :
    List (String × Num F) :=
  let teacherVsStudent : Fin b → Fin w → F := fun i t =>
    inputs.teacherLogProbs i t - inputs.studentLogProbs i t
  if 0 < maskTotal F inputs.lossMask then
    [("self_distillation/log_ratio_mean",
        maskedMean teacherVsStudent inputs.lossMask),
      ("self_distillation/log_ratio_abs_mean",
        maskedMean (fun i t => |teacherVsStudent i t|) inputs.lossMask)]
  else
    [("self_distillation/log_ratio_mean", some 0),
      ("self_distillation/log_ratio_abs_mean", some 0)]

/-- The metrics dictionary, in insertion order. -/
def lossMetrics (inputs : LossInputs F b w v k)
    (ratios : Option (Fin b → Fin w → F)) : List (String × Num F) :=
  logRatioMetrics inputs ++
    (match ratios with
      | none => []
      | some ratio => [("self_distillation/is_ratio_mean",
          maskedMean ratio inputs.lossMask)]) ++
    [("self_distillation/active_token_fraction",
      divide (maskTotal F inputs.lossMask)
        (max (maskTotal F inputs.responseMask) 1))]

/-- The loss matrix with its weights. -/
def weighted (perToken : Fin b → Fin w → Num F)
    (weights : Option (Fin b → Fin w → F)) (i : Fin b) (t : Fin w) : Num F :=
  match weights with
  | none => perToken i t
  | some weight => (perToken i t).map (· * weight i t)

/-- `agg_loss` of a matrix some of whose entries may not be numbers. -/
def aggLossOfEntries (perToken : Fin b → Fin w → Num F)
    (lossMask : Fin b → Fin w → Bool) (lossAggMode : LossAggMode)
    (options : AggOptions F) : Py (Num F) := do
  let loss ← aggLoss (fun i t => (perToken i t).getD 0) lossMask lossAggMode
    options
  return if ∀ i t, (perToken i t).isSome then loss else none

/-- `compute_self_distillation_loss` -/
def computeSelfDistillationLoss (inputs : LossInputs F b w v k)
    (config : LossConfig F) (lossAggMode : LossAggMode)
    (globalBatchInfo : Option (GlobalBatchInfo F)) :
    Py (Num F × List (String × Num F)) := do
  let perToken ← perTokenLoss m inputs config
  let ratios ← isRatios m inputs config
  let perToken := weighted (weighted perToken ratios) inputs.rolloutIsWeights
  let options ← bindAggOptions (max (maskTotal F inputs.lossMask) 1)
    (globalBatchInfo.getD {})
  let loss ← aggLossOfEntries perToken inputs.lossMask lossAggMode options
  return (loss, lossMetrics inputs ratios)

end Loss

section Entries

variable [Field F] [LinearOrder F] [IsStrictOrderedRing F] (m : TorchMath F)

omit [IsStrictOrderedRing F] in
theorem TorchMath.log_isSome {x : F} (hx : 0 < x) : (m.log x).isSome := by
  rw [TorchMath.log, if_pos hx]
  rfl

theorem logsumexp_isSome (logProbs : Fin (n + 1) → F) :
    (logsumexp m logProbs).isSome :=
  m.log_isSome (Finset.sum_pos (fun _ _ => m.exp_pos _) Finset.univ_nonempty)

/-- The clamp keeps the tail's probability away from zero. -/
theorem addTail_isSome (logProbs : Fin (n + 1) → F) :
    (addTail m logProbs).isSome := by
  apply isSome_bind (logsumexp_isSome m logProbs)
  intro logS
  refine isSome_bind (m.log_isSome ?_) fun _ => rfl
  have hneg : min logS (-1e-7) < 0 :=
    (min_le_right _ _).trans_lt (by norm_num)
  have hlt := m.exp_lt_one _ hneg
  linarith

theorem renormTopkLogProbs_isSome (logp : Fin (n + 1) → F) :
    (renormTopkLogProbs m logp).isSome :=
  isSome_bind (logsumexp_isSome m logp) fun _ => rfl

theorem mixtureLoss_isSome {alpha : F} (hpos : 0 < alpha) (hlt : alpha < 1)
    (student teacher : F) : (mixtureLoss m alpha student teacher).isSome := by
  apply isSome_bind (m.log_isSome (sub_pos.mpr hlt))
  intro logStudent
  apply isSome_bind (m.log_isSome hpos)
  intro logTeacher
  exact isSome_bind (m.log_isSome (add_pos (m.exp_pos _) (m.exp_pos _)))
    fun _ => rfl

omit [IsStrictOrderedRing F] in
theorem klLoss_isSome_of_mixture {alpha : F} {student teacher : Fin n → F}
    (hmixture : alpha ≠ 0 → alpha ≠ 1 → ∀ j,
      (mixtureLoss m alpha (student j) (teacher j)).isSome) :
    (klLoss m alpha student teacher).isSome := by
  unfold klLoss
  split
  · rfl
  · split
    · rfl
    · rename_i hzero hone
      apply total_isSome
      intro x hx
      obtain ⟨j, _, rfl⟩ := List.mem_map.mp hx
      exact hmixture hzero hone j

theorem klLoss_isSome {alpha : F} (hnonneg : 0 ≤ alpha) (hle : alpha ≤ 1)
    (student teacher : Fin n → F) :
    (klLoss m alpha student teacher).isSome :=
  klLoss_isSome_of_mixture m fun hzero hone _ =>
    mixtureLoss_isSome m (lt_of_le_of_ne hnonneg (Ne.symm hzero))
      (lt_of_le_of_ne hle hone) _ _

/-- Every entry of the loss matrix is a number. -/
theorem perTokenLoss_isSome {inputs : LossInputs F b w v k}
    {config : LossConfig F} {perToken : Fin b → Fin w → Num F}
    (h : perTokenLoss m inputs config = .ok perToken) (i : Fin b)
    (t : Fin w) : (perToken i t).isSome := by
  have hkl : ∀ {n : Nat} (student teacher : Fin n → F),
      (klLoss m config.alpha student teacher).isSome :=
    klLoss_isSome m config.alpha_nonneg config.alpha_le_one
  unfold perTokenLoss at h
  split at h
  · split at h
    · split at h
      · cases h
        dsimp only
        split
        · exact isSome_bind (addTail_isSome m _) fun _ =>
            isSome_bind (addTail_isSome m _) fun _ => hkl _ _
        · exact isSome_bind (renormTopkLogProbs_isSome m _) fun _ =>
            isSome_bind (renormTopkLogProbs_isSome m _) fun _ => hkl _ _
      · cases h
    · split at h
      · cases h
        exact hkl _ _
      · cases h
  · split at h
    · cases h
    · cases h
      rfl

omit [LinearOrder F] [IsStrictOrderedRing F] in
theorem weighted_isSome {perToken : Fin b → Fin w → Num F}
    (h : ∀ i t, (perToken i t).isSome)
    (weights : Option (Fin b → Fin w → F)) (i : Fin b) (t : Fin w) :
    (weighted perToken weights i t).isSome := by
  cases weights with
  | none => exact h i t
  | some weight => simpa [weighted] using h i t

end Entries

section Masks

variable [Field F] [LinearOrder F] [IsStrictOrderedRing F]

/-- Some token counts. -/
def ActiveMask (mask : Fin b → Fin w → Bool) : Prop :=
  ∃ i t, mask i t = true

/-- The local number of sequences that are not fully masked. -/
theorem seqCount_pos_iff {mask : Fin b → Fin w → Bool} :
    (0 : F) < ∑ i, maskVal (seqMask F (mask i)) ↔ ActiveMask mask :=
  sum_seqMask_pos_iff

omit [LinearOrder F] [IsStrictOrderedRing F] in
theorem maskedSum_eq_zero {ι : Type} [Fintype ι] {values : ι → F}
    {mask : ι → Bool} (h : ∀ i, mask i = false) : maskedSum values mask = 0 := by
  apply Finset.sum_eq_zero
  intro i _
  rw [h i, maskVal_false, mul_zero]

theorem maskTotal_nonneg (mask : Fin b → Fin w → Bool) :
    0 ≤ maskTotal F mask :=
  Finset.sum_nonneg fun _ _ => Finset.sum_nonneg fun _ _ => maskVal_nonneg _

theorem not_active_iff {mask : Fin b → Fin w → Bool} :
    ¬ ActiveMask mask ↔ ∀ i t, mask i t = false := by
  simp [ActiveMask]

/-- Without the counts of a global batch, a sequence mode divides by the local
number of sequences. -/
theorem seqMean_local (seqLosses : Fin b → F) (mask : Fin b → Fin w → Bool)
    (n : F) :
    ∃ loss, seqMean seqLosses mask { batchNumTokens := some n } = .ok loss ∧
      (loss.isSome ↔ ActiveMask mask) := by
  refine ⟨_, rfl, ?_⟩
  rw [Option.isSome_map, ← seqCount_pos_iff (F := F), Option.isSome_iff_ne_none,
    ne_eq, divide_eq_none_iff, ← ne_eq]
  have hnonneg : (0 : F) ≤ ∑ i, maskVal (seqMask F (mask i)) :=
    Finset.sum_nonneg fun _ _ => maskVal_nonneg _
  exact ⟨fun h => lt_of_le_of_ne hnonneg (Ne.symm h), fun h => h.ne'⟩

omit [IsStrictOrderedRing F] in
/-- A clamped token count keeps the token mean defined. -/
theorem aggLoss_tokenMean_local (lossMat : Fin b → Fin w → F)
    (mask : Fin b → Fin w → Bool) {n : F} (hn : 0 < n) :
    ∃ x, aggLoss lossMat mask .tokenMean { batchNumTokens := some n } =
        .ok (some x) ∧ (¬ ActiveMask mask → x = 0) := by
  refine ⟨maskedSum (fun p : Fin b × Fin w => lossMat p.1 p.2)
    (fun p => mask p.1 p.2) / n * ((1 : Nat) : F), ?_, ?_⟩
  · exact congrArg (fun q : Num F => Except.ok (q.map (· * ((1 : Nat) : F))))
      (divide_of_ne_zero _ hn.ne')
  · intro hnone
    have hzero : maskedSum (fun p : Fin b × Fin w => lossMat p.1 p.2)
        (fun p => mask p.1 p.2) = 0 :=
      maskedSum_eq_zero fun p => not_active_iff.mp hnone p.1 p.2
    rw [hzero, zero_div, zero_mul]

theorem aggLoss_seq_local {mode : LossAggMode} (hmode : mode.Accepted)
    (hseq : mode ≠ .tokenMean) (lossMat : Fin b → Fin w → F)
    (mask : Fin b → Fin w → Bool) (n : F) :
    ∃ loss, aggLoss lossMat mask mode { batchNumTokens := some n } = .ok loss ∧
      (loss.isSome ↔ ActiveMask mask) := by
  cases mode with
  | other name => exact hmode.elim
  | tokenMean => exact absurd rfl hseq
  | seqMeanTokenSum => exact seqMean_local _ mask n
  | seqMeanTokenMean => exact seqMean_local _ mask n
  | seqMeanTokenSumNorm =>
      obtain ⟨loss, hloss, hiff⟩ :=
        seqMean_local (fun i => seqLoss (lossMat i) (mask i)) mask n
      refine ⟨_, bind_eq_ok.mpr ⟨loss, hloss, rfl⟩, ?_⟩
      rw [← hiff]
      cases loss with
      | none => simp
      | some x =>
          -- an active token makes the horizon positive
          obtain ⟨_, t, _⟩ := hiff.mp rfl
          have hw : (w : F) ≠ 0 :=
            Nat.cast_ne_zero.mpr (Nat.pos_iff_ne_zero.mp t.pos)
          simp [divide_of_ne_zero _ hw]

end Masks

section Defined

variable [Field F] [LinearOrder F]

/-- The tensors the configuration asks for are given. -/
def LossInputs.Complete (inputs : LossInputs F b w v k)
    (config : LossConfig F) : Prop :=
  (if config.fullLogitDistillation then
    match config.distillationTopk with
    | some _ => inputs.studentTopkLogProbs.isSome ∧
        inputs.teacherTopkLogProbs.isSome
    | none => inputs.studentAllLogProbs.isSome ∧
        inputs.teacherAllLogProbs.isSome
  else config.alpha = 1) ∧
  (config.isClip.isSome → inputs.oldLogProbs.isSome)

/-- Distillation on the sampled tokens, without clipping. -/
def sampledConfig : LossConfig ℝ where
  fullLogitDistillation := false
  alpha := 1
  distillationTopk := none
  distillationAddTail := true
  isClip := none
  alpha_nonneg := zero_le_one
  alpha_le_one := le_rfl
  distillationTopk_pos := by simp
  isClip_pos := by simp

/-- Two rows of one response token; the first is to be distilled or not. -/
def twoRows (first : Bool) : LossInputs ℝ 2 1 0 0 where
  studentLogProbs _ _ := -1
  teacherLogProbs _ _ := -2
  responseMask _ _ := true
  selfDistillationMask := some ![first, false]

theorem sampledConfig_complete (first : Bool) :
    (twoRows first).Complete sampledConfig :=
  ⟨rfl, by simp [sampledConfig]⟩

variable {inputs : LossInputs F b w v k} {config : LossConfig F}
variable (m : TorchMath F)

theorem exists_perTokenLoss_eq_ok (h : inputs.Complete config) :
    ∃ perToken, perTokenLoss m inputs config = .ok perToken := by
  obtain ⟨h, _⟩ := h
  unfold perTokenLoss
  split at h
  · rename_i hfull
    rw [if_pos hfull]
    split at h
    · obtain ⟨student, hstudent⟩ := Option.isSome_iff_exists.mp h.1
      obtain ⟨teacher, hteacher⟩ := Option.isSome_iff_exists.mp h.2
      rw [hstudent, hteacher]
      exact ⟨_, rfl⟩
    · obtain ⟨student, hstudent⟩ := Option.isSome_iff_exists.mp h.1
      obtain ⟨teacher, hteacher⟩ := Option.isSome_iff_exists.mp h.2
      rw [hstudent, hteacher]
      exact ⟨_, rfl⟩
  · rename_i hsampled
    rw [if_neg hsampled, if_neg (not_not_intro h)]
    exact ⟨_, rfl⟩

theorem exists_isRatios_eq_ok (h : inputs.Complete config) :
    ∃ ratios, isRatios m inputs config = .ok ratios := by
  obtain ⟨_, h⟩ := h
  unfold isRatios
  cases hclip : config.isClip with
  | none => exact ⟨_, rfl⟩
  | some isClip =>
      obtain ⟨old, hold⟩ := Option.isSome_iff_exists.mp (h (by simp [hclip]))
      rw [hold]
      exact ⟨_, rfl⟩

variable [IsStrictOrderedRing F]

theorem maskedMean_isSome (values : Fin b → Fin w → F)
    (mask : Fin b → Fin w → Bool) : (maskedMean values mask).isSome := by
  have hpos : 0 < maskTotal F mask + lossEps :=
    add_pos_of_nonneg_of_pos (maskTotal_nonneg mask)
      (by rw [lossEps]; positivity)
  rw [maskedMean, divide_of_ne_zero _ hpos.ne']
  rfl

theorem logRatioMetrics_isSome (inputs : LossInputs F b w v k) :
    ∀ e ∈ logRatioMetrics inputs, e.2.isSome := by
  unfold logRatioMetrics
  dsimp only
  split
  · simp [maskedMean_isSome]
  · simp

omit [IsStrictOrderedRing F] in
theorem aggLossOfEntries_eq {perToken : Fin b → Fin w → Num F}
    (hentries : ∀ i t, (perToken i t).isSome) (mask : Fin b → Fin w → Bool)
    (mode : LossAggMode) (options : AggOptions F) :
    aggLossOfEntries perToken mask mode options =
      aggLoss (fun i t => (perToken i t).getD 0) mask mode options := by
  unfold aggLossOfEntries
  simp only [hentries, implies_true, if_true]
  exact bind_pure _

theorem lossMetrics_isSome (inputs : LossInputs F b w v k)
    (ratios : Option (Fin b → Fin w → F)) :
    ∀ e ∈ lossMetrics inputs ratios, e.2.isSome := by
  have hpos : (0 : F) < max (maskTotal F inputs.responseMask) 1 :=
    lt_max_of_lt_right one_pos
  intro e he
  rcases List.mem_append.mp he with he | he
  · rcases List.mem_append.mp he with he | he
    · exact logRatioMetrics_isSome inputs e he
    · cases ratios with
      | none => cases he
      | some ratio =>
          rw [List.mem_singleton.mp he]
          exact maskedMean_isSome _ _
  · rw [List.mem_singleton.mp he, divide_of_ne_zero _ hpos.ne']
    rfl

/-- A complete call without `global_batch_info` is `agg_loss` of a matrix of
numbers with the clamped local token count, and its metrics are numbers. -/
theorem computeSelfDistillationLoss_local (hinputs : inputs.Complete config)
    (mode : LossAggMode) :
    ∃ lossMat metrics, (∀ e ∈ metrics, e.2.isSome) ∧
      computeSelfDistillationLoss m inputs config mode none =
        (fun loss => (loss, metrics)) <$> aggLoss lossMat inputs.lossMask mode
          { batchNumTokens := some (max (maskTotal F inputs.lossMask) 1) } := by
  obtain ⟨perToken, hperToken⟩ := exists_perTokenLoss_eq_ok m hinputs
  obtain ⟨ratios, hratios⟩ := exists_isRatios_eq_ok m hinputs
  have hentries := weighted_isSome
    (weighted_isSome (perTokenLoss_isSome m hperToken) ratios)
    inputs.rolloutIsWeights
  refine ⟨fun i t => (weighted (weighted perToken ratios)
    inputs.rolloutIsWeights i t).getD 0, lossMetrics inputs ratios,
    lossMetrics_isSome inputs ratios, ?_⟩
  rw [← aggLossOfEntries_eq hentries, computeSelfDistillationLoss, hperToken,
    hratios]
  rfl

/-- What is claimed of a call: a loss that is a number, zero when no token is
active, and metrics that are numbers. -/
def LossDefined (m : TorchMath F) (inputs : LossInputs F b w v k)
    (config : LossConfig F) (mode : LossAggMode) : Prop :=
  ∃ loss metrics,
    computeSelfDistillationLoss m inputs config mode none =
      .ok (some loss, metrics) ∧
    (¬ ActiveMask inputs.lossMask → loss = 0) ∧
    ∀ e ∈ metrics, e.2.isSome

/-- The loss is defined exactly in token-mean mode or with an active token. -/
theorem lossDefined_iff (m : TorchMath F) (inputs : LossInputs F b w v k)
    (config : LossConfig F) (mode : LossAggMode) (hmode : mode.Accepted)
    (hinputs : inputs.Complete config) :
    LossDefined m inputs config mode ↔
      mode = .tokenMean ∨ ActiveMask inputs.lossMask := by
  obtain ⟨lossMat, metrics, hmetrics, hcall⟩ :=
    computeSelfDistillationLoss_local m hinputs mode
  unfold LossDefined
  rw [hcall]
  by_cases hmean : mode = .tokenMean
  · subst hmean
    have hn : (0 : F) < max (maskTotal F inputs.lossMask) 1 :=
      lt_max_of_lt_right one_pos
    obtain ⟨x, hx, hzero⟩ := aggLoss_tokenMean_local lossMat inputs.lossMask hn
    exact ⟨fun _ => .inl rfl,
      fun _ => ⟨x, metrics, by rw [hx]; rfl, hzero, hmetrics⟩⟩
  · obtain ⟨loss, hloss, hiff⟩ := aggLoss_seq_local hmode hmean lossMat
      inputs.lossMask (max (maskTotal F inputs.lossMask) 1)
    rw [hloss]
    constructor
    · rintro ⟨x, metrics', heq, _, _⟩
      cases heq
      exact .inr (hiff.mp rfl)
    · rintro (h | hactive)
      · exact absurd h hmean
      · obtain ⟨x, rfl⟩ := Option.isSome_iff_exists.mp (hiff.mpr hactive)
        exact ⟨x, metrics, rfl, fun hnone => absurd hactive hnone, hmetrics⟩

theorem lossDefined_iff_two_rows :
    LossDefined realMath (twoRows true) sampledConfig .seqMeanTokenMean :=
  (lossDefined_iff realMath (twoRows true) sampledConfig .seqMeanTokenMean
    trivial (sampledConfig_complete true)).mpr (.inr ⟨0, 0, by decide⟩)

/-- A micro-batch that got no demonstration divides by zero in the sequence
modes. -/
theorem lossDefined_fails :
    ¬ ∀ (inputs : LossInputs ℝ 2 1 0 0) (mode : LossAggMode),
      mode.Accepted → inputs.Complete sampledConfig →
      LossDefined realMath inputs sampledConfig mode := by
  intro hclaim
  obtain ⟨loss, metrics, hloss, _⟩ := hclaim (twoRows false) .seqMeanTokenMean
    trivial (sampledConfig_complete false)
  obtain ⟨lossMat, metrics', _, hcall⟩ := computeSelfDistillationLoss_local
    realMath (sampledConfig_complete false) .seqMeanTokenMean
  have haccepted : LossAggMode.seqMeanTokenMean.Accepted := trivial
  obtain ⟨loss', hlocal, hiff⟩ := aggLoss_seq_local haccepted (by simp) lossMat
    (twoRows false).lossMask (max (maskTotal ℝ (twoRows false).lossMask) 1)
  have hnone : ¬ ActiveMask (twoRows false).lossMask := by
    rw [not_active_iff]
    decide
  rw [hcall, hlocal] at hloss
  cases hloss
  exact hnone (hiff.mp rfl)

end Defined

section Info

variable [Field F] [LinearOrder F] (m : TorchMath F)

omit [Field F] [LinearOrder F] in
/-- What the mapping may hold: not the count the call passes itself. -/
theorem bindAggOptions_eq_ok {n : F} {info : GlobalBatchInfo F}
    {options : AggOptions F} (h : bindAggOptions n info = .ok options) :
    info.batchNumTokens = none ∧ info.otherKeys = [] ∧
      options.batchNumTokens = some n := by
  unfold bindAggOptions at h
  split at h
  · cases h
  · rename_i hkey
    split at h
    · cases h
    · rename_i hother
      cases h
      exact ⟨by simpa using hkey, hother, rfl⟩

/-- The documented keys, describing the global batch. -/
def documentedInfo (counts : GlobalCounts F) (dpSize : Nat) :
    GlobalBatchInfo F where
  dpSize := some dpSize
  batchNumTokens := some (some counts.batchNumTokens)
  globalBatchSize := some (some counts.globalBatchSize)
  lossScaleFactor := some counts.lossScaleFactor

/-- `batch_num_tokens` arrives twice at `agg_loss`. -/
theorem documentedInfo_rejected (inputs : LossInputs F b w v k)
    (config : LossConfig F) (mode : LossAggMode) (counts : GlobalCounts F)
    (dpSize : Nat) (r : Num F × List (String × Num F)) :
    computeSelfDistillationLoss m inputs config mode
      (some (documentedInfo counts dpSize)) ≠ .ok r := by
  intro h
  simp only [computeSelfDistillationLoss, bind_eq_ok] at h
  obtain ⟨_, _, _, _, options, hoptions, _⟩ := h
  cases (bindAggOptions_eq_ok hoptions).1

/-- What is claimed of a split: every piece is accepted with the documented
keys, and the mean over the ranks of the summed losses is the loss of one call
on all rows. -/
def SplitInvariant (inputs : LossInputs F b w v k) (config : LossConfig F)
    (mode : LossAggMode) (counts : GlobalCounts F) (split : RowSplit b) :
    Prop :=
  ∃ losses : List (List (Num F)),
    List.Forall₂ (List.Forall₂ fun rows loss => ∃ metrics,
      computeSelfDistillationLoss m (inputs.pick rows) config mode
        (some (documentedInfo counts split.length)) = .ok (loss, metrics))
      split losses ∧
    ∃ info metrics, computeSelfDistillationLoss m inputs config mode info =
      .ok (mean (losses.map total), metrics)

theorem not_pieces_accepted {inputs : LossInputs F b w v k}
    {config : LossConfig F} {mode : LossAggMode} {counts : GlobalCounts F}
    {dpSize : Nat} {split : RowSplit b} {losses : List (List (Num F))}
    (hne : split.flatten ≠ []) :
    ¬ List.Forall₂ (List.Forall₂ fun rows loss => ∃ metrics,
      computeSelfDistillationLoss m (inputs.pick rows) config mode
        (some (documentedInfo counts dpSize)) = .ok (loss, metrics))
      split losses := by
  intro h
  obtain ⟨rank, hrank, rows, hrows⟩ := exists_rank_of_flatten_ne_nil hne
  obtain ⟨rankLosses', _, hrank'⟩ :=
    exists_of_forall₂_right h.flip hrank
  obtain ⟨_, _, _, haccepted⟩ := exists_of_forall₂_right hrank'.flip hrows
  exact documentedInfo_rejected m _ config mode counts dpSize _ haccepted

/-- No split with a micro-batch has the property. -/
theorem not_splitInvariant (inputs : LossInputs F b w v k)
    (config : LossConfig F) (mode : LossAggMode) (counts : GlobalCounts F)
    (split : RowSplit b) (hne : split.flatten ≠ []) :
    ¬ SplitInvariant m inputs config mode counts split := by
  rintro ⟨_, haccepted, _⟩
  exact not_pieces_accepted m hne haccepted

theorem not_splitInvariant_two_ranks :
    ¬ SplitInvariant realMath (twoRows true) sampledConfig .seqMeanTokenSum
      ⟨1, 2, none⟩ [[[0]], [[1]]] :=
  not_splitInvariant realMath (twoRows true) sampledConfig .seqMeanTokenSum
    ⟨1, 2, none⟩ [[[0]], [[1]]] (by decide)

/-- Already the trivial split into one micro-batch is rejected. -/
theorem splitInvariant_fails :
    ¬ ∀ (inputs : LossInputs ℝ 2 1 0 0) (mode : LossAggMode)
        (split : RowSplit 2),
      mode.Accepted → split.flatten.flatten.Perm (List.finRange 2) →
      SplitInvariant realMath inputs sampledConfig mode ⟨2, 2, none⟩ split := by
  intro hclaim
  obtain ⟨_, haccepted, _⟩ := hclaim (twoRows true) .tokenMean [[[0, 1]]]
    trivial (by decide)
  exact not_pieces_accepted realMath (by decide) haccepted

end Info

end SelfDistillation
