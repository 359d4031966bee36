/-
`efficient_entropy_backward` (verl/utils/kernel/kernels.py) in exact real
arithmetic: what its kernels and matrix products leave in memory, by each of its
methods.
-/
import SelfDistillation.FusedCrossEntropy
import SelfDistillation.Library.GridSwizzle
import SelfDistillation.Library.SoftmaxGradient
import SelfDistillation.Python

namespace SelfDistillation.FusedEntropy

open ExtNum GridSwizzle KernelLaunch OnlineSoftmax SoftmaxGradient Finset

/-- `BackwardEnum` -/
inductive BackwardMethod
  | totalFuseMN
  | totalSeparate
  | splitDlogitsN
  | splitDlogitsM
deriving DecidableEq

/-- The elements of the tensors the backward pass of a rank writes. -/
inductive GradAddress
  | dLogits (row col : ℕ)
  | dHidden (row k : ℕ)
  | dWeight (row k : ℕ)
deriving DecidableEq

abbrev GradMemory := GradAddress → Val

/-- The upstream gradients: what `dlogprobs` points to, of which only the first
element is there under a reduction, and `dentropy`. -/
structure Upstream where
  reduction : Reduction
  dlogprobs : ℕ → ℝ
  dentropy : ℕ → ℝ

def gradBlockM : ℕ := 128

def fuseBlockN : ℕ := 128

def gradBlockN : ℕ := 256

def groupSizeM : ℕ := 16

/-- `vocab_per_split` of the backward pass. -/
def gradVocabPerSplit : ℕ := 9504

namespace Problem

variable (p : Problem)

section Logits

variable (rank bound : ℕ)

/-- One element of `_weight`, for the columns below `bound`. -/
noncomputable def loadGradWeight (ptr k col kk : ℕ) : ℝ :=
  if p.useTma then
    if col < p.vocabSize ∧ k * mainBlockK + kk < p.hiddenSize then
      p.weight (rank * p.vocabSize + col) (k * mainBlockK + kk)
    else 0
  else if kk < p.hiddenSize - k * mainBlockK ∧ col < bound then
    p.weight (rank * p.vocabSize + col) (ptr + kk)
  else 0

/-- `tl.dot(_hidden, _weight.T, logits)` -/
noncomputable def gradDotStep (i start k : ℕ) (s : Dot) : Dot where
  logits j := s.logits j + ∑ kk ∈ range mainBlockK,
    p.loadHidden s.hiddenPtr k i kk *
      p.loadGradWeight rank bound s.weightPtr k (start + j) kk
  hiddenPtr := s.hiddenPtr + mainBlockK
  weightPtr := s.weightPtr + mainBlockK

/-- The loop over the hidden dimension that computes the logits again. -/
noncomputable def gradDot (i start : ℕ) : Dot :=
  forRange (cdiv p.hiddenSize mainBlockK) ⟨fun _ => 0, 0, 0⟩
    (p.gradDotStep rank bound i start)

end Logits

section Gradient

variable (saved : Memory) (up : Upstream) (rank : ℕ)

/-- `d_logprobs` of a row, before its sign is changed. -/
noncomputable def loadDlogprobs (i : ℕ) : Val :=
  match up.reduction with
  | .none => if i < p.numTokens then fin (up.dlogprobs i) else 0
  | .sum => fin (up.dlogprobs 0)
  | .mean => fin (up.dlogprobs 0) / fin (p.numTokens : ℝ)

/-- One element of `d_logits`, from its logit before the temperature. -/
noncomputable def dLogits (i col : ℕ) (logit : ℝ) : Val :=
  let inside := decide (i < p.numTokens)
  let maximum := KernelLaunch.load saved (.maximum i) inside 0
  let accu := KernelLaunch.load saved (.accumulate i) inside (fin 1e-6)
  let accuRcp := fin 1 / accu
  let dEntropy := if i < p.numTokens then fin (up.dentropy i) else 0
  let dLogprobs := fin (-1) * p.loadDlogprobs up i
  let entropyB := KernelLaunch.load saved (.globalEntropyB i) inside 0
  let label := if i < p.numTokens then p.labels i else 0
  let rcpTemperature : Val := fin (1 / p.temperature)
  let logits := fin logit * rcpTemperature
  let expLogits := exp (logits - maximum)
  let mask : Val := if col + rank * p.vocabSize = label then fin 1 else fin 0
  let fromLogprobs := dLogprobs * (expLogits * accuRcp - mask)
  let fromEntropy := dEntropy * (-expLogits * accuRcp) * (logits - entropyB)
  (fromLogprobs + fromEntropy) * rcpTemperature

/-- The kernels that store `d_logits`: a tensor of `width` columns, which are
those of the vocabulary from `offset` on. -/
noncomputable def dLogitsKernel (width offset bound : ℕ) :
    Kernel GradAddress Val := fun pid _ =>
  let block := swizzle groupSizeM (cdiv p.numTokens gradBlockM)
    (cdiv width gradBlockN) pid
  let startAm := block.1 * gradBlockM
  let startBn := offset + block.2 * gradBlockN
  (List.range gradBlockM).flatMap fun r =>
    storeLanes gradBlockN
      (fun j => .dLogits (startAm + r) (block.2 * gradBlockN + j))
      (fun j => p.dLogits saved up rank (startAm + r) (startBn + j)
        ((p.gradDot rank bound (startAm + r) startBn).logits j))
      fun j => decide (startAm + r < p.numTokens ∧
        block.2 * gradBlockN + j < width)

/-- `efficient_entropy_backward_kernel_general_d_logits` -/
noncomputable def generalDLogitsKernel : Kernel GradAddress Val :=
  p.dLogitsKernel saved up rank p.vocabSize 0 p.vocabSize

/-- `efficient_entropy_backward_kernel_general_d_logits_split_N` -/
noncomputable def dLogitsSplitKernel (splitIdx : ℕ) : Kernel GradAddress Val :=
  p.dLogitsKernel saved up rank gradVocabPerSplit (splitIdx * gradVocabPerSplit)
    (min ((splitIdx + 1) * gradVocabPerSplit) p.vocabSize)

/-- What the loop for `d_weight` and `d_hidden` has added, and how far the
pointers have moved. -/
structure FuseLoop where
  accesses : List (Access GradAddress Val)
  hiddenPtr : ℕ
  weightPtr : ℕ
  dHiddenPtr : ℕ
  dWeightPtr : ℕ

/-- One pass of that loop. -/
noncomputable def fuseStep (startAm startBn : ℕ) (dLogits : ℕ → ℕ → Val)
    (k : ℕ) (s : FuseLoop) : FuseLoop where
  accesses := s.accesses ++
    ((List.range fuseBlockN).flatMap fun j =>
      atomicAddLanes mainBlockK (fun kk => .dWeight (startBn + j)
          (s.dWeightPtr + kk))
        (fun kk => ∑ r ∈ range gradBlockM, dLogits r j *
          fin (p.loadHidden s.hiddenPtr k (startAm + r) kk))
        fun kk => decide (kk < p.hiddenSize - k * mainBlockK ∧
          startBn + j < p.vocabSize)) ++
    (List.range gradBlockM).flatMap fun r =>
      atomicAddLanes mainBlockK (fun kk => .dHidden (startAm + r)
          (s.dHiddenPtr + kk))
        (fun kk => ∑ j ∈ range fuseBlockN, dLogits r j *
          fin (p.loadGradWeight rank p.vocabSize s.weightPtr k (startBn + j)
            kk))
        fun kk => decide (kk < p.hiddenSize - k * mainBlockK ∧
          startAm + r < p.numTokens)
  hiddenPtr := s.hiddenPtr + mainBlockK
  weightPtr := s.weightPtr + mainBlockK
  dHiddenPtr := s.dHiddenPtr + mainBlockK
  dWeightPtr := s.dWeightPtr + mainBlockK

/-- `efficient_entropy_backward_kernel_general_mainloop_MN` -/
noncomputable def fuseKernel : Kernel GradAddress Val := fun pid _ =>
  let block := swizzle groupSizeM (cdiv p.numTokens gradBlockM)
    (cdiv p.vocabSize fuseBlockN) pid
  let startAm := block.1 * gradBlockM
  let startBn := block.2 * fuseBlockN
  let dot := fun r => p.gradDot rank p.vocabSize (startAm + r) startBn
  let dLogits := fun r j =>
    p.dLogits saved up rank (startAm + r) (startBn + j) ((dot r).logits j)
  let start : FuseLoop := ⟨[], (dot 0).hiddenPtr - p.hiddenSize,
    (dot 0).weightPtr - p.hiddenSize, 0, 0⟩
  (forRange (cdiv p.hiddenSize mainBlockK) start
    (p.fuseStep rank startAm startBn dLogits)).accesses

end Gradient

section Host

/-- `mainloop_grid` of the fused method. -/
def fuseGrid : ℕ := cdiv p.numTokens gradBlockM * cdiv p.vocabSize fuseBlockN

/-- `d_logits_grid`, for a tensor of `width` columns. -/
def dLogitsGrid (width : ℕ) : ℕ :=
  cdiv p.numTokens gradBlockM * cdiv width gradBlockN

/-- The orders in which the instances of a rank's launches run. -/
structure BackwardRuns where
  fuse : ProgramOrder p.fuseGrid
  separate : ProgramOrder (p.dLogitsGrid p.vocabSize)
  split : ℕ → ProgramOrder (p.dLogitsGrid gradVocabPerSplit)

variable (saved : Memory) (up : Upstream) (rank : ℕ)

/-- `torch.zeros_like` for `d_hidden` and `d_weight`. -/
def zeroGradients (mem : GradMemory) : GradMemory
  | .dLogits i c => mem (.dLogits i c)
  | .dHidden _ _ => 0
  | .dWeight _ _ => 0

/-- `num_splits` of the backward pass. -/
def gradNumSplits : ℕ :=
  (p.vocabSize + gradVocabPerSplit - 1) / gradVocabPerSplit

/-- `_d_logits @ weight[offset:offset + width]`, an element of it. -/
noncomputable def matmulHidden (mem : GradMemory) (offset width t k : ℕ) :
    Val :=
  ∑ c ∈ range width, mem (.dLogits t c) *
    fin (p.weight (rank * p.vocabSize + (offset + c)) k)

/-- `_d_logits.T @ hidden`, an element of it. -/
noncomputable def matmulWeight (mem : GradMemory) (c k : ℕ) : Val :=
  ∑ t ∈ range p.numTokens, mem (.dLogits t c) * fin (p.hidden t k)

/-- Both products where `d_logits` was stored whole. -/
noncomputable def separateProducts (mem : GradMemory) : GradMemory
  | .dLogits t c => mem (.dLogits t c)
  | .dHidden t k => p.matmulHidden rank mem 0 p.vocabSize t k
  | .dWeight c k => p.matmulWeight mem c k

/-- Both products of a split: `d_hidden` is written by the first split and added
to by the others, and the rows of `d_weight` are those of the split. -/
noncomputable def splitProducts (splitIdx width : ℕ) (mem : GradMemory) :
    GradMemory
  | .dLogits t c => mem (.dLogits t c)
  | .dHidden t k =>
      let product := p.matmulHidden rank mem (splitIdx * gradVocabPerSplit)
        width t k
      if splitIdx = 0 then product else mem (.dHidden t k) + product
  | .dWeight c k =>
      if splitIdx * gradVocabPerSplit ≤ c ∧
          c < splitIdx * gradVocabPerSplit + width then
        p.matmulWeight mem (c - splitIdx * gradVocabPerSplit) k
      else mem (.dWeight c k)

/-- The columns of `_d_logits` after the launch: in the last split those of the
vocabulary. -/
def splitWidth (splitIdx : ℕ) : ℕ :=
  if splitIdx = p.gradNumSplits - 1 then
    min ((splitIdx + 1) * gradVocabPerSplit) p.vocabSize -
      splitIdx * gradVocabPerSplit
  else gradVocabPerSplit

/-- `efficient_entropy_backward`: the memory of a rank when it returns. -/
noncomputable def efficientEntropyBackward (method : BackwardMethod)
    (runs : p.BackwardRuns) (mem : GradMemory) : Py GradMemory :=
  match method with
  | .totalFuseMN =>
      .ok (launch (p.fuseKernel saved up rank) runs.fuse (zeroGradients mem))
  | .totalSeparate =>
      .ok (p.separateProducts rank
        (launch (p.generalDLogitsKernel saved up rank) runs.separate mem))
  | .splitDlogitsN =>
      .ok (forRange p.gradNumSplits mem fun splitIdx mem =>
        p.splitProducts rank splitIdx (p.splitWidth splitIdx)
          (launch (p.dLogitsSplitKernel saved up rank splitIdx)
            (runs.split splitIdx) mem))
  | .splitDlogitsM => .error (.runtimeError
      "BackwardEnum._Split_Dlogits_M is not implemented yet")

end Host

section Values

variable {rank bound i : ℕ}

/-- What the loop for the logits has after `k` blocks, at a row and a column
inside. -/
structure GradDotAfter (rank i start j k : ℕ) (s : Dot) : Prop where
  hiddenPtr : s.hiddenPtr = k * mainBlockK
  weightPtr : s.weightPtr = k * mainBlockK
  logits : s.logits j = p.products rank i (start + j) (k * mainBlockK)

theorem block_end {k : ℕ} (hk : k < cdiv p.hiddenSize mainBlockK) :
    k * mainBlockK + mainBlockK ≤ p.hiddenSize := by
  rw [← p.blocks_mul, ← Nat.succ_mul]
  exact Nat.mul_le_mul_right _ hk

theorem loadHidden_eq {k kk : ℕ} (hk : k < cdiv p.hiddenSize mainBlockK)
    (hkk : kk < mainBlockK) : p.loadHidden (k * mainBlockK) k i kk =
      if i < p.numTokens then p.hidden i (k * mainBlockK + kk) else 0 := by
  have hend := p.block_end hk
  have hin : k * mainBlockK + kk < p.hiddenSize := by omega
  have hin' : kk < p.hiddenSize - k * mainBlockK := by omega
  simp [loadHidden, hin, hin']

theorem loadGradWeight_eq {k kk col : ℕ}
    (hk : k < cdiv p.hiddenSize mainBlockK) (hkk : kk < mainBlockK)
    (hcol : col < bound) (hbound : bound ≤ p.vocabSize) :
    p.loadGradWeight rank bound (k * mainBlockK) k col kk =
      p.weight (rank * p.vocabSize + col) (k * mainBlockK + kk) := by
  have hend := p.block_end hk
  have hin : k * mainBlockK + kk < p.hiddenSize := by omega
  have hin' : kk < p.hiddenSize - k * mainBlockK := by omega
  simp [loadGradWeight, hin, hin', hcol, hcol.trans_le hbound]

theorem gradDot_after (hi : i < p.numTokens) {start j : ℕ}
    (hcol : start + j < bound) (hbound : bound ≤ p.vocabSize) :
    p.GradDotAfter rank i start j (cdiv p.hiddenSize mainBlockK)
      (p.gradDot rank bound i start) := by
  refine forRange_invariant (p.GradDotAfter rank i start j) ?_ ?_
  · constructor <;> simp [products]
  · intro k hk s hs
    refine ⟨?_, ?_, ?_⟩
    · change s.hiddenPtr + mainBlockK = _
      rw [hs.hiddenPtr, Nat.succ_mul]
    · change s.weightPtr + mainBlockK = _
      rw [hs.weightPtr, Nat.succ_mul]
    · change s.logits j + ∑ kk ∈ range mainBlockK, _ * _ = _
      rw [hs.hiddenPtr, hs.weightPtr, hs.logits, Nat.succ_mul, products,
        products, sum_range_add]
      congr 1
      refine sum_congr rfl fun kk hkk => ?_
      have hlt := mem_range.mp hkk
      rw [p.loadHidden_eq hk hlt, if_pos hi,
        p.loadGradWeight_eq hk hlt hcol hbound]

theorem gradDot_logits (hi : i < p.numTokens) {start j : ℕ}
    (hcol : start + j < bound) (hbound : bound ≤ p.vocabSize) :
    (p.gradDot rank bound i start).logits j * (1 / p.temperature) =
      p.logit i (rank * p.vocabSize + (start + j)) := by
  rw [(p.gradDot_after hi hcol hbound).logits, p.blocks_mul, mul_one_div]
  rfl

/-- What the forward pass leaves for the backward one at a token. -/
structure SavedRow (saved : Memory) (i : ℕ) (m a b : ℝ) : Prop where
  summarizes : Summarizes (p.logit i) 0 p.totalVocab m a b
  maximum : saved (.maximum i) = fin m
  accumulate : saved (.accumulate i) = fin a
  entropyB : saved (.globalEntropyB i) =
    fin (softmaxMean (p.logit i) 0 p.totalVocab)

/-- The tensors the forward pass saves. -/
def Saved (saved : Memory) : Prop :=
  ∀ i < p.numTokens, ∃ m a b, p.SavedRow saved i m a b

variable (up : Upstream)

/-- The upstream gradient of the log-probability of a token. -/
noncomputable def upLogprob (i : ℕ) : ℝ :=
  match up.reduction with
  | .none => up.dlogprobs i
  | .sum => up.dlogprobs 0
  | .mean => up.dlogprobs 0 / p.numTokens

/-- The gradient of a logit, before the temperature. -/
noncomputable def gradLogit (i c : ℕ) : ℝ :=
  logitGrad (p.logit i) 0 p.totalVocab (p.labels i) (p.upLogprob up i)
    (up.dentropy i) c * (1 / p.temperature)

theorem loadDlogprobs_eq (hi : i < p.numTokens) :
    p.loadDlogprobs up i = fin (p.upLogprob up i) := by
  have hne : (p.numTokens : ℝ) ≠ 0 := Nat.cast_ne_zero.mpr (by omega)
  cases hred : up.reduction with
  | none => simp only [loadDlogprobs, upLogprob, hred, if_pos hi]
  | sum => simp only [loadDlogprobs, upLogprob, hred]
  | mean => simp only [loadDlogprobs, upLogprob, hred, fin_div_fin _ hne]

theorem exists_loadDlogprobs (hpos : 0 < p.numTokens) (i : ℕ) :
    ∃ d, p.loadDlogprobs up i = fin d := by
  have hne : (p.numTokens : ℝ) ≠ 0 := Nat.cast_ne_zero.mpr hpos.ne'
  cases hred : up.reduction with
  | none =>
      simp only [loadDlogprobs, hred]
      split
      · exact ⟨_, rfl⟩
      · exact ⟨0, rfl⟩
  | sum =>
      simp only [loadDlogprobs, hred]
      exact ⟨_, rfl⟩
  | mean =>
      simp only [loadDlogprobs, hred, fin_div_fin _ hne]
      exact ⟨_, rfl⟩

variable {saved : Memory} {up}

/-- At a token the kernels store the gradient. -/
theorem dLogits_eq (hsaved : p.Saved saved) (hi : i < p.numTokens)
    {col : ℕ} {logit : ℝ}
    (hlogit : logit * (1 / p.temperature) =
      p.logit i (rank * p.vocabSize + col)) :
    p.dLogits saved up rank i col logit =
      fin (p.gradLogit up i (rank * p.vocabSize + col)) := by
  obtain ⟨m, a, b, hrow⟩ := hsaved i hi
  have ha : a ≠ 0 := (hrow.summarizes.weight_pos (p.totalVocab_pos hi)).ne'
  have hsoft := softmax_of_summarizes hrow.summarizes
    (rank * p.vocabSize + col)
  simp only [dLogits, KernelLaunch.load, hi, decide_true, if_true,
    hrow.maximum, hrow.accumulate, hrow.entropyB, p.loadDlogprobs_eq up hi,
    fin_mul_fin, hlogit, fin_sub_fin, exp_fin, fin_div_fin _ ha, neg_fin,
    Nat.add_comm col, gradLogit, logitGrad, hsoft]
  by_cases hlabel : rank * p.vocabSize + col = p.labels i
  · simp only [hlabel, if_true, fin_sub_fin, fin_mul_fin, fin_add_fin]
    congr 1
    ring
  · simp only [hlabel, if_false, fin_sub_fin, fin_mul_fin, fin_add_fin]
    congr 1
    ring

theorem exists_dLogits (hsaved : p.Saved saved) (hpos : 0 < p.numTokens)
    (i col : ℕ) (logit : ℝ) :
    ∃ d, p.dLogits saved up rank i col logit = fin d := by
  obtain ⟨d, hd⟩ := p.exists_loadDlogprobs up hpos i
  by_cases hi : i < p.numTokens
  · obtain ⟨m, a, b, hrow⟩ := hsaved i hi
    have ha : a ≠ 0 := (hrow.summarizes.weight_pos (p.totalVocab_pos hi)).ne'
    simp only [dLogits, KernelLaunch.load, hi, decide_true, if_true,
      hrow.maximum, hrow.accumulate, hrow.entropyB, hd, fin_mul_fin,
      fin_sub_fin, exp_fin, fin_div_fin _ ha, neg_fin]
    split <;>
      simp only [fin_sub_fin, fin_mul_fin, fin_add_fin] <;> exact ⟨_, rfl⟩
  · have hepsilon : (1e-6 : ℝ) ≠ 0 := by norm_num
    simp only [dLogits, KernelLaunch.load, hi, decide_false,
      Bool.false_eq_true, if_false, zero_def, hd, fin_mul_fin, fin_sub_fin,
      exp_fin, fin_div_fin _ hepsilon, neg_fin]
    split <;>
      simp only [fin_sub_fin, fin_mul_fin, fin_add_fin] <;> exact ⟨_, rfl⟩

end Values

section Stored

variable {saved : Memory} {up : Upstream} {rank width offset bound : ℕ}
variable (run : ProgramOrder (p.dLogitsGrid width)) (mem : GradMemory)

/-- The value an instance stores for a token and a column of its tensor. -/
theorem mem_dLogitsKernel {pid : ℕ} {x : Access GradAddress Val}
    (hx : x ∈ p.dLogitsKernel saved up rank width offset bound pid mem) :
    ∃ i c start j logits, i < p.numTokens ∧ c < width ∧
      start + j = offset + c ∧
      logits = (p.gradDot rank bound i start).logits j ∧
      x = .store (.dLogits i c)
        (p.dLogits saved up rank i (offset + c) logits) := by
  obtain ⟨r, -, hx⟩ := List.mem_flatMap.mp hx
  obtain ⟨j, -, hinside, rfl⟩ := mem_storeLanes.mp hx
  obtain ⟨hi, hc⟩ := of_decide_eq_true hinside
  refine ⟨_, _, _, j, _, hi, hc, Nat.add_assoc _ _ _, rfl, ?_⟩
  rw [Nat.add_assoc]

/-- The instance that has a token and a column. -/
theorem exists_dLogitsKernel {i c : ℕ} (hi : i < p.numTokens)
    (hc : c < width) :
    ∃ pid < p.dLogitsGrid width,
      ∃ x ∈ p.dLogitsKernel saved up rank width offset bound pid mem,
        x.address = .dLogits i c := by
  have hblock : (i / gradBlockM, c / gradBlockN) ∈
      range (cdiv p.numTokens gradBlockM) ×ˢ range (cdiv width gradBlockN) := by
    rw [mem_product, mem_range, mem_range]
    exact ⟨(lt_cdiv (by decide)).mpr ((Nat.div_mul_le_self _ _).trans_lt hi),
      (lt_cdiv (by decide)).mpr ((Nat.div_mul_le_self _ _).trans_lt hc)⟩
  have hgroup : 0 < groupSizeM := by decide
  have hi' := Nat.div_add_mod' i gradBlockM
  have hc' := Nat.div_add_mod' c gradBlockN
  refine ⟨_, instanceOf_lt hgroup hblock, ?_⟩
  rw [dLogitsKernel, swizzle_instanceOf hgroup hblock]
  refine ⟨_, List.mem_flatMap.mpr ⟨i % gradBlockM,
    List.mem_range.mpr (Nat.mod_lt _ (by decide)), mem_storeLanes.mpr
      ⟨c % gradBlockN, Nat.mod_lt _ (by decide), ?_, rfl⟩⟩, ?_⟩
  · rw [decide_eq_true_eq, hi', hc']
    exact ⟨hi, hc⟩
  · rw [Access.address_store, hi', hc']

/-- What the launch leaves for a token and a column of the vocabulary. -/
theorem launch_dLogits (hsaved : p.Saved saved) {t c : ℕ}
    (ht : t < p.numTokens) (hc : c < width) (hin : offset + c < bound)
    (hbound : bound ≤ p.vocabSize) :
    launch (p.dLogitsKernel saved up rank width offset bound) run mem
      (.dLogits t c) =
        fin (p.gradLogit up t (rank * p.vocabSize + (offset + c))) := by
  have honly : StoresOnly (GradAddress.dLogits t c)
      (fin (p.gradLogit up t (rank * p.vocabSize + (offset + c))))
      (run.order.flatMap fun pid =>
        p.dLogitsKernel saved up rank width offset bound pid mem) := by
    intro x hx haddress
    obtain ⟨pid, -, hx⟩ := List.mem_flatMap.mp hx
    obtain ⟨i, c', start, j, logits, hi, -, hcol, rfl, rfl⟩ :=
      p.mem_dLogitsKernel mem hx
    obtain ⟨rfl, rfl⟩ := GradAddress.dLogits.inj haddress
    rw [← hcol] at hin ⊢
    rw [p.dLogits_eq hsaved hi (p.gradDot_logits hi hin hbound)]
  rw [launch_eq_performAll (fun _ => Option.none) (fun _ _ _ _ => rfl)
    fun _ _ _ _ _ h => nomatch h]
  apply performAll_of_stores honly
  right
  have hexists : ∃ pid < p.dLogitsGrid width,
      ∃ x ∈ p.dLogitsKernel saved up rank width offset bound pid mem,
        x.address = .dLogits t c := p.exists_dLogitsKernel mem ht hc
  obtain ⟨pid, hpid, x, hx, haddress⟩ := hexists
  have hmem : x ∈ run.order.flatMap fun pid =>
      p.dLogitsKernel saved up rank width offset bound pid mem :=
    List.mem_flatMap.mpr ⟨pid, run.mem_iff.mpr hpid, hx⟩
  rwa [← honly x hmem haddress]

/-- The launch leaves the gradients of the tensors alone. -/
theorem launch_dLogits_of_ne {a : GradAddress} (ha : ∀ t c, .dLogits t c ≠ a) :
    launch (p.dLogitsKernel saved up rank width offset bound) run mem a =
      mem a := by
  rw [launch_eq_performAll (fun _ => Option.none) (fun _ _ _ _ => rfl)
    fun _ _ _ _ _ h => nomatch h]
  apply performAll_of_ne
  intro x hx
  obtain ⟨pid, -, hx⟩ := List.mem_flatMap.mp hx
  obtain ⟨i, c, -, -, -, -, -, -, -, rfl⟩ := p.mem_dLogitsKernel mem hx
  exact ha i c

end Stored

section Products

variable {saved : Memory} {up : Upstream} {rank : ℕ} {mem : GradMemory}

/-- The gradient of a hidden state through the first `count` rows of the rank's
weight. -/
noncomputable def hiddenGrad (up : Upstream) (rank count t k : ℕ) : ℝ :=
  ∑ c ∈ range count, p.gradLogit up t (rank * p.vocabSize + c) *
    p.weight (rank * p.vocabSize + c) k

/-- The gradient of a row of the rank's weight. -/
noncomputable def weightGrad (up : Upstream) (rank c k : ℕ) : ℝ :=
  ∑ t ∈ range p.numTokens,
    p.gradLogit up t (rank * p.vocabSize + c) * p.hidden t k

/-- What a rank returns: its part of the gradient of the hidden states, and the
gradient of its rows of the weight. -/
structure IsGradient (up : Upstream) (rank : ℕ) (mem : GradMemory) : Prop where
  hidden : ∀ t < p.numTokens, ∀ k < p.hiddenSize,
    mem (.dHidden t k) = fin (p.hiddenGrad up rank p.vocabSize t k)
  weight : ∀ c < p.vocabSize, ∀ k < p.hiddenSize,
    mem (.dWeight c k) = fin (p.weightGrad up rank c k)

section Stored

variable {offset width : ℕ}
variable (hstored : ∀ t < p.numTokens, ∀ c < width, mem (.dLogits t c) =
  fin (p.gradLogit up t (rank * p.vocabSize + (offset + c))))

include hstored

theorem add_matmulHidden {t k : ℕ} (ht : t < p.numTokens) :
    fin (p.hiddenGrad up rank offset t k) +
        p.matmulHidden rank mem offset width t k =
      fin (p.hiddenGrad up rank (offset + width) t k) := by
  have hproduct : p.matmulHidden rank mem offset width t k =
      fin (∑ c ∈ range width,
        p.gradLogit up t (rank * p.vocabSize + (offset + c)) *
          p.weight (rank * p.vocabSize + (offset + c)) k) := by
    rw [matmulHidden, ← sum_fin]
    refine sum_congr rfl fun c hc => ?_
    rw [hstored t ht c (mem_range.mp hc), fin_mul_fin]
  rw [hproduct, fin_add_fin, hiddenGrad, hiddenGrad, sum_range_add]

theorem matmulWeight_eq {c k : ℕ} (hc : c < width) :
    p.matmulWeight mem c k = fin (p.weightGrad up rank (offset + c) k) := by
  rw [matmulWeight, weightGrad, ← sum_fin]
  refine sum_congr rfl fun t ht => ?_
  rw [hstored t (mem_range.mp ht) c hc, fin_mul_fin]

end Stored

theorem separate_isGradient (hsaved : p.Saved saved) (runs : p.BackwardRuns) :
    p.IsGradient up rank (p.separateProducts rank
      (launch (p.generalDLogitsKernel saved up rank) runs.separate mem)) := by
  have hstored : ∀ t < p.numTokens, ∀ c < p.vocabSize,
      launch (p.generalDLogitsKernel saved up rank) runs.separate mem
        (.dLogits t c) =
          fin (p.gradLogit up t (rank * p.vocabSize + (0 + c))) :=
    fun t ht c hc => p.launch_dLogits _ _ hsaved ht hc (by omega) le_rfl
  constructor
  · intro t ht k _
    have hadd := p.add_matmulHidden hstored (k := k) ht
    rw [Nat.zero_add] at hadd
    rw [← hadd, hiddenGrad, sum_range_zero, ← zero_def, zero_add]
    rfl
  · intro c hc k _
    change p.matmulWeight _ c k = _
    rw [p.matmulWeight_eq hstored hc, Nat.zero_add]

theorem lt_gradNumSplits {n : ℕ} :
    n < p.gradNumSplits ↔ n * gradVocabPerSplit < p.vocabSize :=
  lt_cdiv (by decide)

theorem splitWidth_eq {n : ℕ} (hn : n < p.gradNumSplits) :
    n * gradVocabPerSplit + p.splitWidth n =
      min ((n + 1) * gradVocabPerSplit) p.vocabSize := by
  have hlt := p.lt_gradNumSplits.mp hn
  rw [splitWidth]
  split
  · exact Nat.add_sub_of_le
      (le_min (Nat.mul_le_mul_right _ n.le_succ) hlt.le)
  · have hnext : n + 1 < p.gradNumSplits := by omega
    rw [min_eq_left (p.lt_gradNumSplits.mp hnext).le, Nat.succ_mul]

/-- What the loop over the splits has after the first of them. -/
structure SplitAfter (up : Upstream) (rank n : ℕ) (mem : GradMemory) :
    Prop where
  hidden : 0 < n → ∀ t < p.numTokens, ∀ k, mem (.dHidden t k) =
    fin (p.hiddenGrad up rank (min (n * gradVocabPerSplit) p.vocabSize) t k)
  weight : ∀ c < min (n * gradVocabPerSplit) p.vocabSize, ∀ k,
    mem (.dWeight c k) = fin (p.weightGrad up rank c k)

theorem SplitAfter.step {n : ℕ} (h : p.SplitAfter up rank n mem)
    (hsaved : p.Saved saved) (hn : n < p.gradNumSplits)
    (run : ProgramOrder (p.dLogitsGrid gradVocabPerSplit)) :
    p.SplitAfter up rank (n + 1) (p.splitProducts rank n (p.splitWidth n)
      (launch (p.dLogitsSplitKernel saved up rank n) run mem)) := by
  have hlt := p.lt_gradNumSplits.mp hn
  have hwidth := p.splitWidth_eq hn
  have hmin : min (n * gradVocabPerSplit) p.vocabSize =
      n * gradVocabPerSplit := min_eq_left hlt.le
  have hle : min ((n + 1) * gradVocabPerSplit) p.vocabSize ≤
      n * gradVocabPerSplit + gradVocabPerSplit := by
    rw [← Nat.succ_mul]
    exact min_le_left _ _
  have hstored : ∀ t < p.numTokens, ∀ c < p.splitWidth n,
      launch (p.dLogitsSplitKernel saved up rank n) run mem (.dLogits t c) =
        fin (p.gradLogit up t
          (rank * p.vocabSize + (n * gradVocabPerSplit + c))) :=
    fun t ht c hc => p.launch_dLogits run mem hsaved ht (by omega) (by omega)
      (min_le_right _ _)
  have hkeep : ∀ a, (∀ t c, GradAddress.dLogits t c ≠ a) →
      launch (p.dLogitsSplitKernel saved up rank n) run mem a = mem a :=
    fun a ha => p.launch_dLogits_of_ne run mem ha
  constructor
  · intro _ t ht k
    have hadd := p.add_matmulHidden hstored (k := k) ht
    change (if n = 0 then _ else _ + _) = _
    rw [← hwidth, ← hadd]
    by_cases hzero : n = 0
    · subst hzero
      rw [if_pos rfl, hiddenGrad, Nat.zero_mul, sum_range_zero, ← zero_def,
        zero_add]
    · rw [if_neg hzero, hkeep _ (by simp),
        h.hidden (Nat.pos_of_ne_zero hzero) t ht, hmin]
  · intro c hc k
    change (if _ then _ else _) = _
    rw [← hwidth] at hc
    by_cases hlow : n * gradVocabPerSplit ≤ c
    · rw [if_pos ⟨hlow, hc⟩, p.matmulWeight_eq hstored (by omega),
        Nat.add_sub_of_le hlow]
    · rw [if_neg fun hin => hlow hin.1, hkeep _ (by simp),
        h.weight c (by omega)]

/-- The method by splits of the vocabulary. -/
theorem split_isGradient (hsaved : p.Saved saved) (runs : p.BackwardRuns) :
    p.IsGradient up rank (forRange p.gradNumSplits mem fun splitIdx mem =>
      p.splitProducts rank splitIdx (p.splitWidth splitIdx)
        (launch (p.dLogitsSplitKernel saved up rank splitIdx)
          (runs.split splitIdx) mem)) := by
  have hloop := forRange_invariant (p.SplitAfter up rank)
    (show p.SplitAfter up rank 0 mem from ⟨fun h => absurd h (lt_irrefl 0),
      fun c hc => absurd hc (by simp)⟩)
    fun n hn mem (h : p.SplitAfter up rank n mem) =>
      h.step p hsaved hn (runs.split n)
  have hall : min (p.gradNumSplits * gradVocabPerSplit) p.vocabSize =
      p.vocabSize :=
    min_eq_right (Nat.not_lt.mp fun hlt =>
      lt_irrefl _ (p.lt_gradNumSplits.mpr hlt))
  constructor
  · intro t ht k _
    have hpos : 0 < p.gradNumSplits :=
      p.lt_gradNumSplits.mpr (by simpa using p.vocabSize_pos ht)
    rw [hloop.hidden hpos t ht, hall]
  · intro c hc k _
    exact hloop.weight c (by rwa [hall]) k

end Products

end Problem

end SelfDistillation.FusedEntropy
