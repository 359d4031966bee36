/-
`efficient_entropy_kernel_general_mainloop` (verl/utils/kernel/kernels.py) in
exact real arithmetic: the part of an online softmax each program instance
leaves in memory, and the label logits it stores.
-/
import SelfDistillation.Library.KernelLaunch
import SelfDistillation.Library.OnlineSoftmax

namespace SelfDistillation.FusedEntropy

open ExtNum KernelLaunch OnlineSoftmax Finset

/-- What the memory of a device holds. -/
abbrev Val := ExtNum ℝ

/-- `EntropyReductionEnum` -/
inductive Reduction
  | none
  | sum
  | mean
deriving DecidableEq

/-- The elements of the tensors in the memory of one rank. -/
inductive Address
  | max (token split : ℕ)
  | maxBackup (token split : ℕ)
  | accu (token split : ℕ)
  | entropyB (token split : ℕ)
  | logprobs (token : ℕ)
  | logprobsScalar
  | maximum (token : ℕ)
  | accumulate (token : ℕ)
  | globalEntropyB (token : ℕ)
  | entropy (token : ℕ)
deriving DecidableEq

abbrev Memory := Address → Val

/-- The token a row of a tensor belongs to. -/
def Address.token : Address → Option ℕ
  | max t _ | maxBackup t _ | accu t _ | entropyB t _ => some t
  | logprobs t | maximum t | accumulate t | globalEntropyB t | entropy t =>
      some t
  | logprobsScalar => Option.none

/-- The arguments of `efficient_entropy_forward` on all ranks. The rows of
`weight` are those of the ranks one after the other. -/
structure Problem where
  numTokens : ℕ
  hiddenSize : ℕ
  hiddenSize_dvd : 128 ∣ hiddenSize
  /-- The vocabulary of one rank. -/
  vocabSize : ℕ
  /-- The size of the process group, if there is one. -/
  distProcessGroup : Option ℕ
  group_pos : ∀ n ∈ distProcessGroup, 0 < n
  hidden : ℕ → ℕ → ℝ
  weight : ℕ → ℕ → ℝ
  labels : ℕ → ℕ
  labels_lt : ∀ t < numTokens,
    labels t < distProcessGroup.getD 1 * vocabSize
  temperature : ℝ
  temperature_ne : temperature ≠ 0
  useTma : Bool

def vocabPerSplit : ℕ := 1024

def mainBlockM : ℕ := 128

def mainBlockN : ℕ := 256

def mainBlockK : ℕ := 32

/-- `triton.cdiv` -/
def cdiv (a b : ℕ) : ℕ := (a + b - 1) / b

theorem lt_cdiv {a b n : ℕ} (hb : 0 < b) : n < cdiv a b ↔ n * b < a := by
  rw [cdiv, Nat.lt_div_iff_mul_lt hb]
  omega

namespace Problem

variable (p : Problem)

def worldSize : ℕ := p.distProcessGroup.getD 1

def numSplits : ℕ := (p.vocabSize + vocabPerSplit - 1) / vocabPerSplit

/-- `logits = hidden @ weight.T / temperature` -/
noncomputable def logit (t c : ℕ) : ℝ :=
  (∑ k ∈ range p.hiddenSize, p.hidden t k * p.weight c k) / p.temperature

/-- The logit of a row of the rank's own weight. -/
noncomputable def rankLogit (rank t c : ℕ) : ℝ :=
  p.logit t (rank * p.vocabSize + c)

theorem worldSize_pos : 0 < p.worldSize := by
  cases hg : p.distProcessGroup with
  | none => simp [worldSize, hg]
  | some n => simpa [worldSize, hg] using p.group_pos n (by simp [hg])

theorem lt_numSplits {n : ℕ} :
    n < p.numSplits ↔ n * vocabPerSplit < p.vocabSize :=
  lt_cdiv (by decide)

/-- `min((pid_n + 1) * vocab_per_split, vocab_size)` -/
def vocabBound (pidN : ℕ) : ℕ := min ((pidN + 1) * vocabPerSplit) p.vocabSize

section Dot

variable (rank pidN : ℕ)

/-- One element of `_hidden`. -/
noncomputable def loadHidden (ptr k i kk : ℕ) : ℝ :=
  if p.useTma then
    if i < p.numTokens ∧ k * mainBlockK + kk < p.hiddenSize then
      p.hidden i (k * mainBlockK + kk)
    else 0
  else if kk < p.hiddenSize - k * mainBlockK ∧ i < p.numTokens then
    p.hidden i (ptr + kk)
  else 0

/-- One element of `_weight`. -/
noncomputable def loadWeight (ptr k col kk : ℕ) : ℝ :=
  if p.useTma then
    if col < p.vocabSize ∧ k * mainBlockK + kk < p.hiddenSize then
      p.weight (rank * p.vocabSize + col) (k * mainBlockK + kk)
    else 0
  else if kk < p.hiddenSize - k * mainBlockK ∧ col < p.vocabBound pidN then
    p.weight (rank * p.vocabSize + col) (ptr + kk)
  else 0

/-- One row of the block of logits, and how far the pointers have moved. -/
structure Dot where
  logits : ℕ → ℝ
  hiddenPtr : ℕ
  weightPtr : ℕ

/-- `tl.dot(_hidden, _weight.trans(), logits)` -/
noncomputable def dotStep (i start k : ℕ) (s : Dot) : Dot where
  logits j := s.logits j + ∑ kk ∈ range mainBlockK,
    p.loadHidden s.hiddenPtr k i kk *
      p.loadWeight rank pidN s.weightPtr k (start + j) kk
  hiddenPtr := s.hiddenPtr + mainBlockK
  weightPtr := s.weightPtr + mainBlockK

/-- The loop over the hidden dimension. -/
noncomputable def dot (hiddenPtr i start : ℕ) : Dot :=
  forRange (cdiv p.hiddenSize mainBlockK) ⟨fun _ => 0, hiddenPtr, 0⟩
    (p.dotStep rank pidN i start)

variable {rank pidN}

theorem blocks_mul : cdiv p.hiddenSize mainBlockK * mainBlockK =
    p.hiddenSize := by
  obtain ⟨n, hn⟩ := p.hiddenSize_dvd
  simp only [cdiv, mainBlockK, hn]
  omega

/-- One pass over the hidden dimension, for a row and a column inside. -/
theorem dotStep_logits {i start j k : ℕ} {s : Dot} (hi : i < p.numTokens)
    (hk : k < cdiv p.hiddenSize mainBlockK)
    (hhidden : s.hiddenPtr = k * mainBlockK)
    (hweight : s.weightPtr = k * mainBlockK)
    (hcol : start + j < (pidN + 1) * vocabPerSplit) :
    (p.dotStep rank pidN i start k s).logits j = s.logits j +
      if start + j < p.vocabBound pidN then
        ∑ kk ∈ range mainBlockK, p.hidden i (k * mainBlockK + kk) *
          p.weight (rank * p.vocabSize + (start + j)) (k * mainBlockK + kk)
      else 0 := by
  have hblocks := p.blocks_mul
  have hend : k * mainBlockK + mainBlockK ≤ p.hiddenSize := by
    rw [← hblocks, ← Nat.succ_mul]
    exact Nat.mul_le_mul_right _ hk
  change s.logits j + (∑ kk ∈ range mainBlockK, _ * _) = _
  rw [hhidden, hweight]
  congr 1
  by_cases hbound : start + j < p.vocabBound pidN
  · rw [if_pos hbound]
    have hvocab : start + j < p.vocabSize := hbound.trans_le (min_le_right _ _)
    refine sum_congr rfl fun kk hkk => ?_
    have hin : k * mainBlockK + kk < p.hiddenSize := by
      have := mem_range.mp hkk
      omega
    have hin' : kk < p.hiddenSize - k * mainBlockK := by omega
    simp [loadHidden, loadWeight, hi, hin, hin', hbound, hvocab]
  · rw [if_neg hbound]
    have hvocab : ¬ start + j < p.vocabSize := fun h =>
      hbound (lt_min hcol h)
    refine sum_eq_zero fun kk _ => ?_
    simp [loadWeight, hbound, hvocab]

/-- The first `count` products of a row of `hidden` with a column. -/
noncomputable def products (rank i col count : ℕ) : ℝ :=
  ∑ k ∈ range count,
    p.hidden i k * p.weight (rank * p.vocabSize + col) k

/-- What the loop has after `k` blocks: the products with the columns inside,
and zeros past the end. -/
structure DotAfter (rank pidN i start k : ℕ) (s : Dot) : Prop where
  hiddenPtr : s.hiddenPtr = k * mainBlockK
  weightPtr : s.weightPtr = k * mainBlockK
  logits : ∀ j, start + j < (pidN + 1) * vocabPerSplit → s.logits j =
    if start + j < p.vocabBound pidN then
      p.products rank i (start + j) (k * mainBlockK)
    else 0

theorem DotAfter.step {i start k : ℕ} {s : Dot}
    (h : p.DotAfter rank pidN i start k s) (hi : i < p.numTokens)
    (hk : k < cdiv p.hiddenSize mainBlockK) :
    p.DotAfter rank pidN i start (k + 1) (p.dotStep rank pidN i start k s) where
  hiddenPtr := by rw [Nat.succ_mul, ← h.hiddenPtr]; rfl
  weightPtr := by rw [Nat.succ_mul, ← h.weightPtr]; rfl
  logits j hj := by
    rw [p.dotStep_logits hi hk h.hiddenPtr h.weightPtr hj, h.logits j hj]
    split
    · rw [products, products, Nat.succ_mul, sum_range_add]
    · rw [add_zero]

theorem dot_after {i start : ℕ} (hi : i < p.numTokens) :
    p.DotAfter rank pidN i start (cdiv p.hiddenSize mainBlockK)
      (p.dot rank pidN 0 i start) :=
  forRange_invariant (p.DotAfter rank pidN i start)
    ⟨(Nat.zero_mul _).symm, (Nat.zero_mul _).symm, by simp [products]⟩
    fun _ hk _ h => h.step p hi hk

end Dot

section Row

/-- What one row of an instance carries over its blocks of the vocabulary. -/
structure RowState where
  max : Val
  accu : Val
  entropyB : Val
  logprobs : Val
  hiddenPtr : ℕ

/-- One pass of the loop over the vocabulary, for row `i` of the tokens. -/
noncomputable def mainloopStep (rank pidN i : ℕ) (label : ℤ) (n : ℕ)
    (s : RowState) : RowState :=
  let start := pidN * vocabPerSplit + n * mainBlockN
  let product := p.dot rank pidN s.hiddenPtr i start
  let logits := fun j => product.logits j * (1 / p.temperature)
  let logitsForLse := fun j =>
    if start + j < p.vocabBound pidN then fin (logits j) else inf true
  let max := max s.max (maxOver logitsForLse mainBlockN)
  let expLogits := fun j => exp (logitsForLse j - max)
  let coeff := exp (s.max - max)
  let labelMask := fun j =>
    if ((start + j + rank * p.vocabSize : ℕ) : ℤ) = label then (1 : ℝ) else 0
  { max := max
    accu := coeff * s.accu + ∑ j ∈ range mainBlockN, expLogits j
    entropyB := s.entropyB * coeff +
      ∑ j ∈ range mainBlockN, fin (logits j) * expLogits j
    logprobs := s.logprobs +
      ∑ j ∈ range mainBlockN, fin (logits j * labelMask j)
    hiddenPtr := product.hiddenPtr - p.hiddenSize }

/-- The loop of an instance over its part of the vocabulary. -/
noncomputable def mainloopRow (rank pidN i : ℕ) (label : ℤ) : RowState :=
  forRange (cdiv vocabPerSplit mainBlockN) ⟨inf true, 0, 0, 0, 0⟩
    (p.mainloopStep rank pidN i label)

/-- A logit of the split, or the zero the kernel finds past its end. -/
noncomputable def splitLogit (rank pidN i c : ℕ) : ℝ :=
  if c < p.vocabBound pidN then p.rankLogit rank i c else 0

variable {rank pidN i : ℕ} {label : ℤ} {s : RowState} {n : ℕ}

/-- The logits of a block. -/
theorem dot_logits (hi : i < p.numTokens) {start j : ℕ}
    (hj : start + j < (pidN + 1) * vocabPerSplit) :
    (p.dot rank pidN 0 i start).logits j * (1 / p.temperature) =
      p.splitLogit rank pidN i (start + j) := by
  rw [(p.dot_after hi).logits j hj, p.blocks_mul, splitLogit]
  split
  · rw [mul_one_div]
    rfl
  · rw [zero_mul]

/-- Where the columns before block `n` of a split end. -/
def columnsBefore (pidN n : ℕ) : ℕ :=
  min (pidN * vocabPerSplit + n * mainBlockN) (p.vocabBound pidN)

/-- What a row has after `n` blocks. -/
structure RowAfter (rank pidN i : ℕ) (label : ℤ) (n : ℕ) (s : RowState) :
    Prop where
  hiddenPtr : s.hiddenPtr = 0
  covers : Covers (p.rankLogit rank i) (pidN * vocabPerSplit)
    (p.columnsBefore pidN n) s.max s.accu s.entropyB
  logprobs : s.logprobs = fin (∑ c ∈ Ico (pidN * vocabPerSplit)
    (pidN * vocabPerSplit + n * mainBlockN), p.splitLogit rank pidN i c *
      if ((c + rank * p.vocabSize : ℕ) : ℤ) = label then 1 else 0)

theorem mul_lt_vocabBound (hn : pidN < p.numSplits) :
    pidN * vocabPerSplit < p.vocabBound pidN := by
  apply lt_min
  · rw [Nat.succ_mul]
    exact Nat.lt_add_of_pos_right (by decide)
  · exact p.lt_numSplits.mp hn

/-- The columns of a block are columns of its split. -/
theorem column_lt {j : ℕ} (hn : n < cdiv vocabPerSplit mainBlockN)
    (hj : j < mainBlockN) :
    pidN * vocabPerSplit + n * mainBlockN + j < (pidN + 1) * vocabPerSplit := by
  have hfour : cdiv vocabPerSplit mainBlockN = 4 := rfl
  rw [hfour] at hn
  simp only [vocabPerSplit, mainBlockN] at *
  omega

/-- The maximum after a block is a number: the first block of a split has a
column inside. -/
theorem RowAfter.exists_max (h : p.RowAfter rank pidN i label n s)
    (hpid : pidN < p.numSplits) (f : ℕ → ℝ) :
    ∃ m, max s.max (maxOver (fun j =>
      if pidN * vocabPerSplit + n * mainBlockN + j < p.vocabBound pidN then
        fin (f j) else inf true) mainBlockN) = fin m := by
  apply h.covers.max_eq_fin
  have hbound := p.mul_lt_vocabBound hpid
  rcases maxOver_cases (f := fun j =>
      if pidN * vocabPerSplit + n * mainBlockN + j < p.vocabBound pidN then
        fin (f j) else inf true) mainBlockN (fun j _ => by
      split <;> simp) with hfin | ⟨hall, hmax⟩
  · exact .inl hfin
  · refine .inr ⟨?_, hmax⟩
    have hfirst := hall 0 (by decide)
    rw [ite_eq_right_iff] at hfirst
    have hpast : p.vocabBound pidN ≤
        pidN * vocabPerSplit + n * mainBlockN := by
      by_contra hlt
      cases hfirst (by omega)
    rw [columnsBefore, min_eq_right hpast]
    exact hbound.ne

section Block

variable {start : ℕ} {m : ℝ} {logits : ℕ → ℝ}
  (hlogits : ∀ j < mainBlockN, logits j = p.splitLogit rank pidN i (start + j))

include hlogits

/-- What a block adds to `_accu`. -/
theorem sum_expLogits : ∑ j ∈ range mainBlockN,
      exp ((if start + j < p.vocabBound pidN then fin (logits j)
        else inf true) - fin m) =
    fin (∑ c ∈ Ico (min start (p.vocabBound pidN))
      (min (start + mainBlockN) (p.vocabBound pidN)),
        Real.exp (p.rankLogit rank i c - m)) := by
  rw [← sum_fin, ← sum_masked]
  refine sum_congr rfl fun j hj => ?_
  by_cases h : start + j < p.vocabBound pidN
  · simp [h, hlogits j (mem_range.mp hj), splitLogit]
  · simp [h, zero_def]

/-- What a block adds to `_entropy_b`. -/
theorem sum_mul_expLogits : ∑ j ∈ range mainBlockN, fin (logits j) *
      exp ((if start + j < p.vocabBound pidN then fin (logits j)
        else inf true) - fin m) =
    fin (∑ c ∈ Ico (min start (p.vocabBound pidN))
      (min (start + mainBlockN) (p.vocabBound pidN)),
        p.rankLogit rank i c * Real.exp (p.rankLogit rank i c - m)) := by
  rw [← sum_fin, ← sum_masked]
  refine sum_congr rfl fun j hj => ?_
  by_cases h : start + j < p.vocabBound pidN
  · simp [h, hlogits j (mem_range.mp hj), splitLogit]
  · simp [h, zero_def]

end Block

theorem RowAfter.step (h : p.RowAfter rank pidN i label n s)
    (hi : i < p.numTokens) (hpid : pidN < p.numSplits)
    (hn : n < cdiv vocabPerSplit mainBlockN) :
    p.RowAfter rank pidN i label (n + 1)
      (p.mainloopStep rank pidN i label n s) := by
  have hlogits : ∀ j < mainBlockN,
      (p.dot rank pidN s.hiddenPtr i
        (pidN * vocabPerSplit + n * mainBlockN)).logits j *
          (1 / p.temperature) =
        p.splitLogit rank pidN i
          (pidN * vocabPerSplit + n * mainBlockN + j) := by
    intro j hj
    rw [h.hiddenPtr]
    exact p.dot_logits hi (column_lt hn hj)
  obtain ⟨m, hm⟩ := h.exists_max p hpid fun j =>
    (p.dot rank pidN s.hiddenPtr i
      (pidN * vocabPerSplit + n * mainBlockN)).logits j * (1 / p.temperature)
  have hnext : p.columnsBefore pidN (n + 1) =
      min (pidN * vocabPerSplit + n * mainBlockN + mainBlockN)
        (p.vocabBound pidN) := by
    rw [columnsBefore, Nat.succ_mul, Nat.add_assoc]
  constructor
  · change (p.dot rank pidN s.hiddenPtr i _).hiddenPtr - p.hiddenSize = 0
    rw [h.hiddenPtr, (p.dot_after hi).hiddenPtr, p.blocks_mul, Nat.sub_self]
  · have hblock : Summarizes (p.rankLogit rank i) (p.columnsBefore pidN n)
        (p.columnsBefore pidN (n + 1)) m _ _ := ⟨rfl, rfl⟩
    have hcovers := h.covers.absorb hblock ?_ ?_
    · simp only [mainloopStep]
      rw [hm, p.sum_expLogits hlogits, p.sum_mul_expLogits hlogits,
        ExtNum.mul_comm s.entropyB, ← hnext]
      exact hcovers
    · exact le_min (Nat.le_add_right _ _) (p.mul_lt_vocabBound hpid).le
    · rw [hnext]
      exact min_le_min_right _ (Nat.le_add_right _ _)
  · simp only [mainloopStep]
    rw [h.logprobs, sum_fin, fin_add_fin, Nat.succ_mul, ← Nat.add_assoc,
      ← sum_Ico_consecutive _ (Nat.le_add_right (pidN * vocabPerSplit)
        (n * mainBlockN)) (Nat.le_add_right _ mainBlockN),
      sum_Ico_eq_sum_range _ (_ + _) (_ + _ + mainBlockN),
      Nat.add_sub_cancel_left]
    congr 2
    exact sum_congr rfl fun j hj => by rw [hlogits j (mem_range.mp hj)]

theorem mainloopRow_after (hi : i < p.numTokens) (hpid : pidN < p.numSplits) :
    p.RowAfter rank pidN i label (cdiv vocabPerSplit mainBlockN)
      (p.mainloopRow rank pidN i label) := by
  apply forRange_invariant (p.RowAfter rank pidN i label)
  · refine ⟨rfl, ?_, by simp [zero_def]⟩
    have hnone : p.columnsBefore pidN 0 = pidN * vocabPerSplit := by
      rw [columnsBefore, Nat.zero_mul, Nat.add_zero]
      exact min_eq_left (p.mul_lt_vocabBound hpid).le
    rw [hnone]
    exact .start
  · exact fun n hn s h => h.step p hi hpid hn

/-- Where the columns of split `n` start. -/
def splitPlace (n : ℕ) : ℕ := min (n * vocabPerSplit) p.vocabSize

theorem splitPlace_mono : Monotone p.splitPlace := fun _ _ h =>
  min_le_min_right _ (Nat.mul_le_mul_right _ h)

@[simp] theorem splitPlace_zero : p.splitPlace 0 = 0 := by simp [splitPlace]

theorem splitPlace_of_le (h : p.numSplits ≤ n) :
    p.splitPlace n = p.vocabSize := by
  have hlt := p.lt_numSplits.not.mp (Nat.not_lt.mpr h)
  exact min_eq_right (Nat.not_lt.mp hlt)

/-- An instance summarises the columns of its split. -/
theorem mainloopRow_summarizes (hi : i < p.numTokens)
    (hpid : pidN < p.numSplits) (label : ℤ) : ∃ m a b,
      (p.mainloopRow rank pidN i label).max = fin m ∧
      (p.mainloopRow rank pidN i label).accu = fin a ∧
      (p.mainloopRow rank pidN i label).entropyB = fin b ∧
      Summarizes (p.rankLogit rank i) (p.splitPlace pidN)
        (p.splitPlace (pidN + 1)) m a b := by
  have hlast : p.columnsBefore pidN (cdiv vocabPerSplit mainBlockN) =
      p.splitPlace (pidN + 1) := by
    have hwhole : pidN * vocabPerSplit +
        cdiv vocabPerSplit mainBlockN * mainBlockN =
          (pidN + 1) * vocabPerSplit := by
      rw [Nat.succ_mul]
      rfl
    rw [columnsBefore, hwhole]
    exact min_eq_right (min_le_left _ _)
  have hfirst : pidN * vocabPerSplit = p.splitPlace pidN :=
    (min_eq_left (p.lt_numSplits.mp hpid).le).symm
  have hlt : pidN * vocabPerSplit < p.splitPlace (pidN + 1) :=
    p.mul_lt_vocabBound hpid
  have hafter : p.RowAfter rank pidN i label _ _ :=
    p.mainloopRow_after hi hpid
  have hcovers := hafter.covers
  rw [hlast] at hcovers
  generalize p.mainloopRow rank pidN i label = row at hcovers ⊢
  generalize p.splitPlace (pidN + 1) = stop at hcovers hlt ⊢
  obtain ⟨max, accu, entropyB, logprobs, hiddenPtr⟩ := row
  cases hcovers with
  | start => exact absurd hlt (lt_irrefl _)
  | piece h => exact ⟨_, _, _, rfl, rfl, rfl, hfirst ▸ h⟩

/-- The label logit, where the label is a column of the split. -/
theorem mainloopRow_logprobs (hi : i < p.numTokens)
    (hpid : pidN < p.numSplits) {c : ℕ} (hlow : pidN * vocabPerSplit ≤ c)
    (hhigh : c < p.vocabBound pidN) :
    (p.mainloopRow rank pidN i ((c + rank * p.vocabSize : ℕ) : ℤ)).logprobs =
      fin (p.rankLogit rank i c) := by
  rw [(p.mainloopRow_after hi hpid).logprobs]
  have hlast : c < pidN * vocabPerSplit +
      cdiv vocabPerSplit mainBlockN * mainBlockN := by
    have := hhigh.trans_le (min_le_left _ _)
    rw [Nat.succ_mul] at this
    exact this
  congr 1
  rw [sum_eq_single c]
  · rw [if_pos rfl, mul_one, splitLogit, if_pos hhigh]
  · intro d _ hd
    have hne : ((d + rank * p.vocabSize : ℕ) : ℤ) ≠
        ((c + rank * p.vocabSize : ℕ) : ℤ) := by omega
    rw [if_neg hne, mul_zero]
  · intro hc
    exact absurd (mem_Ico.mpr ⟨hlow, hlast⟩) hc

end Row

section Kernel

variable (reduction : Reduction)

/-- What `logprobs` is to the kernels, `global_logprobs_scalar_ptr`: without a
reduction it is the same tensor as `_logprobs`. -/
def logprobsScalar : Reduction → Address
  | .none => .logprobs 0
  | .sum | .mean => .logprobsScalar

/-- What the instance `pid` stores at its end; `labelLoad` is what its load of
the labels yields past the last token. -/
noncomputable def mainloopStores (rank : ℕ) (labelLoad : ℕ → ℕ → ℤ)
    (pid : ℕ) : List (Access Address Val) :=
  let numPidM := cdiv p.numTokens mainBlockM
  let pidM := pid % numPidM
  let pidN := pid / numPidM
  let offsAm := fun j => pidM * mainBlockM + j
  let labels := fun j =>
    if offsAm j < p.numTokens then (p.labels (offsAm j) : ℤ)
    else labelLoad pid j
  let row := fun j => p.mainloopRow rank pidN (offsAm j) (labels j)
  let inside := fun j =>
    decide (offsAm j < p.numTokens ∧ pidN < p.numSplits)
  let vocabLeftIdx : ℤ := (pidN * vocabPerSplit + rank * p.vocabSize : ℕ)
  let vocabRightIdx : ℤ := (p.vocabBound pidN + rank * p.vocabSize : ℕ)
  storeLanes mainBlockM (fun j => .max (offsAm j) pidN)
      (fun j => (row j).max) inside ++
    storeLanes mainBlockM (fun j => .accu (offsAm j) pidN)
      (fun j => (row j).accu) inside ++
    storeLanes mainBlockM (fun j => .entropyB (offsAm j) pidN)
      (fun j => (row j).entropyB) inside ++
    storeLanes mainBlockM (fun j => .logprobs (offsAm j))
      (fun j => (row j).logprobs) fun j =>
        decide (vocabLeftIdx ≤ labels j ∧ labels j < vocabRightIdx ∧
          offsAm j < p.numTokens)

/-- `efficient_entropy_kernel_general_mainloop` -/
noncomputable def mainloopKernel (rank : ℕ) (labelLoad : ℕ → ℕ → ℤ) :
    Kernel Address Val := fun pid _ =>
  (if pid % cdiv p.numTokens mainBlockM = 0 ∧
      pid / cdiv p.numTokens mainBlockM = 0 then
    [.store (logprobsScalar reduction) 0] else []) ++
  p.mainloopStores rank labelLoad pid

/-- The instances of `mainloop_grid`. -/
def mainloopGrid : ℕ := cdiv p.numTokens mainBlockM * p.numSplits

/-- Split `n` of `rank` has the label of token `t`. -/
def Owns (rank n t : ℕ) : Prop :=
  n * vocabPerSplit + rank * p.vocabSize ≤ p.labels t ∧
    p.labels t < p.vocabBound n + rank * p.vocabSize

instance (rank n t : ℕ) : Decidable (p.Owns rank n t) :=
  inferInstanceAs (Decidable (_ ∧ _))

/-- What the instances store for token `i` and split `n`. -/
noncomputable def rowAccesses (rank n i : ℕ) : List (Access Address Val) :=
  let row := p.mainloopRow rank n i (p.labels i)
  [.store (.max i n) row.max, .store (.accu i n) row.accu,
    .store (.entropyB i n) row.entropyB] ++
  if p.Owns rank n i then [.store (.logprobs i) row.logprobs] else []

variable {reduction} {rank : ℕ} {labelLoad : ℕ → ℕ → ℤ} {mem : Memory}
variable {x : Access Address Val}

theorem mem_rowAccesses {n i : ℕ} : x ∈ p.rowAccesses rank n i ↔
    x = .store (.max i n) (p.mainloopRow rank n i (p.labels i)).max ∨
    x = .store (.accu i n) (p.mainloopRow rank n i (p.labels i)).accu ∨
    x = .store (.entropyB i n)
      (p.mainloopRow rank n i (p.labels i)).entropyB ∨
    p.Owns rank n i ∧ x = .store (.logprobs i)
      (p.mainloopRow rank n i (p.labels i)).logprobs := by
  unfold rowAccesses
  split <;> simp [*]

theorem first_iff {pid : ℕ} : pid % cdiv p.numTokens mainBlockM = 0 ∧
    pid / cdiv p.numTokens mainBlockM = 0 ↔ pid = 0 := by
  constructor
  · rintro ⟨hmod, hdiv⟩
    rw [← Nat.div_add_mod pid (cdiv p.numTokens mainBlockM), hmod, hdiv]
    rfl
  · rintro rfl
    exact ⟨Nat.zero_mod _, Nat.zero_div _⟩

/-- An instance stores what belongs to its tokens and its split. -/
theorem mem_mainloopStores {pid : ℕ} (hpid : pid < p.mainloopGrid) :
    x ∈ p.mainloopStores rank labelLoad pid ↔ ∃ j < mainBlockM,
      pid % cdiv p.numTokens mainBlockM * mainBlockM + j < p.numTokens ∧
      x ∈ p.rowAccesses rank (pid / cdiv p.numTokens mainBlockM)
        (pid % cdiv p.numTokens mainBlockM * mainBlockM + j) := by
  have hsplit : pid / cdiv p.numTokens mainBlockM < p.numSplits :=
    Nat.div_lt_of_lt_mul hpid
  simp only [mainloopStores, List.mem_append, mem_storeLanes,
    decide_eq_true_eq, hsplit, and_true, mem_rowAccesses, or_assoc]
  constructor
  · rintro (⟨j, hj, hin, rfl⟩ | ⟨j, hj, hin, rfl⟩ | ⟨j, hj, hin, rfl⟩ |
      ⟨j, hj, ⟨hleft, hright, hin⟩, rfl⟩)
    · exact ⟨j, hj, hin, .inl (by rw [if_pos hin])⟩
    · exact ⟨j, hj, hin, .inr (.inl (by rw [if_pos hin]))⟩
    · exact ⟨j, hj, hin, .inr (.inr (.inl (by rw [if_pos hin])))⟩
    · rw [if_pos hin] at hleft hright
      refine ⟨j, hj, hin, .inr (.inr (.inr ⟨⟨?_, ?_⟩, by rw [if_pos hin]⟩))⟩
      · exact_mod_cast hleft
      · exact_mod_cast hright
  · rintro ⟨j, hj, hin, rfl | rfl | rfl | ⟨⟨hleft, hright⟩, rfl⟩⟩
    · exact .inl ⟨j, hj, hin, by rw [if_pos hin]⟩
    · exact .inr (.inl ⟨j, hj, hin, by rw [if_pos hin]⟩)
    · exact .inr (.inr (.inl ⟨j, hj, hin, by rw [if_pos hin]⟩))
    · refine .inr (.inr (.inr ⟨j, hj, ⟨?_, ?_, hin⟩, by rw [if_pos hin]⟩))
      · rw [if_pos hin]
        exact_mod_cast hleft
      · rw [if_pos hin]
        exact_mod_cast hright

/-- The first instance stores the initial zero before that. -/
theorem mem_mainloopKernel {pid : ℕ} (hpid : pid < p.mainloopGrid) :
    x ∈ p.mainloopKernel reduction rank labelLoad pid mem ↔
      pid = 0 ∧ x = .store (logprobsScalar reduction) 0 ∨
      ∃ j < mainBlockM,
        pid % cdiv p.numTokens mainBlockM * mainBlockM + j < p.numTokens ∧
        x ∈ p.rowAccesses rank (pid / cdiv p.numTokens mainBlockM)
          (pid % cdiv p.numTokens mainBlockM * mainBlockM + j) := by
  rw [mainloopKernel, List.mem_append, p.mem_mainloopStores hpid]
  refine or_congr ?_ Iff.rfl
  simp only [p.first_iff]
  split <;> simp [*]

/-- Every token meets every split in one instance. -/
theorem exists_pid {i n : ℕ} (hi : i < p.numTokens) (hn : n < p.numSplits) :
    ∃ pid < p.mainloopGrid, ∃ j < mainBlockM,
      pid / cdiv p.numTokens mainBlockM = n ∧
      pid % cdiv p.numTokens mainBlockM * mainBlockM + j = i := by
  have hblock : i / mainBlockM < cdiv p.numTokens mainBlockM :=
    (lt_cdiv (by decide)).mpr ((Nat.div_mul_le_self _ _).trans_lt hi)
  refine ⟨n * cdiv p.numTokens mainBlockM + i / mainBlockM, ?_,
    i % mainBlockM, Nat.mod_lt _ (by decide), ?_, ?_⟩
  · calc n * cdiv p.numTokens mainBlockM + i / mainBlockM
        < n * cdiv p.numTokens mainBlockM + cdiv p.numTokens mainBlockM :=
          Nat.add_lt_add_left hblock _
      _ = (n + 1) * cdiv p.numTokens mainBlockM := (Nat.succ_mul _ _).symm
      _ ≤ p.numSplits * cdiv p.numTokens mainBlockM :=
          Nat.mul_le_mul_right _ hn
      _ = p.mainloopGrid := Nat.mul_comm _ _
  · rw [Nat.mul_comm, Nat.mul_add_div (Nat.zero_lt_of_lt hblock),
      Nat.div_eq_of_lt hblock, Nat.add_zero]
  · rw [Nat.mul_comm n, Nat.mul_add_mod, Nat.mod_eq_of_lt hblock]
    exact Nat.div_add_mod' i mainBlockM

theorem Owns.split_unique {n n' t : ℕ} (h : p.Owns rank n t)
    (h' : p.Owns rank n' t) : n = n' := by
  obtain ⟨hlow, hhigh⟩ := h
  obtain ⟨hlow', hhigh'⟩ := h'
  simp only [vocabBound, vocabPerSplit] at *
  omega

/-- Two instances do not store at one address. -/
theorem rowAccesses_unique {n n' i i' : ℕ} {y : Access Address Val}
    (hx : x ∈ p.rowAccesses rank n i) (hy : y ∈ p.rowAccesses rank n' i')
    (hxy : x.address = y.address) : x = y := by
  rw [mem_rowAccesses] at hx hy
  rcases hx with rfl | rfl | rfl | ⟨howns, rfl⟩ <;>
    rcases hy with rfl | rfl | rfl | ⟨howns', rfl⟩ <;>
    simp only [Access.address_store, reduceCtorEq, Address.max.injEq,
      Address.accu.injEq, Address.entropyB.injEq, Address.logprobs.injEq] at hxy
  · rw [hxy.1, hxy.2]
  · rw [hxy.1, hxy.2]
  · rw [hxy.1, hxy.2]
  · cases hxy
    rw [howns.split_unique p howns']

end Kernel

section Launch

variable (reduction : Reduction) (rank : ℕ) (labelLoad : ℕ → ℕ → ℤ)
variable (run : ProgramOrder p.mainloopGrid) (mem : Memory)

/-- The memory after the launch of the mainloop. -/
noncomputable def mainloop : Memory :=
  launch (p.mainloopKernel reduction rank labelLoad) run mem

theorem mainloop_eq_performAll :
    p.mainloop reduction rank labelLoad run mem =
      performAll mem (run.order.flatMap fun pid =>
        p.mainloopKernel reduction rank labelLoad pid mem) :=
  launch_eq_performAll (fun _ => Option.none) (fun _ _ _ _ => rfl)
    (fun _ _ _ _ _ h => nomatch h) run mem

/-- What the instances of the whole grid store. -/
theorem mem_accesses {x : Access Address Val} :
    (x ∈ run.order.flatMap fun pid =>
      p.mainloopKernel reduction rank labelLoad pid mem) ↔
    0 < p.mainloopGrid ∧ x = .store (logprobsScalar reduction) 0 ∨
    ∃ i < p.numTokens, ∃ n < p.numSplits, x ∈ p.rowAccesses rank n i := by
  rw [List.mem_flatMap]
  simp only [run.mem_iff]
  constructor
  · rintro ⟨pid, hpid, hx⟩
    rcases (p.mem_mainloopKernel hpid).mp hx with
      ⟨rfl, hstore⟩ | ⟨j, -, hi, hrow⟩
    · exact .inl ⟨hpid, hstore⟩
    · exact .inr ⟨_, hi, _, Nat.div_lt_of_lt_mul hpid, hrow⟩
  · rintro (⟨hgrid, hx⟩ | ⟨i, hi, n, hn, hx⟩)
    · exact ⟨0, hgrid, (p.mem_mainloopKernel hgrid).mpr (.inl ⟨rfl, hx⟩)⟩
    · obtain ⟨pid, hpid, j, hj, hdiv, hrow⟩ := p.exists_pid hi hn
      refine ⟨pid, hpid, (p.mem_mainloopKernel hpid).mpr (.inr ⟨j, hj, ?_⟩)⟩
      rw [hdiv, hrow]
      exact ⟨hi, hx⟩

variable {reduction rank} {n i : ℕ}

/-- What is stored for a token and a split is in memory afterwards, unless it
is where the initial zero goes. -/
theorem mainloop_stored (hi : i < p.numTokens) (hn : n < p.numSplits)
    {a : Address} {v : Val} (hstore : .store a v ∈ p.rowAccesses rank n i)
    (ha : a ≠ logprobsScalar reduction) :
    p.mainloop reduction rank labelLoad run mem a = v := by
  rw [mainloop_eq_performAll]
  apply performAll_of_stores
  · intro x hx hxa
    rcases (p.mem_accesses _ _ _ run mem).mp hx with
      ⟨-, rfl⟩ | ⟨i', hi', n', hn', hx⟩
    · exact absurd hxa.symm ha
    · exact p.rowAccesses_unique hx hstore hxa
  · exact .inr ((p.mem_accesses _ _ _ run mem).mpr
      (.inr ⟨i, hi, n, hn, hstore⟩))

theorem mainloop_max (hi : i < p.numTokens) (hn : n < p.numSplits) :
    p.mainloop reduction rank labelLoad run mem (.max i n) =
      (p.mainloopRow rank n i (p.labels i)).max :=
  p.mainloop_stored labelLoad run mem hi hn
    ((mem_rowAccesses p).mpr (.inl rfl)) (by cases reduction <;> nofun)

theorem mainloop_accu (hi : i < p.numTokens) (hn : n < p.numSplits) :
    p.mainloop reduction rank labelLoad run mem (.accu i n) =
      (p.mainloopRow rank n i (p.labels i)).accu :=
  p.mainloop_stored labelLoad run mem hi hn
    ((mem_rowAccesses p).mpr (.inr (.inl rfl))) (by cases reduction <;> nofun)

theorem mainloop_entropyB (hi : i < p.numTokens) (hn : n < p.numSplits) :
    p.mainloop reduction rank labelLoad run mem (.entropyB i n) =
      (p.mainloopRow rank n i (p.labels i)).entropyB :=
  p.mainloop_stored labelLoad run mem hi hn
    ((mem_rowAccesses p).mpr (.inr (.inr (.inl rfl))))
    (by cases reduction <;> nofun)

/-- The splits of a rank as the merging of them finds them in memory. -/
theorem mainloop_summarizes (hi : i < p.numTokens) (hn : n < p.numSplits) :
    ∃ m a b,
      p.mainloop reduction rank labelLoad run mem (.max i n) = fin m ∧
      p.mainloop reduction rank labelLoad run mem (.accu i n) = fin a ∧
      p.mainloop reduction rank labelLoad run mem (.entropyB i n) = fin b ∧
      Summarizes (p.rankLogit rank i) (p.splitPlace n) (p.splitPlace (n + 1))
        m a b := by
  rw [mainloop_max p _ run mem hi hn, mainloop_accu p _ run mem hi hn,
    mainloop_entropyB p _ run mem hi hn]
  exact p.mainloopRow_summarizes hi hn _

theorem mainloopGrid_pos (hi : i < p.numTokens) (hn : n < p.numSplits) :
    0 < p.mainloopGrid :=
  Nat.mul_pos ((lt_cdiv (by decide)).mpr (by omega)) (Nat.zero_lt_of_lt hn)

/-- With a reduction the scalar starts at zero. -/
theorem mainloop_scalar (hred : reduction ≠ .none)
    (hgrid : 0 < p.mainloopGrid) :
    p.mainloop reduction rank labelLoad run mem .logprobsScalar = fin 0 := by
  have hptr : logprobsScalar reduction = .logprobsScalar := by
    cases reduction with
    | none => exact absurd rfl hred
    | sum => rfl
    | mean => rfl
  rw [mainloop_eq_performAll]
  apply performAll_of_stores
  · intro x hx hxa
    rcases (p.mem_accesses _ _ _ run mem).mp hx with
      ⟨-, rfl⟩ | ⟨i, -, n, -, hx⟩
    · rw [hptr]
      rfl
    · rcases (mem_rowAccesses p).mp hx with rfl | rfl | rfl | ⟨-, rfl⟩ <;>
        cases hxa
  · refine .inr ((p.mem_accesses _ _ _ run mem).mpr (.inl ⟨hgrid, ?_⟩))
    rw [hptr]
    rfl

/-- Without tokens nothing runs. -/
theorem mainloop_of_no_tokens (hzero : p.numTokens = 0) (a : Address) :
    p.mainloop reduction rank labelLoad run mem a = mem a := by
  have hgrid : p.mainloopGrid = 0 := by
    rw [mainloopGrid, hzero]
    exact Nat.zero_mul _
  rw [mainloop_eq_performAll]
  apply performAll_of_ne
  intro x hx
  rcases (p.mem_accesses _ _ _ run mem).mp hx with ⟨hpos, -⟩ | ⟨i, hi, -⟩
  · exact absurd hpos (by omega)
  · exact absurd hi (by omega)

section Labels

/-- The logit of the token's label. -/
noncomputable def labelLogit (t : ℕ) : ℝ := p.logit t (p.labels t)

theorem Owns.logprobs {n t : ℕ} (h : p.Owns rank n t) (ht : t < p.numTokens)
    (hn : n < p.numSplits) :
    (p.mainloopRow rank n t (p.labels t)).logprobs = fin (p.labelLogit t) := by
  obtain ⟨hlow, hhigh⟩ := h
  have hlabel : p.labels t =
      p.labels t - rank * p.vocabSize + rank * p.vocabSize := by omega
  rw [hlabel, p.mainloopRow_logprobs ht hn (by omega) (by omega), rankLogit,
    Nat.add_comm, ← hlabel]
  rfl

theorem store_logprobs_mem {n t : ℕ} (h : p.Owns rank n t)
    (ht : t < p.numTokens) (hn : n < p.numSplits) :
    .store (.logprobs t) (fin (p.labelLogit t)) ∈ p.rowAccesses rank n t :=
  (mem_rowAccesses p).mpr
    (.inr (.inr (.inr ⟨h, by rw [h.logprobs p ht hn]⟩)))

/-- Only the owner of a label stores at its token. -/
theorem eq_store_logprobs {n i t : ℕ} {x : Access Address Val}
    (hx : x ∈ p.rowAccesses rank n i) (hi : i < p.numTokens)
    (hn : n < p.numSplits) (hxt : x.address = .logprobs t) :
    p.Owns rank n t ∧ x = .store (.logprobs t) (fin (p.labelLogit t)) := by
  rcases (mem_rowAccesses p).mp hx with rfl | rfl | rfl | ⟨howns, rfl⟩ <;>
    cases hxt
  exact ⟨howns, by rw [howns.logprobs p hi hn]⟩

/-- Where the initial zero goes elsewhere, the owner's store stays. -/
theorem mainloop_logprobs {t : ℕ} (h : p.Owns rank n t) (ht : t < p.numTokens)
    (hn : n < p.numSplits) (hne : .logprobs t ≠ logprobsScalar reduction) :
    p.mainloop reduction rank labelLoad run mem (.logprobs t) =
      fin (p.labelLogit t) :=
  p.mainloop_stored labelLoad run mem ht hn (p.store_logprobs_mem h ht hn) hne

/-- A rank without the label leaves what it found. -/
theorem mainloop_logprobs_of_not_owns {t : ℕ}
    (h : ∀ n < p.numSplits, ¬ p.Owns rank n t)
    (hne : .logprobs t ≠ logprobsScalar reduction) :
    p.mainloop reduction rank labelLoad run mem (.logprobs t) =
      mem (.logprobs t) := by
  rw [mainloop_eq_performAll]
  apply performAll_of_ne
  intro x hx hxt
  rcases (p.mem_accesses _ _ _ run mem).mp hx with
    ⟨-, rfl⟩ | ⟨i, hi, n, hn, hx⟩
  · exact hne hxt.symm
  · exact h n hn (p.eq_store_logprobs hx hi hn hxt).1

/-- Without a reduction the first token has zero afterwards, where no other
value is stored. -/
theorem mainloop_logprobs_zero (hgrid : 0 < p.mainloopGrid)
    (h : ∀ n < p.numSplits, p.Owns rank n 0 → p.labelLogit 0 = 0) :
    p.mainloop .none rank labelLoad run mem (.logprobs 0) = fin 0 := by
  rw [mainloop_eq_performAll]
  apply performAll_of_stores
  · intro x hx hxt
    rcases (p.mem_accesses _ _ _ run mem).mp hx with
      ⟨-, rfl⟩ | ⟨i, hi, n, hn, hx⟩
    · rfl
    · obtain ⟨howns, rfl⟩ := p.eq_store_logprobs hx hi hn hxt
      rw [h n hn howns]
  · exact .inr ((p.mem_accesses _ _ _ run mem).mpr (.inl ⟨hgrid, rfl⟩))

/-- Only the first instance stores at the first token, if the first split owns
its label. -/
theorem pid_eq_zero {pid : ℕ} (hpid : pid < p.mainloopGrid)
    (howns : p.Owns rank 0 0) {x : Access Address Val}
    (hx : x ∈ p.mainloopKernel .none rank labelLoad pid mem)
    (hxt : x.address = .logprobs 0) : pid = 0 := by
  rcases (p.mem_mainloopKernel hpid).mp hx with ⟨hzero, -⟩ | ⟨j, -, hi, hrow⟩
  · exact hzero
  · have hsplit : pid / cdiv p.numTokens mainBlockM < p.numSplits :=
      Nat.div_lt_of_lt_mul hpid
    have howns' := (p.eq_store_logprobs hrow hi hsplit hxt).1
    have htoken : pid % cdiv p.numTokens mainBlockM * mainBlockM + j = 0 := by
      rcases (mem_rowAccesses p).mp hrow with rfl | rfl | rfl | ⟨-, rfl⟩
      · cases hxt
      · cases hxt
      · cases hxt
      · exact Address.logprobs.inj hxt
    apply p.first_iff.mp
    refine ⟨?_, howns'.split_unique p howns⟩
    have hblock := Nat.eq_zero_of_add_eq_zero_right htoken
    exact (Nat.mul_eq_zero.mp hblock).resolve_right (by decide)

/-- If the first split owns the first token's label, the instance that stores
the initial zero stores the logit after it. -/
theorem mainloop_logprobs_first (howns : p.Owns rank 0 0)
    (ht : 0 < p.numTokens) (hn : 0 < p.numSplits) :
    p.mainloop .none rank labelLoad run mem (.logprobs 0) =
      fin (p.labelLogit 0) := by
  have hgrid := p.mainloopGrid_pos ht hn
  obtain ⟨before, after, horder⟩ := List.append_of_mem (run.mem_iff.mpr hgrid)
  have hnodup := run.nodup
  rw [horder] at hnodup
  have hafter : 0 ∉ after :=
    (List.nodup_cons.mp (List.nodup_append.mp hnodup).2.1).1
  have hlt : ∀ pid ∈ after, pid < p.mainloopGrid := by
    intro pid hpid
    rw [← run.mem_iff, horder]
    exact List.mem_append_right _ (List.mem_cons_of_mem _ hpid)
  have hkernel : ∀ found : Memory,
      p.mainloopKernel .none rank labelLoad 0 found =
        .store (.logprobs 0) 0 :: p.mainloopStores rank labelLoad 0 := by
    intro found
    rw [mainloopKernel, if_pos (p.first_iff.mpr rfl)]
    rfl
  rw [mainloop_eq_performAll, horder, List.flatMap_append, List.flatMap_cons,
    performAll_append, performAll_append, performAll_of_ne]
  · rw [hkernel]
    change performAll (perform _ _) _ _ = _
    apply performAll_of_stores
    · intro x hx hxt
      obtain ⟨j, -, hi, hrow⟩ := (p.mem_mainloopStores hgrid).mp hx
      exact (p.eq_store_logprobs hrow hi (Nat.div_lt_of_lt_mul hgrid) hxt).2
    · refine .inr ((p.mem_mainloopStores hgrid).mpr ⟨0, by decide, ?_⟩)
      rw [Nat.zero_mod, Nat.zero_div, Nat.zero_mul]
      exact ⟨ht, p.store_logprobs_mem howns ht hn⟩
  · intro x hx hxt
    obtain ⟨pid, hpid, hx⟩ := List.mem_flatMap.mp hx
    exact hafter (p.pid_eq_zero _ _ (hlt pid hpid) howns hx hxt ▸ hpid)

/-- If another split owns it and the first instance runs last, the logit is
lost. -/
theorem mainloop_logprobs_firstLast (hgrid : 0 < p.mainloopGrid)
    (h : ¬ p.Owns rank 0 0) :
    p.mainloop .none rank labelLoad (.firstLast hgrid) mem (.logprobs 0) =
      fin 0 := by
  rw [mainloop_eq_performAll]
  change performAll mem ((List.range' 1 _ ++ [0]).flatMap _) _ = _
  rw [List.flatMap_append, performAll_append]
  apply performAll_of_stores
  · intro x hx hxt
    rw [List.flatMap_singleton] at hx
    rcases (p.mem_mainloopKernel hgrid).mp hx with ⟨-, rfl⟩ | ⟨j, -, hi, hrow⟩
    · rfl
    · rw [Nat.zero_div] at hrow
      have hn : 0 < p.numSplits := Nat.pos_of_mul_pos_left hgrid
      exact absurd (p.eq_store_logprobs hrow hi hn hxt).1 h
  · rw [List.flatMap_singleton]
    exact .inr ((p.mem_mainloopKernel hgrid).mpr (.inl ⟨rfl, rfl⟩))

end Labels

end Launch

end Problem

end SelfDistillation.FusedEntropy
