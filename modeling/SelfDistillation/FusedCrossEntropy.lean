/-
`efficient_entropy_forward` (verl/utils/kernel/kernels.py) and
`_VocabParallelEntropy` (verl/utils/megatron/tensor_parallel.py) beside the
plain log-probabilities and entropies: when the fused ones are the same.
-/
import SelfDistillation.EntropyEpilogue

namespace SelfDistillation.FusedEntropy

open ExtNum KernelLaunch OnlineSoftmax Finset

/-- What a rank finds in memory it has not written, and what its loads yield
past the last token where they have no default. -/
structure Garbage where
  memory : Memory
  labels : ℕ → ℕ → ℤ
  load : Address → Val

namespace Problem

variable (p : Problem)

/-- The orders in which the instances of a rank's launches run. -/
structure Runs where
  mainloop : ProgramOrder p.mainloopGrid
  epilogue : ProgramOrder p.epilogueGrid
  update : ProgramOrder p.epilogueGrid

section Host

/-- `torch.empty`, and `torch.zeros` for the log-probs without a reduction in a
process group. -/
def allocate (reduction : Reduction) (memory : Memory) : Memory
  | .logprobs t =>
      if reduction = .none ∧ p.distProcessGroup.isSome then 0
      else memory (.logprobs t)
  | a => memory a

/-- `_max_backup = _max.clone()` -/
def cloneMax (mem : Memory) : Memory
  | .maxBackup i n => mem (.max i n)
  | a => mem a

/-- `dist.all_reduce(tensor, op=dist.ReduceOp.MAX)`, for `_max` -/
noncomputable def allReduceMax (mems : ℕ → Memory) (rank : ℕ) : Memory
  | .max i n => maxOver (fun q => mems q (.max i n)) p.worldSize
  | a => mems rank a

/-- `dist.all_reduce(tensor, op=dist.ReduceOp.SUM)`, for `_logprobs` -/
noncomputable def allReduceLogprobs (mems : ℕ → Memory) (rank : ℕ) : Memory
  | .logprobs i => ∑ q ∈ range p.worldSize, mems q (.logprobs i)
  | a => mems rank a

/-- The same for `accumulate_and_entropy_b`. -/
noncomputable def allReduceAccumulate (mems : ℕ → Memory) (rank : ℕ) : Memory
  | .accumulate i => ∑ q ∈ range p.worldSize, mems q (.accumulate i)
  | .globalEntropyB i => ∑ q ∈ range p.worldSize, mems q (.globalEntropyB i)
  | a => mems rank a

variable (reduction : Reduction) (garbage : ℕ → Garbage) (runs : ℕ → p.Runs)

noncomputable def afterMainloop (rank : ℕ) : Memory :=
  p.mainloop reduction rank (garbage rank).labels (runs rank).mainloop
    (p.allocate reduction (garbage rank).memory)

/-- The memories of the ranks before they merge their splits. -/
noncomputable def reduced : ℕ → Memory :=
  p.allReduceLogprobs (p.allReduceMax fun rank =>
    cloneMax (p.afterMainloop reduction garbage runs rank))

noncomputable def mergedRanks : ℕ → Memory :=
  p.allReduceAccumulate fun rank =>
    launch p.epilogueTpKernel (runs rank).epilogue
      (p.reduced reduction garbage runs rank)

/-- `efficient_entropy_forward`: the memory of each rank when it returns. -/
noncomputable def efficientEntropyForward (rank : ℕ) : Memory :=
  match p.distProcessGroup with
  | none =>
      launch (p.epilogueKernel reduction (garbage rank).load)
        (runs rank).epilogue (p.afterMainloop reduction garbage runs rank)
  | some _ =>
      launch (p.updateKernel reduction (garbage rank).load)
        (runs rank).update (p.mergedRanks reduction garbage runs rank)

end Host

section VocabParallel

/-- `_VocabParallelEntropy.forward`, for one token. -/
noncomputable def vocabParallelEntropy (t : ℕ) : Val :=
  let logits := fun rank j => fin (p.rankLogit rank t j)
  let logitsMax := maxOver (fun q => maxOver (logits q) p.vocabSize) p.worldSize
  let expLogits := fun rank j => exp (logits rank j - logitsMax)
  let sumExpLogits := ∑ q ∈ range p.worldSize,
    ∑ j ∈ range p.vocabSize, expLogits q j
  let softmaxLogits := fun rank j => expLogits rank j / sumExpLogits
  let sumSoftmaxTimesLogits := ∑ q ∈ range p.worldSize,
    ∑ j ∈ range p.vocabSize, softmaxLogits q j * logits q j
  logitsMax + log sumExpLogits - sumSoftmaxTimesLogits

end VocabParallel

section Plain

/-- The vocabulary of all ranks. -/
def totalVocab : ℕ := p.worldSize * p.vocabSize

/-- The entropy of the softmax of a row. -/
noncomputable def plainEntropy (t : ℕ) : ℝ :=
  logSumExp (p.logit t) 0 p.totalVocab - softmaxMean (p.logit t) 0 p.totalVocab

/-- The log-softmax of a row at the token's label. -/
noncomputable def plainLogprob (t : ℕ) : ℝ :=
  p.labelLogit t - logSumExp (p.logit t) 0 p.totalVocab

/-- The log-probs in memory are the plain ones, or their sum or mean. -/
def HasLogprobs (reduction : Reduction) (mem : Memory) : Prop :=
  match reduction with
  | .none => ∀ t < p.numTokens, mem (.logprobs t) = fin (p.plainLogprob t)
  | .sum => mem .logprobsScalar =
      fin (∑ t ∈ range p.numTokens, p.plainLogprob t)
  | .mean => mem .logprobsScalar =
      fin (∑ t ∈ range p.numTokens, p.plainLogprob t) / fin (p.numTokens : ℝ)

/-- Whatever the memory was and in whatever order the instances ran, all ranks
return the plain log-probs and entropies. -/
def EqualsPlain (reduction : Reduction) : Prop :=
  ∀ (garbage : ℕ → Garbage) (runs : ℕ → p.Runs), ∀ rank < p.worldSize,
    p.HasLogprobs reduction
      (p.efficientEntropyForward reduction garbage runs rank) ∧
    ∀ t < p.numTokens,
      p.efficientEntropyForward reduction garbage runs rank (.entropy t) =
        fin (p.plainEntropy t) ∧
      p.vocabParallelEntropy t = fin (p.plainEntropy t)

/-- Without a reduction: the label of the first token is in the first split of
its rank, or its logit is zero. With one: one rank, and as many tokens as fill
the blocks of the epilogue. -/
def Fits (reduction : Reduction) : Prop :=
  match reduction with
  | .none => 0 < p.numTokens →
      p.labels 0 % p.vocabSize < vocabPerSplit ∨
      ∑ k ∈ range p.hiddenSize, p.hidden 0 k * p.weight (p.labels 0) k = 0
  | .sum | .mean => 0 < p.numTokens ∧ epilogueBlockM ∣ p.numTokens ∧
      p.worldSize = 1

end Plain

section Merging

variable {reduction : Reduction} {garbage : ℕ → Garbage} {runs : ℕ → p.Runs}
variable {rank i : ℕ}

theorem vocabSize_pos (hi : i < p.numTokens) : 0 < p.vocabSize := by
  have hlabel := p.labels_lt i hi
  exact Nat.pos_of_ne_zero fun hzero => by simp [hzero] at hlabel

theorem numSplits_pos (hi : i < p.numTokens) : 0 < p.numSplits :=
  p.lt_numSplits.mpr (by simpa using p.vocabSize_pos hi)

theorem totalVocab_pos (hi : i < p.numTokens) : 0 < p.totalVocab :=
  Nat.mul_pos p.worldSize_pos (p.vocabSize_pos hi)

/-- The merging of a rank's splits, where memory has what the mainloop left. -/
theorem merged_summarizes {mem : Memory} {originalMax : ℕ → ℕ → Address}
    (hi : i < p.numTokens)
    (hreduced : ∀ n < p.numSplits, ∃ m, mem (.max i n) = fin m)
    (hsplits : ∀ n < p.numSplits, ∃ m a b, mem (originalMax i n) = fin m ∧
      mem (.accu i n) = fin a ∧ mem (.entropyB i n) = fin b ∧
      Summarizes (p.rankLogit rank i) (p.splitPlace n) (p.splitPlace (n + 1))
        m a b) :
    ∃ m a b, p.merged originalMax mem i = ⟨fin m, fin a, fin b⟩ ∧
      Summarizes (p.rankLogit rank i) 0 p.vocabSize m a b := by
  have hload : ∀ (ptr : ℕ → ℕ → Address) n, p.loadSplit mem ptr i n =
      if n < p.numSplits then mem (ptr i n) else fin 0 := by
    intro ptr n
    simp only [loadSplit, load, hi, true_and, decide_eq_true_eq]
    rfl
  have hloaded : Splits (p.rankLogit rank i) p.splitPlace p.numSplits
      (p.loadSplit mem .max i) (p.loadSplit mem originalMax i)
      (p.loadSplit mem .accu i) (p.loadSplit mem .entropyB i) := by
    refine ⟨p.splitPlace_mono, fun n => ?_, fun n hn => ?_, fun n hn => ?_⟩
    · rw [hload]
      split
      · exact hreduced n ‹_›
      · exact ⟨0, rfl⟩
    · rw [hload, hload, hload, if_pos hn, if_pos hn, if_pos hn]
      exact hsplits n hn
    · rw [hload, hload, hload, if_neg hn.not_gt, if_neg hn.not_gt,
        if_neg hn.not_gt]
      exact ⟨rfl, rfl, rfl⟩
  obtain ⟨m, a, b, hmerged, hsum⟩ := mergeSplits_summarizes hloaded
  rw [p.splitPlace_zero, p.splitPlace_of_le le_rfl] at hsum
  exact ⟨m, a, b, hmerged, hsum⟩

/-- The rows of a rank among the rows of all. -/
theorem summarizes_rank {m a b : ℝ}
    (h : Summarizes (p.rankLogit rank i) 0 p.vocabSize m a b) :
    Summarizes (p.logit i) (rank * p.vocabSize) ((rank + 1) * p.vocabSize)
      m a b := by
  have hshift : ∀ f : ℕ → ℝ,
      ∑ c ∈ Ico 0 p.vocabSize, f (rank * p.vocabSize + c) =
        ∑ c ∈ Ico (rank * p.vocabSize) ((rank + 1) * p.vocabSize), f c := by
    intro f
    rw [sum_Ico_add, Nat.zero_add, Nat.add_comm, ← Nat.succ_mul]
  constructor
  · rw [h.weight, ← hshift fun c => Real.exp (p.logit i c - m)]
    rfl
  · rw [h.moment,
      ← hshift fun c => p.logit i c * Real.exp (p.logit i c - m)]
    rfl

/-- The ranks put together. -/
theorem summarizes_ranks {m : ℝ} {f g : ℕ → ℝ}
    (h : ∀ q < p.worldSize,
      Summarizes (p.rankLogit q i) 0 p.vocabSize m (f q) (g q)) :
    Summarizes (p.logit i) 0 p.totalVocab m (∑ q ∈ range p.worldSize, f q)
      (∑ q ∈ range p.worldSize, g q) := by
  have hplace : Monotone fun q => q * p.vocabSize := fun _ _ hle =>
    Nat.mul_le_mul_right _ hle
  have hranks := Summarizes.family (m := m) hplace (Nat.zero_le p.worldSize)
    fun q _ hq => p.summarizes_rank (h q hq)
  simp only [Nat.zero_mul] at hranks
  rwa [← range_eq_Ico] at hranks

variable (reduction garbage runs)

/-- The label logit of a token after the sum over the ranks. -/
noncomputable def labelSum (i : ℕ) : Val :=
  ∑ q ∈ range p.worldSize,
    p.afterMainloop reduction garbage runs q (.logprobs i)

/-- What the last kernel makes of a token. -/
noncomputable def rowResult (rank i : ℕ) : TokenResult :=
  match p.distProcessGroup with
  | none => p.epilogueResult (garbage rank).load
      (p.afterMainloop reduction garbage runs rank) i
  | some _ => p.updateResult (garbage rank).load
      (p.mergedRanks reduction garbage runs rank) i

/-- What the mainloop of a rank leaves for a split. -/
theorem afterMainloop_split (rank : ℕ) (hi : i < p.numTokens) {n : ℕ}
    (hn : n < p.numSplits) : ∃ m a b,
      p.afterMainloop reduction garbage runs rank (.max i n) = fin m ∧
      p.afterMainloop reduction garbage runs rank (.accu i n) = fin a ∧
      p.afterMainloop reduction garbage runs rank (.entropyB i n) = fin b ∧
      Summarizes (p.rankLogit rank i) (p.splitPlace n) (p.splitPlace (n + 1))
        m a b :=
  p.mainloop_summarizes _ _ _ hi hn

/-- The splits of a rank in its own memory. -/
theorem afterMainloop_summarizes (rank : ℕ) (hi : i < p.numTokens) :
    ∃ m a b, p.merged .max (p.afterMainloop reduction garbage runs rank) i =
        ⟨fin m, fin a, fin b⟩ ∧
      Summarizes (p.rankLogit rank i) 0 p.vocabSize m a b := by
  apply p.merged_summarizes hi
  · intro n hn
    obtain ⟨m, -, -, hm, -⟩ :=
      p.afterMainloop_split reduction garbage runs rank hi hn
    exact ⟨m, hm⟩
  · exact fun n hn => p.afterMainloop_split reduction garbage runs rank hi hn

/-- The splits of a rank relative to the maxima of all ranks. -/
theorem reduced_summarizes (rank : ℕ) (hi : i < p.numTokens) :
    ∃ m a b, p.merged .maxBackup (p.reduced reduction garbage runs rank) i =
        ⟨fin m, fin a, fin b⟩ ∧
      Summarizes (p.rankLogit rank i) 0 p.vocabSize m a b := by
  apply p.merged_summarizes hi
  · intro n hn
    have hall : ∀ q, ∃ m, cloneMax (p.afterMainloop reduction garbage runs q)
        (.max i n) = fin m := by
      intro q
      obtain ⟨m, -, -, hm, -⟩ :=
        p.afterMainloop_split reduction garbage runs q hi hn
      exact ⟨m, hm⟩
    obtain ⟨m, hm⟩ := hall 0
    exact maxOver_eq_fin (fun q _ => .inr (hall q)) p.worldSize_pos hm
  · exact fun n hn => p.afterMainloop_split reduction garbage runs rank hi hn

/-- All ranks merge with one maximum. -/
theorem reduced_max (rank rank' i : ℕ) :
    (p.merged .maxBackup (p.reduced reduction garbage runs rank) i).max =
      (p.merged .maxBackup (p.reduced reduction garbage runs rank') i).max := by
  have hload : p.loadSplit (p.reduced reduction garbage runs rank) .max i =
      p.loadSplit (p.reduced reduction garbage runs rank') .max i := by
    funext n
    simp only [loadSplit, load, reduced, allReduceLogprobs, allReduceMax]
  rw [merged, merged, hload]
  exact mergeSplits_max _ _ _ _ _ _ _ _

/-- The last kernel finds a summary of the whole row. -/
theorem rowResult_eq (hrank : rank < p.worldSize) (hi : i < p.numTokens) :
    ∃ m a b, Summarizes (p.logit i) 0 p.totalVocab m a b ∧
      p.rowResult reduction garbage runs rank i =
        tokenResult (fin m) (fin a) (fin b)
          (p.labelSum reduction garbage runs i) := by
  cases hgroup : p.distProcessGroup with
  | none =>
      have hone : p.worldSize = 1 := by simp [worldSize, hgroup]
      obtain rfl : rank = 0 := by omega
      obtain ⟨m, a, b, hmerged, hsum⟩ :=
        p.afterMainloop_summarizes reduction garbage runs 0 hi
      have hranks := p.summarizes_ranks (i := i) (m := m) (f := fun _ => a)
        (g := fun _ => b) fun q hq => by
          obtain rfl : q = 0 := by omega
          exact hsum
      rw [hone, sum_range_one, sum_range_one] at hranks
      refine ⟨m, a, b, hranks, ?_⟩
      simp only [rowResult, hgroup, epilogueResult, hmerged, labelSum, hone,
        sum_range_one, loadRow, load, hi, decide_true, if_true]
  | some size =>
      choose m a b hmerged hsum using fun q =>
        p.reduced_summarizes reduction garbage runs q hi
      have hmax : ∀ q, m q = m rank := by
        intro q
        have hq := p.reduced_max reduction garbage runs q rank i
        rw [hmerged q, hmerged rank] at hq
        exact ExtNum.fin.inj hq
      refine ⟨m rank, _, _, p.summarizes_ranks fun q _ => hmax q ▸ hsum q, ?_⟩
      have hmaximum : p.mergedRanks reduction garbage runs rank (.maximum i) =
          fin (m rank) := by
        change launch _ _ _ _ = _
        rw [p.epilogueTp_maximum _ hi, hmerged]
      have haccumulate :
          p.mergedRanks reduction garbage runs rank (.accumulate i) =
            fin (∑ q ∈ range p.worldSize, a q) := by
        change ∑ q ∈ range p.worldSize, launch _ _ _ _ = _
        rw [← sum_fin]
        refine sum_congr rfl fun q _ => ?_
        rw [p.epilogueTp_accumulate _ hi, hmerged]
      have hentropyB :
          p.mergedRanks reduction garbage runs rank (.globalEntropyB i) =
            fin (∑ q ∈ range p.worldSize, b q) := by
        change ∑ q ∈ range p.worldSize, launch _ _ _ _ = _
        rw [← sum_fin]
        refine sum_congr rfl fun q _ => ?_
        rw [p.epilogueTp_entropyB _ hi, hmerged]
      have hlogprobs : p.mergedRanks reduction garbage runs rank (.logprobs i) =
          p.labelSum reduction garbage runs i := by
        change launch _ _ _ _ = _
        rw [p.epilogueTp_of_ne (a := .logprobs i) _ (by simp) (by simp)
          (by simp)]
        rfl
      simp only [rowResult, hgroup, updateResult, loadRow, load, hi,
        decide_true, if_true, hmaximum, haccumulate, hentropyB, hlogprobs]

theorem forward_entropy (rank : ℕ) (hi : i < p.numTokens) :
    p.efficientEntropyForward reduction garbage runs rank (.entropy i) =
      (p.rowResult reduction garbage runs rank i).entropy := by
  unfold efficientEntropyForward rowResult
  cases p.distProcessGroup with
  | none => exact p.epilogue_entropy _ hi
  | some size => exact p.update_entropy _ hi

theorem forward_logprobs (rank : ℕ) (hi : i < p.numTokens) :
    p.efficientEntropyForward .none garbage runs rank (.logprobs i) =
      (p.rowResult .none garbage runs rank i).logprobs := by
  unfold efficientEntropyForward rowResult
  cases p.distProcessGroup with
  | none => exact p.epilogue_logprobs _ hi
  | some size => exact p.update_logprobs _ hi

theorem forward_scalar (rank : ℕ) :
    p.efficientEntropyForward reduction garbage runs rank .logprobsScalar =
      p.afterMainloop reduction garbage runs rank .logprobsScalar +
        ∑ pid ∈ range p.epilogueGrid, p.blockValue reduction
          (fun i => (p.rowResult reduction garbage runs rank i).logprobs)
            pid := by
  unfold efficientEntropyForward rowResult
  cases p.distProcessGroup with
  | none => exact p.epilogue_scalar _
  | some size =>
      dsimp only
      rw [p.update_scalar]
      congr 1
      exact p.epilogueTp_of_ne _ nofun nofun nofun

end Merging

section Labels

variable {reduction : Reduction} {garbage : ℕ → Garbage} {runs : ℕ → p.Runs}
variable {rank n i : ℕ}

/-- One split of one rank owns a label. -/
theorem owns_iff (hi : i < p.numTokens) : p.Owns rank n i ↔
    rank = p.labels i / p.vocabSize ∧
      n = p.labels i % p.vocabSize / vocabPerSplit := by
  have hpos := p.vocabSize_pos hi
  have hdiv := Nat.div_add_mod' (p.labels i) p.vocabSize
  have hmod := Nat.mod_lt (p.labels i) hpos
  constructor
  · rintro ⟨hlow, hhigh⟩
    have hlt : p.vocabBound n ≤ p.vocabSize := min_le_right _ _
    have hrank : p.labels i / p.vocabSize = rank := by
      apply Nat.div_eq_of_lt_le
      · omega
      · rw [Nat.succ_mul]
        omega
    refine ⟨hrank.symm, (Nat.div_eq_of_lt_le ?_ ?_).symm⟩
    · rw [hrank] at hdiv
      omega
    · have hsplit : p.vocabBound n ≤ (n + 1) * vocabPerSplit := min_le_left _ _
      rw [hrank] at hdiv
      omega
  · rintro ⟨rfl, rfl⟩
    have hlow := Nat.div_mul_le_self (p.labels i % p.vocabSize) vocabPerSplit
    have hhigh : p.labels i % p.vocabSize <
        (p.labels i % p.vocabSize / vocabPerSplit + 1) * vocabPerSplit := by
      rw [Nat.succ_mul]
      exact Nat.lt_div_mul_add (by decide)
    have hbound := lt_min hhigh hmod
    constructor
    · omega
    · change _ < min _ _ + _
      omega

theorem exists_owner (hi : i < p.numTokens) :
    ∃ r < p.worldSize, ∃ n < p.numSplits, p.Owns r n i := by
  refine ⟨_, ?_, _, ?_, (p.owns_iff hi).mpr ⟨rfl, rfl⟩⟩
  · exact Nat.div_lt_of_lt_mul (Nat.mul_comm _ _ ▸ p.labels_lt i hi)
  · apply p.lt_numSplits.mpr
    exact (Nat.div_mul_le_self _ _).trans_lt
      (Nat.mod_lt _ (p.vocabSize_pos hi))

/-- A rank that does not own a label leaves zero where zero was. -/
theorem afterMainloop_of_not_owner {r : ℕ} (hi : i < p.numTokens)
    (howns : p.Owns r n i) (hrank : rank ≠ r) (hlt : rank < p.worldSize)
    (hr : r < p.worldSize) :
    p.afterMainloop .none garbage runs rank (.logprobs i) = fin 0 := by
  have hnot : ∀ n' < p.numSplits, ¬ p.Owns rank n' i := by
    intro n' _ h
    rw [p.owns_iff hi] at h howns
    exact hrank (h.1.trans howns.1.symm)
  by_cases hzero : i = 0
  · subst hzero
    apply p.mainloop_logprobs_zero
    · exact p.mainloopGrid_pos hi (p.numSplits_pos hi)
    · exact fun n' hn' h => absurd h (hnot n' hn')
  · have hgroup : p.distProcessGroup.isSome := by
      cases hg : p.distProcessGroup with
      | none =>
          have hone : p.worldSize = 1 := by simp [worldSize, hg]
          omega
      | some size => rfl
    have hne : Address.logprobs i ≠ logprobsScalar .none := fun h =>
      hzero (Address.logprobs.inj h)
    refine (p.mainloop_logprobs_of_not_owns _ _ _ hnot hne).trans ?_
    simp only [allocate, hgroup, and_self, if_true]
    rfl

/-- Without a reduction the ranks add up to the label logit, for the first
token under the condition. -/
theorem labelSum_none (hfits : p.Fits .none) (hi : i < p.numTokens) :
    p.labelSum .none garbage runs i = fin (p.labelLogit i) := by
  obtain ⟨r, hr, n, hn, howns⟩ := p.exists_owner hi
  rw [labelSum, sum_eq_single r]
  · by_cases hzero : i = 0
    · subst hzero
      rcases hfits hi with hfirst | hlogit
      · have hn : 0 = p.labels 0 % p.vocabSize / vocabPerSplit :=
          (Nat.div_eq_of_lt hfirst).symm
        apply p.mainloop_logprobs_first _ _ _ _ hi (p.numSplits_pos hi)
        exact (p.owns_iff hi).mpr ⟨((p.owns_iff hi).mp howns).1, hn⟩
      · have hlabel : p.labelLogit 0 = 0 := by
          rw [labelLogit, logit, hlogit, zero_div]
        rw [hlabel]
        apply p.mainloop_logprobs_zero
        · exact p.mainloopGrid_pos hi hn
        · exact fun _ _ _ => hlabel
    · apply p.mainloop_logprobs _ _ _ howns hi hn
      exact fun h => hzero (Address.logprobs.inj h)
  · intro q hq hne
    exact p.afterMainloop_of_not_owner hi howns hne (mem_range.mp hq) hr
  · exact fun h => absurd (mem_range.mpr hr) h

/-- With a reduction one rank stores every label logit. -/
theorem labelSum_one (hred : reduction ≠ .none) (hone : p.worldSize = 1)
    (hi : i < p.numTokens) :
    p.labelSum reduction garbage runs i = fin (p.labelLogit i) := by
  obtain ⟨r, hr, n, hn, howns⟩ := p.exists_owner hi
  obtain rfl : r = 0 := by omega
  rw [labelSum, hone, sum_range_one]
  apply p.mainloop_logprobs _ _ _ howns hi hn
  cases reduction with
  | none => exact absurd rfl hred
  | sum => nofun
  | mean => nofun

end Labels

section Results

variable {reduction : Reduction} {garbage : ℕ → Garbage} {runs : ℕ → p.Runs}
variable {rank i : ℕ}

theorem forward_entropy_eq (hrank : rank < p.worldSize)
    (hi : i < p.numTokens) :
    p.efficientEntropyForward reduction garbage runs rank (.entropy i) =
      fin (p.plainEntropy i) := by
  obtain ⟨m, a, b, hsum, hrow⟩ :=
    p.rowResult_eq reduction garbage runs hrank hi
  rw [p.forward_entropy _ _ _ _ hi, hrow,
    tokenResult_entropy hsum (p.totalVocab_pos hi)]
  rfl

theorem rowResult_logprobs (hrank : rank < p.worldSize)
    (hi : i < p.numTokens) {logit : ℝ}
    (hlabel : p.labelSum reduction garbage runs i = fin logit) :
    (p.rowResult reduction garbage runs rank i).logprobs =
      fin (logit - logSumExp (p.logit i) 0 p.totalVocab) := by
  obtain ⟨m, a, b, hsum, hrow⟩ :=
    p.rowResult_eq reduction garbage runs hrank hi
  rw [hrow, hlabel, tokenResult_logprobs hsum (p.totalVocab_pos hi)]

theorem vocabParallelEntropy_eq (hi : i < p.numTokens) :
    p.vocabParallelEntropy i = fin (p.plainEntropy i) := by
  have hpos := p.vocabSize_pos hi
  have hlocal : ∀ q, ∃ m,
      maxOver (fun j => fin (p.rankLogit q i j)) p.vocabSize = fin m :=
    fun q => maxOver_eq_fin (fun j _ => .inr ⟨_, rfl⟩) hpos rfl
  obtain ⟨m₀, hm₀⟩ := hlocal 0
  obtain ⟨m, hm⟩ := maxOver_eq_fin (n := p.worldSize)
    (fun q _ => .inr (hlocal q)) p.worldSize_pos hm₀
  have hranks := p.summarizes_ranks (i := i) (m := m)
    (f := fun q => ∑ j ∈ range p.vocabSize,
      Real.exp (p.rankLogit q i j - m))
    (g := fun q => ∑ j ∈ range p.vocabSize,
      p.rankLogit q i j * Real.exp (p.rankLogit q i j - m))
    fun q _ => ⟨by rw [range_eq_Ico], by rw [range_eq_Ico]⟩
  have hweight := hranks.weight_pos (p.totalVocab_pos hi)
  unfold vocabParallelEntropy plainEntropy
  rw [← hranks.add_log (p.totalVocab_pos hi),
    ← hranks.div (p.totalVocab_pos hi)]
  simp only [hm, fin_sub_fin, exp_fin, sum_fin, log_fin hweight,
    fin_div_fin _ hweight.ne', fin_mul_fin, fin_add_fin]
  congr 2
  rw [sum_div]
  refine sum_congr rfl fun q _ => ?_
  rw [sum_div]
  exact sum_congr rfl fun j _ => by ring

theorem afterMainloop_scalar (hred : reduction ≠ .none)
    (hpos : 0 < p.numTokens) :
    p.afterMainloop reduction garbage runs rank .logprobsScalar = 0 :=
  p.mainloop_scalar _ _ _ hred (p.mainloopGrid_pos hpos (p.numSplits_pos hpos))

/-- The log-probs are the plain ones under the condition. -/
theorem hasLogprobs_of_fits (hfits : p.Fits reduction)
    (hrank : rank < p.worldSize) :
    p.HasLogprobs reduction
      (p.efficientEntropyForward reduction garbage runs rank) := by
  cases reduction with
  | none =>
      intro t ht
      rw [p.forward_logprobs _ _ _ ht,
        p.rowResult_logprobs hrank ht (p.labelSum_none hfits ht)]
      rfl
  | sum =>
      obtain ⟨hpos, hblocks, hone⟩ := hfits
      have hrows : ∀ t < p.numTokens,
          (p.rowResult .sum garbage runs rank t).logprobs =
            fin (p.plainLogprob t) := fun t ht =>
        p.rowResult_logprobs hrank ht (p.labelSum_one nofun hone ht)
      have hred : Reduction.sum ≠ .none := nofun
      change _ = fin _
      rw [p.forward_scalar, p.sum_blockValue hblocks hrows,
        p.afterMainloop_scalar hred hpos, zero_add]
  | mean =>
      obtain ⟨hpos, hblocks, hone⟩ := hfits
      have hrows : ∀ t < p.numTokens,
          (p.rowResult .mean garbage runs rank t).logprobs =
            fin (p.plainLogprob t) := fun t ht =>
        p.rowResult_logprobs hrank ht (p.labelSum_one nofun hone ht)
      have hred : Reduction.mean ≠ .none := nofun
      change _ = fin _ / fin _
      rw [p.forward_scalar, p.sum_blockValue_mean hpos hblocks hrows,
        p.afterMainloop_scalar hred hpos, zero_add]

end Results

section Failures

variable {reduction : Reduction}

/-- Every unwritten value is `v`. -/
def filled (v : Val) : Garbage := ⟨fun _ => v, fun _ _ => 0, fun _ => v⟩

/-- One instance after the other. -/
def ascendingRuns : p.Runs := ⟨.ascending _, .ascending _, .ascending _⟩

/-- The first instance of the mainloop runs last. -/
def lateFirst (hgrid : 0 < p.mainloopGrid) : p.Runs :=
  ⟨.firstLast hgrid, .ascending _, .ascending _⟩

/-- Where another split owns the first token's label and the first instance
runs last, no rank has its logit. -/
theorem labelSum_lateFirst (garbage : ℕ → Garbage) (hpos : 0 < p.numTokens)
    (hgrid : 0 < p.mainloopGrid)
    (hlate : vocabPerSplit ≤ p.labels 0 % p.vocabSize) :
    p.labelSum .none garbage (fun _ => p.lateFirst hgrid) 0 = fin 0 := by
  apply sum_eq_zero
  intro q _
  apply p.mainloop_logprobs_firstLast _ _ hgrid
  intro howns
  have hsplit := ((p.owns_iff hpos).mp howns).2
  have hone : 1 ≤ p.labels 0 % p.vocabSize / vocabPerSplit :=
    (Nat.one_le_div_iff (by decide)).mpr hlate
  omega

theorem fits_of_none (h : p.EqualsPlain .none) : p.Fits .none := by
  intro hpos
  by_contra hnot
  obtain ⟨hlate, hlogit⟩ := not_or.mp hnot
  have hgrid := p.mainloopGrid_pos hpos (p.numSplits_pos hpos)
  have hplain := (h (fun _ => filled 0) (fun _ => p.lateFirst hgrid) 0
    p.worldSize_pos).1 0 hpos
  have hlabel := p.labelSum_lateFirst (fun _ => filled 0) hpos hgrid
    (Nat.not_lt.mp hlate)
  rw [p.forward_logprobs _ _ _ hpos,
    p.rowResult_logprobs p.worldSize_pos hpos hlabel] at hplain
  have hzero : p.labelLogit 0 = 0 :=
    (sub_left_inj.mp (ExtNum.fin.inj hplain)).symm
  rw [labelLogit, logit, div_eq_zero_iff] at hzero
  exact hlogit (hzero.resolve_right p.temperature_ne)

/-- The value a reduction should leave. -/
theorem hasLogprobs_fin (hred : reduction ≠ .none) (hpos : 0 < p.numTokens)
    {mem : Memory} (h : p.HasLogprobs reduction mem) :
    ∃ c, mem .logprobsScalar = fin c := by
  cases reduction with
  | none => exact absurd rfl hred
  | sum => exact ⟨_, h⟩
  | mean => exact ⟨_, h.trans (fin_div_fin _ (Nat.cast_ne_zero.mpr hpos.ne'))⟩

/-- A row of the epilogue's grid that is no number leaves none in the scalar. -/
theorem not_equalsPlain_of_row (hred : reduction ≠ .none)
    (hpos : 0 < p.numTokens) {i : ℕ}
    (hi : i < p.epilogueGrid * epilogueBlockM)
    (hrow : ∀ c, (p.rowResult reduction (fun _ => filled nan)
      (fun _ => p.ascendingRuns) 0 i).logprobs ≠ fin c) :
    ¬ p.EqualsPlain reduction := by
  intro h
  obtain ⟨c, hc⟩ := p.hasLogprobs_fin hred hpos
    (h (fun _ => filled nan) (fun _ => p.ascendingRuns) 0 p.worldSize_pos).1
  rw [p.forward_scalar, add_comm] at hc
  exact add_ne_fin (p.sum_blockValue_ne_fin hred hi hrow) _ c hc

theorem lt_epilogueGrid_mul {i : ℕ} (hi : i < p.numTokens) :
    i < p.epilogueGrid * epilogueBlockM := by
  have hdiv := p.div_lt_epilogueGrid hi
  exact (Nat.div_lt_iff_lt_mul (by decide)).mp hdiv

/-- A block that reaches over the last token. -/
theorem not_equalsPlain_of_tail (hred : reduction ≠ .none)
    (hpos : 0 < p.numTokens) (htail : ¬ epilogueBlockM ∣ p.numTokens) :
    ¬ p.EqualsPlain reduction := by
  have hi : p.numTokens < p.epilogueGrid * epilogueBlockM := by
    have hlast := p.lt_epilogueGrid_mul (Nat.sub_lt hpos Nat.one_pos)
    rcases Nat.lt_or_ge p.numTokens (p.epilogueGrid * epilogueBlockM) with
      hlt | hge
    · exact hlt
    · exact absurd ⟨p.epilogueGrid, by rw [Nat.mul_comm]; omega⟩ htail
  apply p.not_equalsPlain_of_row hred hpos hi
  have hload : ∀ mem ptr, p.loadRow (filled nan).load mem ptr p.numTokens =
      nan := by
    intro mem ptr
    simp [loadRow, load, filled]
  unfold rowResult
  cases p.distProcessGroup with
  | none =>
      apply tokenResult_ne_fin
      simp [hload]
  | some size =>
      apply tokenResult_ne_fin
      simp [hload]

/-- More than one rank: those that do not own a label add what they found. -/
theorem not_equalsPlain_of_ranks (hred : reduction ≠ .none)
    (hpos : 0 < p.numTokens) (hranks : p.worldSize ≠ 1) :
    ¬ p.EqualsPlain reduction := by
  apply p.not_equalsPlain_of_row hred hpos (p.lt_epilogueGrid_mul hpos)
  obtain ⟨m, a, b, -, hrow⟩ := p.rowResult_eq reduction
    (fun _ => filled nan) (fun _ => p.ascendingRuns) p.worldSize_pos hpos
  rw [hrow]
  apply tokenResult_ne_fin
  obtain ⟨r, hr, n, hn, howns⟩ := p.exists_owner hpos
  obtain ⟨q, hq, hne⟩ : ∃ q < p.worldSize, q ≠ r := by
    by_cases hzero : r = 0
    · exact ⟨1, by omega, by omega⟩
    · exact ⟨0, by omega, fun h => hzero h.symm⟩
  apply sum_ne_fin (mem_range.mpr hq)
  have hnot : ∀ n' < p.numSplits, ¬ p.Owns q n' 0 := by
    intro n' _ h
    rw [p.owns_iff hpos] at h howns
    exact hne (h.1.trans howns.1.symm)
  have hptr : Address.logprobs 0 ≠ logprobsScalar reduction := by
    cases reduction with
    | none => exact absurd rfl hred
    | sum => nofun
    | mean => nofun
  intro c hc
  rw [afterMainloop, p.mainloop_logprobs_of_not_owns _ _ _ hnot hptr] at hc
  simp [allocate, hred, filled] at hc

/-- Without tokens the scalar is what was there. -/
theorem not_equalsPlain_of_no_tokens (hred : reduction ≠ .none)
    (hzero : p.numTokens = 0) : ¬ p.EqualsPlain reduction := by
  intro h
  have hplain := (h (fun _ => filled (fin 1)) (fun _ => p.ascendingRuns) 0
    p.worldSize_pos).1
  have hgrid : p.epilogueGrid = 0 := by
    rw [epilogueGrid, hzero]
    rfl
  have hscalar : p.efficientEntropyForward reduction
      (fun _ => filled (fin 1)) (fun _ => p.ascendingRuns) 0 .logprobsScalar =
        fin 1 := by
    rw [p.forward_scalar, hgrid, range_zero, sum_empty, add_zero, afterMainloop,
      p.mainloop_of_no_tokens _ _ _ hzero]
    rfl
  cases reduction with
  | none => exact absurd rfl hred
  | sum =>
      have hsum := hscalar.symm.trans hplain
      simp [hzero] at hsum
  | mean =>
      have hmean := hscalar.symm.trans hplain
      rw [hzero, range_zero, sum_empty, Nat.cast_zero, zero_div_zero] at hmean
      cases hmean

theorem fits_of_reduced (h : p.EqualsPlain reduction)
    (hred : reduction ≠ .none) :
    0 < p.numTokens ∧ epilogueBlockM ∣ p.numTokens ∧ p.worldSize = 1 := by
  have hpos : 0 < p.numTokens := by
    by_contra hzero
    exact p.not_equalsPlain_of_no_tokens hred (by omega) h
  refine ⟨hpos, ?_, ?_⟩
  · by_contra htail
    exact p.not_equalsPlain_of_tail hred hpos htail h
  · by_contra hranks
    exact p.not_equalsPlain_of_ranks hred hpos hranks h

end Failures

/-- The fused cross entropy is the plain one exactly under the condition. -/
theorem equalsPlain_iff_fits (reduction : Reduction) :
    p.EqualsPlain reduction ↔ p.Fits reduction := by
  constructor
  · intro h
    cases reduction with
    | none => exact p.fits_of_none h
    | sum => exact p.fits_of_reduced h nofun
    | mean => exact p.fits_of_reduced h nofun
  · intro hfits garbage runs rank hrank
    refine ⟨p.hasLogprobs_of_fits hfits hrank, fun t ht => ⟨?_, ?_⟩⟩
    · exact p.forward_entropy_eq hrank ht
    · exact p.vocabParallelEntropy_eq ht

end Problem

theorem no_group_pos : ∀ n ∈ (Option.none : Option ℕ), 0 < n := by simp

/-- Two tokens, whose label is in the second split of a rank. -/
def twoTokens : Problem where
  numTokens := 2
  hiddenSize := 128
  hiddenSize_dvd := dvd_rfl
  vocabSize := 1025
  distProcessGroup := Option.none
  group_pos := no_group_pos
  hidden _ _ := 1
  weight _ _ := 1
  labels _ := 1024
  labels_lt _ _ := by decide
  temperature := 1
  temperature_ne := one_ne_zero
  useTma := false

/-- No reduction of them is the plain one on every run. -/
theorem not_equalsPlain_twoTokens : ¬ twoTokens.EqualsPlain .none ∧
    ¬ twoTokens.EqualsPlain .sum ∧ ¬ twoTokens.EqualsPlain .mean := by
  refine ⟨fun h => ?_, fun h => ?_, fun h => ?_⟩
  · rcases twoTokens.fits_of_none h (by decide) with hfirst | hlogit
    · exact absurd hfirst (by decide)
    · simp [twoTokens] at hlogit
  · exact absurd (twoTokens.fits_of_reduced h nofun).2.1 (by decide)
  · exact absurd (twoTokens.fits_of_reduced h nofun).2.1 (by decide)

end SelfDistillation.FusedEntropy
