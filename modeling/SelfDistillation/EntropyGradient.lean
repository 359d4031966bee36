/-
The gradients of the fused cross entropy: every method of
`efficient_entropy_backward` leaves the same ones, and they are those of the
plain log-probabilities and entropies.
-/
import SelfDistillation.EntropyBackward

namespace SelfDistillation.FusedEntropy

open ExtNum GridSwizzle KernelLaunch OnlineSoftmax SoftmaxGradient Finset

namespace Problem

variable (p : Problem)

section Fused

variable (saved : Memory) (up : Upstream) (rank : ℕ)

/-- `d_logits` of the block of rows `m` and columns `n`. -/
noncomputable def blockDLogits (m n r j : ℕ) : Val :=
  p.dLogits saved up rank (m * gradBlockM + r) (n * fuseBlockN + j)
    ((p.gradDot rank p.vocabSize (m * gradBlockM + r) (n * fuseBlockN)).logits
      j)

/-- What pass `k` over the hidden dimension adds to the rows of the weight. -/
noncomputable def weightAdds (m n k j : ℕ) : List (Access GradAddress Val) :=
  atomicAddLanes mainBlockK
    (fun kk => .dWeight (n * fuseBlockN + j) (k * mainBlockK + kk))
    (fun kk => ∑ r ∈ range gradBlockM, p.blockDLogits saved up rank m n r j *
      fin (p.loadHidden (k * mainBlockK) k (m * gradBlockM + r) kk))
    fun kk => decide (kk < p.hiddenSize - k * mainBlockK ∧
      n * fuseBlockN + j < p.vocabSize)

/-- What it adds to the hidden states. -/
noncomputable def hiddenAdds (m n k r : ℕ) : List (Access GradAddress Val) :=
  atomicAddLanes mainBlockK
    (fun kk => .dHidden (m * gradBlockM + r) (k * mainBlockK + kk))
    (fun kk => ∑ j ∈ range fuseBlockN, p.blockDLogits saved up rank m n r j *
      fin (p.loadGradWeight rank p.vocabSize (k * mainBlockK) k
        (n * fuseBlockN + j) kk))
    fun kk => decide (kk < p.hiddenSize - k * mainBlockK ∧
      m * gradBlockM + r < p.numTokens)

/-- What a pass adds. -/
noncomputable def passAdds (m n k : ℕ) : List (Access GradAddress Val) :=
  ((List.range fuseBlockN).flatMap (p.weightAdds saved up rank m n k)) ++
    (List.range gradBlockM).flatMap (p.hiddenAdds saved up rank m n k)

noncomputable def blockAdds (m n : ℕ) : List (Access GradAddress Val) :=
  (List.range (cdiv p.hiddenSize mainBlockK)).flatMap
    (p.passAdds saved up rank m n)

variable {saved up rank} {m n : ℕ}

/-- What the loop has after `k` passes. -/
structure FuseAfter (saved : Memory) (up : Upstream) (rank m n k : ℕ)
    (s : FuseLoop) : Prop where
  accesses : s.accesses = (List.range k).flatMap (p.passAdds saved up rank m n)
  hiddenPtr : s.hiddenPtr = k * mainBlockK
  weightPtr : s.weightPtr = k * mainBlockK
  dHiddenPtr : s.dHiddenPtr = k * mainBlockK
  dWeightPtr : s.dWeightPtr = k * mainBlockK

theorem FuseAfter.step {k : ℕ} {s : FuseLoop}
    (h : p.FuseAfter saved up rank m n k s) :
    p.FuseAfter saved up rank m n (k + 1)
      (p.fuseStep rank (m * gradBlockM) (n * fuseBlockN)
        (p.blockDLogits saved up rank m n) k s) := by
  refine ⟨?_, ?_, ?_, ?_, ?_⟩
  · rw [List.range_succ, List.flatMap_append, ← h.accesses,
      List.flatMap_singleton, passAdds, ← List.append_assoc]
    simp only [fuseStep, h.hiddenPtr, h.weightPtr, h.dHiddenPtr, h.dWeightPtr]
    rfl
  · rw [Nat.succ_mul, ← h.hiddenPtr]
    rfl
  · rw [Nat.succ_mul, ← h.weightPtr]
    rfl
  · rw [Nat.succ_mul, ← h.dHiddenPtr]
    rfl
  · rw [Nat.succ_mul, ← h.dWeightPtr]
    rfl

theorem fuseKernel_eq {pid : ℕ} (hpid : pid < p.fuseGrid) (mem : GradMemory) :
    p.fuseKernel saved up rank pid mem =
      p.blockAdds saved up rank
        (swizzle groupSizeM (cdiv p.numTokens gradBlockM)
          (cdiv p.vocabSize fuseBlockN) pid).1
        (swizzle groupSizeM (cdiv p.numTokens gradBlockM)
          (cdiv p.vocabSize fuseBlockN) pid).2 := by
  have hgroup : 0 < groupSizeM := by decide
  have hblock := swizzle_mem hgroup hpid
  rw [mem_product, mem_range, mem_range] at hblock
  set m := (swizzle groupSizeM (cdiv p.numTokens gradBlockM)
    (cdiv p.vocabSize fuseBlockN) pid).1
  set n := (swizzle groupSizeM (cdiv p.numTokens gradBlockM)
    (cdiv p.vocabSize fuseBlockN) pid).2
  have hrow := (lt_cdiv (by decide)).mp hblock.1
  have hcol := (lt_cdiv (by decide)).mp hblock.2
  have hdot : p.GradDotAfter rank (m * gradBlockM) (n * fuseBlockN) 0
      (cdiv p.hiddenSize mainBlockK) (p.gradDot rank p.vocabSize
        (m * gradBlockM) (n * fuseBlockN)) := p.gradDot_after hrow hcol le_rfl
  have hreset : cdiv p.hiddenSize mainBlockK * mainBlockK - p.hiddenSize = 0 :=
    by rw [p.blocks_mul, Nat.sub_self]
  have hloop := forRange_invariant (p.FuseAfter saved up rank m n)
    (show p.FuseAfter saved up rank m n 0
        ⟨[], (p.gradDot rank p.vocabSize (m * gradBlockM)
            (n * fuseBlockN)).hiddenPtr - p.hiddenSize,
          (p.gradDot rank p.vocabSize (m * gradBlockM)
            (n * fuseBlockN)).weightPtr - p.hiddenSize, 0, 0⟩ by
      rw [hdot.hiddenPtr, hdot.weightPtr, hreset]
      constructor <;> simp)
    fun k (_ : k < cdiv p.hiddenSize mainBlockK) s h => h.step p
  exact hloop.accesses

theorem launch_fuse (run : ProgramOrder p.fuseGrid) (mem : GradMemory)
    (a : GradAddress) :
    launch (p.fuseKernel saved up rank) run mem a = mem a +
      ∑ m ∈ range (cdiv p.numTokens gradBlockM),
        ∑ n ∈ range (cdiv p.vocabSize fuseBlockN),
          ((p.blockAdds saved up rank m n).map (added a)).sum := by
  have hgroup : 0 < groupSizeM := by decide
  rw [launch_eq_performAll (fun _ => Option.none) (fun _ _ _ _ => rfl)
    (fun _ _ _ _ _ h => nomatch h), performAll_of_adds, sum_added_flatMap,
    run.sum_map, ← sum_swizzle hgroup]
  · congr 1
    refine sum_congr rfl fun pid hpid => ?_
    rw [p.fuseKernel_eq (mem_range.mp hpid)]
  · intro x hx ha
    obtain ⟨pid, hpid, hx⟩ := List.mem_flatMap.mp hx
    rw [p.fuseKernel_eq (run.mem_iff.mp hpid)] at hx
    obtain ⟨k, -, hx⟩ := List.mem_flatMap.mp hx
    rw [← ha]
    rcases List.mem_append.mp hx with hx | hx
    · obtain ⟨j, -, hx⟩ := List.mem_flatMap.mp hx
      exact exists_of_mem_atomicAddLanes hx
    · obtain ⟨r, -, hx⟩ := List.mem_flatMap.mp hx
      exact exists_of_mem_atomicAddLanes hx

/-- A pass adds at the tensor it is about, and nothing at the other. -/
theorem sum_added_pass (a : GradAddress) (k : ℕ) :
    ((p.passAdds saved up rank m n k).map (added a)).sum =
      (((List.range fuseBlockN).flatMap
        (p.weightAdds saved up rank m n k)).map (added a)).sum +
      (((List.range gradBlockM).flatMap
        (p.hiddenAdds saved up rank m n k)).map (added a)).sum := by
  rw [passAdds, List.map_append, List.sum_append]

/-- What a block adds to an element of the weight. -/
theorem sum_added_weight {c κ : ℕ} (hc : c < p.vocabSize)
    (hκ : κ < p.hiddenSize) :
    ((p.blockAdds saved up rank m n).map (added (.dWeight c κ))).sum =
      ∑ j ∈ range fuseBlockN, if n * fuseBlockN + j = c then
        ∑ r ∈ range gradBlockM, p.blockDLogits saved up rank m n r j *
          fin (if m * gradBlockM + r < p.numTokens then
            p.hidden (m * gradBlockM + r) κ else 0)
      else 0 := by
  have hhidden : ∀ k, (((List.range gradBlockM).flatMap
      (p.hiddenAdds saved up rank m n k)).map (added (.dWeight c κ))).sum =
        0 := by
    intro k
    apply sum_added_of_ne
    intro x hx
    obtain ⟨r, -, hx⟩ := List.mem_flatMap.mp hx
    obtain ⟨kk, -, rfl⟩ := List.mem_map.mp hx
    simp [Access.address]
  have hinside : κ < cdiv p.hiddenSize mainBlockK * mainBlockK := by
    rwa [p.blocks_mul]
  have hblock : κ / mainBlockK < cdiv p.hiddenSize mainBlockK :=
    Nat.div_lt_of_lt_mul (by rwa [Nat.mul_comm])
  rw [blockAdds, sum_added_flatMap_range]
  simp only [sum_added_pass, hhidden, add_zero]
  have hrows := sum_added_rows GradAddress.dWeight (fun i k i' k' => by simp)
    hinside fuseBlockN (n * fuseBlockN) c
    (fun k j kk => ∑ r ∈ range gradBlockM,
      p.blockDLogits saved up rank m n r j *
        fin (p.loadHidden (k * mainBlockK) k (m * gradBlockM + r) kk))
    (fun k j kk => decide (kk < p.hiddenSize - k * mainBlockK ∧
      n * fuseBlockN + j < p.vocabSize))
    fun k hk j hj kk hkk => by
      have hend := p.block_end hk
      simp only [decide_eq_true_eq]
      omega
  refine hrows.trans (sum_congr rfl fun j _ => ?_)
  congr 1
  refine sum_congr rfl fun r _ => ?_
  rw [p.loadHidden_eq hblock (Nat.mod_lt _ (by decide)), Nat.div_add_mod']

theorem loadGradWeight_all {k kk col : ℕ}
    (hk : k < cdiv p.hiddenSize mainBlockK) (hkk : kk < mainBlockK) :
    p.loadGradWeight rank p.vocabSize (k * mainBlockK) k col kk =
      if col < p.vocabSize then
        p.weight (rank * p.vocabSize + col) (k * mainBlockK + kk)
      else 0 := by
  split
  · exact p.loadGradWeight_eq hk hkk ‹_› le_rfl
  · simp [loadGradWeight, ‹¬ _›]

/-- What a block adds to an element of the hidden states. -/
theorem sum_added_hidden {t κ : ℕ} (ht : t < p.numTokens)
    (hκ : κ < p.hiddenSize) :
    ((p.blockAdds saved up rank m n).map (added (.dHidden t κ))).sum =
      ∑ r ∈ range gradBlockM, if m * gradBlockM + r = t then
        ∑ j ∈ range fuseBlockN, p.blockDLogits saved up rank m n r j *
          fin (if n * fuseBlockN + j < p.vocabSize then
            p.weight (rank * p.vocabSize + (n * fuseBlockN + j)) κ else 0)
      else 0 := by
  have hweight : ∀ k, (((List.range fuseBlockN).flatMap
      (p.weightAdds saved up rank m n k)).map (added (.dHidden t κ))).sum =
        0 := by
    intro k
    apply sum_added_of_ne
    intro x hx
    obtain ⟨r, -, hx⟩ := List.mem_flatMap.mp hx
    obtain ⟨kk, -, rfl⟩ := List.mem_map.mp hx
    simp [Access.address]
  have hinside : κ < cdiv p.hiddenSize mainBlockK * mainBlockK := by
    rwa [p.blocks_mul]
  have hblock : κ / mainBlockK < cdiv p.hiddenSize mainBlockK :=
    Nat.div_lt_of_lt_mul (by rwa [Nat.mul_comm])
  rw [blockAdds, sum_added_flatMap_range]
  simp only [sum_added_pass, hweight, zero_add]
  have hrows := sum_added_rows GradAddress.dHidden (fun i k i' k' => by simp)
    hinside gradBlockM (m * gradBlockM) t
    (fun k r kk => ∑ j ∈ range fuseBlockN,
      p.blockDLogits saved up rank m n r j *
        fin (p.loadGradWeight rank p.vocabSize (k * mainBlockK) k
          (n * fuseBlockN + j) kk))
    (fun k r kk => decide (kk < p.hiddenSize - k * mainBlockK ∧
      m * gradBlockM + r < p.numTokens))
    fun k hk j hj kk hkk => by
      have hend := p.block_end hk
      simp only [decide_eq_true_eq]
      omega
  refine hrows.trans (sum_congr rfl fun r _ => ?_)
  congr 1
  refine sum_congr rfl fun j _ => ?_
  rw [p.loadGradWeight_all hblock (Nat.mod_lt _ (by decide)),
    Nat.div_add_mod']

/-- What the lanes of a block hold at a token and a column inside. -/
theorem blockDLogits_eq (hsaved : p.Saved saved) {r j : ℕ}
    (hrow : m * gradBlockM + r < p.numTokens)
    (hcol : n * fuseBlockN + j < p.vocabSize) :
    p.blockDLogits saved up rank m n r j =
      fin (p.gradLogit up (m * gradBlockM + r)
        (rank * p.vocabSize + (n * fuseBlockN + j))) :=
  p.dLogits_eq hsaved hrow (p.gradDot_logits hrow hcol le_rfl)

theorem le_cdiv_mul {a b : ℕ} (hb : 0 < b) : a ≤ cdiv a b * b :=
  Nat.not_lt.mp fun hlt => lt_irrefl _ ((lt_cdiv hb).mpr hlt)

/-- The method that fuses everything: rows past the last token have no hidden
states, and columns past the vocabulary no weight. -/
theorem fuse_isGradient (hsaved : p.Saved saved) (run : ProgramOrder p.fuseGrid)
    (mem : GradMemory) : p.IsGradient up rank
      (launch (p.fuseKernel saved up rank) run (zeroGradients mem)) := by
  constructor
  · intro t ht κ hκ
    have hrow := Nat.div_add_mod' t gradBlockM
    rw [launch_fuse, zeroGradients, zero_add]
    simp only [p.sum_added_hidden ht hκ]
    rw [sum_comm]
    have hpick : ∀ n ∈ range (cdiv p.vocabSize fuseBlockN),
        ∑ m ∈ range (cdiv p.numTokens gradBlockM), ∑ r ∈ range gradBlockM,
          (if m * gradBlockM + r = t then
            ∑ j ∈ range fuseBlockN, p.blockDLogits saved up rank m n r j *
              fin (if n * fuseBlockN + j < p.vocabSize then
                p.weight (rank * p.vocabSize + (n * fuseBlockN + j)) κ else 0)
          else 0) =
        fin (∑ j ∈ range fuseBlockN, if n * fuseBlockN + j < p.vocabSize then
          p.gradLogit up t (rank * p.vocabSize + (n * fuseBlockN + j)) *
            p.weight (rank * p.vocabSize + (n * fuseBlockN + j)) κ else 0) := by
      intro n _
      rw [sum_place (fun m r => ∑ j ∈ range fuseBlockN,
        p.blockDLogits saved up rank m n r j *
          fin (if n * fuseBlockN + j < p.vocabSize then
            p.weight (rank * p.vocabSize + (n * fuseBlockN + j)) κ else 0))
        (ht.trans_le (le_cdiv_mul (by decide))), ← sum_fin]
      refine sum_congr rfl fun j _ => ?_
      by_cases hcol : n * fuseBlockN + j < p.vocabSize
      · rw [if_pos hcol, if_pos hcol, p.blockDLogits_eq hsaved
          (by rwa [hrow]) hcol, fin_mul_fin, hrow]
      · obtain ⟨d, hd⟩ : ∃ d, p.blockDLogits saved up rank (t / gradBlockM) n
            (t % gradBlockM) j = fin d :=
          p.exists_dLogits hsaved (Nat.zero_lt_of_lt ht) _ _ _
        rw [if_neg hcol, if_neg hcol, hd, fin_mul_fin, mul_zero]
    rw [sum_congr rfl hpick, sum_fin, hiddenGrad,
      sum_blocks_masked (fun c => p.gradLogit up t (rank * p.vocabSize + c) *
        p.weight (rank * p.vocabSize + c) κ) (le_cdiv_mul (by decide))]
  · intro c hc κ hκ
    have hcol := Nat.div_add_mod' c fuseBlockN
    rw [launch_fuse, zeroGradients, zero_add]
    simp only [p.sum_added_weight hc hκ]
    have hpick : ∀ m ∈ range (cdiv p.numTokens gradBlockM),
        ∑ n ∈ range (cdiv p.vocabSize fuseBlockN), ∑ j ∈ range fuseBlockN,
          (if n * fuseBlockN + j = c then
            ∑ r ∈ range gradBlockM, p.blockDLogits saved up rank m n r j *
              fin (if m * gradBlockM + r < p.numTokens then
                p.hidden (m * gradBlockM + r) κ else 0)
          else 0) =
        fin (∑ r ∈ range gradBlockM, if m * gradBlockM + r < p.numTokens then
          p.gradLogit up (m * gradBlockM + r) (rank * p.vocabSize + c) *
            p.hidden (m * gradBlockM + r) κ else 0) := by
      intro m hm
      rw [sum_place (fun n j => ∑ r ∈ range gradBlockM,
        p.blockDLogits saved up rank m n r j *
          fin (if m * gradBlockM + r < p.numTokens then
            p.hidden (m * gradBlockM + r) κ else 0))
        (hc.trans_le (le_cdiv_mul (by decide))), ← sum_fin]
      refine sum_congr rfl fun r _ => ?_
      by_cases hrow : m * gradBlockM + r < p.numTokens
      · rw [if_pos hrow, if_pos hrow, p.blockDLogits_eq hsaved hrow
          (by rwa [hcol]), fin_mul_fin, hcol]
      · have hpos : 0 < p.numTokens :=
          Nat.zero_lt_of_lt ((lt_cdiv (by decide)).mp (mem_range.mp hm))
        obtain ⟨d, hd⟩ : ∃ d, p.blockDLogits saved up rank m (c / fuseBlockN) r
            (c % fuseBlockN) = fin d := p.exists_dLogits hsaved hpos _ _ _
        rw [if_neg hrow, if_neg hrow, hd, fin_mul_fin, mul_zero]
    rw [sum_congr rfl hpick, sum_fin, weightGrad,
      sum_blocks_masked (fun t => p.gradLogit up t (rank * p.vocabSize + c) *
        p.hidden t κ) (le_cdiv_mul (by decide))]

end Fused

section Epilogues

variable {reduction : Reduction} {undefined : Address → Val} {mem : Memory}
variable {i : ℕ} (run : ProgramOrder p.epilogueGrid)

theorem epilogue_maximum (hi : i < p.numTokens) :
    launch (p.epilogueKernel reduction undefined) run mem (.maximum i) =
      (p.merged .max mem i).max := by
  rw [epilogue_eq_performAll]
  apply p.performAll_row run hi
  · simp only [epilogueKernel, List.mem_append]
    exact .inl (.inl (.inl (.inl (p.store_mem_storeRows hi))))
  · intro pid
    have hself := p.storeRows_only .maximum
      (fun i => (p.merged .max mem i).max) pid
      fun _ => (Address.maximum.inj : _ → _ = i)
    refine (((hself.append (p.storeRows_others ?_)).append
      (p.storeRows_others ?_)).append (p.storeRows_others ?_)).append
        (p.reduceLogprobs_others ?_ ?_)
    all_goals simp

theorem epilogue_accumulate (hi : i < p.numTokens) :
    launch (p.epilogueKernel reduction undefined) run mem (.accumulate i) =
      (p.merged .max mem i).accu := by
  rw [epilogue_eq_performAll]
  apply p.performAll_row run hi
  · simp only [epilogueKernel, List.mem_append]
    exact .inl (.inl (.inr (p.store_mem_storeRows hi)))
  · intro pid
    have hself := p.storeRows_only .accumulate
      (fun i => (p.merged .max mem i).accu) pid
      fun _ => (Address.accumulate.inj : _ → _ = i)
    refine ((((p.storeRows_others ?_).append (p.storeRows_others ?_)).append
      hself).append (p.storeRows_others ?_)).append
        (p.reduceLogprobs_others ?_ ?_)
    all_goals simp

theorem epilogue_entropyB (hi : i < p.numTokens) :
    launch (p.epilogueKernel reduction undefined) run mem (.globalEntropyB i) =
      (p.epilogueResult undefined mem i).entropyB := by
  rw [epilogue_eq_performAll]
  apply p.performAll_row run hi
  · simp only [epilogueKernel, List.mem_append]
    exact .inl (.inl (.inl (.inr (p.store_mem_storeRows hi))))
  · intro pid
    have hself := p.storeRows_only .globalEntropyB
      (fun i => (p.epilogueResult undefined mem i).entropyB) pid
      fun _ => (Address.globalEntropyB.inj : _ → _ = i)
    refine ((((p.storeRows_others ?_).append hself).append
      (p.storeRows_others ?_)).append (p.storeRows_others ?_)).append
        (p.reduceLogprobs_others ?_ ?_)
    all_goals simp

theorem update_entropyB (hi : i < p.numTokens) :
    launch (p.updateKernel reduction undefined) run mem (.globalEntropyB i) =
      (p.updateResult undefined mem i).entropyB := by
  rw [update_eq_performAll]
  apply p.performAll_row run hi
  · simp only [updateKernel, List.mem_append]
    exact .inl (.inl (p.store_mem_storeRows hi))
  · intro pid
    have hself := p.storeRows_only .globalEntropyB
      (fun i => (p.updateResult undefined mem i).entropyB) pid
      fun _ => (Address.globalEntropyB.inj : _ → _ = i)
    refine (hself.append (p.storeRows_others ?_)).append
      (p.reduceLogprobs_others ?_ ?_)
    all_goals simp

/-- The last kernel of a process group leaves the maxima and the weights. -/
theorem update_of_ne {a : Address} (hentropyB : ∀ i', .globalEntropyB i' ≠ a)
    (hentropy : ∀ i', .entropy i' ≠ a) (hscalar : a ≠ .logprobsScalar)
    (hlogprobs : ∀ i', .logprobs i' ≠ a) :
    launch (p.updateKernel reduction undefined) run mem a = mem a := by
  rw [update_eq_performAll]
  apply performAll_of_ne
  intro x hx
  obtain ⟨pid, -, hx⟩ := List.mem_flatMap.mp hx
  simp only [updateKernel, List.mem_append, or_assoc] at hx
  rcases hx with hx | hx | hx
  · exact p.storeRows_ne hx hentropyB
  · exact p.storeRows_ne hx hentropy
  · exact p.reduceLogprobs_ne hscalar hlogprobs hx

end Epilogues

section Forward

variable {reduction : Reduction} {garbage : ℕ → Garbage} {runs : ℕ → p.Runs}
variable {rank i : ℕ}

theorem tokenResult_entropyB {x : ℕ → ℝ} {lo hi : ℕ} {m a b : ℝ}
    (h : Summarizes x lo hi m a b) (hlt : lo < hi) (maximum logprobs : Val) :
    (tokenResult maximum (fin a) (fin b) logprobs).entropyB =
      fin (softmaxMean x lo hi) := by
  rw [tokenResult, fin_div_fin b (h.weight_pos hlt).ne', h.div hlt]

/-- Whatever the memory was and in whatever order the instances ran, the forward
pass of a rank saves a summary of the logits of all ranks. -/
theorem forward_saved (hrank : rank < p.worldSize) :
    p.Saved (p.efficientEntropyForward reduction garbage runs rank) := by
  intro i hi
  have hvocab := p.totalVocab_pos hi
  cases hgroup : p.distProcessGroup with
  | none =>
      have hone : p.worldSize = 1 := by simp [worldSize, hgroup]
      obtain rfl : rank = 0 := by omega
      obtain ⟨m, a, b, hmerged, hsum⟩ :=
        p.afterMainloop_summarizes reduction garbage runs 0 hi
      have hranks := p.summarizes_ranks (i := i) (m := m) (f := fun _ => a)
        (g := fun _ => b) fun q hq => by
          obtain rfl : q = 0 := by omega
          exact hsum
      rw [hone, sum_range_one, sum_range_one] at hranks
      have hmem : p.efficientEntropyForward reduction garbage runs 0 =
          launch (p.epilogueKernel reduction (garbage 0).load)
            (runs 0).epilogue (p.afterMainloop reduction garbage runs 0) := by
        simp only [efficientEntropyForward, hgroup]
      refine ⟨m, a, b, hranks, ?_, ?_, ?_⟩
      · rw [hmem, p.epilogue_maximum _ hi, hmerged]
      · rw [hmem, p.epilogue_accumulate _ hi, hmerged]
      · rw [hmem, p.epilogue_entropyB _ hi, epilogueResult, hmerged]
        exact tokenResult_entropyB hranks hvocab _ _
  | some size =>
      choose m a b hmerged hsum using fun q =>
        p.reduced_summarizes reduction garbage runs q hi
      have hmax : ∀ q, m q = m rank := by
        intro q
        have hq := p.reduced_max reduction garbage runs q rank i
        rw [hmerged q, hmerged rank] at hq
        exact ExtNum.fin.inj hq
      have hranks := p.summarizes_ranks fun q _ => hmax q ▸ hsum q
      have hmem : p.efficientEntropyForward reduction garbage runs rank =
          launch (p.updateKernel reduction (garbage rank).load)
            (runs rank).update (p.mergedRanks reduction garbage runs rank) := by
        simp only [efficientEntropyForward, hgroup]
      have haccumulate :
          p.mergedRanks reduction garbage runs rank (.accumulate i) =
            fin (∑ q ∈ range p.worldSize, a q) := by
        change ∑ q ∈ range p.worldSize, launch _ _ _ _ = _
        rw [← sum_fin]
        refine sum_congr rfl fun q _ => ?_
        rw [p.epilogueTp_accumulate _ hi, hmerged]
      have hentropyB :
          p.mergedRanks reduction garbage runs rank (.globalEntropyB i) =
            fin (∑ q ∈ range p.worldSize, b q) := by
        change ∑ q ∈ range p.worldSize, launch _ _ _ _ = _
        rw [← sum_fin]
        refine sum_congr rfl fun q _ => ?_
        rw [p.epilogueTp_entropyB _ hi, hmerged]
      refine ⟨m rank, _, _, hranks, ?_, ?_, ?_⟩
      · rw [hmem, p.update_of_ne _ (by simp) (by simp) (by simp) (by simp)]
        change launch _ _ _ _ = _
        rw [p.epilogueTp_maximum _ hi, hmerged]
      · rw [hmem, p.update_of_ne _ (by simp) (by simp) (by simp) (by simp)]
        exact haccumulate
      · rw [hmem, p.update_entropyB _ hi, updateResult]
        simp only [loadRow, KernelLaunch.load, hi, decide_true, if_true,
          haccumulate, hentropyB]
        exact tokenResult_entropyB hranks hvocab _ _

end Forward

section Gradient

variable (up : Upstream)

/-- The method that is implemented leaves the gradients, whatever memory was
before and in whatever order its instances ran. -/
theorem backward_isGradient {saved : Memory} (hsaved : p.Saved saved)
    (rank : ℕ) {method : BackwardMethod} (hmethod : method ≠ .splitDlogitsM)
    (runs : p.BackwardRuns) (mem : GradMemory) :
    ∃ mem', p.efficientEntropyBackward saved up rank method runs mem =
      .ok mem' ∧ p.IsGradient up rank mem' := by
  cases method with
  | totalFuseMN => exact ⟨_, rfl, p.fuse_isGradient hsaved _ _⟩
  | totalSeparate => exact ⟨_, rfl, p.separate_isGradient hsaved _⟩
  | splitDlogitsN => exact ⟨_, rfl, p.split_isGradient hsaved _⟩
  | splitDlogitsM => exact absurd rfl hmethod

/-- A loss with the given upstream gradients, on the plain log-probabilities and
entropies. -/
noncomputable def plainLoss : ℝ :=
  (match up.reduction with
    | .none => ∑ t ∈ range p.numTokens, up.dlogprobs t * p.plainLogprob t
    | .sum => up.dlogprobs 0 * ∑ t ∈ range p.numTokens, p.plainLogprob t
    | .mean => up.dlogprobs 0 *
        ((∑ t ∈ range p.numTokens, p.plainLogprob t) / p.numTokens)) +
    ∑ t ∈ range p.numTokens, up.dentropy t * p.plainEntropy t

theorem plainLoss_eq : p.plainLoss up = ∑ t ∈ range p.numTokens,
    (p.upLogprob up t * p.plainLogprob t +
      up.dentropy t * p.plainEntropy t) := by
  rw [plainLoss, sum_add_distrib]
  congr 1
  cases hred : up.reduction with
  | none => simp only [upLogprob, hred]
  | sum => simp only [upLogprob, hred, mul_sum]
  | mean =>
      simp only [upLogprob, hred]
      rw [← mul_sum]
      ring

/-- The problem at another place of a curve. -/
noncomputable def move (curve : LinearCurve (range p.hiddenSize)) (s : ℝ) :
    Problem where
  numTokens := p.numTokens
  hiddenSize := p.hiddenSize
  hiddenSize_dvd := p.hiddenSize_dvd
  vocabSize := p.vocabSize
  distProcessGroup := p.distProcessGroup
  group_pos := p.group_pos
  hidden := curve.hidden s
  weight := curve.weight s
  labels := p.labels
  labels_lt := p.labels_lt
  temperature := p.temperature
  temperature_ne := p.temperature_ne
  useTma := p.useTma

/-- What the ranks return, along a curve: their parts of the gradient of the
hidden states add up, and each has its rows of the weight. -/
noncomputable def along (curve : LinearCurve (range p.hiddenSize)) : ℝ :=
  ∑ rank ∈ range p.worldSize,
    (∑ t ∈ range p.numTokens, ∑ k ∈ range p.hiddenSize,
        p.hiddenGrad up rank p.vocabSize t k * curve.hidden' t k +
      ∑ c ∈ range p.vocabSize, ∑ k ∈ range p.hiddenSize,
        p.weightGrad up rank c k * curve.weight' (rank * p.vocabSize + c) k)

theorem move_logit (curve : LinearCurve (range p.hiddenSize)) (s : ℝ) (t : ℕ) :
    (p.move curve s).logit t = curve.logit (1 / p.temperature) s t :=
  funext fun _ => div_eq_mul_one_div _ _

theorem along_eq (curve : LinearCurve (range p.hiddenSize)) : p.along up curve =
    ∑ t ∈ range p.numTokens, ∑ k ∈ range p.hiddenSize,
        (∑ c ∈ Ico 0 p.totalVocab, p.gradLogit up t c * p.weight c k) *
          curve.hidden' t k +
      ∑ c ∈ Ico 0 p.totalVocab, ∑ k ∈ range p.hiddenSize,
        (∑ t ∈ range p.numTokens, p.gradLogit up t c * p.hidden t k) *
          curve.weight' c k := by
  rw [along, sum_add_distrib, ← range_eq_Ico, totalVocab]
  congr 1
  · rw [sum_comm]
    refine sum_congr rfl fun t _ => ?_
    rw [sum_comm]
    refine sum_congr rfl fun k _ => ?_
    rw [← sum_mul, ← sum_blocks (fun c => p.gradLogit up t c * p.weight c k)]
    rfl
  · rw [← sum_blocks (fun c => ∑ k ∈ range p.hiddenSize,
      (∑ t ∈ range p.numTokens, p.gradLogit up t c * p.hidden t k) *
        curve.weight' c k)]
    rfl

/-- The gradient of the plain loss. -/
theorem hasDerivAt_plainLoss (curve : LinearCurve (range p.hiddenSize))
    (hhidden : curve.hidden 0 = p.hidden)
    (hweight : curve.weight 0 = p.weight) :
    HasDerivAt (fun s => (p.move curve s).plainLoss up) (p.along up curve)
      0 := by
  have hlabels : ∀ t < p.numTokens, p.labels t ∈ Ico 0 p.totalVocab :=
    fun t ht => mem_Ico.mpr ⟨Nat.zero_le _, p.labels_lt t ht⟩
  have hderiv := curve.hasDerivAt_loss (1 / p.temperature) hlabels
    (p.upLogprob up) up.dentropy
  have hmove : p.move curve 0 = p := by rw [move, hhidden, hweight]
  have hlogit : ∀ t, p.logit t = curve.logit (1 / p.temperature) 0 t := by
    intro t
    rw [← p.move_logit, hmove]
  have hloss : (fun s => (p.move curve s).plainLoss up) = fun s =>
      ∑ t ∈ range p.numTokens, (p.upLogprob up t *
          logSoftmax (curve.logit (1 / p.temperature) s t) 0 p.totalVocab
            (p.labels t) +
        up.dentropy t * entropy (curve.logit (1 / p.temperature) s t) 0
          p.totalVocab) := by
    funext s
    rw [plainLoss_eq]
    refine sum_congr rfl fun t _ => ?_
    rw [← p.move_logit]
    rfl
  rw [hloss]
  refine hderiv.congr_deriv ?_
  rw [along_eq, hhidden, hweight]
  simp only [gradLogit, hlogit]

/-- The fused cross entropy, forward and backward: by every method that is
implemented, in every order of the instances of every launch and whatever the
memory was, the ranks return the gradient of the loss on the plain
log-probabilities and entropies. -/
theorem backward_is_plain_gradient
    (garbage : ℕ → Garbage) (runs : ℕ → p.Runs) {method : BackwardMethod}
    (hmethod : method ≠ .splitDlogitsM) (backwardRuns : ℕ → p.BackwardRuns)
    (mem : ℕ → GradMemory) (curve : LinearCurve (range p.hiddenSize))
    (hhidden : curve.hidden 0 = p.hidden)
    (hweight : curve.weight 0 = p.weight) :
    ∃ (grads : ℕ → GradMemory) (dHidden dWeight : ℕ → ℕ → ℕ → ℝ),
      (∀ rank < p.worldSize, p.efficientEntropyBackward
        (p.efficientEntropyForward up.reduction garbage runs rank) up rank
          method (backwardRuns rank) (mem rank) = .ok (grads rank) ∧
        (∀ t < p.numTokens, ∀ k < p.hiddenSize,
          grads rank (.dHidden t k) = fin (dHidden rank t k)) ∧
        ∀ c < p.vocabSize, ∀ k < p.hiddenSize,
          grads rank (.dWeight c k) = fin (dWeight rank c k)) ∧
      HasDerivAt (fun s => (p.move curve s).plainLoss up)
        (∑ rank ∈ range p.worldSize,
          (∑ t ∈ range p.numTokens, ∑ k ∈ range p.hiddenSize,
              dHidden rank t k * curve.hidden' t k +
            ∑ c ∈ range p.vocabSize, ∑ k ∈ range p.hiddenSize,
              dWeight rank c k * curve.weight' (rank * p.vocabSize + c) k))
        0 := by
  have hback : ∀ rank, ∃ mem', rank < p.worldSize →
      p.efficientEntropyBackward
        (p.efficientEntropyForward up.reduction garbage runs rank) up rank
          method (backwardRuns rank) (mem rank) = .ok mem' ∧
        p.IsGradient up rank mem' := by
    intro rank
    by_cases hrank : rank < p.worldSize
    · obtain ⟨mem', hok, hgrad⟩ := p.backward_isGradient up
        (p.forward_saved hrank) rank hmethod (backwardRuns rank) (mem rank)
      exact ⟨mem', fun _ => ⟨hok, hgrad⟩⟩
    · exact ⟨mem rank, fun h => absurd h hrank⟩
  choose grads hgrads using hback
  exact ⟨grads, fun rank => p.hiddenGrad up rank p.vocabSize,
    p.weightGrad up, fun rank hrank => ⟨(hgrads rank hrank).1,
      (hgrads rank hrank).2.hidden, (hgrads rank hrank).2.weight⟩,
    p.hasDerivAt_plainLoss up curve hhidden hweight⟩

end Gradient

end Problem

section TwoRanks

theorem two_ranks_pos : ∀ n ∈ (some 2 : Option ℕ), 0 < n := by simp

theorem label_lt_twoRanks : ∀ t < 1, (fun _ => 4 : ℕ → ℕ) t <
    (some 2 : Option ℕ).getD 1 * 3 :=
  fun _ _ => show 4 < 2 * 3 by decide

/-- One token, whose label is on the second of two ranks. -/
def oneTokenTwoRanks : Problem where
  numTokens := 1
  hiddenSize := 128
  hiddenSize_dvd := twoTokens.hiddenSize_dvd
  vocabSize := 3
  distProcessGroup := some 2
  group_pos := two_ranks_pos
  hidden _ _ := 1
  weight _ _ := 1
  labels _ := 4
  labels_lt := label_lt_twoRanks
  temperature := 1
  temperature_ne := twoTokens.temperature_ne
  useTma := false

/-- Its hidden states growing alike. -/
noncomputable def growingHidden : LinearCurve (range 128) where
  hidden s _ _ := s + 1
  weight _ _ _ := 1
  hidden' _ _ := 1
  weight' _ _ := 0
  at_hidden _ _ _ := (hasDerivAt_id (0 : ℝ)).add_const 1
  at_weight _ _ _ := hasDerivAt_const (0 : ℝ) 1

theorem backward_is_plain_gradient_oneTokenTwoRanks :
    ∃ (grads : ℕ → GradMemory) (dHidden dWeight : ℕ → ℕ → ℕ → ℝ),
      (∀ rank < 2, ∀ k < 128,
        grads rank (.dHidden 0 k) = fin (dHidden rank 0 k)) ∧
      HasDerivAt
        (fun s => (oneTokenTwoRanks.move growingHidden s).plainLoss
          ⟨.mean, fun _ => 1, fun _ => 1⟩)
        (∑ rank ∈ range 2,
          (∑ t ∈ range 1, ∑ k ∈ range 128, dHidden rank t k * 1 +
            ∑ c ∈ range 3, ∑ k ∈ range 128, dWeight rank c k * 0)) 0 := by
  obtain ⟨grads, dHidden, dWeight, hback, hderiv⟩ :=
    oneTokenTwoRanks.backward_is_plain_gradient ⟨.mean, fun _ => 1, fun _ => 1⟩
      (fun _ => ⟨fun _ => nan, fun _ _ => 0, fun _ => nan⟩)
      (fun _ => ⟨.ascending _, .ascending _, .ascending _⟩)
      (show BackwardMethod.splitDlogitsN ≠ .splitDlogitsM by decide)
      (fun _ => ⟨.ascending _, .ascending _, fun _ => .ascending _⟩)
      (fun _ _ => nan) growingHidden
      (funext fun _ => funext fun _ => zero_add 1) rfl
  exact ⟨grads, dHidden, dWeight, fun rank hrank k hk =>
    (hback rank hrank).2.1 0 Nat.zero_lt_one k hk, hderiv⟩

end TwoRanks

end SelfDistillation.FusedEntropy
