/-
`efficient_entropy_triton_kernel_epilogue`,
`efficient_entropy_triton_kernel_epilogue_tp` and
`efficient_entropy_triton_epilogue_tp_update` (verl/utils/kernel/kernels.py):
the splits of a rank are merged, and the results of the tokens are made of it.
-/
import SelfDistillation.EntropyMainloop

namespace SelfDistillation.FusedEntropy

open ExtNum KernelLaunch OnlineSoftmax Finset

def epilogueBlockM : ℕ := 16

def epilogueBlockN : ℕ := 64

section Merge

/-- `global_max`, `global_accu` and `global_entropy_b` of one token. -/
structure Merged where
  max : Val
  accu : Val
  entropyB : Val

variable (reducedMax originalMax accu entropyB : ℕ → Val)

/-- One pass of the loop over the splits, for the loaded values of a token. -/
noncomputable def mergeStep (pidN : ℕ) (s : Merged) : Merged :=
  let offsN := fun j => pidN * epilogueBlockN + j
  let localMax := maxOver (fun j => reducedMax (offsN j)) epilogueBlockN
  let globalMax := max s.max localMax
  let coeff := exp (s.max - globalMax)
  let scale := fun j => exp (originalMax (offsN j) - globalMax)
  { max := globalMax
    accu := coeff * s.accu +
      ∑ j ∈ range epilogueBlockN, scale j * accu (offsN j)
    entropyB := coeff * s.entropyB +
      ∑ j ∈ range epilogueBlockN, scale j * entropyB (offsN j) }

/-- The loop over the splits. -/
noncomputable def mergeSplits (numSplits : ℕ) : Merged :=
  forRange (cdiv numSplits epilogueBlockN) ⟨0, 0, 0⟩
    (mergeStep reducedMax originalMax accu entropyB)

/-- The maximum depends on the reduced maxima alone. -/
theorem mergeSplits_max (originalMax' accu' entropyB' : ℕ → Val)
    (numSplits : ℕ) :
    (mergeSplits reducedMax originalMax accu entropyB numSplits).max =
      (mergeSplits reducedMax originalMax' accu' entropyB' numSplits).max := by
  unfold mergeSplits
  induction cdiv numSplits epilogueBlockN with
  | zero => rfl
  | succ n ih => simp only [forRange, mergeStep, ih]

variable {reducedMax originalMax accu entropyB}

/-- What the splits of a token are when the merging loads them: `stop` pieces
of a row, and zeros past them. -/
structure Splits (x : ℕ → ℝ) (place : ℕ → ℕ) (stop : ℕ)
    (reducedMax originalMax accu entropyB : ℕ → Val) : Prop where
  mono : Monotone place
  reduced : ∀ n, ∃ m, reducedMax n = fin m
  inside : ∀ n < stop, ∃ m a b, originalMax n = fin m ∧ accu n = fin a ∧
    entropyB n = fin b ∧ Summarizes x (place n) (place (n + 1)) m a b
  outside : ∀ n, stop ≤ n →
    originalMax n = fin 0 ∧ accu n = fin 0 ∧ entropyB n = fin 0

variable {x : ℕ → ℝ} {place : ℕ → ℕ} {stop : ℕ}

/-- The splits relative to one maximum. -/
theorem Splits.rescaled
    (h : Splits x place stop reducedMax originalMax accu entropyB) (m : ℝ) :
    ∃ f g : ℕ → ℝ,
      (∀ n, exp (originalMax n - fin m) * accu n =
        if n < stop then fin (f n) else 0) ∧
      (∀ n, exp (originalMax n - fin m) * entropyB n =
        if n < stop then fin (g n) else 0) ∧
      ∀ n < stop, Summarizes x (place n) (place (n + 1)) m (f n) (g n) := by
  have hsplit : ∀ n, ∃ a b : ℝ,
      exp (originalMax n - fin m) * accu n =
        (if n < stop then fin a else 0) ∧
      exp (originalMax n - fin m) * entropyB n =
        (if n < stop then fin b else 0) ∧
      (n < stop → Summarizes x (place n) (place (n + 1)) m a b) := by
    intro n
    by_cases hn : n < stop
    · obtain ⟨m', a, b, hmax, haccu, hentropy, hsum⟩ := h.inside n hn
      refine ⟨_, _, ?_, ?_, fun _ => hsum.rescale m⟩
      · rw [if_pos hn, hmax, haccu]
        simp
      · rw [if_pos hn, hmax, hentropy]
        simp
    · obtain ⟨hmax, haccu, hentropy⟩ := h.outside n (Nat.not_lt.mp hn)
      refine ⟨0, 0, ?_, ?_, fun hlt => absurd hlt hn⟩
      · rw [if_neg hn, hmax, haccu]
        simp [zero_def]
      · rw [if_neg hn, hmax, hentropy]
        simp [zero_def]
  choose f g hf hg hsum using hsplit
  exact ⟨f, g, hf, hg, hsum⟩

/-- What the loop carries after `k` blocks of splits. -/
def MergedUpTo (x : ℕ → ℝ) (place : ℕ → ℕ) (stop k : ℕ) (s : Merged) : Prop :=
  ∃ m a b, s = ⟨fin m, fin a, fin b⟩ ∧
    Summarizes x (place 0) (place (min (k * epilogueBlockN) stop)) m a b

theorem MergedUpTo.step {k : ℕ} {s : Merged}
    (h : Splits x place stop reducedMax originalMax accu entropyB)
    (hs : MergedUpTo x place stop k s) :
    MergedUpTo x place stop (k + 1)
      (mergeStep reducedMax originalMax accu entropyB k s) := by
  obtain ⟨m, a, b, rfl, hsum⟩ := hs
  obtain ⟨m₀, hm₀⟩ := h.reduced (k * epilogueBlockN + 0)
  obtain ⟨m₁, hm₁⟩ := maxOver_eq_fin (n := epilogueBlockN) (j := 0)
    (f := fun j => reducedMax (k * epilogueBlockN + j))
    (fun j _ => .inr (h.reduced _)) (by decide) hm₀
  obtain ⟨f, g, hf, hg, hpiece⟩ := h.rescaled (max m m₁)
  have hle : min (k * epilogueBlockN) stop ≤
      min (k * epilogueBlockN + epilogueBlockN) stop :=
    min_le_min_right _ (Nat.le_add_right _ _)
  have hblock := Summarizes.family (m := max m m₁) h.mono hle
    fun n _ hn => hpiece n (hn.trans_le (min_le_right _ _))
  have happend := (hsum.rescale (max m m₁)).append hblock
    (h.mono (Nat.zero_le _)) (h.mono hle)
  refine ⟨_, _, _, ?_, by rw [Nat.succ_mul]; exact happend⟩
  simp only [mergeStep, hm₁, max_fin_fin, hf, hg, fin_sub_fin, exp_fin,
    fin_mul_fin]
  rw [sum_masked (fun n => fin (f n)), sum_masked (fun n => fin (g n)), sum_fin,
    sum_fin, fin_add_fin, fin_add_fin]

/-- The merging of all splits of a token. -/
theorem mergeSplits_summarizes
    (h : Splits x place stop reducedMax originalMax accu entropyB) :
    ∃ m a b, mergeSplits reducedMax originalMax accu entropyB stop =
        ⟨fin m, fin a, fin b⟩ ∧
      Summarizes x (place 0) (place stop) m a b := by
  have hloop := forRange_invariant (MergedUpTo x place stop)
    ⟨0, 0, 0, rfl, by simpa using Summarizes.empty x (place 0) 0⟩
    (fun k (_ : k < cdiv stop epilogueBlockN) s hs => hs.step h)
  have hend : min (cdiv stop epilogueBlockN * epilogueBlockN) stop = stop := by
    apply min_eq_right
    by_contra hlt
    exact absurd ((lt_cdiv (by decide)).mpr (Nat.not_le.mp hlt))
      (lt_irrefl _)
  rw [MergedUpTo, hend] at hloop
  exact hloop

end Merge

section Result

/-- What the epilogue makes of a token. -/
structure TokenResult where
  entropyB : Val
  entropy : Val
  logprobs : Val

noncomputable def tokenResult (maximum accumulate entropyB logprobs : Val) :
    TokenResult :=
  let entropyB := entropyB / accumulate
  { entropyB := entropyB
    entropy := log accumulate + maximum - entropyB
    logprobs := fin (-1) * (maximum + log accumulate - logprobs) }

variable {x : ℕ → ℝ} {lo hi : ℕ} {m a b : ℝ}

theorem tokenResult_entropy (h : Summarizes x lo hi m a b) (hlt : lo < hi)
    (logprobs : Val) :
    (tokenResult (fin m) (fin a) (fin b) logprobs).entropy =
      fin (logSumExp x lo hi - softmaxMean x lo hi) := by
  have ha := h.weight_pos hlt
  rw [← h.add_log hlt, ← h.div hlt]
  simp only [tokenResult, log_fin ha, fin_div_fin b ha.ne', fin_add_fin,
    fin_sub_fin, add_comm]

theorem tokenResult_logprobs (h : Summarizes x lo hi m a b) (hlt : lo < hi)
    (logit : ℝ) :
    (tokenResult (fin m) (fin a) (fin b) (fin logit)).logprobs =
      fin (logit - logSumExp x lo hi) := by
  have ha := h.weight_pos hlt
  rw [← h.add_log hlt]
  simp only [tokenResult, log_fin ha, fin_add_fin, fin_sub_fin, fin_mul_fin]
  congr 1
  ring

/-- A row whose label logit is no number has no result that is one. -/
theorem tokenResult_ne_fin (maximum accumulate entropyB : Val) {logprobs : Val}
    (h : ∀ c, logprobs ≠ fin c) (c : ℝ) :
    (tokenResult maximum accumulate entropyB logprobs).logprobs ≠ fin c := by
  apply mul_ne_fin (neg_ne_zero.mpr one_ne_zero)
  rw [ExtNum.sub_def, add_comm]
  apply add_ne_fin
  intro d hd
  cases logprobs with
  | fin x => exact h x rfl
  | inf s => cases hd
  | nan => cases hd

end Result

namespace Problem

variable (p : Problem)

/-- `epilogue_grid` -/
def epilogueGrid : ℕ := cdiv p.numTokens epilogueBlockM

section Rows

/-- The stores of one value for each token of the instance. -/
def storeRows (pid : ℕ) (ptr : ℕ → Address) (values : ℕ → Val) :
    List (Access Address Val) :=
  storeLanes epilogueBlockM (fun j => ptr (pid * epilogueBlockM + j))
    (fun j => values (pid * epilogueBlockM + j))
    fun j => decide (pid * epilogueBlockM + j < p.numTokens)

/-- The last step of both epilogues. -/
noncomputable def reduceLogprobs (reduction : Reduction) (pid : ℕ)
    (logprobs : ℕ → Val) : List (Access Address Val) :=
  let total := ∑ j ∈ range epilogueBlockM,
    logprobs (pid * epilogueBlockM + j)
  match reduction with
  | .none => p.storeRows pid .logprobs logprobs
  | .sum => [.atomicAdd .logprobsScalar total]
  | .mean => [.atomicAdd .logprobsScalar (total / fin (p.numTokens : ℝ))]

variable {ptr : ℕ → Address} {values : ℕ → Val} {pid : ℕ}
variable {x : Access Address Val}

theorem row_div {j : ℕ} (hj : j < epilogueBlockM) :
    (pid * epilogueBlockM + j) / epilogueBlockM = pid := by
  rw [Nat.mul_comm, Nat.mul_add_div (by decide), Nat.div_eq_of_lt hj,
    Nat.add_zero]

theorem mem_storeRows : x ∈ p.storeRows pid ptr values ↔
    ∃ i < p.numTokens, i / epilogueBlockM = pid ∧
      x = .store (ptr i) (values i) := by
  simp only [storeRows, mem_storeLanes, decide_eq_true_eq]
  constructor
  · rintro ⟨j, hj, hi, rfl⟩
    exact ⟨_, hi, row_div hj, rfl⟩
  · rintro ⟨i, hi, rfl, rfl⟩
    refine ⟨i % epilogueBlockM, Nat.mod_lt _ (by decide), ?_⟩
    rw [Nat.div_add_mod']
    exact ⟨hi, rfl⟩

theorem div_lt_epilogueGrid {i : ℕ} (hi : i < p.numTokens) :
    i / epilogueBlockM < p.epilogueGrid :=
  (lt_cdiv (by decide)).mpr ((Nat.div_mul_le_self _ _).trans_lt hi)

theorem storeRows_congr {values' : ℕ → Val}
    (h : ∀ i, i / epilogueBlockM = pid → values i = values' i) :
    p.storeRows pid ptr values = p.storeRows pid ptr values' := by
  apply List.map_congr_left
  intro j hj
  dsimp only
  rw [h _ (row_div (List.mem_range.mp (List.mem_of_mem_filter hj)))]

theorem reduceLogprobs_congr {reduction : Reduction} {values' : ℕ → Val}
    (h : ∀ i, i / epilogueBlockM = pid → values i = values' i) :
    p.reduceLogprobs reduction pid values =
      p.reduceLogprobs reduction pid values' := by
  have htotal : ∑ j ∈ range epilogueBlockM,
      values (pid * epilogueBlockM + j) =
        ∑ j ∈ range epilogueBlockM, values' (pid * epilogueBlockM + j) :=
    sum_congr rfl fun j hj => h _ (row_div (mem_range.mp hj))
  cases reduction with
  | none => exact p.storeRows_congr h
  | sum => simp only [reduceLogprobs, htotal]
  | mean => simp only [reduceLogprobs, htotal]

end Rows

section Kernels

variable (reduction : Reduction) (undefined : Address → Val)

/-- A value of a token that is loaded without a default. -/
def loadRow (mem : Memory) (ptr : ℕ → Address) (i : ℕ) : Val :=
  load mem (ptr i) (decide (i < p.numTokens)) (undefined (ptr i))

/-- A value of a token and a split. -/
def loadSplit (mem : Memory) (ptr : ℕ → ℕ → Address) (i n : ℕ) : Val :=
  load mem (ptr i n) (decide (i < p.numTokens ∧ n < p.numSplits)) 0

noncomputable def merged (originalMax : ℕ → ℕ → Address) (mem : Memory)
    (i : ℕ) : Merged :=
  mergeSplits (p.loadSplit mem .max i) (p.loadSplit mem originalMax i)
    (p.loadSplit mem .accu i) (p.loadSplit mem .entropyB i) p.numSplits

noncomputable def epilogueResult (mem : Memory) (i : ℕ) : TokenResult :=
  let merged := p.merged .max mem i
  tokenResult merged.max merged.accu merged.entropyB
    (p.loadRow undefined mem .logprobs i)

/-- `efficient_entropy_triton_kernel_epilogue` -/
noncomputable def epilogueKernel : Kernel Address Val := fun pid mem =>
  let merged := p.merged .max mem
  let result := p.epilogueResult undefined mem
  p.storeRows pid .maximum (fun i => (merged i).max) ++
    p.storeRows pid .globalEntropyB (fun i => (result i).entropyB) ++
    p.storeRows pid .accumulate (fun i => (merged i).accu) ++
    p.storeRows pid .entropy (fun i => (result i).entropy) ++
    p.reduceLogprobs reduction pid fun i => (result i).logprobs

/-- `efficient_entropy_triton_kernel_epilogue_tp` -/
noncomputable def epilogueTpKernel : Kernel Address Val := fun pid mem =>
  let merged := p.merged .maxBackup mem
  p.storeRows pid .maximum (fun i => (merged i).max) ++
    p.storeRows pid .accumulate (fun i => (merged i).accu) ++
    p.storeRows pid .globalEntropyB fun i => (merged i).entropyB

noncomputable def updateResult (mem : Memory) (i : ℕ) : TokenResult :=
  tokenResult (p.loadRow undefined mem .maximum i)
    (p.loadRow undefined mem .accumulate i)
    (p.loadRow undefined mem .globalEntropyB i)
    (p.loadRow undefined mem .logprobs i)

/-- `efficient_entropy_triton_epilogue_tp_update` -/
noncomputable def updateKernel : Kernel Address Val := fun pid mem =>
  let result := p.updateResult undefined mem
  p.storeRows pid .globalEntropyB (fun i => (result i).entropyB) ++
    p.storeRows pid .entropy (fun i => (result i).entropy) ++
    p.reduceLogprobs reduction pid fun i => (result i).logprobs

end Kernels

section Order

/-- The instance that has the token of an address. -/
def owner (a : Address) : Option ℕ := a.token.map (· / epilogueBlockM)

variable {mem mem' : Memory} {pid i : ℕ}
  (h : ∀ a, owner a = some pid → mem a = mem' a)
  (hi : i / epilogueBlockM = pid)

include h hi

theorem loadRow_congr {undefined : Address → Val} {ptr : ℕ → Address}
    (hptr : (ptr i).token = some i) :
    p.loadRow undefined mem ptr i = p.loadRow undefined mem' ptr i := by
  rw [loadRow, loadRow, load, load, h (ptr i) (by simp [owner, hptr, hi])]

theorem loadSplit_congr {ptr : ℕ → ℕ → Address}
    (hptr : ∀ n, (ptr i n).token = some i) :
    p.loadSplit mem ptr i = p.loadSplit mem' ptr i := by
  funext n
  rw [loadSplit, loadSplit, load, load,
    h (ptr i n) (by simp [owner, hptr n, hi])]

theorem merged_congr {originalMax : ℕ → ℕ → Address}
    (hptr : ∀ n, (originalMax i n).token = some i) :
    p.merged originalMax mem i = p.merged originalMax mem' i := by
  have hload : ∀ ptr : ℕ → ℕ → Address, (∀ n, (ptr i n).token = some i) →
      p.loadSplit mem ptr i = p.loadSplit mem' ptr i :=
    fun _ => p.loadSplit_congr h hi
  rw [merged, merged, hload .max fun _ => rfl, hload originalMax hptr,
    hload .accu fun _ => rfl, hload .entropyB fun _ => rfl]

theorem epilogueResult_congr {undefined : Address → Val} :
    p.epilogueResult undefined mem i = p.epilogueResult undefined mem' i := by
  rw [epilogueResult, epilogueResult, p.merged_congr h hi fun _ => rfl,
    p.loadRow_congr h hi rfl]

theorem updateResult_congr {undefined : Address → Val} :
    p.updateResult undefined mem i = p.updateResult undefined mem' i := by
  rw [updateResult, updateResult, p.loadRow_congr h hi rfl,
    p.loadRow_congr h hi rfl, p.loadRow_congr h hi rfl,
    p.loadRow_congr h hi rfl]

end Order

section Launch

variable {reduction : Reduction} {undefined : Address → Val}
variable {mem : Memory} {pid q i : ℕ} {x : Access Address Val}
variable {ptr : ℕ → Address} {values logprobs : ℕ → Val}

theorem owner_of_mem_storeRows (hptr : ∀ i, (ptr i).token = some i)
    (hx : x ∈ p.storeRows pid ptr values) (hq : owner x.address = some q) :
    q = pid := by
  obtain ⟨i, -, hi, rfl⟩ := p.mem_storeRows.mp hx
  rw [Access.address_store, owner, hptr i, Option.map_some, hi] at hq
  exact (Option.some.inj hq).symm

/-- The last step stores at tokens without a reduction, and adds to the scalar
with one. -/
theorem mem_reduceLogprobs (hx : x ∈ p.reduceLogprobs reduction pid logprobs) :
    (reduction = .none ∧ x ∈ p.storeRows pid .logprobs logprobs) ∨
      ∃ v, x = .atomicAdd .logprobsScalar v := by
  cases reduction with
  | none => exact .inl ⟨rfl, hx⟩
  | sum => exact .inr ⟨_, List.mem_singleton.mp hx⟩
  | mean => exact .inr ⟨_, List.mem_singleton.mp hx⟩

theorem owner_of_mem_reduceLogprobs
    (hx : x ∈ p.reduceLogprobs reduction pid logprobs)
    (hq : owner x.address = some q) : q = pid := by
  rcases p.mem_reduceLogprobs hx with ⟨-, hx⟩ | ⟨v, rfl⟩
  · exact p.owner_of_mem_storeRows (fun _ => rfl) hx hq
  · cases hq

variable (run : ProgramOrder p.epilogueGrid)

theorem epilogue_eq_performAll :
    launch (p.epilogueKernel reduction undefined) run mem =
      performAll mem (run.order.flatMap fun pid =>
        p.epilogueKernel reduction undefined pid mem) := by
  apply launch_eq_performAll owner
  · intro pid mem mem' h
    have hmerged : ∀ i, i / epilogueBlockM = pid →
        p.merged .max mem i = p.merged .max mem' i := fun i hi =>
      p.merged_congr h hi fun _ => rfl
    have hresult : ∀ i, i / epilogueBlockM = pid →
        p.epilogueResult undefined mem i = p.epilogueResult undefined mem' i :=
      fun i hi => p.epilogueResult_congr h hi
    simp only [epilogueKernel]
    rw [p.storeRows_congr fun i hi => congrArg Merged.max (hmerged i hi),
      p.storeRows_congr fun i hi => congrArg Merged.accu (hmerged i hi),
      p.storeRows_congr fun i hi =>
        congrArg TokenResult.entropyB (hresult i hi),
      p.storeRows_congr fun i hi =>
        congrArg TokenResult.entropy (hresult i hi),
      p.reduceLogprobs_congr fun i hi =>
        congrArg TokenResult.logprobs (hresult i hi)]
  · intro pid mem x hx q hq
    simp only [epilogueKernel, List.mem_append, or_assoc] at hx
    rcases hx with hx | hx | hx | hx | hx
    · exact p.owner_of_mem_storeRows (fun _ => rfl) hx hq
    · exact p.owner_of_mem_storeRows (fun _ => rfl) hx hq
    · exact p.owner_of_mem_storeRows (fun _ => rfl) hx hq
    · exact p.owner_of_mem_storeRows (fun _ => rfl) hx hq
    · exact p.owner_of_mem_reduceLogprobs hx hq

theorem epilogueTp_eq_performAll :
    launch p.epilogueTpKernel run mem =
      performAll mem (run.order.flatMap fun pid =>
        p.epilogueTpKernel pid mem) := by
  apply launch_eq_performAll owner
  · intro pid mem mem' h
    have hmerged : ∀ i, i / epilogueBlockM = pid →
        p.merged .maxBackup mem i = p.merged .maxBackup mem' i := fun i hi =>
      p.merged_congr h hi fun _ => rfl
    simp only [epilogueTpKernel]
    rw [p.storeRows_congr fun i hi => congrArg Merged.max (hmerged i hi),
      p.storeRows_congr fun i hi => congrArg Merged.accu (hmerged i hi),
      p.storeRows_congr fun i hi => congrArg Merged.entropyB (hmerged i hi)]
  · intro pid mem x hx q hq
    simp only [epilogueTpKernel, List.mem_append, or_assoc] at hx
    rcases hx with hx | hx | hx
    · exact p.owner_of_mem_storeRows (fun _ => rfl) hx hq
    · exact p.owner_of_mem_storeRows (fun _ => rfl) hx hq
    · exact p.owner_of_mem_storeRows (fun _ => rfl) hx hq

theorem update_eq_performAll :
    launch (p.updateKernel reduction undefined) run mem =
      performAll mem (run.order.flatMap fun pid =>
        p.updateKernel reduction undefined pid mem) := by
  apply launch_eq_performAll owner
  · intro pid mem mem' h
    have hresult : ∀ i, i / epilogueBlockM = pid →
        p.updateResult undefined mem i = p.updateResult undefined mem' i :=
      fun i hi => p.updateResult_congr h hi
    simp only [updateKernel]
    rw [p.storeRows_congr fun i hi =>
        congrArg TokenResult.entropyB (hresult i hi),
      p.storeRows_congr fun i hi =>
        congrArg TokenResult.entropy (hresult i hi),
      p.reduceLogprobs_congr fun i hi =>
        congrArg TokenResult.logprobs (hresult i hi)]
  · intro pid mem x hx q hq
    simp only [updateKernel, List.mem_append, or_assoc] at hx
    rcases hx with hx | hx | hx
    · exact p.owner_of_mem_storeRows (fun _ => rfl) hx hq
    · exact p.owner_of_mem_storeRows (fun _ => rfl) hx hq
    · exact p.owner_of_mem_reduceLogprobs hx hq

section Results

variable {a : Address} {v : Val}

theorem store_mem_storeRows (hi : i < p.numTokens) :
    .store (ptr i) (values i) ∈
      p.storeRows (i / epilogueBlockM) ptr values :=
  p.mem_storeRows.mpr ⟨i, hi, rfl, rfl⟩

theorem storeRows_only (ptr : ℕ → Address) (values : ℕ → Val) (pid : ℕ)
    (hptr : ∀ i', ptr i' = ptr i → i' = i) :
    StoresOnly (ptr i) (values i) (p.storeRows pid ptr values) := by
  intro x hx ha
  obtain ⟨i', -, -, rfl⟩ := p.mem_storeRows.mp hx
  rw [hptr i' ha]

theorem storeRows_ne (hx : x ∈ p.storeRows pid ptr values)
    (hptr : ∀ i', ptr i' ≠ a) : x.address ≠ a := by
  obtain ⟨i', -, -, rfl⟩ := p.mem_storeRows.mp hx
  exact hptr i'

theorem reduceLogprobs_ne (hscalar : a ≠ .logprobsScalar)
    (hlogprobs : ∀ i', .logprobs i' ≠ a)
    (hx : x ∈ p.reduceLogprobs reduction pid logprobs) : x.address ≠ a := by
  rcases p.mem_reduceLogprobs hx with ⟨-, hx⟩ | ⟨w, rfl⟩
  · exact p.storeRows_ne hx hlogprobs
  · exact hscalar.symm

/-- A value that one instance of a launch stores at a token. -/
theorem performAll_row {accesses : ℕ → List (Access Address Val)}
    (hi : i < p.numTokens)
    (hmem : .store a v ∈ accesses (i / epilogueBlockM))
    (honly : ∀ pid, StoresOnly a v (accesses pid)) :
    performAll mem (run.order.flatMap accesses) a = v := by
  apply performAll_of_stores
  · intro x hx ha
    obtain ⟨pid, -, hx⟩ := List.mem_flatMap.mp hx
    exact honly pid x hx ha
  · have hpid := run.mem_iff.mpr (p.div_lt_epilogueGrid hi)
    exact .inr (List.mem_flatMap.mpr ⟨_, hpid, hmem⟩)

theorem storeRows_others (hptr : ∀ i', ptr i' ≠ a) :
    StoresOnly a v (p.storeRows pid ptr values) :=
  .of_ne fun _ hx => p.storeRows_ne hx hptr

theorem reduceLogprobs_others (hscalar : a ≠ .logprobsScalar)
    (hlogprobs : ∀ i', .logprobs i' ≠ a) :
    StoresOnly a v (p.reduceLogprobs reduction pid logprobs) :=
  .of_ne fun _ => p.reduceLogprobs_ne hscalar hlogprobs

theorem epilogue_entropy (hi : i < p.numTokens) :
    launch (p.epilogueKernel reduction undefined) run mem (.entropy i) =
      (p.epilogueResult undefined mem i).entropy := by
  rw [epilogue_eq_performAll]
  apply p.performAll_row run hi
  · simp only [epilogueKernel, List.mem_append]
    exact .inl (.inr (p.store_mem_storeRows hi))
  · intro pid
    have hself := p.storeRows_only .entropy
      (fun i => (p.epilogueResult undefined mem i).entropy) pid
      fun _ => (Address.entropy.inj : _ → _ = i)
    refine ((((p.storeRows_others ?_).append (p.storeRows_others ?_)).append
      (p.storeRows_others ?_)).append hself).append
        (p.reduceLogprobs_others ?_ ?_)
    all_goals nofun

theorem epilogue_logprobs (hi : i < p.numTokens) :
    launch (p.epilogueKernel .none undefined) run mem (.logprobs i) =
      (p.epilogueResult undefined mem i).logprobs := by
  rw [epilogue_eq_performAll]
  apply p.performAll_row run hi
  · simp only [epilogueKernel, reduceLogprobs, List.mem_append]
    exact .inr (p.store_mem_storeRows hi)
  · intro pid
    have hself := p.storeRows_only .logprobs
      (fun i => (p.epilogueResult undefined mem i).logprobs) pid
      fun _ => (Address.logprobs.inj : _ → _ = i)
    refine ((((p.storeRows_others ?_).append (p.storeRows_others ?_)).append
      (p.storeRows_others ?_)).append (p.storeRows_others ?_)).append hself
    all_goals nofun

theorem epilogueTp_maximum (hi : i < p.numTokens) :
    launch p.epilogueTpKernel run mem (.maximum i) =
      (p.merged .maxBackup mem i).max := by
  rw [epilogueTp_eq_performAll]
  apply p.performAll_row run hi
  · simp only [epilogueTpKernel, List.mem_append]
    exact .inl (.inl (p.store_mem_storeRows hi))
  · intro pid
    have hself := p.storeRows_only .maximum
      (fun i => (p.merged .maxBackup mem i).max) pid
      fun _ => (Address.maximum.inj : _ → _ = i)
    refine (hself.append (p.storeRows_others ?_)).append
      (p.storeRows_others ?_)
    all_goals nofun

theorem epilogueTp_accumulate (hi : i < p.numTokens) :
    launch p.epilogueTpKernel run mem (.accumulate i) =
      (p.merged .maxBackup mem i).accu := by
  rw [epilogueTp_eq_performAll]
  apply p.performAll_row run hi
  · simp only [epilogueTpKernel, List.mem_append]
    exact .inl (.inr (p.store_mem_storeRows hi))
  · intro pid
    have hself := p.storeRows_only .accumulate
      (fun i => (p.merged .maxBackup mem i).accu) pid
      fun _ => (Address.accumulate.inj : _ → _ = i)
    refine ((p.storeRows_others ?_).append hself).append
      (p.storeRows_others ?_)
    all_goals nofun

theorem epilogueTp_entropyB (hi : i < p.numTokens) :
    launch p.epilogueTpKernel run mem (.globalEntropyB i) =
      (p.merged .maxBackup mem i).entropyB := by
  rw [epilogueTp_eq_performAll]
  apply p.performAll_row run hi
  · simp only [epilogueTpKernel, List.mem_append]
    exact .inr (p.store_mem_storeRows hi)
  · intro pid
    have hself := p.storeRows_only .globalEntropyB
      (fun i => (p.merged .maxBackup mem i).entropyB) pid
      fun _ => (Address.globalEntropyB.inj : _ → _ = i)
    refine ((p.storeRows_others ?_).append (p.storeRows_others ?_)).append hself
    all_goals nofun

/-- The merging between the ranks leaves the label logits and the scalar. -/
theorem epilogueTp_of_ne (hmaximum : ∀ i', .maximum i' ≠ a)
    (haccumulate : ∀ i', .accumulate i' ≠ a)
    (hentropyB : ∀ i', .globalEntropyB i' ≠ a) :
    launch p.epilogueTpKernel run mem a = mem a := by
  rw [epilogueTp_eq_performAll]
  apply performAll_of_ne
  intro x hx
  obtain ⟨pid, -, hx⟩ := List.mem_flatMap.mp hx
  simp only [epilogueTpKernel, List.mem_append, or_assoc] at hx
  rcases hx with hx | hx | hx
  · exact p.storeRows_ne hx hmaximum
  · exact p.storeRows_ne hx haccumulate
  · exact p.storeRows_ne hx hentropyB

theorem update_entropy (hi : i < p.numTokens) :
    launch (p.updateKernel reduction undefined) run mem (.entropy i) =
      (p.updateResult undefined mem i).entropy := by
  rw [update_eq_performAll]
  apply p.performAll_row run hi
  · simp only [updateKernel, List.mem_append]
    exact .inl (.inr (p.store_mem_storeRows hi))
  · intro pid
    have hself := p.storeRows_only .entropy
      (fun i => (p.updateResult undefined mem i).entropy) pid
      fun _ => (Address.entropy.inj : _ → _ = i)
    refine ((p.storeRows_others ?_).append hself).append
      (p.reduceLogprobs_others ?_ ?_)
    all_goals nofun

theorem update_logprobs (hi : i < p.numTokens) :
    launch (p.updateKernel .none undefined) run mem (.logprobs i) =
      (p.updateResult undefined mem i).logprobs := by
  rw [update_eq_performAll]
  apply p.performAll_row run hi
  · simp only [updateKernel, reduceLogprobs, List.mem_append]
    exact .inr (p.store_mem_storeRows hi)
  · intro pid
    have hself := p.storeRows_only .logprobs
      (fun i => (p.updateResult undefined mem i).logprobs) pid
      fun _ => (Address.logprobs.inj : _ → _ = i)
    refine ((p.storeRows_others ?_).append (p.storeRows_others ?_)).append hself
    all_goals nofun

end Results

section Scalar

/-- What an instance adds to the scalar. -/
noncomputable def blockValue (reduction : Reduction) (logprobs : ℕ → Val)
    (pid : ℕ) : Val :=
  let total := ∑ j ∈ range epilogueBlockM,
    logprobs (pid * epilogueBlockM + j)
  match reduction with
  | .none => 0
  | .sum => total
  | .mean => total / fin (p.numTokens : ℝ)

theorem sum_added_reduceLogprobs :
    ((p.reduceLogprobs reduction pid logprobs).map
      (added .logprobsScalar)).sum = p.blockValue reduction logprobs pid := by
  cases reduction with
  | none => exact sum_added_of_ne fun _ hx => p.storeRows_ne hx nofun
  | sum => simp [reduceLogprobs, added, blockValue]
  | mean => simp [reduceLogprobs, added, blockValue]

/-- The scalar after instances that end with `reduceLogprobs`. -/
theorem performAll_scalar {rows : ℕ → List (Access Address Val)}
    (hrows : ∀ pid, ∀ x ∈ rows pid, x.address ≠ .logprobsScalar) :
    performAll mem (run.order.flatMap fun pid =>
        rows pid ++ p.reduceLogprobs reduction pid logprobs) .logprobsScalar =
      mem .logprobsScalar +
        ∑ pid ∈ range p.epilogueGrid, p.blockValue reduction logprobs pid := by
  rw [performAll_of_adds, sum_added_flatMap, run.sum_map]
  · congr 1
    refine sum_congr rfl fun pid _ => ?_
    rw [List.map_append, List.sum_append, sum_added_of_ne (hrows pid), zero_add,
      sum_added_reduceLogprobs]
  · intro x hx ha
    obtain ⟨pid, -, hx⟩ := List.mem_flatMap.mp hx
    rcases List.mem_append.mp hx with hx | hx
    · exact absurd ha (hrows pid x hx)
    · rcases p.mem_reduceLogprobs hx with ⟨-, hx⟩ | hadd
      · exact absurd ha (p.storeRows_ne hx nofun)
      · exact hadd

theorem epilogue_scalar :
    launch (p.epilogueKernel reduction undefined) run mem .logprobsScalar =
      mem .logprobsScalar + ∑ pid ∈ range p.epilogueGrid,
        p.blockValue reduction
          (fun i => (p.epilogueResult undefined mem i).logprobs) pid := by
  rw [epilogue_eq_performAll]
  apply p.performAll_scalar run
  intro pid x hx
  simp only [List.mem_append, or_assoc] at hx
  rcases hx with hx | hx | hx | hx <;> exact p.storeRows_ne hx nofun

theorem update_scalar :
    launch (p.updateKernel reduction undefined) run mem .logprobsScalar =
      mem .logprobsScalar + ∑ pid ∈ range p.epilogueGrid,
        p.blockValue reduction
          (fun i => (p.updateResult undefined mem i).logprobs) pid := by
  rw [update_eq_performAll]
  apply p.performAll_scalar run
  intro pid x hx
  rcases List.mem_append.mp hx with hx | hx <;> exact p.storeRows_ne hx nofun

/-- A row of the grid that is no number spoils the scalar. -/
theorem sum_blockValue_ne_fin (hred : reduction ≠ .none)
    (hi : i < p.epilogueGrid * epilogueBlockM)
    (h : ∀ c, logprobs i ≠ fin c) (c : ℝ) :
    ∑ pid ∈ range p.epilogueGrid, p.blockValue reduction logprobs pid ≠
      fin c := by
  apply sum_ne_fin (i := i / epilogueBlockM)
  · exact mem_range.mpr (Nat.div_lt_of_lt_mul (Nat.mul_comm _ _ ▸ hi))
  · have htotal : ∀ c, ∑ j ∈ range epilogueBlockM,
        logprobs (i / epilogueBlockM * epilogueBlockM + j) ≠ fin c := by
      apply sum_ne_fin (i := i % epilogueBlockM)
      · exact mem_range.mpr (Nat.mod_lt _ (by decide))
      · rwa [Nat.div_add_mod']
    intro c
    cases reduction with
    | none => exact absurd rfl hred
    | sum => exact htotal c
    | mean => exact div_fin_ne_fin htotal _ c

/-- Without rows past the last token the instances add up to the sum, or the
mean. -/
theorem sum_blockValue (hblocks : epilogueBlockM ∣ p.numTokens)
    {f : ℕ → ℝ} (h : ∀ i < p.numTokens, logprobs i = fin (f i)) :
    ∑ pid ∈ range p.epilogueGrid, p.blockValue .sum logprobs pid =
      fin (∑ i ∈ range p.numTokens, f i) := by
  have hgrid : p.epilogueGrid * epilogueBlockM = p.numTokens := by
    obtain ⟨n, hn⟩ := hblocks
    simp only [epilogueGrid, cdiv, hn, epilogueBlockM]
    omega
  simp only [blockValue]
  rw [sum_blocks, hgrid, ← sum_fin]
  exact sum_congr rfl fun i hi => h i (mem_range.mp hi)

theorem sum_blockValue_mean (hpos : 0 < p.numTokens)
    (hblocks : epilogueBlockM ∣ p.numTokens)
    {f : ℕ → ℝ} (h : ∀ i < p.numTokens, logprobs i = fin (f i)) :
    ∑ pid ∈ range p.epilogueGrid, p.blockValue .mean logprobs pid =
      fin (∑ i ∈ range p.numTokens, f i) / fin (p.numTokens : ℝ) := by
  have hne : (p.numTokens : ℝ) ≠ 0 := Nat.cast_ne_zero.mpr hpos.ne'
  have hgrid : p.epilogueGrid * epilogueBlockM = p.numTokens := by
    obtain ⟨n, hn⟩ := hblocks
    simp only [epilogueGrid, cdiv, hn, epilogueBlockM]
    omega
  have hblock : ∀ pid ∈ range p.epilogueGrid,
      p.blockValue .mean logprobs pid = fin (∑ j ∈ range epilogueBlockM,
        f (pid * epilogueBlockM + j) / (p.numTokens : ℝ)) := by
    intro pid hpid
    have htotal : ∑ j ∈ range epilogueBlockM,
        logprobs (pid * epilogueBlockM + j) =
          fin (∑ j ∈ range epilogueBlockM, f (pid * epilogueBlockM + j)) := by
      rw [← sum_fin]
      refine sum_congr rfl fun j hj => h _ ?_
      rw [← hgrid]
      calc pid * epilogueBlockM + j
          < pid * epilogueBlockM + epilogueBlockM :=
            Nat.add_lt_add_left (mem_range.mp hj) _
        _ = (pid + 1) * epilogueBlockM := (Nat.succ_mul _ _).symm
        _ ≤ p.epilogueGrid * epilogueBlockM :=
            Nat.mul_le_mul_right _ (mem_range.mp hpid)
    simp only [blockValue]
    rw [htotal, fin_div_fin _ hne, sum_div]
  rw [sum_congr rfl hblock, sum_fin,
    sum_blocks fun i => f i / (p.numTokens : ℝ), hgrid, fin_div_fin _ hne,
    sum_div]

end Scalar

end Launch

end Problem

end SelfDistillation.FusedEntropy
