/-
`FusedLinearForPPOFunction` (verl/utils/experimental/torch_functional.py) in
exact real arithmetic: log-probabilities and entropies a chunk of tokens at a
time, and the gradients its backward pass returns.
-/
import SelfDistillation.Library.KernelLaunch
import SelfDistillation.Library.SoftmaxGradient
import SelfDistillation.Python

namespace SelfDistillation.FusedLinear

open Finset KernelLaunch OnlineSoftmax SoftmaxGradient

/-- A tensor by the sizes of its leading axes and its rows along them, numbered
in row-major order. -/
structure Rows (α : Type) where
  lead : List ℕ
  row : ℕ → α

variable {α : Type}

/-- `str(tensor.shape)` -/
def torchSize (shape : List ℕ) : String :=
  "torch.Size([" ++ ", ".intercalate (shape.map toString) ++ "])"

/-- `tensor.flatten(0, 1)`, where there are two axes to flatten. -/
def Rows.flatten (x : Rows α) : Rows α := ⟨[x.lead.prod], x.row⟩

/-- `tensor.view(batch, -1)`, with the axes of a row of `inner` elements behind
it. -/
def Rows.viewBatch (batch inner : ℕ) (x : Rows α) : Py (Rows α) :=
  if batch * inner = 0 then
    .error (.runtimeError ("cannot reshape tensor of 0 elements, the " ++
      "unspecified dimension size -1 can be any value and is ambiguous"))
  else if x.lead.prod % batch = 0 then
    .ok ⟨[batch, x.lead.prod / batch], x.row⟩
  else .error (.runtimeError "shape is invalid for input")

/-- The arguments of `FusedLinearForPPOFunction.apply`. -/
structure Args where
  hiddenStates : Rows (ℕ → ℝ)
  hiddenSize : ℕ
  vocabWeights : ℕ → ℕ → ℝ
  vocabSize : ℕ
  inputIds : Rows ℕ
  temperature : ℝ
  chunkSize : ℤ
  /-- Whether the saved `hidden_states` requires a gradient, which for a
  flattened one is up to torch. -/
  hiddenRequiresGrad : Bool
  weightRequiresGrad : Bool
  temperature_ne : temperature ≠ 0
  lead_inputIds : inputIds.lead = hiddenStates.lead
  inputIds_lt : ∀ t < hiddenStates.lead.prod, inputIds.row t < vocabSize

/-- The tensors and numbers kept for the backward pass. -/
structure Ctx where
  hiddenStates : Rows (ℕ → ℝ)
  hiddenSize : ℕ
  vocabWeights : ℕ → ℕ → ℝ
  vocabSize : ℕ
  inputIds : Rows ℕ
  origBatchSize : ℕ
  origNdim : ℕ
  temperature : ℝ
  chunkSize : ℤ
  hiddenRequiresGrad : Bool
  weightRequiresGrad : Bool

section Chunk

variable (hiddenStates : ℕ → ℕ → ℝ) (hiddenSize : ℕ)
variable (vocabWeights : ℕ → ℕ → ℝ) (vocabSize : ℕ) (temperature : ℝ)

/-- `(hidden_states @ vocab_weights.t()) / temperature` -/
noncomputable def logits (r c : ℕ) : ℝ :=
  (∑ k ∈ range hiddenSize, hiddenStates r k * vocabWeights c k) / temperature

/-- `logits.softmax(dim=-1)` -/
noncomputable def probs (r c : ℕ) : ℝ :=
  let x := logits hiddenStates hiddenSize vocabWeights temperature r
  Real.exp (x c) / ∑ d ∈ range vocabSize, Real.exp (x d)

/-- `torch.logsumexp(logits, dim=-1)` -/
noncomputable def logsumexp (r : ℕ) : ℝ :=
  Real.log (∑ d ∈ range vocabSize, Real.exp
    (logits hiddenStates hiddenSize vocabWeights temperature r d))

/-- `logits.log_softmax(dim=-1)` -/
noncomputable def logProbs (r c : ℕ) : ℝ :=
  logits hiddenStates hiddenSize vocabWeights temperature r c -
    logsumexp hiddenStates hiddenSize vocabWeights vocabSize temperature r

/-- `torch.logsumexp(logits, dim=-1) - torch.sum(probs * logits, dim=-1)` -/
noncomputable def chunkEntropy (r : ℕ) : ℝ :=
  logsumexp hiddenStates hiddenSize vocabWeights vocabSize temperature r -
    ∑ c ∈ range vocabSize,
      probs hiddenStates hiddenSize vocabWeights vocabSize temperature r c *
        logits hiddenStates hiddenSize vocabWeights temperature r c

/-- `_fused_linear_for_ppo_fwd`: the row of each of its two results. -/
noncomputable def fusedLinearForPpoFwd (inputIds : ℕ → ℕ) (r : ℕ) : ℝ × ℝ :=
  (logProbs hiddenStates hiddenSize vocabWeights vocabSize temperature r
      (inputIds r),
    chunkEntropy hiddenStates hiddenSize vocabWeights vocabSize temperature r)

/-- `dlogits` of `_fused_linear_for_ppo_bwd`. -/
noncomputable def dlogits (dlogProbs dentropy : Option (ℕ → ℝ))
    (inputIds : ℕ → ℕ) (r c : ℕ) : ℝ :=
  let p := probs hiddenStates hiddenSize vocabWeights vocabSize temperature r c
  let fromLogProbs := match dlogProbs with
    | none => 0
    | some d => d r * ((if c = inputIds r then 1 else 0) - p)
  let fromEntropy := match dentropy with
    | none => 0
    | some d => p * (logProbs hiddenStates hiddenSize vocabWeights vocabSize
          temperature r c +
        chunkEntropy hiddenStates hiddenSize vocabWeights vocabSize temperature
          r) * -d r
  (0 + fromLogProbs + fromEntropy) / temperature

/-- `_fused_linear_for_ppo_bwd`, on a chunk of `count` rows. -/
noncomputable def fusedLinearForPpoBwd (count : ℕ)
    (dlogProbs dentropy : Option (ℕ → ℝ)) (inputIds : ℕ → ℕ) :
    (ℕ → ℕ → ℝ) × (ℕ → ℕ → ℝ) :=
  let d := dlogits hiddenStates hiddenSize vocabWeights vocabSize temperature
    dlogProbs dentropy inputIds
  (fun r k => ∑ c ∈ range vocabSize, d r c * vocabWeights c k,
    fun c k => ∑ r ∈ range count, d r c * hiddenStates r k)

end Chunk

section Chunks

/-- `len(range(0, stop, step))` -/
def numChunks (stop : ℕ) (step : ℤ) : Py ℕ :=
  if step = 0 then .error (.valueError "range() arg 3 must not be zero")
  else if step < 0 then .ok 0
  else .ok ((stop + step.toNat - 1) / step.toNat)

/-- `tensor[start:]`, read from its first row. -/
def sliceFrom (start : ℕ) (x : ℕ → α) (r : ℕ) : α := x (start + r)

/-- `tensor[start:stop] = values` -/
def assignSlice (start stop : ℕ) (values x : ℕ → α) (t : ℕ) : α :=
  if start ≤ t ∧ t < stop then values (t - start) else x t

end Chunks

/-- The loop of the forward pass over `count` chunks. -/
noncomputable def forwardChunks (args : Args) (numTokens : ℕ)
    (hiddenStates : ℕ → ℕ → ℝ) (inputIds : ℕ → ℕ) (count : ℕ) : ℕ → ℝ × ℝ :=
  forRange count (fun _ => (0, 0)) fun n results =>
    let chunkStart := n * args.chunkSize.toNat
    let chunkEnd := min (chunkStart + args.chunkSize.toNat) numTokens
    assignSlice chunkStart chunkEnd
      (fusedLinearForPpoFwd (sliceFrom chunkStart hiddenStates)
        args.hiddenSize args.vocabWeights args.vocabSize args.temperature
        (sliceFrom chunkStart inputIds))
      results

/-- `FusedLinearForPPOFunction.forward` -/
noncomputable def forward (args : Args) : Py ((Rows ℝ × Rows ℝ) × Ctx) := do
  let lead := args.hiddenStates.lead
  let shape := torchSize (lead ++ [args.hiddenSize])
  let origNdim := lead.length + 1
  pyAssert (origNdim == 2 || origNdim == 3)
    ("Invalid hidden_states shape, received " ++ shape)
  pyAssert (!(origNdim == 3) || args.inputIds.lead.length == 2)
    ("input_ids shape doesn't match, " ++ shape ++ " " ++
      torchSize args.inputIds.lead)
  -- where there are two axes it is -1 in the source and never read
  let origBatchSize := if origNdim = 3 then lead.headD 0 else 0
  let hiddenStates := if origNdim = 3 then args.hiddenStates.flatten
    else args.hiddenStates
  let inputIds := if origNdim = 3 then args.inputIds.flatten else args.inputIds
  let numTokens := hiddenStates.lead.headD 0
  let count ← numChunks numTokens args.chunkSize
  let results := forwardChunks args numTokens hiddenStates.row inputIds.row
    count
  let logProbs : Rows ℝ := ⟨[numTokens], fun t => (results t).1⟩
  let entropy : Rows ℝ := ⟨[numTokens], fun t => (results t).2⟩
  let logProbs ← if origNdim = 3 then logProbs.viewBatch origBatchSize 1
    else .ok logProbs
  let entropy ← if origNdim = 3 then entropy.viewBatch origBatchSize 1
    else .ok entropy
  return ((logProbs, entropy),
    { hiddenStates := hiddenStates
      hiddenSize := args.hiddenSize
      vocabWeights := args.vocabWeights
      vocabSize := args.vocabSize
      inputIds := inputIds
      origBatchSize := origBatchSize
      origNdim := origNdim
      temperature := args.temperature
      chunkSize := args.chunkSize
      hiddenRequiresGrad := args.hiddenRequiresGrad
      weightRequiresGrad := args.weightRequiresGrad })

/-- The gradients for `hidden_states` and `vocab_weights`. -/
structure Gradients where
  dhiddenStates : Option (Rows (ℕ → ℝ))
  dvocabWeights : Option (ℕ → ℕ → ℝ)

/-- The loop of the backward pass over `count` chunks: `dhidden_states` and
`dvocab_weights`. -/
noncomputable def backwardChunks (ctx : Ctx) (numTokens : ℕ)
    (dlogProbs dentropy : Option (ℕ → ℝ)) (count : ℕ) :
    (ℕ → ℕ → ℝ) × (ℕ → ℕ → ℝ) :=
  forRange count (fun _ _ => 0, fun _ _ => 0) fun n total =>
    let chunkStart := n * ctx.chunkSize.toNat
    let chunkEnd := min (chunkStart + ctx.chunkSize.toNat) numTokens
    let (h, v) := fusedLinearForPpoBwd
      (sliceFrom chunkStart ctx.hiddenStates.row) ctx.hiddenSize
      ctx.vocabWeights ctx.vocabSize ctx.temperature (chunkEnd - chunkStart)
      (dlogProbs.map (sliceFrom chunkStart))
      (dentropy.map (sliceFrom chunkStart))
      (sliceFrom chunkStart ctx.inputIds.row)
    (assignSlice chunkStart chunkEnd
        (fun r k => total.1 (chunkStart + r) k + h r k) total.1,
      fun c k => total.2 c k + v c k)

/-- `FusedLinearForPPOFunction.backward` -/
noncomputable def backward (ctx : Ctx) (dlogProbs dentropy : Option (Rows ℝ)) :
    Py Gradients := do
  pyAssert (dlogProbs.isSome || dentropy.isSome) ""
  let dlogProbs := if ctx.origNdim = 3 then dlogProbs.map Rows.flatten
    else dlogProbs
  let dentropy := if ctx.origNdim = 3 then dentropy.map Rows.flatten
    else dentropy
  let numTokens := ctx.hiddenStates.lead.headD 0
  let count ← numChunks numTokens ctx.chunkSize
  let total := backwardChunks ctx numTokens (dlogProbs.map Rows.row)
    (dentropy.map Rows.row) count
  let dhiddenStates : Rows (ℕ → ℝ) := ⟨ctx.hiddenStates.lead, total.1⟩
  let dhiddenStates ← if ctx.hiddenRequiresGrad then
      if ctx.origNdim = 3 then
        some <$> dhiddenStates.viewBatch ctx.origBatchSize ctx.hiddenSize
      else .ok (some dhiddenStates)
    else .ok none
  return ⟨dhiddenStates,
    if ctx.weightRequiresGrad then some total.2 else none⟩

section Loops

variable {numTokens size n t : ℕ}

theorem numChunks_eq_ok {step : ℤ} {count : ℕ} :
    numChunks numTokens step = .ok count ↔ step ≠ 0 ∧
      count = if step < 0 then 0
        else (numTokens + step.toNat - 1) / step.toNat := by
  by_cases hzero : step = 0
  · simp [numChunks, hzero]
  · by_cases hneg : step < 0
    · simp [numChunks, hzero, hneg, eq_comm]
    · simp [numChunks, hzero, hneg, eq_comm]

theorem lt_chunks (hsize : 0 < size) :
    n < (numTokens + size - 1) / size ↔ n * size < numTokens := by
  rw [Nat.lt_div_iff_mul_lt hsize]
  omega

theorem le_chunks_mul (hsize : 0 < size) :
    numTokens ≤ (numTokens + size - 1) / size * size :=
  Nat.not_lt.mp fun hlt => absurd ((lt_chunks hsize).mpr hlt) (lt_irrefl _)

/-- What a chunk is written over is what comes before it. -/
theorem assignSlice_chunk {f x x₀ : ℕ → α}
    (h : ∀ t, x t = if t < min (n * size) numTokens then f t else x₀ t)
    (t : ℕ) :
    assignSlice (n * size) (min (n * size + size) numTokens)
        (fun r => f (n * size + r)) x t =
      if t < min ((n + 1) * size) numTokens then f t else x₀ t := by
  rw [assignSlice, Nat.succ_mul, h]
  by_cases hlow : n * size ≤ t
  · have hbefore : ¬ t < min (n * size) numTokens := by omega
    simp only [hlow, true_and, if_neg hbefore, Nat.add_sub_cancel' hlow]
  · have hiff : t < min (n * size) numTokens ↔
        t < min (n * size + size) numTokens := by omega
    simp only [hlow, false_and, if_false, hiff]

/-- A loop that writes a tensor chunk by chunk. -/
theorem forRange_assignSlice (hsize : 0 < size) (f x₀ : ℕ → α)
    (ht : t < numTokens) :
    forRange ((numTokens + size - 1) / size) x₀
      (fun n => assignSlice (n * size) (min (n * size + size) numTokens)
        fun r => f (n * size + r)) t = f t := by
  have hloop : ∀ t, forRange ((numTokens + size - 1) / size) x₀
      (fun n => assignSlice (n * size) (min (n * size + size) numTokens)
        fun r => f (n * size + r)) t =
      if t < min ((numTokens + size - 1) / size * size) numTokens then f t
        else x₀ t :=
    forRange_invariant (fun n (x : ℕ → α) => ∀ t, x t =
        if t < min (n * size) numTokens then f t else x₀ t)
      (fun t => by simp) fun n _ x hx => assignSlice_chunk hx
  have hall : numTokens ≤ (numTokens + size - 1) / size * size :=
    le_chunks_mul hsize
  rw [hloop, if_pos (lt_min (ht.trans_le hall) ht)]

/-- A sum over the tokens before a chunk and over those of the chunk. -/
theorem sum_chunk (f : ℕ → ℝ) (hn : n * size < numTokens) :
    ∑ t ∈ range (min (n * size) numTokens), f t +
        ∑ r ∈ range (min (n * size + size) numTokens - n * size),
          f (n * size + r) =
      ∑ t ∈ range (min ((n + 1) * size) numTokens), f t := by
  have hbefore : min (n * size) numTokens = n * size := min_eq_left hn.le
  have hafter : min ((n + 1) * size) numTokens = n * size +
      (min (n * size + size) numTokens - n * size) := by
    rw [Nat.succ_mul]
    omega
  rw [hbefore, hafter, sum_range_add]

end Loops

namespace Args

variable (args : Args)

def numTokens : ℕ := args.hiddenStates.lead.prod

/-- Two axes, or three the first of which is not empty. -/
def Accepted : Prop :=
  (∃ count, args.hiddenStates.lead = [count]) ∨
    ∃ batch length, args.hiddenStates.lead = [batch, length] ∧ 0 < batch

/-- The log-probability of a token and the entropy, from all its logits. -/
noncomputable def plain (t : ℕ) : ℝ × ℝ :=
  let logit := logits args.hiddenStates.row args.hiddenSize args.vocabWeights
    args.temperature t
  (logSoftmax logit 0 args.vocabSize (args.inputIds.row t),
    entropy logit 0 args.vocabSize)

theorem fusedLinearForPpoFwd_eq (t : ℕ) :
    fusedLinearForPpoFwd args.hiddenStates.row args.hiddenSize
      args.vocabWeights args.vocabSize args.temperature args.inputIds.row t =
      args.plain t := by
  simp only [fusedLinearForPpoFwd, logProbs, logsumexp, chunkEntropy, probs,
    plain, logSoftmax, entropy, logSumExp, softmaxMean, range_eq_Ico]

/-- What the forward pass saves. -/
def saved : Ctx where
  hiddenStates := ⟨[args.numTokens], args.hiddenStates.row⟩
  hiddenSize := args.hiddenSize
  vocabWeights := args.vocabWeights
  vocabSize := args.vocabSize
  inputIds := ⟨[args.numTokens], args.inputIds.row⟩
  origBatchSize := if args.hiddenStates.lead.length + 1 = 3 then
    args.hiddenStates.lead.headD 0 else 0
  origNdim := args.hiddenStates.lead.length + 1
  temperature := args.temperature
  chunkSize := args.chunkSize
  hiddenRequiresGrad := args.hiddenRequiresGrad
  weightRequiresGrad := args.weightRequiresGrad

/-- What the loop of the forward pass leaves for the tokens. -/
noncomputable def results (count : ℕ) : ℕ → ℝ × ℝ :=
  forwardChunks args args.numTokens args.hiddenStates.row args.inputIds.row
    count

theorem forward_eq (h : args.Accepted) : forward args =
    (numChunks args.numTokens args.chunkSize).bind fun count =>
      .ok ((⟨args.hiddenStates.lead, fun t => (args.results count t).1⟩,
        ⟨args.hiddenStates.lead, fun t => (args.results count t).2⟩),
          args.saved) := by
  obtain ⟨⟨lead, row⟩, D, W, V, ⟨lead', ids⟩, τ, chunk, hg, wg, hτ, hids,
    hlt⟩ := args
  simp only [Accepted] at h
  dsimp only at hids
  subst hids
  rcases h with ⟨count, h⟩ | ⟨batch, length, h, hbatch⟩
  · subst h
    simp [forward, numTokens, results, saved]
    rfl
  · subst h
    simp [forward, numTokens, results, saved, Rows.viewBatch, hbatch.ne',
      Rows.flatten]
    rfl

theorem results_eq (hchunk : 0 < args.chunkSize) {count t : ℕ}
    (hcount : numChunks args.numTokens args.chunkSize = .ok count)
    (ht : t < args.numTokens) : args.results count t = args.plain t := by
  obtain ⟨-, rfl⟩ := numChunks_eq_ok.mp hcount
  rw [if_neg hchunk.not_gt, ← fusedLinearForPpoFwd_eq]
  exact forRange_assignSlice (Int.pos_iff_toNat_pos.mp hchunk)
    (fusedLinearForPpoFwd args.hiddenStates.row args.hiddenSize
      args.vocabWeights args.vocabSize args.temperature args.inputIds.row)
    (fun _ => (0, 0)) ht

section Backward

variable (dlogProbs dentropy : Option (ℕ → ℝ))

/-- `dlogits` of a token among all tokens. -/
noncomputable def tokenDlogits (t c : ℕ) : ℝ :=
  dlogits args.hiddenStates.row args.hiddenSize args.vocabWeights
    args.vocabSize args.temperature dlogProbs dentropy args.inputIds.row t c

/-- An upstream gradient, zero where there is none. -/
def upstream (d : Option (ℕ → ℝ)) (t : ℕ) : ℝ := d.elim 0 (· t)

theorem tokenDlogits_eq (t c : ℕ) :
    args.tokenDlogits dlogProbs dentropy t c =
      logitGrad (logits args.hiddenStates.row args.hiddenSize
        args.vocabWeights args.temperature t) 0 args.vocabSize
          (args.inputIds.row t) (upstream dlogProbs t) (upstream dentropy t) c *
        args.temperature⁻¹ := by
  rw [← div_eq_mul_inv]
  simp only [tokenDlogits, dlogits]
  congr 1
  have hlog : logProbs args.hiddenStates.row args.hiddenSize args.vocabWeights
      args.vocabSize args.temperature t c +
        chunkEntropy args.hiddenStates.row args.hiddenSize args.vocabWeights
          args.vocabSize args.temperature t =
      logits args.hiddenStates.row args.hiddenSize args.vocabWeights
          args.temperature t c -
        softmaxMean (logits args.hiddenStates.row args.hiddenSize
          args.vocabWeights args.temperature t) 0 args.vocabSize := by
    simp only [logProbs, chunkEntropy, probs, softmaxMean, range_eq_Ico]
    ring
  have hprobs : probs args.hiddenStates.row args.hiddenSize args.vocabWeights
      args.vocabSize args.temperature t c =
      softmax (logits args.hiddenStates.row args.hiddenSize args.vocabWeights
        args.temperature t) 0 args.vocabSize c := by
    simp only [probs, softmax, range_eq_Ico]
  rw [hlog, hprobs, logitGrad]
  cases dlogProbs <;> cases dentropy <;> simp only [upstream, Option.elim] <;>
    ring

/-- The tokens of a chunk have their places among all tokens. -/
theorem dlogits_sliceFrom (start r c : ℕ) :
    dlogits (sliceFrom start args.hiddenStates.row) args.hiddenSize
        args.vocabWeights args.vocabSize args.temperature
        (dlogProbs.map (sliceFrom start)) (dentropy.map (sliceFrom start))
        (sliceFrom start args.inputIds.row) r c =
      args.tokenDlogits dlogProbs dentropy (start + r) c := by
  cases dlogProbs <;> cases dentropy <;> rfl

/-- What the loop of the backward pass has after the first chunks. -/
structure GradAfter (n : ℕ) (total : (ℕ → ℕ → ℝ) × (ℕ → ℕ → ℝ)) : Prop where
  hidden : ∀ t, total.1 t =
    if t < min (n * args.chunkSize.toNat) args.numTokens then
      fun k => ∑ c ∈ range args.vocabSize,
        args.tokenDlogits dlogProbs dentropy t c * args.vocabWeights c k
    else fun _ => 0
  weight : ∀ c k, total.2 c k =
    ∑ t ∈ range (min (n * args.chunkSize.toNat) args.numTokens),
      args.tokenDlogits dlogProbs dentropy t c * args.hiddenStates.row t k

theorem backwardChunks_after (hchunk : 0 < args.chunkSize) {count : ℕ}
    (hcount : numChunks args.numTokens args.chunkSize = .ok count) :
    args.GradAfter dlogProbs dentropy count
      (backwardChunks args.saved args.numTokens dlogProbs dentropy count) := by
  have hsize := Int.pos_iff_toNat_pos.mp hchunk
  obtain ⟨-, rfl⟩ := numChunks_eq_ok.mp hcount
  rw [if_neg hchunk.not_gt]
  refine forRange_invariant (args.GradAfter dlogProbs dentropy) ?_ ?_
  · constructor <;> simp
  · intro n hn total htotal
    have hlt := (lt_chunks hsize).mp hn
    constructor
    · intro t
      have hvalues : (fun r k => total.1 (n * args.chunkSize.toNat + r) k +
          ∑ c ∈ range args.vocabSize,
            args.tokenDlogits dlogProbs dentropy
              (n * args.chunkSize.toNat + r) c * args.vocabWeights c k) =
          fun r k => ∑ c ∈ range args.vocabSize,
            args.tokenDlogits dlogProbs dentropy
              (n * args.chunkSize.toNat + r) c * args.vocabWeights c k := by
        funext r k
        have hpast : ¬ n * args.chunkSize.toNat + r <
            min (n * args.chunkSize.toNat) args.numTokens := by omega
        rw [htotal.hidden, if_neg hpast, zero_add]
      rw [← assignSlice_chunk htotal.hidden t, ← hvalues]
      simp only [fusedLinearForPpoBwd, saved, dlogits_sliceFrom]
    · intro c k
      rw [← sum_chunk _ hlt, ← htotal.weight]
      simp only [fusedLinearForPpoBwd, saved, dlogits_sliceFrom, sliceFrom]

end Backward

theorem backward_eq (haccepted : args.Accepted) (hinner : 0 < args.hiddenSize)
    {dlogProbs dentropy : Option (Rows ℝ)}
    (hgiven : dlogProbs.isSome ∨ dentropy.isSome) {count : ℕ}
    (hcount : numChunks args.numTokens args.chunkSize = .ok count) :
    let total := backwardChunks args.saved args.numTokens
      (dlogProbs.map Rows.row) (dentropy.map Rows.row) count
    backward args.saved dlogProbs dentropy = .ok
      { dhiddenStates := if args.hiddenRequiresGrad then
          some ⟨args.hiddenStates.lead, total.1⟩ else none
        dvocabWeights := if args.weightRequiresGrad then some total.2
          else none } := by
  have hassert : (dlogProbs.isSome || dentropy.isSome) = true := by
    simpa using hgiven
  have hflatten : ∀ d : Option (Rows ℝ),
      (d.map Rows.flatten).map Rows.row = d.map Rows.row := by
    intro d
    cases d <;> rfl
  obtain ⟨⟨lead, row⟩, D, W, V, ids, τ, chunk, hg, wg, hτ, hids, hlt⟩ := args
  simp only [Accepted] at haccepted
  simp only [numTokens] at hcount
  rcases haccepted with ⟨length, h⟩ | ⟨batch, length, h, hbatch⟩
  · subst h
    rw [List.prod_singleton] at hcount
    cases hg <;>
      simp [backward, hassert, pyAssert_true, saved, numTokens, hcount, ok_bind]
  · subst h
    have hprod : [batch, length].prod = batch * length := by simp
    rw [hprod] at hcount
    have hview : ¬ (batch * D = 0) := (Nat.mul_pos hbatch hinner).ne'
    cases hg <;>
      simp [backward, hassert, pyAssert_true, saved, numTokens, hcount, ok_bind,
        hflatten, Rows.viewBatch, hview, hbatch.ne']

/-- The same arguments at another place of a curve. -/
def move (curve : LinearCurve (range args.hiddenSize)) (s : ℝ) : Args where
  hiddenStates := ⟨args.hiddenStates.lead, curve.hidden s⟩
  hiddenSize := args.hiddenSize
  vocabWeights := curve.weight s
  vocabSize := args.vocabSize
  inputIds := args.inputIds
  temperature := args.temperature
  chunkSize := args.chunkSize
  hiddenRequiresGrad := args.hiddenRequiresGrad
  weightRequiresGrad := args.weightRequiresGrad
  temperature_ne := args.temperature_ne
  lead_inputIds := args.lead_inputIds
  inputIds_lt := args.inputIds_lt

/-- What a loss with the given upstream gradients makes of the results. -/
noncomputable def loss (dlogProbs dentropy : Option (Rows ℝ))
    (out : Rows ℝ × Rows ℝ) : ℝ :=
  ∑ t ∈ range args.numTokens,
    (upstream (dlogProbs.map Rows.row) t * out.1.row t +
      upstream (dentropy.map Rows.row) t * out.2.row t)

/-- The returned gradients along a curve; without one the tensor does not
move. -/
noncomputable def along (g : Gradients)
    (curve : LinearCurve (range args.hiddenSize)) : ℝ :=
  (g.dhiddenStates.elim 0 fun d => ∑ t ∈ range args.numTokens,
      ∑ k ∈ range args.hiddenSize, d.row t k * curve.hidden' t k) +
    g.dvocabWeights.elim 0 fun d => ∑ c ∈ range args.vocabSize,
      ∑ k ∈ range args.hiddenSize, d c k * curve.weight' c k

theorem logits_eq (curve : LinearCurve (range args.hiddenSize)) (s : ℝ)
    (t : ℕ) : logits (curve.hidden s) args.hiddenSize (curve.weight s)
      args.temperature t = curve.logit args.temperature⁻¹ s t :=
  funext fun _ => div_eq_mul_inv _ _

/-- The gradients that the loop of the backward pass leaves. -/
theorem along_eq {dlogProbs dentropy : Option (ℕ → ℝ)}
    {total : (ℕ → ℕ → ℝ) × (ℕ → ℕ → ℝ)} {n : ℕ}
    (htotal : args.GradAfter dlogProbs dentropy n total)
    (hall : args.numTokens ≤ n * args.chunkSize.toNat)
    (curve : LinearCurve (range args.hiddenSize))
    (hhidden : curve.hidden 0 = args.hiddenStates.row)
    (hweight : curve.weight 0 = args.vocabWeights)
    (hfixedHidden : args.hiddenRequiresGrad = false → ∀ t k,
      curve.hidden' t k = 0)
    (hfixedWeight : args.weightRequiresGrad = false → ∀ c k,
      curve.weight' c k = 0) :
    args.along
      { dhiddenStates := if args.hiddenRequiresGrad then
          some ⟨args.hiddenStates.lead, total.1⟩ else none
        dvocabWeights := if args.weightRequiresGrad then some total.2
          else none } curve =
      ∑ t ∈ range args.numTokens, ∑ k ∈ range args.hiddenSize,
          (∑ c ∈ Ico 0 args.vocabSize,
            args.tokenDlogits dlogProbs dentropy t c * curve.weight 0 c k) *
              curve.hidden' t k +
        ∑ c ∈ Ico 0 args.vocabSize, ∑ k ∈ range args.hiddenSize,
          (∑ t ∈ range args.numTokens,
            args.tokenDlogits dlogProbs dentropy t c * curve.hidden 0 t k) *
              curve.weight' c k := by
  have hmin : min (n * args.chunkSize.toNat) args.numTokens = args.numTokens :=
    min_eq_right hall
  rw [along, hhidden, hweight]
  congr 1
  · cases hg : args.hiddenRequiresGrad with
    | false => simp [hfixedHidden hg]
    | true =>
        refine sum_congr rfl fun t ht => sum_congr rfl fun k _ => ?_
        change total.1 t k * _ = _
        rw [htotal.hidden, hmin, if_pos (mem_range.mp ht), range_eq_Ico]
  · cases hg : args.weightRequiresGrad with
    | false => simp [hfixedWeight hg]
    | true =>
        rw [← range_eq_Ico]
        refine sum_congr rfl fun c _ => sum_congr rfl fun k _ => ?_
        rw [htotal.weight, hmin]

section Gradient

variable (haccepted : args.Accepted) (hchunk : 0 < args.chunkSize)

include haccepted hchunk

theorem exists_forward : ∃ logProbs entropy : Rows ℝ,
    forward args = .ok ((logProbs, entropy), args.saved) ∧
      logProbs.lead = args.hiddenStates.lead ∧
      entropy.lead = args.hiddenStates.lead ∧
      ∀ t < args.numTokens, (logProbs.row t, entropy.row t) = args.plain t := by
  have hcount : numChunks args.numTokens args.chunkSize = .ok _ :=
    numChunks_eq_ok.mpr ⟨hchunk.ne', rfl⟩
  rw [args.forward_eq haccepted, hcount]
  exact ⟨_, _, rfl, rfl, rfl, fun t ht => args.results_eq hchunk hcount ht⟩

end Gradient

end Args

section TwoByThree

theorem zero_lt_two_words : ∀ t < [2, 3].prod, (fun _ => 0 : ℕ → ℕ) t < 2 :=
  fun _ _ => Nat.zero_lt_two

theorem unit_temperature_ne : (1 : ℝ) ≠ 0 := one_ne_zero

/-- Two sequences of three tokens, in chunks of four. -/
noncomputable def twoByThree : Args where
  hiddenStates := ⟨[2, 3], fun _ _ => 1⟩
  hiddenSize := 1
  vocabWeights _ _ := 1
  vocabSize := 2
  inputIds := ⟨[2, 3], fun _ => 0⟩
  temperature := 1
  chunkSize := 4
  hiddenRequiresGrad := true
  weightRequiresGrad := true
  temperature_ne := unit_temperature_ne
  lead_inputIds := rfl
  inputIds_lt := zero_lt_two_words

theorem hasDerivAt_growing_hidden : HasDerivAt (fun s : ℝ => s + 1) 1 0 :=
  (hasDerivAt_id 0).add_const 1

theorem hasDerivAt_growing_weight : HasDerivAt (fun _ : ℝ => (1 : ℝ)) 0 0 :=
  hasDerivAt_const 0 1

/-- All hidden states growing alike. -/
noncomputable def growing : LinearCurve (range 1) where
  hidden s _ _ := s + 1
  weight _ _ _ := 1
  hidden' _ _ := 1
  weight' _ _ := 0
  at_hidden _ _ _ := hasDerivAt_growing_hidden
  at_weight _ _ _ := hasDerivAt_growing_weight

end TwoByThree

end SelfDistillation.FusedLinear
