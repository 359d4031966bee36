/-
`FSDPEngineWithLMHead.prepare_model_inputs` and `prepare_model_outputs`
(verl/workers/engine/fsdp/transformer_impl.py) without sequence parallelism,
and `left_right_2_no_padding` (verl/workers/utils/padding.py).
-/
import SelfDistillation.ForwardMicroBatch

namespace SelfDistillation

namespace EngineForward

open ExactNum Packing

variable {F ε α : Type} {v : Nat}

/-- One sequence of a micro-batch in no-padding format: its tokens, their
position ids (of a vision model with three more), its row of the loss mask. -/
structure Sequence (v : Nat) (ε : Type) where
  inputIds : List (Fin v)
  positionIds : List (Nat × ε)
  lossMask : List Nat
  length_positionIds : positionIds.length = inputIds.length
  starts : ∃ p ps, positionIds = p :: ps ∧ p.1 = 0 ∧ ∀ q ∈ ps, q.1 ≠ 0

inductive Temperature (F : Type)
  | scalar (temperature : F)
  | perSample (temperatures : List F)

/-- A micro-batch in no-padding format. -/
structure EngineMicroBatch (v : Nat) (ε F : Type) where
  sequences : List (Sequence v ε)
  temperature : Temperature F
  padTokenId : Fin v
  maxResponseLength : Nat
  useFusedKernels : Bool
  nonempty : sequences ≠ []
  length_temperature : ∀ ts, temperature = .perSample ts →
    ts.length = sequences.length

namespace EngineMicroBatch

variable (mb : EngineMicroBatch v ε F)

/-- `input_ids.offsets().diff()` -/
def seqLengths : List Nat := mb.sequences.map fun s => s.inputIds.length

/-- `max(seq_len_effective)` -/
def maxSeqLen : Nat := mb.seqLengths.max?.getD 0

/-- `temperature` as a tensor with an entry for each sequence -/
def temperatures : List F :=
  match mb.temperature with
  | .scalar t => List.replicate mb.sequences.length t
  | .perSample ts => ts

/-- `torch.roll(input_ids.values(), shifts=-1)` -/
def inputIdsRmpadRolled : List (Fin v) :=
  (mb.sequences.flatMap Sequence.inputIds).rotate 1

end EngineMicroBatch

/-- `torch.nested.to_padded_tensor(rows, padding, (batch_size, size))` -/
def toPaddedTensor (padding : α) (size : Nat) (rows : List (List α)) :
    List (List α) :=
  rows.map fun row =>
    row.take size ++ List.replicate (size - row.length) padding

structure ModelInputs (v : Nat) (ε : Type) where
  inputIds : List (List (Fin v))
  attentionMask : Option (List (List Nat))
  positionIds : List (List (Nat × ε))

/-- `output_args`; the padded path has no `temperature_rmpad`. -/
structure OutputArgs (v : Nat) (F : Type) where
  inputIdsRmpadRolled : List (Fin v)
  temperatureRmpad : List F
  temperature : List F

/-- Fused kernels take no tensor of temperatures. -/
def checkTemperature (mb : EngineMicroBatch v ε F) : Py Unit :=
  match mb.temperature with
  | .scalar _ => .ok ()
  | .perSample _ => pyAssert (!mb.useFusedKernels)
      "use_fused_kernels does not support per sample temperature yet"

/-- The remove-padding branch of `prepare_model_inputs` -/
def rmpadInputs (mb : EngineMicroBatch v ε F) :
    ModelInputs v ε × OutputArgs v F :=
  let inputIdsRmpad := mb.sequences.flatMap Sequence.inputIds
  let positionIdsRmpad := mb.sequences.flatMap Sequence.positionIds
  let temperatureRmpad := (List.zipWith (fun t n => List.replicate n t)
    mb.temperatures mb.seqLengths).flatten
  (⟨[inputIdsRmpad], none, [positionIdsRmpad]⟩,
    ⟨mb.inputIdsRmpadRolled, temperatureRmpad, mb.temperatures⟩)

/-- The padded branch of `prepare_model_inputs` -/
def paddedInputs [Zero ε] (mb : EngineMicroBatch v ε F) :
    ModelInputs v ε × OutputArgs v F :=
  let attentionMaskList := mb.sequences.map fun s =>
    List.replicate s.lossMask.length 1
  (⟨toPaddedTensor mb.padTokenId mb.maxSeqLen
      (mb.sequences.map Sequence.inputIds),
    some (toPaddedTensor 0 mb.maxSeqLen attentionMaskList),
    toPaddedTensor (0, 0) mb.maxSeqLen
      (mb.sequences.map Sequence.positionIds)⟩,
    ⟨mb.inputIdsRmpadRolled, [], mb.temperatures⟩)

/-- `prepare_model_inputs` -/
def prepareModelInputs [Zero ε] (useRemovePadding : Bool)
    (mb : EngineMicroBatch v ε F) :
    Py (ModelInputs v ε × OutputArgs v F) := do
  checkTemperature mb
  return if useRemovePadding then rmpadInputs mb else paddedInputs mb

/-- A token with its position id, the text position last. -/
def token (id : Fin v) (positionId : Nat × ε) : (Fin v × ε) × Nat :=
  ((id, positionId.2), positionId.1)

def tokens (inputIds : List (Fin v)) (positionIds : List (Nat × ε)) :
    List ((Fin v × ε) × Nat) :=
  List.zipWith token inputIds positionIds

/-- A causal model: the logits after the attended tokens of a sequence up to
a position. -/
abbrev Model (v : Nat) (ε F : Type) :=
  List ((Fin v × ε) × Nat) → Fin v → F

/-- The attended tokens up to each slot of a padded row. -/
def attended (attentionMask : List Nat) (row : List α) : List (List α) :=
  (List.range row.length).map fun slot =>
    pack ((attentionMask.map (· != 0)).take (slot + 1)) (row.take (slot + 1))

/-- The logits of the module: without an attention mask a row is a packed
stream, in which position 0 starts a sequence. -/
def moduleLogits (model : Model v ε F) (inputs : ModelInputs v ε) :
    List (List (Fin v → F)) :=
  let rows := List.zipWith tokens inputs.inputIds inputs.positionIds
  match inputs.attentionMask with
  | none => rows.map fun row => (packedPrefixes [] row).map model
  | some mask => List.zipWith (fun mask row => (attended mask row).map model)
      mask rows

/-- What the module returns: logits, or log-probs from the fused kernels. -/
inductive ModuleOutput (v : Nat) (F : Type)
  | logits (rows : List (List (Fin v → F)))
  | logProbs (rows : List (List (Num F)))

section Forward

variable [Field F] [LinearOrder F] (m : TorchMath F)

/-- `self.module(**model_inputs)`; the fused kernels label each slot with the
next one of its row. -/
def callModule (model : Model v ε F) (mb : EngineMicroBatch v ε F)
    (inputs : ModelInputs v ε) : ModuleOutput v F :=
  match mb.useFusedKernels, mb.temperature with
  | true, .scalar temperature => .logProbs
      (List.zipWith (fun logits ids => List.zipWith
          (fun logits label =>
            logprobsFromLogits m (divTemperature temperature logits) label)
          logits (ids.rotate 1))
        (moduleLogits model inputs) inputs.inputIds)
  | _, _ => .logits (moduleLogits model inputs)

/-- `logits.div_(temperature.clamp(min=1e-8))` -/
def divClamped (temperature : F) (logits : Fin v → F) : Num (Fin v → F) :=
  divTemperature (max temperature (1 / ((10 ^ 8 : Nat) : F))) logits

/-- `prepare_model_outputs`: `log_probs`, one row for each sequence. -/
def prepareModelOutputs (useRemovePadding : Bool) (output : ModuleOutput v F)
    (outputArgs : OutputArgs v F) (mb : EngineMicroBatch v ε F) :
    Py (List (List (Num F))) :=
  match useRemovePadding, mb.useFusedKernels, output with
  | true, true, .logProbs logProbs =>
      .ok (mb.seqLengths.splitLengths logProbs.flatten)
  | true, false, .logits logits =>
      let logitsRmpad := List.zipWith divClamped outputArgs.temperatureRmpad
        logits.flatten
      let logProbs := List.zipWith (logprobsFromLogits m) logitsRmpad
        outputArgs.inputIdsRmpadRolled
      .ok (mb.seqLengths.splitLengths logProbs)
  | false, true, .logProbs logProbs =>
      .ok (logProbs.map (responseSlice mb.maxResponseLength))
  | false, false, .logits logits =>
      let logits := List.zipWith (fun t row => row.map (divClamped t))
        outputArgs.temperature logits
      let logitsRmpad := (List.zipWith (fun n row => row.take n)
        mb.seqLengths logits).flatten
      let logProbs := List.zipWith (logprobsFromLogits m) logitsRmpad
        outputArgs.inputIdsRmpadRolled
      .ok (mb.seqLengths.splitLengths logProbs)
  | _, _, _ => .error .attributeError

/-- The forward of a micro-batch up to its log-probs -/
def forwardLogProbs [Zero ε] (model : Model v ε F) (useRemovePadding : Bool)
    (mb : EngineMicroBatch v ε F) : Py (List (List (Num F))) := do
  let (modelInputs, outputArgs) ← prepareModelInputs useRemovePadding mb
  prepareModelOutputs m useRemovePadding (callModule m model mb modelInputs)
    outputArgs mb

end Forward

namespace Sequence

def tokens (s : Sequence v ε) : List ((Fin v × ε) × Nat) :=
  EngineForward.tokens s.inputIds s.positionIds

@[simp] theorem length_tokens (s : Sequence v ε) :
    s.tokens.length = s.inputIds.length := by
  simp [tokens, EngineForward.tokens, s.length_positionIds]

theorem length_pos (s : Sequence v ε) : 0 < s.inputIds.length := by
  obtain ⟨p, ps, hpositions, -⟩ := s.starts
  rw [← s.length_positionIds, hpositions]
  exact Nat.succ_pos _

/-- A sequence in a packed stream is a segment of its own. -/
theorem packedPrefixes_tokens_append (s : Sequence v ε)
    (segment rest : List ((Fin v × ε) × Nat)) :
    packedPrefixes segment (s.tokens ++ rest) =
      prefixes s.tokens ++ packedPrefixes s.tokens rest := by
  obtain ⟨p, ps, hpositions, hp, hps⟩ := s.starts
  obtain ⟨id, ids, hids⟩ := List.exists_cons_of_length_pos s.length_pos
  have htokens : s.tokens =
      token id p :: EngineForward.tokens ids ps := by
    rw [tokens, hids, hpositions]
    rfl
  have hinside : ∀ t ∈ EngineForward.tokens ids ps, t.2 ≠ 0 := by
    intro t ht
    rw [EngineForward.tokens, ← List.map_uncurry_zip_eq_zipWith] at ht
    obtain ⟨e, he, rfl⟩ := List.mem_map.mp ht
    exact hps e.2 (List.of_mem_zip he).2
  have hzero : (token id p).2 = 0 := hp
  rw [htokens, List.cons_append, packedPrefixes]
  simp only [hzero, if_true, packedPrefixes_append hinside, prefixes,
    List.length_cons, List.range_succ_eq_map, List.map_cons, List.map_map]
  simp [Function.comp_def]

end Sequence

theorem packedPrefixes_sequences (sequences : List (Sequence v ε))
    (segment : List ((Fin v × ε) × Nat)) :
    packedPrefixes segment (sequences.flatMap Sequence.tokens) =
      sequences.flatMap fun s => prefixes s.tokens := by
  induction sequences generalizing segment with
  | nil => rfl
  | cons s sequences ih =>
      rw [List.flatMap_cons, s.packedPrefixes_tokens_append, ih,
        List.flatMap_cons]

theorem tokens_flatMap (sequences : List (Sequence v ε)) :
    tokens (sequences.flatMap Sequence.inputIds)
      (sequences.flatMap Sequence.positionIds) =
        sequences.flatMap Sequence.tokens := by
  induction sequences with
  | nil => rfl
  | cons s sequences ih =>
      rw [tokens] at ih ⊢
      rw [List.flatMap_cons, List.flatMap_cons,
        List.zipWith_append s.length_positionIds.symm, ih, List.flatMap_cons]
      rfl

namespace EngineMicroBatch

variable {mb : EngineMicroBatch v ε F}

theorem length_temperatures :
    mb.temperatures.length = mb.sequences.length := by
  rw [temperatures]
  split
  · exact List.length_replicate
  · rename_i ts hts
    exact mb.length_temperature ts hts

theorem le_maxSeqLen {s : Sequence v ε} (hs : s ∈ mb.sequences) :
    s.inputIds.length ≤ mb.maxSeqLen := by
  have hmem : s.inputIds.length ∈ mb.seqLengths := List.mem_map_of_mem hs
  cases hmax : mb.seqLengths.max? with
  | none =>
      rw [List.max?_eq_none_iff.mp hmax] at hmem
      cases hmem
  | some n =>
      rw [maxSeqLen, hmax]
      exact (List.max?_eq_some_iff.mp hmax).2 _ hmem

theorem exists_longest :
    ∃ s ∈ mb.sequences, s.inputIds.length = mb.maxSeqLen := by
  cases hmax : mb.seqLengths.max? with
  | none =>
      rw [List.max?_eq_none_iff, seqLengths, List.map_eq_nil_iff] at hmax
      exact absurd hmax mb.nonempty
  | some n =>
      rw [maxSeqLen, hmax]
      exact List.mem_map.mp (List.max?_eq_some_iff.mp hmax).1

end EngineMicroBatch

/-- One row of `attention_mask` for a loss mask of length `n`. -/
def maskRow (size n : Nat) : List Nat :=
  List.replicate (min n size) 1 ++ List.replicate (size - n) 0

/-- Exactly the real tokens of every sequence are attended. -/
def MarksReal (mb : EngineMicroBatch v ε F) (modelInputs : ModelInputs v ε) :
    Prop :=
  modelInputs.attentionMask = some (mb.sequences.map fun s =>
    List.replicate s.inputIds.length 1 ++
      List.replicate (mb.maxSeqLen - s.inputIds.length) 0)

/-- One log-prob for each token of each sequence, the same wherever the next
token lies in the sequence. -/
structure SamePerToken (mb : EngineMicroBatch v ε F)
    (packed padded : List (List (Num F))) : Prop where
  lengths : padded.map List.length = mb.seqLengths
  same : ∀ (i : Nat) (s : Sequence v ε) (t : Nat), mb.sequences[i]? = some s →
    t + 1 < s.inputIds.length →
    ∃ logProb, padded[i]?.bind (·[t]?) = some logProb ∧
      packed[i]?.bind (·[t]?) = some logProb

theorem toPaddedTensor_masks (mb : EngineMicroBatch v ε F) :
    toPaddedTensor 0 mb.maxSeqLen
        (mb.sequences.map fun s => List.replicate s.lossMask.length 1) =
      mb.sequences.map fun s => maskRow mb.maxSeqLen s.lossMask.length := by
  simp [toPaddedTensor, maskRow, Nat.min_comm]

/-- The padded path marks the real tokens exactly if the loss mask is as long
as the sequences, or longer than all where they have one length. -/
theorem marksReal_iff [Zero ε] {mb : EngineMicroBatch v ε F} :
    MarksReal mb (paddedInputs mb).1 ↔
      ∀ s ∈ mb.sequences,
        min s.lossMask.length mb.maxSeqLen = s.inputIds.length := by
  rw [MarksReal, paddedInputs]
  simp only [toPaddedTensor_masks, Option.some.injEq, List.map_inj_left]
  constructor
  · intro h s hs
    have hcount := congrArg (List.count 1) (h s hs)
    simpa [maskRow, List.count_replicate] using hcount
  · intro h s hs
    have hle := mb.le_maxSeqLen hs
    have hmin := h s hs
    have hrest : mb.maxSeqLen - s.lossMask.length =
        mb.maxSeqLen - s.inputIds.length := by omega
    rw [maskRow, hmin, hrest]

/-- Behind a mask for its real tokens, a padded row attends to the prefixes
of the sequence. -/
theorem attended_padded {size n : Nat} {row rest : List α}
    (hn : min n size = row.length) :
    (attended (maskRow size n) (row ++ rest)).take row.length =
      prefixes row := by
  rw [attended, ← List.map_take, List.take_range, prefixes,
    List.length_append, Nat.min_eq_left (Nat.le_add_right _ _)]
  refine List.map_congr_left fun slot hslot => ?_
  have hlt : slot + 1 ≤ row.length := List.mem_range.mp hslot
  have hmask : ((maskRow size n).map (· != 0)).take (slot + 1) =
      List.replicate (slot + 1) true := by
    rw [maskRow, List.map_append, List.map_replicate,
      List.take_append_of_le_length (by simp; omega), List.take_replicate, hn,
      Nat.min_eq_left hlt]
    rfl
  rw [hmask, List.take_append_of_le_length hlt,
    pack_replicate_true (by simp; omega)]

section Agreement

variable [Field F] [LinearOrder F] (m : TorchMath F)

/-- The scaled logits of every sequence, one after another. -/
def scaledLogits (model : Model v ε F) (temperatures : List F)
    (sequences : List (Sequence v ε)) : List (Num (Fin v → F)) :=
  (List.zipWith (fun t s => (prefixes s.tokens).map fun tokens =>
    divClamped t (model tokens)) temperatures sequences).flatten

theorem zipWith_divClamped_replicate (t : F) (logits : List (Fin v → F)) :
    List.zipWith divClamped (List.replicate logits.length t) logits =
      logits.map (divClamped t) := by
  induction logits with
  | nil => rfl
  | cons l logits ih =>
      rw [List.length_cons, List.replicate_succ, List.zipWith_cons_cons, ih,
        List.map_cons]

theorem packed_scaledLogits (model : Model v ε F) {temperatures : List F}
    {sequences : List (Sequence v ε)}
    (hlen : temperatures.length = sequences.length) :
    List.zipWith divClamped
      (List.zipWith (fun t n => List.replicate n t) temperatures
        (sequences.map fun s => s.inputIds.length)).flatten
      ((sequences.flatMap fun s => prefixes s.tokens).map model) =
      scaledLogits model temperatures sequences := by
  induction sequences generalizing temperatures with
  | nil => simp [scaledLogits]
  | cons s sequences ih =>
      obtain ⟨t, temperatures, rfl⟩ :=
        List.exists_cons_of_length_eq_add_one hlen
      have hrow : s.inputIds.length =
          ((prefixes s.tokens).map model).length := by
        simp
      have hhead : List.zipWith divClamped
          (List.replicate s.inputIds.length t)
          ((prefixes s.tokens).map model) =
            (prefixes s.tokens).map fun tokens =>
              divClamped t (model tokens) := by
        rw [hrow, zipWith_divClamped_replicate, List.map_map]
        rfl
      rw [List.map_cons, List.zipWith_cons_cons, List.flatten_cons,
        List.flatMap_cons, List.map_append,
        List.zipWith_append (by simp), hhead,
        ih (Nat.succ_injective hlen), scaledLogits, scaledLogits,
        List.zipWith_cons_cons, List.flatten_cons]

theorem padded_scaledLogits {model : Model v ε F} {temperatures : List F}
    {sequences : List (Sequence v ε)}
    {rows : Sequence v ε → List (Fin v → F)}
    (hrows : ∀ s ∈ sequences, (rows s).take s.inputIds.length =
      (prefixes s.tokens).map model) :
    (List.zipWith (fun n row => row.take n)
      (sequences.map fun s => s.inputIds.length)
      (List.zipWith (fun t row => row.map (divClamped t)) temperatures
        (sequences.map rows))).flatten =
      scaledLogits model temperatures sequences := by
  induction sequences generalizing temperatures with
  | nil => simp [scaledLogits]
  | cons s sequences ih =>
      cases temperatures with
      | nil => simp [scaledLogits]
      | cons t temperatures =>
          obtain ⟨hs, hrest⟩ := List.forall_mem_cons.mp hrows
          rw [List.map_cons, List.map_cons, List.zipWith_cons_cons,
            List.zipWith_cons_cons, List.flatten_cons, ih hrest,
            ← List.map_take, hs, List.map_map, scaledLogits, scaledLogits,
            List.zipWith_cons_cons, List.flatten_cons]
          rfl

/-- The tokens of a sequence in the padded tensors -/
def paddedTokens [Zero ε] (mb : EngineMicroBatch v ε F)
    (s : Sequence v ε) : List ((Fin v × ε) × Nat) :=
  tokens
    (s.inputIds.take mb.maxSeqLen ++
      List.replicate (mb.maxSeqLen - s.inputIds.length) mb.padTokenId)
    (s.positionIds.take mb.maxSeqLen ++
      List.replicate (mb.maxSeqLen - s.positionIds.length) (0, 0))

omit [Field F] [LinearOrder F] in
theorem paddedTokens_eq [Zero ε] {mb : EngineMicroBatch v ε F}
    {s : Sequence v ε} (hs : s ∈ mb.sequences) :
    ∃ rest, paddedTokens mb s = s.tokens ++ rest := by
  have hle := mb.le_maxSeqLen hs
  have hpositions : s.positionIds.length ≤ mb.maxSeqLen :=
    s.length_positionIds ▸ hle
  refine ⟨tokens (List.replicate (mb.maxSeqLen - s.inputIds.length)
    mb.padTokenId) (List.replicate
      (mb.maxSeqLen - s.positionIds.length) (0, 0)), ?_⟩
  rw [paddedTokens, List.take_of_length_le hle,
    List.take_of_length_le hpositions, tokens,
    List.zipWith_append s.length_positionIds.symm]
  rfl

omit [Field F] [LinearOrder F] in
theorem moduleLogits_padded [Zero ε] (model : Model v ε F)
    (mb : EngineMicroBatch v ε F) :
    moduleLogits model (paddedInputs mb).1 =
      mb.sequences.map fun s =>
        (attended (maskRow mb.maxSeqLen s.lossMask.length)
          (paddedTokens mb s)).map model := by
  simp only [moduleLogits, paddedInputs, toPaddedTensor_masks]
  simp only [toPaddedTensor, List.map_map, List.zipWith_map,
    List.zipWith_self]
  rfl

omit [Field F] [LinearOrder F] in
theorem moduleLogits_rmpad (model : Model v ε F)
    (mb : EngineMicroBatch v ε F) :
    (moduleLogits model (rmpadInputs mb).1).flatten =
      (mb.sequences.flatMap fun s => prefixes s.tokens).map model := by
  simp only [moduleLogits, rmpadInputs, List.zipWith_cons_cons,
    List.zipWith_nil_left, List.map_cons, List.map_nil, List.flatten_cons,
    List.flatten_nil, List.append_nil, tokens_flatMap,
    packedPrefixes_sequences]

/-- The log-probs of both paths behind a mask for the real tokens -/
def perTokenLogProbs (model : Model v ε F) (mb : EngineMicroBatch v ε F) :
    List (List (Num F)) :=
  mb.seqLengths.splitLengths (List.zipWith (logprobsFromLogits m)
    (scaledLogits model mb.temperatures mb.sequences)
    mb.inputIdsRmpadRolled)

omit [Field F] [LinearOrder F] in
theorem prepareModelInputs_of_not_fused [Zero ε]
    {mb : EngineMicroBatch v ε F} (hfused : mb.useFusedKernels = false)
    (useRemovePadding : Bool) :
    prepareModelInputs useRemovePadding mb =
      .ok (if useRemovePadding then rmpadInputs mb else paddedInputs mb) := by
  have hcheck : checkTemperature mb = .ok () := by
    rw [checkTemperature, hfused]
    split <;> rfl
  rw [prepareModelInputs, hcheck]
  rfl

theorem callModule_of_not_fused (model : Model v ε F)
    {mb : EngineMicroBatch v ε F} (hfused : mb.useFusedKernels = false)
    (inputs : ModelInputs v ε) :
    callModule m model mb inputs = .logits (moduleLogits model inputs) := by
  rw [callModule, hfused]

theorem forwardLogProbs_rmpad [Zero ε] (model : Model v ε F)
    {mb : EngineMicroBatch v ε F} (hfused : mb.useFusedKernels = false) :
    forwardLogProbs m model true mb = .ok (perTokenLogProbs m model mb) := by
  rw [forwardLogProbs, prepareModelInputs_of_not_fused hfused, ok_bind]
  simp only [callModule_of_not_fused m model hfused, if_true]
  rw [prepareModelOutputs]
  simp only [moduleLogits_rmpad, perTokenLogProbs]
  rw [← packed_scaledLogits model mb.length_temperatures]
  · rfl
  · exact hfused

theorem forwardLogProbs_padded [Zero ε] (model : Model v ε F)
    {mb : EngineMicroBatch v ε F} (hfused : mb.useFusedKernels = false)
    (hmask : ∀ s ∈ mb.sequences,
      min s.lossMask.length mb.maxSeqLen = s.inputIds.length) :
    forwardLogProbs m model false mb = .ok (perTokenLogProbs m model mb) := by
  have hrows : ∀ s ∈ mb.sequences,
      ((attended (maskRow mb.maxSeqLen s.lossMask.length)
        (paddedTokens mb s)).map model).take s.inputIds.length =
          (prefixes s.tokens).map model := by
    intro s hs
    obtain ⟨rest, hrest⟩ := paddedTokens_eq hs
    rw [hrest, ← List.map_take, ← s.length_tokens,
      attended_padded (by rw [s.length_tokens]; exact hmask s hs)]
  rw [forwardLogProbs, prepareModelInputs_of_not_fused hfused, ok_bind]
  simp only [callModule_of_not_fused m model hfused]
  rw [prepareModelOutputs]
  simp only [Bool.false_eq_true, if_false, moduleLogits_padded,
    perTokenLogProbs]
  rw [← padded_scaledLogits hrows]
  · rfl
  · exact hfused

theorem length_scaledLogits (model : Model v ε F) {temperatures : List F}
    {sequences : List (Sequence v ε)}
    (hlen : temperatures.length = sequences.length) :
    (scaledLogits model temperatures sequences).length =
      (sequences.map fun s => s.inputIds.length).sum := by
  induction sequences generalizing temperatures with
  | nil => simp [scaledLogits]
  | cons s sequences ih =>
      obtain ⟨t, temperatures, rfl⟩ :=
        List.exists_cons_of_length_eq_add_one hlen
      have hrest := ih (Nat.succ_injective hlen)
      rw [scaledLogits] at hrest ⊢
      simp [hrest]

theorem length_perTokenLogProbs (model : Model v ε F)
    (mb : EngineMicroBatch v ε F) :
    (perTokenLogProbs m model mb).map List.length = mb.seqLengths := by
  refine List.map_splitLengths_length _ _ ?_
  rw [List.length_zipWith, length_scaledLogits model mb.length_temperatures,
    EngineMicroBatch.inputIdsRmpadRolled, List.length_rotate,
    List.length_flatMap, EngineMicroBatch.seqLengths, min_self]

/-- A log-prob can be looked up for every token. -/
theorem exists_perTokenLogProb (model : Model v ε F)
    {mb : EngineMicroBatch v ε F} {i : Nat} {s : Sequence v ε}
    (hs : mb.sequences[i]? = some s) {t : Nat}
    (ht : t < s.inputIds.length) :
    ∃ logProb, (perTokenLogProbs m model mb)[i]?.bind (·[t]?) =
      some logProb := by
  have hlength := congrArg (·[i]?) (length_perTokenLogProbs m model mb)
  simp only [EngineMicroBatch.seqLengths, List.getElem?_map, hs,
    Option.map_some, Option.map_eq_some_iff] at hlength
  obtain ⟨row, hrow, hlen⟩ := hlength
  rw [hrow, Option.bind_some]
  exact ⟨row[t], List.getElem?_eq_getElem (hlen ▸ ht)⟩

/-- Both paths agree: the padded one attends to exactly the real tokens, and
for every causal model gives the same log-probs. -/
def ForwardsAgree [Zero ε] (mb : EngineMicroBatch v ε F) : Prop :=
  (∃ modelInputs outputArgs,
    prepareModelInputs false mb = .ok (modelInputs, outputArgs) ∧
      MarksReal mb modelInputs) ∧
  ∀ model : Model v ε F, ∃ packed padded,
    forwardLogProbs m model true mb = .ok packed ∧
      forwardLogProbs m model false mb = .ok padded ∧
      SamePerToken mb packed padded

theorem length_responseSlice_lt {R size : Nat} {row : List α}
    (hsize : 0 < size) (hrow : row.length ≤ size) :
    (responseSlice R row).length < size := by
  rw [responseSlice, List.length_drop, List.length_take]
  omega

theorem length_le_of_mem_fused [Zero ε] {model : Model v ε F}
    {mb : EngineMicroBatch v ε F} {t : F} {row : List (Num F)}
    (hrow : row ∈ List.zipWith (fun logits ids => List.zipWith
        (fun logits label =>
          logprobsFromLogits m (divTemperature t logits) label)
        logits (ids.rotate 1))
      (moduleLogits model (paddedInputs mb).1) (paddedInputs mb).1.inputIds) :
    row.length ≤ mb.maxSeqLen := by
  rw [← List.map_uncurry_zip_eq_zipWith] at hrow
  obtain ⟨⟨logits, ids⟩, he, rfl⟩ := List.mem_map.mp hrow
  obtain ⟨unpadded, hunpadded, rfl⟩ := List.mem_map.mp (List.of_mem_zip he).2
  obtain ⟨s, hs, rfl⟩ := List.mem_map.mp hunpadded
  have hle := mb.le_maxSeqLen hs
  simp only [Function.uncurry, List.length_zipWith, List.length_rotate,
    List.length_append, List.length_take, List.length_replicate]
  omega

/-- The fused kernels leave a slice of each padded row, too short for the
longest sequence. -/
theorem not_samePerToken_of_fused [Zero ε] {model : Model v ε F}
    {mb : EngineMicroBatch v ε F} (hfused : mb.useFusedKernels = true)
    {packed padded : List (List (Num F))}
    (hpadded : forwardLogProbs m model false mb = .ok padded) :
    ¬ SamePerToken mb packed padded := by
  intro hsame
  obtain ⟨s, hs, hlongest⟩ := mb.exists_longest
  have hsize : 0 < mb.maxSeqLen := hlongest ▸ s.length_pos
  have hshort : ∀ row ∈ padded, row.length < mb.maxSeqLen := by
    rw [forwardLogProbs, prepareModelInputs] at hpadded
    simp only [bind_eq_ok] at hpadded
    obtain ⟨_, ⟨_, hcheck, hinputs⟩, hpadded⟩ := hpadded
    cases hinputs
    cases htemperature : mb.temperature with
    | perSample ts =>
        rw [checkTemperature, htemperature, hfused] at hcheck
        cases hcheck
    | scalar t =>
        simp only [callModule, hfused, htemperature, Bool.false_eq_true,
          if_false] at hpadded
        rw [prepareModelOutputs] at hpadded
        · cases hpadded
          intro row hrow
          obtain ⟨fused, hmem, rfl⟩ := List.mem_map.mp hrow
          exact length_responseSlice_lt hsize (length_le_of_mem_fused m hmem)
        · exact hfused
  have hmem : s.inputIds.length ∈ padded.map List.length := by
    rw [hsame.lengths]
    exact List.mem_map_of_mem hs
  obtain ⟨row, hrow, hlen⟩ := List.mem_map.mp hmem
  have := hshort row hrow
  omega

end Agreement

/-- A row of a PPO batch, padded on both sides; its attended tokens are
numbered from zero. -/
structure PaddedRow (v : Nat) (ε : Type) where
  inputIds : List (Fin v)
  attentionMask : List Bool
  positionIds : List (Nat × ε)
  responseMask : List Nat
  length_inputIds : inputIds.length = attentionMask.length
  length_positionIds : positionIds.length = attentionMask.length
  numbered : (pack attentionMask positionIds).map Prod.fst =
    List.range (attentionMask.count true)
  attended : true ∈ attentionMask

/-- The nested tensors of `left_right_2_no_padding`: `input_ids`,
`position_ids` and `loss_mask`, which stays `response_mask`. -/
def leftRight2NoPadding (data : List (PaddedRow v ε)) :
    List (List (Fin v)) × List (List (Nat × ε)) × List (List Nat) :=
  let indices := nonzero (data.flatMap PaddedRow.attentionMask)
  let inputIdsRmpad := gather (data.flatMap PaddedRow.inputIds) indices
  let lengths := data.map fun row => row.attentionMask.count true
  (lengths.splitLengths inputIdsRmpad,
    data.map fun row => pack row.attentionMask row.positionIds,
    data.map PaddedRow.responseMask)

theorem splitLengths_flatMap {ι : Type} (rows : ι → List α) (is : List ι) :
    (is.map fun i => (rows i).length).splitLengths (is.flatMap rows) =
      is.map rows := by
  induction is with
  | nil => rfl
  | cons i is ih =>
      rw [List.map_cons, List.flatMap_cons, List.splitLengths_cons,
        List.take_left, List.drop_left, ih, List.map_cons]

/-- The attended tokens of a row -/
def PaddedRow.toSequence (row : PaddedRow v ε) : Sequence v ε where
  inputIds := pack row.attentionMask row.inputIds
  positionIds := pack row.attentionMask row.positionIds
  lossMask := row.responseMask
  length_positionIds := by
    rw [length_pack row.length_inputIds, length_pack row.length_positionIds]
  starts := by
    obtain ⟨n, hn⟩ := Nat.exists_eq_succ_of_ne_zero
      (List.count_pos_iff.mpr row.attended).ne'
    have hnumbered := row.numbered
    rw [hn, List.range_succ_eq_map, List.map_eq_cons_iff] at hnumbered
    obtain ⟨p, ps, hpositions, hp, hps⟩ := hnumbered
    refine ⟨p, ps, hpositions, hp, fun q hq => ?_⟩
    obtain ⟨k, -, hk⟩ := List.mem_map.mp
      (hps ▸ List.mem_map_of_mem (f := Prod.fst) hq)
    exact hk ▸ Nat.succ_ne_zero k

@[simp] theorem PaddedRow.length_toSequence (row : PaddedRow v ε) :
    row.toSequence.inputIds.length = row.attentionMask.count true :=
  length_pack row.length_inputIds

/-- The nested tensors hold the attended tokens of each row. -/
theorem leftRight2NoPadding_eq (data : List (PaddedRow v ε)) :
    leftRight2NoPadding data =
      ((data.map PaddedRow.toSequence).map Sequence.inputIds,
        (data.map PaddedRow.toSequence).map Sequence.positionIds,
        (data.map PaddedRow.toSequence).map Sequence.lossMask) := by
  have hlen : (data.flatMap PaddedRow.inputIds).length =
      (data.flatMap PaddedRow.attentionMask).length := by
    simp only [List.length_flatMap, PaddedRow.length_inputIds]
  have hlengths : data.map (fun row => row.attentionMask.count true) =
      data.map fun row => (pack row.attentionMask row.inputIds).length :=
    List.map_congr_left fun row _ => (length_pack row.length_inputIds).symm
  rw [leftRight2NoPadding, gather_nonzero hlen,
    pack_flatMap PaddedRow.length_inputIds, hlengths]
  simp only [splitLengths_flatMap, List.map_map]
  rfl

/-- The loss mask of a PPO batch has the width `R` of its responses: it marks
the real tokens exactly if every sequence, prompt included, is as long as
that or as the longest if this is shorter. -/
theorem marksReal_leftRight_iff [Zero ε] {mb : EngineMicroBatch v ε F}
    {data : List (PaddedRow v ε)} {R : Nat}
    (hdata : mb.sequences = data.map PaddedRow.toSequence)
    (hresponse : ∀ row ∈ data, row.responseMask.length = R) :
    MarksReal mb (paddedInputs mb).1 ↔
      ∀ row ∈ data, min R mb.maxSeqLen = row.attentionMask.count true := by
  rw [marksReal_iff, hdata, List.forall_mem_map]
  refine forall₂_congr fun row hrow => ?_
  rw [PaddedRow.length_toSequence, ← hresponse row hrow]
  rfl

/-- A loss mask for each token marks the real tokens. -/
theorem marksReal_of_perToken [Zero ε] {mb : EngineMicroBatch v ε F}
    (h : ∀ s ∈ mb.sequences, s.lossMask.length = s.inputIds.length) :
    MarksReal mb (paddedInputs mb).1 := by
  refine marksReal_iff.mpr fun s hs => ?_
  rw [h s hs, Nat.min_eq_left (mb.le_maxSeqLen hs)]

/-- A prompt of three tokens and a response of two -/
def promptAndResponse : PaddedRow 5 Unit where
  inputIds := [0, 1, 2, 3, 4]
  attentionMask := [true, true, true, true, true]
  positionIds := [(0, ()), (1, ()), (2, ()), (3, ()), (4, ())]
  responseMask := [1, 1]
  length_inputIds := rfl
  length_positionIds := rfl
  numbered := rfl
  attended := List.mem_cons_self

def promptAndResponseBatch : EngineMicroBatch 5 Unit Nat where
  sequences := [promptAndResponse.toSequence]
  temperature := .scalar 1
  padTokenId := 0
  maxResponseLength := 2
  useFusedKernels := false
  nonempty := List.cons_ne_nil _ _
  length_temperature := by simp

def countTokens : Model 5 Unit Nat := fun tokens _ => tokens.length

end EngineForward

end SelfDistillation
