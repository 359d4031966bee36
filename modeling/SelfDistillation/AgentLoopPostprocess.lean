/-
`AgentLoopWorker._agent_loop_postprocess` and `_postprocess`
(verl/experimental/agent_loop/agent_loop.py) for samples without a processor,
the single turn agent loop, and the returns of ReMax
(verl/trainer/ppo/core_algos.py): where the score of a trajectory ends up.
-/
import SelfDistillation.SelfDistillationBatch
import SelfDistillation.ToolAgentLoop

namespace SelfDistillation

open Transition

variable {α τ κ ν π ι σ : Type}

inductive PaddingSide
  | left
  | right

/-- `tokenizer.pad` to a length: the ids and the attention mask as tensors,
longer lists as they are.  An empty list is not made a tensor, `none`. -/
structure PaddingTokenizer where
  padTokenId : Nat
  pad : PaddingSide → List Nat → Nat → Option (List Nat × List Nat)
  pad_nil : ∀ side maxLength, pad side [] maxLength = none
  pad_left : ∀ ids maxLength, ids ≠ [] → pad .left ids maxLength =
    some (List.replicate (maxLength - ids.length) padTokenId ++ ids,
      List.replicate (maxLength - ids.length) 0 ++
        List.replicate ids.length 1)
  pad_right : ∀ ids maxLength, ids ≠ [] → pad .right ids maxLength =
    some (ids ++ List.replicate (maxLength - ids.length) padTokenId,
      List.replicate ids.length 1 ++
        List.replicate (maxLength - ids.length) 0)

/-- What a reward worker gets of a sample. -/
structure RewardRequest (κ : Type) where
  prompts : List Nat
  responses : List Nat
  attentionMask : List Nat
  inputIds : List Nat
  positionIds : List Nat
  kwargs : κ
  numTurns : Nat

/-- The part of `AgentLoopWorker` that is read here; without reward workers
there is no `rewardLoop`. -/
structure AgentLoopWorker (κ ν σ : Type) where
  tokenizer : PaddingTokenizer
  promptLength : Nat
  responseLength : Nat
  rewardLoop : Option (RewardRequest κ → Py (σ × PyDict ν))

/-- The output of an agent loop, the `max_new_tokens` or response length it
is padded to, and the keyword arguments of the sample. -/
structure Sample (κ π ι σ : Type) where
  output : AgentLoopOutput Nat π ι σ
  targetResponseLength : Nat
  promptLength : Option Nat
  kwargs : κ

/-- `_InternalAgentLoopOutput`, every tensor as its one row. -/
structure InternalAgentLoopOutput (ν π σ : Type) where
  promptIds : List Nat
  responseIds : List Nat
  inputIds : List Nat
  positionIds : List Nat
  responseMask : List Nat
  attentionMask : List Nat
  responseLogprobs : Option (List π)
  rewardScore : Option σ
  rewardExtraInfo : PyDict ν
  numTurns : Nat
  turnScores : List σ
  toolRewards : List σ

/-- The batch `_postprocess` returns. -/
structure AgentLoopBatch (ν π σ : Type) where
  prompts : List (List Nat)
  responses : List (List Nat)
  responseMask : List (List Nat)
  inputIds : List (List Nat)
  attentionMask : List (List Nat)
  positionIds : List (List Nat)
  rolloutLogProbs : Option (List (List π))
  rmScores : Option (List (List σ))
  rewardExtraInfo : PyDict (List ν)
  numTurns : List Nat
  turnScores : List (List σ)
  toolRewards : List (List σ)

/-- `SingleTurnAgentLoop.run` -/
def singleTurnAgentLoop (targetResponseLength : Nat)
    (images : Option (List ι)) (promptIds : List τ)
    (output : TokenOutput τ π) : AgentLoopOutput τ π ι σ where
  promptIds
  responseIds := output.tokenIds.take targetResponseLength
  responseMask :=
    (List.replicate output.tokenIds.length 1).take targetResponseLength
  responseLogprobs := (output.logProbs.filter (!·.isEmpty)).map
    (·.take targetResponseLength)
  images
  rewardScore := none
  numTurns := 2
  turnScores := []
  toolRewards := []

/-- `.dim()` of what the tokenizer returns, which a list does not have. -/
def asRow (padded : Option (List Nat × List Nat)) :
    Py (List Nat × List Nat) :=
  match padded with
  | none => .error .attributeError
  | some row => .ok row

/-- The product of two rows; a row of one entry is broadcast. -/
def mulRow (xs ys : List Nat) : Py (List Nat) :=
  if xs.length = ys.length then .ok (List.zipWith (· * ·) xs ys)
  else
    match xs, ys with
    | [x], ys => .ok (ys.map (x * ·))
    | xs, [y] => .ok (xs.map (· * y))
    | _, _ => .error (.runtimeError
        "The size of tensor a must match the size of tensor b")

theorem mulRow_of_length_eq {xs ys : List Nat}
    (h : xs.length = ys.length) :
    mulRow xs ys = .ok (List.zipWith (· * ·) xs ys) :=
  if_pos h

/-- `_compute_score` -/
def computeScore (worker : AgentLoopWorker κ ν σ) (rewardScore : Option σ)
    (request : RewardRequest κ) : Py (Option σ × PyDict ν) :=
  match rewardScore, worker.rewardLoop with
  | none, some rewardLoop => do
      let result ← rewardLoop request
      return (some result.1, result.2)
  | _, _ => .ok (rewardScore, .empty)

/-- `int(target_response_length or self.rollout_config.response_length)` -/
def AgentLoopWorker.paddedLength (worker : AgentLoopWorker κ ν σ)
    (targetResponseLength : Nat) : Nat :=
  if targetResponseLength = 0 then worker.responseLength
  else targetResponseLength

/-- `_agent_loop_postprocess` -/
def agentLoopPostprocess [Zero π] (worker : AgentLoopWorker κ ν σ)
    (sample : Sample κ π ι σ) : Py (InternalAgentLoopOutput ν π σ) := do
  let output := sample.output
  let targetResponseLength :=
    worker.paddedLength sample.targetResponseLength
  let targetPromptLength := sample.promptLength.getD worker.promptLength
  let promptIds := pyTakeLast output.promptIds targetPromptLength
  let promptOutput ←
    asRow (worker.tokenizer.pad .left promptIds targetPromptLength)
  let responseOutput ← asRow
    (worker.tokenizer.pad .right output.responseIds targetResponseLength)
  -- the mask is padded as if it were token ids
  let responseMaskOutput ← asRow
    (worker.tokenizer.pad .right output.responseMask targetResponseLength)
  let responseLogprobs := output.responseLogprobs.map fun logProbs =>
    logProbs ++ List.replicate (targetResponseLength - logProbs.length) 0
  let responseMask ← mulRow responseMaskOutput.1 responseOutput.2
  let attentionMask := promptOutput.2 ++ responseOutput.2
  let inputIds := promptOutput.1 ++ responseOutput.1
  let positionIds :=
    computePositionIdWithMask (attentionMask.map (· != 0))
  let (rewardScore, rewardExtraInfo) ← computeScore worker
    output.rewardScore ⟨promptOutput.1, responseOutput.1, attentionMask,
      inputIds, positionIds, sample.kwargs, output.numTurns⟩
  return {
    promptIds := promptOutput.1
    responseIds := responseOutput.1
    inputIds, positionIds, responseMask, attentionMask, responseLogprobs
    rewardScore, rewardExtraInfo
    numTurns := output.numTurns
    turnScores := output.turnScores
    toolRewards := output.toolRewards }

/-- `torch.cat(rows, dim=0)` of tensors with one row -/
def catRows (rows : List (List α)) : Py (List (List α)) :=
  match rows with
  | [] => .error (.runtimeError
      "torch.cat(): expected a non-empty list of Tensors")
  | first :: rest =>
      if ∀ row ∈ rest, row.length = first.length then .ok rows
      else .error (.runtimeError
        "Sizes of tensors must match except in dimension 0")

/-- `torch.cat` of log-probs, of which one may be `None`. -/
def catLogprobs (inputs : List (InternalAgentLoopOutput ν π σ)) :
    Py (Option (List (List π))) :=
  match inputs.head?.bind InternalAgentLoopOutput.responseLogprobs with
  | none => .ok none
  | some _ => do
      let rows ← inputs.mapM fun input =>
        match input.responseLogprobs with
        | none => .error (.typeError "expected Tensor as element of cat")
        | some row => .ok row
      some <$> catRows rows

/-- Zeros with the score at one position -/
def scoreRow [Zero σ] (width position : Nat) (score : σ) : List σ :=
  (List.replicate width 0).set position score

/-- A row of `rm_scores`: the score is at the last attended position of the
response; position -1 is the last one. -/
def rmScoreRow [Zero σ] (width attended : Nat) (score : σ) : Py (List σ) :=
  let position : Int := attended - 1
  let position := if position < 0 then position + width else position
  if 0 ≤ position ∧ position < width then
    .ok (scoreRow width position.toNat score)
  else .error .indexError

def rmScoreRows [Zero σ] (promptLength : Nat)
    (inputs : List (InternalAgentLoopOutput ν π σ)) :
    Py (Option (List (List σ))) :=
  if inputs.all fun input => input.rewardScore.isSome then
    some <$> inputs.mapM fun input =>
      rmScoreRow input.responseMask.length
        (input.attentionMask.drop promptLength).sum
        (input.rewardScore.getD 0)
  else .ok none

/-- `_postprocess` -/
def postprocess [Zero σ] (inputs : List (InternalAgentLoopOutput ν π σ)) :
    Py (AgentLoopBatch ν π σ) := do
  let prompts ← catRows (inputs.map InternalAgentLoopOutput.promptIds)
  let responses ← catRows (inputs.map InternalAgentLoopOutput.responseIds)
  let responseMask ←
    catRows (inputs.map InternalAgentLoopOutput.responseMask)
  let attentionMask ←
    catRows (inputs.map InternalAgentLoopOutput.attentionMask)
  let inputIds ← catRows (inputs.map InternalAgentLoopOutput.inputIds)
  let positionIds ← catRows (inputs.map InternalAgentLoopOutput.positionIds)
  let rolloutLogProbs ← catLogprobs inputs
  let rmScores ← rmScoreRows (prompts.headD []).length inputs
  let rewardExtraInfo ← ((inputs.head?.map
    InternalAgentLoopOutput.rewardExtraInfo).getD .empty).mapEntriesM
      fun key _ => inputs.mapM fun input => input.rewardExtraInfo.get key
  return {
    prompts, responses, responseMask, inputIds, attentionMask, positionIds
    rolloutLogProbs, rmScores, rewardExtraInfo
    numTurns := inputs.map InternalAgentLoopOutput.numTurns
    turnScores := inputs.map InternalAgentLoopOutput.turnScores
    toolRewards := inputs.map InternalAgentLoopOutput.toolRewards }

/-- `generate_sequences` once the agent loops have returned. -/
def finishSequences [Zero π] [Zero σ] (worker : AgentLoopWorker κ ν σ)
    (samples : List (Sample κ π ι σ)) : Py (AgentLoopBatch ν π σ) := do
  let inputs ← samples.mapM (agentLoopPostprocess worker)
  postprocess inputs

section Returns

variable [Ring σ]

/-- `torch.cumsum` from a running total -/
def runningSums : σ → List σ → List σ
  | _, [] => []
  | total, x :: xs => (total + x) :: runningSums (total + x) xs

/-- `token_level_rewards * response_mask` -/
def maskRewards (tokenLevelRewards : List σ) (responseMask : List Nat) :
    List σ :=
  List.zipWith (fun reward (mask : Nat) => reward * (mask : σ))
    tokenLevelRewards responseMask

/-- A row of `compute_remax_outcome_advantage`: the advantages and the
returns. -/
def computeRemaxOutcomeAdvantage (tokenLevelRewards : List σ)
    (rewardBaseline : σ) (responseMask : List Nat) : List σ × List σ :=
  let returns := (runningSums 0
    (maskRewards tokenLevelRewards responseMask).reverse).reverse
  (List.zipWith (fun ret (mask : Nat) => ret - rewardBaseline * (mask : σ))
    returns responseMask, returns)

theorem runningSums_append (total : σ) (xs ys : List σ) :
    runningSums total (xs ++ ys) =
      runningSums total xs ++ runningSums (total + xs.sum) ys := by
  induction xs generalizing total with
  | nil => simp [runningSums]
  | cons x xs ih => simp [runningSums, ih, add_assoc]

/-- The first return is the sum of the rewards the mask keeps. -/
theorem head?_returns {rewards : List σ} {mask : List Nat}
    (hsome : maskRewards rewards mask ≠ []) (baseline : σ) :
    (computeRemaxOutcomeAdvantage rewards baseline mask).2.head? =
      some (maskRewards rewards mask).sum := by
  obtain ⟨x, xs, hmasked⟩ := List.exists_cons_of_ne_nil hsome
  simp only [computeRemaxOutcomeAdvantage, hmasked]
  rw [List.reverse_cons, runningSums_append, List.reverse_append]
  simp [runningSums, List.sum_reverse, add_comm]

theorem getElem?_scoreRow (width position : Nat) (score : σ) (q : Nat) :
    (scoreRow width position score)[q]? =
      if q < width then some (if q = position then score else 0)
      else none := by
  rw [scoreRow, List.getElem?_set, List.length_replicate]
  rcases eq_or_ne position q with rfl | hne
  · simp
  · rw [if_neg hne, List.getElem?_replicate, if_neg hne.symm]

theorem sum_maskRewards_zeros (mask : List Nat) :
    (maskRewards (List.replicate mask.length (0 : σ)) mask).sum = 0 := by
  induction mask with
  | nil => rfl
  | cons m mask ih =>
      rw [maskRewards] at ih ⊢
      rw [List.length_cons, List.replicate_succ, List.zipWith_cons_cons,
        List.sum_cons, ih, zero_mul, add_zero]

/-- Only the position of the score counts. -/
theorem sum_maskRewards_scoreRow (score : σ) {position : Nat}
    {mask : List Nat} (hposition : position < mask.length) :
    (maskRewards (scoreRow mask.length position score) mask).sum =
      score * (mask[position] : σ) := by
  induction mask generalizing position with
  | nil => exact absurd hposition (Nat.not_lt_zero position)
  | cons m mask ih =>
      cases position with
      | zero =>
          have hzeros := sum_maskRewards_zeros (σ := σ) mask
          rw [maskRewards] at hzeros ⊢
          simp [scoreRow, List.replicate_succ, hzeros]
      | succ position =>
          have hrest := ih (Nat.lt_of_succ_lt_succ hposition)
          rw [maskRewards, scoreRow] at hrest ⊢
          simp [List.replicate_succ, hrest]

/-- The score stands on one position, the model is trained on it, and the
return of the whole response is the score. -/
structure RewardSeen (responseMask : List Nat) (rmScores : List σ)
    (score : σ) : Prop where
  lands : ∃ p : Nat, responseMask[p]? = some 1 ∧
    rmScores[p]? = some score ∧
    ∀ (q : Nat) (stored : σ), q ≠ p → rmScores[q]? = some stored →
      stored = 0
  fullReturn : ∀ baseline : σ, (computeRemaxOutcomeAdvantage rmScores
    baseline responseMask).2.head? = some score

/-- A score on one position of a row is seen if the position is trained on, or
if it is zero and some other position is. -/
theorem rewardSeen_scoreRow_iff {mask : List Nat} {position : Nat}
    (hposition : position < mask.length) (score : σ) :
    RewardSeen mask (scoreRow mask.length position score) score ↔
      1 ∈ mask ∧ (score = 0 ∨ mask[position] = 1) := by
  have hset : (scoreRow mask.length position score)[position]? =
      some score := by
    rw [getElem?_scoreRow, if_pos hposition, if_pos rfl]
  constructor
  · intro hseen
    obtain ⟨p, hp, hstored, hother⟩ := hseen.lands
    refine ⟨List.mem_of_getElem? hp, ?_⟩
    rcases eq_or_ne position p with rfl | hne
    · exact .inr (List.getElem?_eq_some_iff.mp hp).2
    · exact .inl (hother position score hne hset)
  · rintro ⟨hmem, hscore⟩
    obtain ⟨p, hp, hat⟩ : ∃ p : Nat, mask[p]? = some 1 ∧
        (score = 0 ∨ p = position) := by
      rcases hscore with hzero | hone
      · obtain ⟨p, hp⟩ := List.mem_iff_getElem?.mp hmem
        exact ⟨p, hp, .inl hzero⟩
      · exact ⟨position, List.getElem?_eq_some_iff.mpr ⟨hposition, hone⟩,
          .inr rfl⟩
    have hwidth : p < mask.length := (List.getElem?_eq_some_iff.mp hp).1
    refine ⟨⟨p, hp, ?_, ?_⟩, fun baseline => ?_⟩
    · rw [getElem?_scoreRow, if_pos hwidth]
      rcases hat with hzero | rfl
      · rw [hzero, ite_self]
      · rw [if_pos rfl]
    · intro q stored hne hstored
      rw [getElem?_scoreRow] at hstored
      split at hstored
      · cases hstored
        rcases hat with hzero | rfl
        · rw [hzero, ite_self]
        · rw [if_neg hne]
      · cases hstored
    · have hsome : maskRewards (scoreRow mask.length position score) mask ≠
          [] := by
        apply List.ne_nil_of_length_pos
        rw [maskRewards, List.length_zipWith, scoreRow, List.length_set,
          List.length_replicate, min_self]
        exact Nat.zero_lt_of_lt hposition
      rw [head?_returns hsome, sum_maskRewards_scoreRow score hposition]
      rcases hscore with hzero | hone
      · rw [hzero, zero_mul]
      · rw [hone, Nat.cast_one, mul_one]

/-- The batch has a row of `rm_scores` for the sample, and its score is
seen. -/
def AgentLoopBatch.RewardSeenAt (batch : AgentLoopBatch ν π σ) (i : Nat)
    (score : σ) : Prop :=
  ∃ rmScores row mask, batch.rmScores = some rmScores ∧
    rmScores[i]? = some row ∧ batch.responseMask[i]? = some mask ∧
    RewardSeen mask row score

theorem AgentLoopBatch.rewardSeenAt_rows {batch : AgentLoopBatch ν π σ}
    {rmScores : List (List σ)} {i : Nat} {row : List σ} {mask : List Nat}
    (hscores : batch.rmScores = some rmScores) (hrow : rmScores[i]? = some row)
    (hmask : batch.responseMask[i]? = some mask) {score : σ} :
    batch.RewardSeenAt i score ↔ RewardSeen mask row score := by
  constructor
  · rintro ⟨rmScores', row', mask', hscores', hrow', hmask', hseen⟩
    rw [hscores] at hscores'
    cases hscores'
    rw [hrow] at hrow'
    cases hrow'
    rw [hmask] at hmask'
    cases hmask'
    exact hseen
  · exact fun hseen => ⟨rmScores, row, mask, hscores, hrow, hmask, hseen⟩

end Returns

section Rows

theorem asRow_eq_ok {padded : Option (List Nat × List Nat)}
    {row : List Nat × List Nat} : asRow padded = .ok row ↔ padded = some row := by
  cases padded <;> simp [asRow]

/-- A row the tokenizer pads on the right. -/
theorem PaddingTokenizer.pad_right_eq_some {tokenizer : PaddingTokenizer}
    {ids : List Nat} {maxLength : Nat} {row : List Nat × List Nat}
    (h : tokenizer.pad .right ids maxLength = some row) :
    ids ≠ [] ∧
      row = (ids ++ List.replicate (maxLength - ids.length)
          tokenizer.padTokenId,
        List.replicate ids.length 1 ++
          List.replicate (maxLength - ids.length) 0) := by
  have hids : ids ≠ [] := by
    rintro rfl
    rw [tokenizer.pad_nil] at h
    cases h
  rw [tokenizer.pad_right ids maxLength hids, Option.some.injEq] at h
  exact ⟨hids, h.symm⟩

/-- On the left both rows of the prompt get the same width. -/
theorem PaddingTokenizer.length_pad_left {tokenizer : PaddingTokenizer}
    {ids : List Nat} {maxLength : Nat} {row : List Nat × List Nat}
    (h : tokenizer.pad .left ids maxLength = some row) :
    row.2.length = row.1.length := by
  have hids : ids ≠ [] := by
    rintro rfl
    rw [tokenizer.pad_nil] at h
    cases h
  rw [tokenizer.pad_left ids maxLength hids, Option.some.injEq] at h
  subst h
  simp

theorem zipWith_mul_replicate (mask : List Nat) (padTokenId padding : Nat) :
    List.zipWith (· * ·) (mask ++ List.replicate padding padTokenId)
        (List.replicate mask.length 1 ++ List.replicate padding 0) =
      mask ++ List.replicate padding 0 := by
  rw [List.zipWith_append (List.length_replicate ..).symm]
  congr 1
  · induction mask with
    | nil => rfl
    | cons m mask ih => simp [List.replicate_succ, ih]
  · simp

/-- The mask is padded with zeros, and the attended part of the response is
as long as the mask. -/
theorem agentLoopPostprocess_rows [Zero π] {worker : AgentLoopWorker κ ν σ}
    {sample : Sample κ π ι σ} {input : InternalAgentLoopOutput ν π σ}
    (hlength : sample.output.responseMask.length =
      sample.output.responseIds.length)
    (h : agentLoopPostprocess worker sample = .ok input) :
    sample.output.responseMask ≠ [] ∧
      ∃ padding, input.responseMask =
          sample.output.responseMask ++ List.replicate padding 0 ∧
        (input.attentionMask.drop input.promptIds.length).sum =
          sample.output.responseMask.length := by
  simp only [agentLoopPostprocess, bind_eq_ok] at h
  obtain ⟨promptOutput, hprompt, responseOutput, hresponse,
    responseMaskOutput, hmaskOutput, responseMask, hmask, score, -, heq⟩ := h
  cases heq
  rw [asRow_eq_ok] at hprompt hresponse hmaskOutput
  have hwidth := PaddingTokenizer.length_pad_left hprompt
  obtain ⟨-, rfl⟩ := PaddingTokenizer.pad_right_eq_some hresponse
  obtain ⟨hne, rfl⟩ := PaddingTokenizer.pad_right_eq_some hmaskOutput
  refine ⟨hne, worker.paddedLength sample.targetResponseLength -
    sample.output.responseMask.length, ?_, ?_⟩
  · dsimp only at hmask
    rw [mulRow_of_length_eq (by simp [hlength]), Except.ok.injEq,
      ← hlength, zipWith_mul_replicate] at hmask
    exact hmask.symm
  · dsimp only
    rw [← hwidth, List.drop_left, List.sum_append, List.sum_replicate,
      List.sum_replicate, hlength]
    simp

theorem catRows_eq_ok {rows rows' : List (List α)}
    (h : catRows rows = .ok rows') :
    rows' = rows ∧ ∀ row ∈ rows, row.length = (rows.headD []).length := by
  cases rows with
  | nil => cases h
  | cons first rest =>
      simp only [catRows] at h
      split at h
      · rename_i hall
        cases h
        exact ⟨rfl, List.forall_mem_cons.mpr ⟨rfl, hall⟩⟩
      · cases h

theorem postprocess_eq_ok [Zero σ]
    {inputs : List (InternalAgentLoopOutput ν π σ)}
    {batch : AgentLoopBatch ν π σ} (h : postprocess inputs = .ok batch) :
    batch.responseMask = inputs.map InternalAgentLoopOutput.responseMask ∧
      ∃ width, (∀ input ∈ inputs, input.promptIds.length = width) ∧
        rmScoreRows width inputs = .ok batch.rmScores := by
  simp only [postprocess, bind_eq_ok] at h
  obtain ⟨prompts, hprompts, responses, -, responseMask, hmask,
    attentionMask, -, inputIds, -, positionIds, -, logProbs, -, rmScores,
    hscores, extra, -, heq⟩ := h
  cases heq
  obtain ⟨rfl, hwidth⟩ := catRows_eq_ok hprompts
  refine ⟨(catRows_eq_ok hmask).1, _, fun input hinput => ?_, hscores⟩
  exact hwidth _ (List.mem_map_of_mem hinput)

/-- There are `rm_scores` when every input has its reward. -/
theorem rmScoreRows_eq_ok [Zero σ] {width : Nat}
    {inputs : List (InternalAgentLoopOutput ν π σ)}
    {rmScores : Option (List (List σ))}
    (h : rmScoreRows width inputs = .ok rmScores) :
    (¬ (∀ input ∈ inputs, input.rewardScore.isSome) ∧ rmScores = none) ∨
      (∀ input ∈ inputs, input.rewardScore.isSome) ∧
        ∃ rows, rmScores = some rows ∧
          List.Forall₂ (fun input row => rmScoreRow input.responseMask.length
            (input.attentionMask.drop width).sum
            (input.rewardScore.getD 0) = .ok row) inputs rows := by
  rw [rmScoreRows] at h
  split at h
  · rename_i hall
    rw [List.all_eq_true] at hall
    obtain ⟨rows, hrows, rfl⟩ := map_eq_ok.mp h
    exact .inr ⟨hall, rows, rfl, mapM_eq_ok_iff.mp hrows⟩
  · rename_i hall
    cases h
    rw [List.all_eq_true] at hall
    exact .inl ⟨hall, rfl⟩

/-- Attended tokens that fit into the row put the score at the last of
them. -/
theorem rmScoreRow_of_le [Zero σ] {width attended : Nat}
    (hpos : 0 < attended) (hle : attended ≤ width) (score : σ) :
    rmScoreRow width attended score =
      .ok (scoreRow width (attended - 1) score) := by
  have hposition : ¬ (attended : Int) - 1 < 0 := by omega
  have hcast : ((attended : Int) - 1).toNat = attended - 1 := by omega
  rw [rmScoreRow, if_neg hposition, hcast, if_pos (by omega)]

end Rows

section Batch

variable [Zero π]

/-- The trajectories of the two agent loops, with the length their response is
cut to. -/
inductive FinishedRun : Trajectory τ π → Nat → AgentLoopOutput τ π ι σ → Prop
  | singleTurn (targetResponseLength : Nat) (images : Option (List ι))
      (promptIds : List τ) (output : TokenOutput τ π) :
      FinishedRun ⟨promptIds, generatedEntries output⟩ targetResponseLength
        (singleTurnAgentLoop targetResponseLength images promptIds output)
  | toolAgent {cfg : AgentConfig} {images : Option (List ι)}
      {turns : List (Turn τ π ι σ)} {data : AgentData τ π ι σ}
      (hrun : (toolAgentLoop cfg images).exec
        (toolAgentLoop cfg images).initial turns =
          some (data, .terminated)) :
      FinishedRun (trajectory cfg turns) cfg.responseLength
        (finalizeOutput cfg data)

/-- Both loops return the mask of the part of the trajectory they keep. -/
theorem FinishedRun.response {t : Trajectory τ π} {limit : Nat}
    {output : AgentLoopOutput τ π ι σ} (hfinished : FinishedRun t limit output)
    (hrecorded : t.entries ≠ []) :
    output.responseMask = (t.entries.take limit).map Recorded.mask ∧
      output.responseMask.length = output.responseIds.length := by
  cases hfinished with
  | singleTurn images promptIds output =>
      refine ⟨?_, by simp [singleTurnAgentLoop]⟩
      rw [List.map_take, map_mask_generatedEntries]
      rfl
  | @toolAgent cfg images turns data hrun =>
      have hrecords := run_records hrun
      have hmask := hrecords.finalizeOutput_responseMask cfg
      refine ⟨by rw [hmask, List.map_take], ?_⟩
      rw [hmask, hrecords.finalizeOutput_responseIds (.inl hrecorded)]
      simp

/-- The reward of a sample: its own, or the one a reward worker gives. -/
def AgentLoopWorker.rewardOf (worker : AgentLoopWorker κ ν σ)
    (sample : Sample κ π ι σ) : Py (Option σ) :=
  InternalAgentLoopOutput.rewardScore <$> agentLoopPostprocess worker sample

theorem forall_rewardOf_iff {worker : AgentLoopWorker κ ν σ}
    {samples : List (Sample κ π ι σ)}
    {inputs : List (InternalAgentLoopOutput ν π σ)}
    (hinputs : List.Forall₂ (fun sample input =>
      agentLoopPostprocess worker sample = .ok input) samples inputs) :
    (∀ sample ∈ samples, ∃ reward, worker.rewardOf sample =
        .ok (some reward)) ↔
      ∀ input ∈ inputs, input.rewardScore.isSome := by
  induction hinputs with
  | nil => simp
  | cons hsample hrest ih =>
      rw [List.forall_mem_cons, List.forall_mem_cons, ih,
        AgentLoopWorker.rewardOf, hsample]
      simp [Functor.map, Except.map, Option.isSome_iff_exists]

omit [Zero π] in
/-- The last entry of the unpadded part of a mask. -/
theorem getElem_last_mask_iff {kept : List (Recorded τ π)} (padding : Nat)
    (hlast : kept.length - 1 <
      (kept.map Recorded.mask ++ List.replicate padding 0).length)
    (hkept : kept ≠ []) :
    (kept.map Recorded.mask ++ List.replicate padding 0)[kept.length - 1] =
        1 ↔ ∃ entry ∈ kept.getLast?, entry.mask = 1 := by
  have hpos : kept.length - 1 < kept.length :=
    Nat.sub_one_lt_of_lt (List.length_pos_of_ne_nil hkept)
  rw [List.getElem_append_left (by rwa [List.length_map]), List.getElem_map,
    List.getLast?_eq_getElem?, List.getElem?_eq_getElem hpos]
  simp

variable [Ring σ]

omit [Zero π] in
/-- A score at the last of the tokens that are kept. -/
theorem rewardSeen_kept_iff {kept : List (Recorded τ π)} (hkept : kept ≠ [])
    (padding : Nat) (score : σ) :
    RewardSeen (kept.map Recorded.mask ++ List.replicate padding 0)
        (scoreRow (kept.map Recorded.mask ++
          List.replicate padding 0).length (kept.length - 1) score) score ↔
      (∃ entry ∈ kept, entry.mask = 1) ∧
        (score = 0 ∨ ∃ entry ∈ kept.getLast?, entry.mask = 1) := by
  have hlast : kept.length - 1 <
      (kept.map Recorded.mask ++ List.replicate padding 0).length := by
    rw [List.length_append, List.length_map]
    exact Nat.lt_add_right _
      (Nat.sub_one_lt_of_lt (List.length_pos_of_ne_nil hkept))
  have hmem : 1 ∈ kept.map Recorded.mask ++ List.replicate padding 0 ↔
      ∃ entry ∈ kept, entry.mask = 1 := by
    simp
  rw [rewardSeen_scoreRow_iff hlast, getElem_last_mask_iff padding hlast hkept,
    hmem]

/-- The score of a finished trajectory is seen exactly when every sample has a
score, a generated token is kept, and the last token that is kept is one,
unless the score is zero. -/
theorem rewardSeenAt_iff {worker : AgentLoopWorker κ ν σ}
    {samples : List (Sample κ π ι σ)} {batch : AgentLoopBatch ν π σ}
    (hbatch : finishSequences worker samples = .ok batch)
    {i : Nat} {sample : Sample κ π ι σ} (hsample : samples[i]? = some sample)
    {t : Trajectory Nat π} {limit : Nat}
    (hfinished : FinishedRun t limit sample.output)
    (hgenerated : ∃ entry ∈ t.entries, entry.mask = 1)
    {score : σ} (hscore : worker.rewardOf sample = .ok (some score)) :
    batch.RewardSeenAt i score ↔
      (∀ other ∈ samples, ∃ reward, worker.rewardOf other =
        .ok (some reward)) ∧
      (∃ entry ∈ t.entries.take limit, entry.mask = 1) ∧
      (score = 0 ∨
        ∃ entry ∈ (t.entries.take limit).getLast?, entry.mask = 1) := by
  obtain ⟨inputs, hinputs, hpost⟩ := bind_eq_ok.mp hbatch
  rw [mapM_eq_ok_iff] at hinputs
  obtain ⟨input, hinput, hsampleOk⟩ := getElem?_of_forall₂ hinputs hsample
  have hreward : input.rewardScore = some score := by
    obtain ⟨input', hinput', hreward⟩ := map_eq_ok.mp hscore
    rw [hsampleOk] at hinput'
    cases hinput'
    exact hreward
  have hrecorded : t.entries ≠ [] := by
    rintro hempty
    rw [hempty] at hgenerated
    simp at hgenerated
  obtain ⟨hmask, hlength⟩ := hfinished.response hrecorded
  obtain ⟨hne, padding, hpadded, hattended⟩ :=
    agentLoopPostprocess_rows hlength hsampleOk
  obtain ⟨hmasks, width, hwidth, hscores⟩ := postprocess_eq_ok hpost
  rw [forall_rewardOf_iff hinputs]
  rcases rmScoreRows_eq_ok hscores with ⟨hmissing, hnone⟩ |
    ⟨hall, rows, hrows, hforall⟩
  · refine iff_of_false ?_ fun h => hmissing h.1
    rintro ⟨rmScores, -, -, hsome, -⟩
    rw [hnone] at hsome
    cases hsome
  · obtain ⟨row, hrow, hrowOk⟩ := getElem?_of_forall₂ hforall hinput
    rw [← hwidth input (List.mem_of_getElem? hinput), hattended, hreward]
      at hrowOk
    have hkept : t.entries.take limit ≠ [] := by
      rintro hempty
      rw [hmask, hempty] at hne
      exact hne rfl
    have hpos : 0 < sample.output.responseMask.length :=
      List.length_pos_of_ne_nil hne
    have hle : sample.output.responseMask.length ≤
        input.responseMask.length := by
      rw [hpadded, List.length_append]
      exact Nat.le_add_right ..
    have hmaskRow : batch.responseMask[i]? = some input.responseMask := by
      rw [hmasks, List.getElem?_map, hinput, Option.map_some]
    rw [rmScoreRow_of_le hpos hle, Except.ok.injEq, Option.getD_some,
      hpadded, hmask, List.length_map] at hrowOk
    rw [AgentLoopBatch.rewardSeenAt_rows hrows hrow hmaskRow, ← hrowOk,
      and_iff_right hall, hpadded, hmask, rewardSeen_kept_iff hkept]

end Batch

section Runs

def zeroPadding : PaddingTokenizer where
  padTokenId := 0
  pad side ids maxLength :=
    let zeros := List.replicate (maxLength - ids.length) 0
    let ones := List.replicate ids.length 1
    match ids, side with
    | [], _ => none
    | ids, .left => some (zeros ++ ids, zeros ++ ones)
    | ids, .right => some (ids ++ zeros, ones ++ zeros)
  pad_nil _ _ := rfl
  pad_left ids maxLength hids := by
    cases ids with
    | nil => exact absurd rfl hids
    | cons id ids => rfl
  pad_right ids maxLength hids := by
    cases ids with
    | nil => exact absurd rfl hids
    | cons id ids => rfl

/-- Every sample gets the score 1. -/
def oneForAll : AgentLoopWorker Unit Nat Int where
  tokenizer := zeroPadding
  promptLength := 3
  responseLength := 5
  rewardLoop := some fun _ => .ok (1, .empty)

/-- A user message stands between two generations. -/
def endsGenerated : List (Turn Nat Nat Nat Int) :=
  [.prompt [1, 2], .generate ⟨[3], none⟩ 0, .interact ⟨false, none, [4]⟩,
    .generate ⟨[5, 6, 7], none⟩ 0]

def generatedLast : AgentData Nat Nat Nat Int :=
  ⟨none, [1, 2, 3, 4, 5, 6, 7], [5, 6, 7], [1, 0, 1, 1, 1], [], [], [], 1, 2,
    0⟩

def generatedLastSample : Sample Unit Nat Nat Int :=
  ⟨finalizeOutput interactive generatedLast, 5, none, ()⟩

theorem rewardSeenAt_iff_generatedLast :
    ∃ batch, finishSequences oneForAll [generatedLastSample] = .ok batch ∧
      batch.RewardSeenAt 0 1 := by
  obtain ⟨batch, hbatch⟩ := exists_of_isOk
    (show (finishSequences oneForAll [generatedLastSample]).isOk = true by
      decide +kernel)
  have hfinished : FinishedRun (trajectory interactive endsGenerated) 5
      generatedLastSample.output :=
    .toolAgent (show (toolAgentLoop interactive none).exec
      (toolAgentLoop interactive none).initial endsGenerated =
        some (generatedLast, .terminated) from rfl)
  refine ⟨batch, hbatch, (rewardSeenAt_iff hbatch rfl hfinished
    ⟨.generated 3 none, by decide +kernel, rfl⟩ rfl).mpr ?_⟩
  refine ⟨?_, ⟨.generated 3 none, by decide +kernel, rfl⟩, .inr
    ⟨.generated 7 none, by decide +kernel, rfl⟩⟩
  intro other hother
  rw [List.mem_singleton] at hother
  rw [hother]
  exact ⟨1, rfl⟩

/-- The interaction ends the conversation with a message. -/
def endsObserved : List (Turn Nat Nat Nat Int) :=
  [.prompt [1, 2], .generate ⟨[3], none⟩ 0, .interact ⟨true, none, [4]⟩]

def observedLast : AgentData Nat Nat Nat Int :=
  ⟨none, [1, 2, 3, 4], [3], [1, 0], [], [], [], 1, 1, 0⟩

def observedLastSample : Sample Unit Nat Nat Int :=
  ⟨finalizeOutput interactive observedLast, 5, none, ()⟩

/-- The score stands on the message, which the model is not trained on. -/
theorem rewardSeenAt_fails :
    FinishedRun (trajectory interactive endsObserved) 5
        observedLastSample.output ∧
      (∃ entry ∈ (trajectory interactive endsObserved).entries,
        entry.mask = 1) ∧
      oneForAll.rewardOf observedLastSample = .ok (some 1) ∧
      ∃ batch, finishSequences oneForAll [observedLastSample] = .ok batch ∧
        ¬ batch.RewardSeenAt 0 1 := by
  refine ⟨.toolAgent (show (toolAgentLoop interactive none).exec
    (toolAgentLoop interactive none).initial endsObserved =
      some (observedLast, .terminated) from rfl),
    ⟨.generated 3 none, by decide +kernel, rfl⟩, rfl, _, rfl, ?_⟩
  rintro ⟨rmScores, row, mask, hscores, hrow, hmask, hseen⟩
  cases hscores
  cases hrow
  cases hmask
  exact absurd (hseen.fullReturn 0) (by decide +kernel)

end Runs

end SelfDistillation
