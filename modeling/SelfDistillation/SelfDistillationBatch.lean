/-
`_maybe_build_self_distillation_batch` (verl/trainer/ppo/ray_trainer.py): the
teacher prompts, their masks and where the inserted texts come from.
-/
import SelfDistillation.Library.ExactNum
import SelfDistillation.PyText

namespace SelfDistillation

open ExactNum

variable {F U V : Type} {n : Nat}

structure Message where
  role : Text
  content : Text
deriving DecidableEq

/-- An entry of the expert answer column: missing, `str` of a value, or the
`str` of every item of a list. -/
inductive ExpertAnswer
  | missing
  | value (s : Text)
  | items (ss : List Text)

/-- An entry of a list in `reward_extra_infos_dict`. -/
inductive ExtraInfo
  | text (s : Text)
  | other
deriving DecidableEq

/-- The fields of the self-distillation config the batch is built with. -/
structure RepromptConfig (F : Type) where
  successRewardThreshold : F
  maxRepromptLen : Nat := 10240
  dontRepromptOnSelfSuccess : Bool := false
  removeThinkingFromDemonstration : Bool := false
  repromptTemplate : Text :=
    "{prompt}{solution}{feedback}\n\nCorrectly solve the original question.\n".toList
  solutionTemplate : Text :=
    "\nCorrect solution:\n\n{successful_previous_attempt}\n\n".toList
  feedbackTemplate : Text :=
    "\nThe following is feedback from your unsuccessful earlier attempt:\n\n{feedback_raw}\n\n".toList
  includeEnvironmentFeedback : Bool := false
  environmentFeedbackOnlyWithoutSolution : Bool := false
  useDatasetExpertAnswer : Bool := false
  expertAnswerColumn : String := "answer"
  expertAnswerTemplate : Text := "<answer>{expert_answer}</answer>".toList
  skipDistillationOnCorrect : Bool := false
  alwaysApplyReprompt : Bool := false

/-- The columns of the rollout batch, for `n` samples with tokens in `V`. -/
structure RolloutBatch (U V : Type) (n : Nat) where
  rawPrompt : Option (Fin n → List Message)
  uid : Fin n → U
  responses : Fin n → List V
  responseMask : Fin n → List Bool
  expertColumns : PyDict (Fin n → ExpertAnswer) := PyDict.empty

/-- The tokenizer: `apply_chat_template` pads, and returns the token ids and
the attention mask of every conversation. -/
structure Tokenizer (V : Type) where
  decode : List V → Text
  render : {n : Nat} → (Fin n → List Message) → Fin n → Text
  applyChatTemplate : {n : Nat} → (Fin n → List Message) → Nat →
    Fin n → List V × List Bool

/-- `_collect_feedback` -/
def collectFeedback (includeEnvironmentFeedback : Bool)
    (rewardExtraInfosDict : Option (PyDict (List ExtraInfo))) (i : Fin n) :
    Option Text :=
  match includeEnvironmentFeedback, rewardExtraInfosDict with
  | true, some infos =>
      let rawFeedback := (infos.get? "feedback").getD []
      match rawFeedback[i.val]? with
      | some (.text s) => if s ≠ [] ∧ strip s ≠ [] then some s else none
      | _ => none
  | _, _ => none

section Solutions

variable [LinearOrder F] [DecidableEq U]

/-- The loop body of `_collect_solutions_by_uid`. -/
def appendSuccess (uid : Fin n → U) (seqScores : Fin n → F) (threshold : F)
    (successByUid : U → List (Fin n)) (idx : Fin n) : U → List (Fin n) :=
  if threshold ≤ seqScores idx then
    Function.update successByUid (uid idx) (successByUid (uid idx) ++ [idx])
  else successByUid

/-- `_collect_solutions_by_uid`; a `defaultdict(list)` is empty elsewhere. -/
def collectSolutionsByUid (uid : Fin n → U) (seqScores : Fin n → F)
    (successRewardThreshold : F) : U → List (Fin n) :=
  (List.finRange n).foldl (appendSuccess uid seqScores successRewardThreshold)
    fun _ => []

end Solutions

/-- `_get_solution` -/
def getSolution (idx : Fin n) (successByUid : U → List (Fin n))
    (uids : Fin n → U) (responseTexts : Fin n → Text)
    (dontRepromptOnSelfSuccess removeThinkingFromDemonstration : Bool) :
    Option Text :=
  let solutionIdxs := successByUid (uids idx)
  let solutionIdxs := if dontRepromptOnSelfSuccess then
    solutionIdxs.filter (· ≠ idx) else solutionIdxs
  match solutionIdxs with
  | [] => none
  | j :: _ => some (if removeThinkingFromDemonstration then
      removeThinkingTrace (responseTexts j) else responseTexts j)

/-- `_get_expert_solution` -/
def getExpertSolution (batch : RolloutBatch U V n) (cfg : RepromptConfig F)
    (idx : Fin n) : Option Text :=
  match batch.expertColumns.get? cfg.expertAnswerColumn with
  | none => none
  | some column =>
      let filled := fun answer : Text =>
        if strip answer = [] then none
        else some (replaceAll "{expert_answer}".toList answer
          cfg.expertAnswerTemplate)
      match column idx with
      | .missing => none
      | .value s => filled s
      | .items ss => filled (" | ".toList.intercalate ss)

/-- What was collected before the teacher messages are built. -/
structure RepromptContext (U : Type) (n : Nat) where
  solutionStrs : Fin n → Option Text
  feedbackList : Fin n → Option Text
  successByUid : U → List (Fin n)

def collectContext [LinearOrder F] [DecidableEq U] (tokenizer : Tokenizer V)
    (cfg : RepromptConfig F) (batch : RolloutBatch U V n)
    (seqScores : Fin n → F)
    (rewardExtraInfosDict : Option (PyDict (List ExtraInfo))) :
    RepromptContext U n :=
  if cfg.useDatasetExpertAnswer then
    ⟨getExpertSolution batch cfg, fun _ => none, fun _ => []⟩
  else
    let successByUid := collectSolutionsByUid batch.uid seqScores
      cfg.successRewardThreshold
    ⟨fun i => getSolution i successByUid batch.uid
        (fun j => tokenizer.decode (batch.responses j))
        cfg.dontRepromptOnSelfSuccess cfg.removeThinkingFromDemonstration,
      collectFeedback cfg.includeEnvironmentFeedback rewardExtraInfosDict,
      successByUid⟩

/-- `messages[-1]["content"]` -/
def lastContent (messages : List Message) : Py Text :=
  match messages.getLast? with
  | none => .error .indexError
  | some message => .ok message.content

/-- `build_teacher_message`.  `format` is `str.format`. -/
def buildTeacherMessage (format : Text → List (String × Text) → Py Text)
    (cfg : RepromptConfig F) (context : RepromptContext U n)
    (rawPrompt : Fin n → List Message) (promptTexts : Fin n → Text)
    (i : Fin n) : Py (List Message) := do
  let systemMessages := (rawPrompt i).dropLast
  let hasSolution := (context.solutionStrs i).isSome
  let hasFeedback := (context.feedbackList i).isSome
  let useFeedback := hasFeedback &&
    (!cfg.environmentFeedbackOnlyWithoutSolution || !hasSolution)
  let solutionSection ← match context.solutionStrs i with
    | some solution =>
        format cfg.solutionTemplate [("successful_previous_attempt", solution)]
    | none => .ok []
  let feedbackSection ← match useFeedback, context.feedbackList i with
    | true, some feedback =>
        format cfg.feedbackTemplate [("feedback_raw", feedback)]
    | _, _ => .ok []
  let repromptText ←
    if hasSolution || useFeedback || cfg.alwaysApplyReprompt then
      format cfg.repromptTemplate [("prompt", promptTexts i),
        ("solution", solutionSection), ("feedback", feedbackSection)]
    else .ok (promptTexts i)
  return systemMessages ++ [⟨"user".toList, repromptText⟩]

/-- `torch.cumsum(mask, dim=-1)` from a running count -/
def cumsumFrom : Nat → List Bool → List Nat
  | _, [] => []
  | count, c :: mask =>
      (count + c.toNat) :: cumsumFrom (count + c.toNat) mask

/-- `compute_position_id_with_mask`: the truncated difference is
`torch.clip(cumsum - 1, min=0)`. -/
def computePositionIdWithMask (mask : List Bool) : List Nat :=
  (cumsumFrom 0 mask).map (· - 1)

/-- The tensors and objects of the batch that is returned. -/
structure TeacherBatch (V : Type) (n : Nat) where
  teacherInputIds : Fin n → List V
  teacherAttentionMask : Fin n → List Bool
  teacherPositionIds : Fin n → List Nat
  selfDistillationMask : Fin n → Bool
  correctMask : Fin n → Bool
  teacherMessages : Fin n → List Message

def countTrue (p : Fin n → Bool) : Nat := (List.finRange n).countP p

/-- `a / max(b, 1)` -/
def fraction (a b : Nat) : ℚ := a / (max b 1 : Nat)

/-- `feedback_used` -/
def feedbackUsed (cfg : RepromptConfig F) (context : RepromptContext U n)
    (i : Fin n) : Bool :=
  (context.feedbackList i).isSome &&
    (!cfg.environmentFeedbackOnlyWithoutSolution ||
      (context.solutionStrs i).isNone)

/-- `already_correct` -/
def alreadyCorrect [LinearOrder F] (cfg : RepromptConfig F)
    (seqScores : Fin n → F) (i : Fin n) : Bool :=
  decide (cfg.successRewardThreshold ≤ seqScores i)

/-- `self_distillation_mask`, a product of 0/1 factors. -/
def selfDistillationMask [LinearOrder F] (cfg : RepromptConfig F)
    (context : RepromptContext U n) (seqScores : Fin n → F) (i : Fin n) :
    Bool :=
  let mask := (context.solutionStrs i).isSome ||
    feedbackUsed cfg context i || cfg.alwaysApplyReprompt
  let skipOnCorrect :=
    cfg.useDatasetExpertAnswer && cfg.skipDistillationOnCorrect
  if skipOnCorrect then mask && !alreadyCorrect cfg seqScores i else mask

/-- `metrics` -/
def batchMetrics [LinearOrder F] [DecidableEq U] (cfg : RepromptConfig F)
    (context : RepromptContext U n) (uid : Fin n → U)
    (seqScores : Fin n → F) : List (String × Num ℚ) :=
  let uids := Finset.univ.image uid
  let withSolution := countTrue fun i => (context.solutionStrs i).isSome
  [("self_distillation/success_group_fraction",
      some (fraction
        (uids.filter fun u => 0 < (context.successByUid u).length).card
        uids.card)),
    ("self_distillation/success_sample_fraction",
      some (fraction withSolution n)),
    ("self_distillation/feedback_available_fraction",
      some (fraction
        (countTrue fun i => (context.feedbackList i).isSome) n)),
    ("self_distillation/feedback_used_fraction",
      some (fraction (countTrue (feedbackUsed cfg context)) n)),
    ("self_distillation/reprompt_sample_fraction",
      divide (countTrue (selfDistillationMask cfg context seqScores) : ℚ) n),
    ("self_distillation/already_correct_fraction",
      some (fraction (countTrue (alreadyCorrect cfg seqScores)) n)),
    ("self_distillation/expert_answer_fraction",
      some (if cfg.useDatasetExpertAnswer then fraction withSolution n
        else 0))]

/-- What the caller sees after the call: the new batch, the metrics, and
`reward_extra_infos_dict` with the rendered prompts. -/
structure BuildResult (V : Type) (n : Nat) where
  batch : TeacherBatch V n
  metrics : List (String × Num ℚ)
  rewardExtraInfosDict : Option (PyDict (List ExtraInfo))

/-- `_maybe_build_self_distillation_batch` -/
def maybeBuildSelfDistillationBatch [AddCommMonoid F] [LinearOrder F]
    [DecidableEq U] (format : Text → List (String × Text) → Py Text)
    (tokenizer : Tokenizer V) (selfDistillationCfg : Option (RepromptConfig F))
    (lossMode : String) (batch : RolloutBatch U V n)
    (rewardTensor : Fin n → List F)
    (rewardExtraInfosDict : Option (PyDict (List ExtraInfo))) :
    Py (Option (BuildResult V n)) :=
  match selfDistillationCfg with
  | none => .ok none
  | some cfg =>
      if lossMode ≠ "sdpo" then .ok none
      else match batch.rawPrompt with
      | none => .error
          (.valueError "SDPO requires raw_prompt in the training batch.")
      | some rawPrompt => do
          let promptTexts ← tabulateM fun i => lastContent (rawPrompt i)
          let seqScores := fun i => (rewardTensor i).sum
          let context := collectContext tokenizer cfg batch seqScores
            rewardExtraInfosDict
          let messages ← tabulateM
            (buildTeacherMessage format cfg context rawPrompt promptTexts)
          let infos := rewardExtraInfosDict.map fun infos =>
            infos.set "teacher_prompt" ((List.finRange n).map fun i =>
              ExtraInfo.text (tokenizer.render messages i))
          let teacherPrompt :=
            tokenizer.applyChatTemplate messages cfg.maxRepromptLen
          let attentionMask := fun i =>
            (teacherPrompt i).2 ++ batch.responseMask i
          return some {
            batch := {
              teacherInputIds := fun i =>
                (teacherPrompt i).1 ++ batch.responses i
              teacherAttentionMask := attentionMask
              teacherPositionIds := fun i =>
                computePositionIdWithMask (attentionMask i)
              selfDistillationMask :=
                selfDistillationMask cfg context seqScores
              correctMask := alreadyCorrect cfg seqScores
              teacherMessages := messages }
            metrics := batchMetrics cfg context batch.uid seqScores
            rewardExtraInfosDict := infos }

section Collected

variable [LinearOrder F] [DecidableEq U]

/-- Collecting over a list of indices keeps, for every uid, its successful
samples in order. -/
theorem foldl_appendSuccess (uid : Fin n → U) (seqScores : Fin n → F)
    (threshold : F) (idxs : List (Fin n)) (successByUid : U → List (Fin n))
    (u : U) :
    idxs.foldl (appendSuccess uid seqScores threshold) successByUid u =
      successByUid u ++ idxs.filter fun j =>
        decide (uid j = u) && decide (threshold ≤ seqScores j) := by
  induction idxs generalizing successByUid with
  | nil => simp
  | cons idx idxs ih =>
      rw [List.foldl_cons, ih, List.filter_cons, appendSuccess]
      by_cases hscore : threshold ≤ seqScores idx
      · by_cases huid : uid idx = u
        · subst huid
          simp [hscore]
        · simp [hscore, huid, Function.update_of_ne (Ne.symm huid)]
      · simp [hscore]

theorem mem_collectSolutionsByUid {uid : Fin n → U} {seqScores : Fin n → F}
    {threshold : F} {u : U} {j : Fin n} :
    j ∈ collectSolutionsByUid uid seqScores threshold u ↔
      uid j = u ∧ threshold ≤ seqScores j := by
  rw [collectSolutionsByUid, foldl_appendSuccess]
  simp

/-- The candidates `_get_solution` chooses from. -/
def candidates (idx : Fin n) (successByUid : U → List (Fin n))
    (uids : Fin n → U) (dontRepromptOnSelfSuccess : Bool) : List (Fin n) :=
  (successByUid (uids idx)).filter fun j =>
    !dontRepromptOnSelfSuccess || decide (j ≠ idx)

omit [DecidableEq U] in
theorem getSolution_eq (idx : Fin n) (successByUid : U → List (Fin n))
    (uids : Fin n → U) (responseTexts : Fin n → Text) (dont remove : Bool) :
    getSolution idx successByUid uids responseTexts dont remove =
      (candidates idx successByUid uids dont).head?.map fun j =>
        if remove then removeThinkingTrace (responseTexts j)
        else responseTexts j := by
  have hcandidates : (if dont then (successByUid (uids idx)).filter (· ≠ idx)
      else successByUid (uids idx)) =
      candidates idx successByUid uids dont := by
    cases dont <;> simp [candidates]
  simp only [getSolution, hcandidates]
  cases candidates idx successByUid uids dont <;> rfl

theorem collectFeedback_eq_some {included : Bool}
    {infos : Option (PyDict (List ExtraInfo))} {i : Fin n} {s : Text} :
    collectFeedback included infos i = some s ↔
      included = true ∧ (∃ d, infos = some d ∧
        ((d.get? "feedback").getD [])[i.val]? = some (.text s)) ∧
      ∃ c ∈ s, isSpace c = false := by
  rw [← strip_ne_nil_iff]
  unfold collectFeedback
  cases included with
  | false => simp
  | true =>
      cases infos with
      | none => simp
      | some d =>
          cases hraw : ((d.get? "feedback").getD [])[i.val]? with
          | none => simp [hraw]
          | some info =>
              cases info with
              | other => simp [hraw]
              | text s' =>
                  have hnil : strip ([] : Text) = [] := rfl
                  simp only [hraw]
                  by_cases hs : strip s' = []
                  · simp [hs]
                    grind
                  · have hne : s' ≠ [] := by
                      rintro rfl
                      exact hs hnil
                    simp [hs, hne]
                    grind

end Collected

section Rendered

variable {format : Text → List (String × Text) → Py Text}

/-- A template filled with a text, or nothing. -/
def filledSection (format : Text → List (String × Text) → Py Text)
    (template : Text) (field : String) : Option Text → Py Text
  | none => .ok []
  | some s => format template [(field, s)]

/-- The user message for a prompt into which a demonstration and a feedback
are inserted: it goes through the reprompt template if there is anything to
insert, or always. -/
def teacherContent (format : Text → List (String × Text) → Py Text)
    (cfg : RepromptConfig F) (prompt : Text)
    (demonstration feedback : Option Text) : Py Text :=
  if demonstration.isSome || feedback.isSome || cfg.alwaysApplyReprompt then do
    let solutionSection ← filledSection format cfg.solutionTemplate
      "successful_previous_attempt" demonstration
    let feedbackSection ← filledSection format cfg.feedbackTemplate
      "feedback_raw" feedback
    format cfg.repromptTemplate [("prompt", prompt),
      ("solution", solutionSection), ("feedback", feedbackSection)]
  else .ok prompt

/-- The feedback that is inserted for a sample. -/
def insertedFeedback (cfg : RepromptConfig F) (context : RepromptContext U n)
    (i : Fin n) : Option Text :=
  if feedbackUsed cfg context i then context.feedbackList i else none

theorem insertedFeedback_eq_some {cfg : RepromptConfig F}
    {context : RepromptContext U n} {i : Fin n} {s : Text} :
    insertedFeedback cfg context i = some s ↔
      context.feedbackList i = some s ∧
        (cfg.environmentFeedbackOnlyWithoutSolution = true →
          context.solutionStrs i = none) := by
  unfold insertedFeedback feedbackUsed
  cases context.feedbackList i with
  | none => simp
  | some s' =>
      cases cfg.environmentFeedbackOnlyWithoutSolution <;>
        cases context.solutionStrs i <;> simp

theorem insertedFeedback_isSome (cfg : RepromptConfig F)
    (context : RepromptContext U n) (i : Fin n) :
    (insertedFeedback cfg context i).isSome = feedbackUsed cfg context i := by
  unfold insertedFeedback feedbackUsed
  cases context.feedbackList i <;>
    cases cfg.environmentFeedbackOnlyWithoutSolution <;>
    cases context.solutionStrs i <;> rfl

/-- The message that is built is the one for the demonstration and the
feedback that the mask is computed from. -/
theorem buildTeacherMessage_eq_ok {cfg : RepromptConfig F}
    {context : RepromptContext U n} {rawPrompt : Fin n → List Message}
    {promptTexts : Fin n → Text} {i : Fin n} {messages : List Message}
    (h : buildTeacherMessage format cfg context rawPrompt promptTexts i =
      .ok messages) :
    ∃ content, teacherContent format cfg (promptTexts i)
        (context.solutionStrs i) (insertedFeedback cfg context i) =
          .ok content ∧
      messages = (rawPrompt i).dropLast ++ [⟨"user".toList, content⟩] := by
  have heq : buildTeacherMessage format cfg context rawPrompt promptTexts i =
      (fun content => (rawPrompt i).dropLast ++ [⟨"user".toList, content⟩]) <$>
        teacherContent format cfg (promptTexts i) (context.solutionStrs i)
          (insertedFeedback cfg context i) := by
    unfold buildTeacherMessage teacherContent insertedFeedback feedbackUsed
    cases context.solutionStrs i <;> cases context.feedbackList i <;>
      cases cfg.environmentFeedbackOnlyWithoutSolution <;>
      cases cfg.alwaysApplyReprompt <;>
      simp [filledSection, map_eq_bind_pure_comp, ok_bind]
  rw [heq, map_eq_ok] at h
  obtain ⟨content, hcontent, hmessages⟩ := h
  exact ⟨content, hcontent, hmessages.symm⟩

end Rendered

section Consistency

variable [LinearOrder F]

/-- A sample whose response may serve sample `i` as a demonstration. -/
def Eligible (cfg : RepromptConfig F) (batch : RolloutBatch U V n)
    (seqScores : Fin n → F) (i j : Fin n) : Prop :=
  batch.uid j = batch.uid i ∧ cfg.successRewardThreshold ≤ seqScores j ∧
    (cfg.dontRepromptOnSelfSuccess = true → j ≠ i)

/-- The text of a demonstration. -/
def demonstrationText (tokenizer : Tokenizer V) (cfg : RepromptConfig F)
    (batch : RolloutBatch U V n) (j : Fin n) : Text :=
  if cfg.removeThinkingFromDemonstration then
    removeThinkingTrace (tokenizer.decode (batch.responses j))
  else tokenizer.decode (batch.responses j)

/-- The string feedback of a sample. -/
def feedbackText (infos : Option (PyDict (List ExtraInfo))) (i : Fin n) :
    Option Text :=
  match infos.bind fun d => ((d.get? "feedback").getD [])[i.val]? with
  | some (.text s) => some s
  | _ => none

/-- The parts of a built batch fit together: `demonstration` and `feedback`
are what was inserted into the teacher messages, and a feedback text is
inserted when `mayInsert` says so. -/
structure BatchConsistent (format : Text → List (String × Text) → Py Text)
    (tokenizer : Tokenizer V) (cfg : RepromptConfig F)
    (batch : RolloutBatch U V n) (seqScores : Fin n → F)
    (infos : Option (PyDict (List ExtraInfo))) (built : TeacherBatch V n)
    (mayInsert : Text → Prop) (demonstration feedback : Fin n → Option Text) :
    Prop where
  rendered : ∀ i, ∃ rawPrompt prompt content,
    batch.rawPrompt = some rawPrompt ∧
    lastContent (rawPrompt i) = .ok prompt ∧
    teacherContent format cfg prompt (demonstration i) (feedback i) =
      .ok content ∧
    built.teacherMessages i =
      (rawPrompt i).dropLast ++ [⟨"user".toList, content⟩]
  mask_iff : ∀ i, built.selfDistillationMask i = true ↔
    ((demonstration i).isSome ∨ (feedback i).isSome ∨
      cfg.alwaysApplyReprompt = true) ∧
    ¬ (cfg.useDatasetExpertAnswer = true ∧
      cfg.skipDistillationOnCorrect = true ∧
      cfg.successRewardThreshold ≤ seqScores i)
  demonstration_expert : cfg.useDatasetExpertAnswer = true →
    demonstration = getExpertSolution batch cfg
  demonstration_eq : cfg.useDatasetExpertAnswer = false → ∀ i s,
    demonstration i = some s →
      ∃ j, Eligible cfg batch seqScores i j ∧
        s = demonstrationText tokenizer cfg batch j
  demonstration_absent : cfg.useDatasetExpertAnswer = false → ∀ i,
    demonstration i = none → ∀ j, ¬ Eligible cfg batch seqScores i j
  feedback_iff : ∀ i s, feedback i = some s ↔
    feedbackText infos i = some s ∧ mayInsert s ∧
      (cfg.environmentFeedbackOnlyWithoutSolution = true →
        demonstration i = none)
  response_suffix : ∀ i, batch.responses i <:+ built.teacherInputIds i

/-- When a feedback text is inserted at all: the feedback is asked for, no
expert answers replace it, and the text is not blank. -/
def MayInsert (cfg : RepromptConfig F) (s : Text) : Prop :=
  cfg.includeEnvironmentFeedback = true ∧ cfg.useDatasetExpertAnswer = false ∧
    ∃ c ∈ s, isSpace c = false

theorem selfDistillationMask_iff (cfg : RepromptConfig F)
    (context : RepromptContext U n) (seqScores : Fin n → F) (i : Fin n) :
    selfDistillationMask cfg context seqScores i = true ↔
      ((context.solutionStrs i).isSome ∨
        (insertedFeedback cfg context i).isSome ∨
        cfg.alwaysApplyReprompt = true) ∧
      ¬ (cfg.useDatasetExpertAnswer = true ∧
        cfg.skipDistillationOnCorrect = true ∧
        cfg.successRewardThreshold ≤ seqScores i) := by
  rw [insertedFeedback_isSome]
  unfold selfDistillationMask alreadyCorrect
  cases cfg.useDatasetExpertAnswer <;>
    cases cfg.skipDistillationOnCorrect <;>
    simp [or_assoc]

variable [DecidableEq U]

theorem solution_eligible {tokenizer : Tokenizer V} {cfg : RepromptConfig F}
    {batch : RolloutBatch U V n} {seqScores : Fin n → F}
    {infos : Option (PyDict (List ExtraInfo))}
    (hexpert : cfg.useDatasetExpertAnswer = false) (i : Fin n) :
    (∀ s, (collectContext tokenizer cfg batch seqScores infos).solutionStrs i =
      some s → ∃ j, Eligible cfg batch seqScores i j ∧
        s = demonstrationText tokenizer cfg batch j) ∧
    ((collectContext tokenizer cfg batch seqScores infos).solutionStrs i =
      none → ∀ j, ¬ Eligible cfg batch seqScores i j) := by
  have hmem : ∀ j, j ∈ candidates i
      (collectSolutionsByUid batch.uid seqScores cfg.successRewardThreshold)
      batch.uid cfg.dontRepromptOnSelfSuccess ↔
        Eligible cfg batch seqScores i j := by
    intro j
    rw [candidates, List.mem_filter, mem_collectSolutionsByUid, Eligible]
    cases cfg.dontRepromptOnSelfSuccess <;> simp [and_assoc]
  simp only [collectContext, hexpert, Bool.false_eq_true, if_false,
    getSolution_eq, Option.map_eq_some_iff, Option.map_eq_none_iff,
    List.head?_eq_none_iff]
  constructor
  · rintro s ⟨j, hj, rfl⟩
    exact ⟨j, (hmem j).mp (List.mem_of_head? hj), rfl⟩
  · intro hnil j hj
    rw [← hmem, hnil] at hj
    exact List.not_mem_nil hj

/-- The collected feedback of a sample is its own string, when it may be
inserted. -/
theorem collectContext_feedback_iff {tokenizer : Tokenizer V}
    {cfg : RepromptConfig F} {batch : RolloutBatch U V n}
    {seqScores : Fin n → F} {infos : Option (PyDict (List ExtraInfo))}
    {i : Fin n} {s : Text} :
    (collectContext tokenizer cfg batch seqScores infos).feedbackList i =
      some s ↔ feedbackText infos i = some s ∧ MayInsert cfg s := by
  have htext : feedbackText infos i = some s ↔ ∃ d, infos = some d ∧
      ((d.get? "feedback").getD [])[i.val]? = some (.text s) := by
    unfold feedbackText
    cases infos with
    | none => simp
    | some d =>
        simp only [Option.bind_some, Option.some.injEq, exists_eq_left']
        cases ((d.get? "feedback").getD [])[i.val]? with
        | none => simp
        | some info => cases info <;> simp
  unfold collectContext MayInsert
  cases cfg.useDatasetExpertAnswer with
  | true => simp
  | false =>
      simp only [Bool.false_eq_true, if_false, collectFeedback_eq_some, htext]
      tauto

/-- A batch is built of teacher messages rendered row by row. -/
theorem maybeBuildSelfDistillationBatch_eq_some [AddCommMonoid F]
    {format : Text → List (String × Text) → Py Text} {tokenizer : Tokenizer V}
    {cfg : RepromptConfig F} {lossMode : String} {batch : RolloutBatch U V n}
    {rewardTensor : Fin n → List F}
    {infos : Option (PyDict (List ExtraInfo))} {result : BuildResult V n}
    (h : maybeBuildSelfDistillationBatch format tokenizer (some cfg) lossMode
      batch rewardTensor infos = .ok (some result)) :
    ∃ rawPrompt promptTexts,
      batch.rawPrompt = some rawPrompt ∧
      (∀ i, lastContent (rawPrompt i) = .ok (promptTexts i)) ∧
      (∀ i, buildTeacherMessage format cfg
        (collectContext tokenizer cfg batch (fun i => (rewardTensor i).sum)
          infos) rawPrompt promptTexts i =
            .ok (result.batch.teacherMessages i)) ∧
      result.batch.selfDistillationMask =
        selfDistillationMask cfg
          (collectContext tokenizer cfg batch (fun i => (rewardTensor i).sum)
            infos) (fun i => (rewardTensor i).sum) ∧
      (∀ i, result.batch.teacherInputIds i =
        (tokenizer.applyChatTemplate result.batch.teacherMessages
          cfg.maxRepromptLen i).1 ++ batch.responses i) ∧
      (∀ i, result.batch.teacherAttentionMask i =
        (tokenizer.applyChatTemplate result.batch.teacherMessages
          cfg.maxRepromptLen i).2 ++ batch.responseMask i) ∧
      ∀ i, result.batch.teacherPositionIds i =
        computePositionIdWithMask (result.batch.teacherAttentionMask i) := by
  simp only [maybeBuildSelfDistillationBatch] at h
  split at h
  · simp at h
  · cases hraw : batch.rawPrompt with
    | none => simp [hraw] at h
    | some rawPrompt =>
        simp only [hraw, bind_eq_ok, tabulateM_eq_ok] at h
        obtain ⟨promptTexts, hprompt, messages, hmessages, hresult⟩ := h
        simp only [pure, Except.pure, Except.ok.injEq, Option.some.injEq]
          at hresult
        subst hresult
        exact ⟨rawPrompt, promptTexts, rfl, hprompt, hmessages, rfl,
          fun _ => rfl, fun _ => rfl, fun _ => rfl⟩

/-- In every batch that is built the mask, the messages, the choice of the
demonstrations and the feedback fit together. -/
theorem maybeBuildSelfDistillationBatch_consistent [AddCommMonoid F]
    {format : Text → List (String × Text) → Py Text} {tokenizer : Tokenizer V}
    {cfg : RepromptConfig F} {lossMode : String} {batch : RolloutBatch U V n}
    {rewardTensor : Fin n → List F}
    {infos : Option (PyDict (List ExtraInfo))} {result : BuildResult V n}
    (h : maybeBuildSelfDistillationBatch format tokenizer (some cfg) lossMode
      batch rewardTensor infos = .ok (some result)) :
    ∃ demonstration feedback, BatchConsistent format tokenizer cfg batch
      (fun i => (rewardTensor i).sum) infos result.batch (MayInsert cfg)
      demonstration feedback := by
  obtain ⟨rawPrompt, promptTexts, hraw, hprompt, hmessages, hmask, hids, -⟩ :=
    maybeBuildSelfDistillationBatch_eq_some h
  generalize hcontext : collectContext tokenizer cfg batch
    (fun i => (rewardTensor i).sum) infos = context at hmessages hmask
  refine ⟨context.solutionStrs, insertedFeedback cfg context, ?_⟩
  constructor
  case rendered =>
    intro i
    obtain ⟨content, hcontent, hmessage⟩ :=
      buildTeacherMessage_eq_ok (hmessages i)
    exact ⟨rawPrompt, promptTexts i, content, hraw, hprompt i, hcontent,
      hmessage⟩
  case mask_iff =>
    rw [hmask]
    exact selfDistillationMask_iff cfg context _
  case demonstration_expert =>
    intro hexpert
    rw [← hcontext, collectContext, if_pos hexpert]
  case demonstration_eq =>
    intro hexpert i s hs
    rw [← hcontext] at hs
    exact (solution_eligible hexpert i).1 s hs
  case demonstration_absent =>
    intro hexpert i hnone
    rw [← hcontext] at hnone
    exact (solution_eligible hexpert i).2 hnone
  case feedback_iff =>
    intro i s
    rw [insertedFeedback_eq_some, ← hcontext, collectContext_feedback_iff,
      and_assoc]
  case response_suffix =>
    intro i
    rw [hids]
    exact List.suffix_append _ _

/-- How the tensor columns are made of the encoded messages. -/
theorem maybeBuildSelfDistillationBatch_columns [AddCommMonoid F]
    {format : Text → List (String × Text) → Py Text} {tokenizer : Tokenizer V}
    {cfg : RepromptConfig F} {lossMode : String} {batch : RolloutBatch U V n}
    {rewardTensor : Fin n → List F}
    {infos : Option (PyDict (List ExtraInfo))} {result : BuildResult V n}
    (h : maybeBuildSelfDistillationBatch format tokenizer (some cfg) lossMode
      batch rewardTensor infos = .ok (some result)) :
    ∃ messages : Fin n → List Message,
      (∀ i, result.batch.teacherInputIds i =
        (tokenizer.applyChatTemplate messages cfg.maxRepromptLen i).1 ++
          batch.responses i) ∧
      (∀ i, result.batch.teacherAttentionMask i =
        (tokenizer.applyChatTemplate messages cfg.maxRepromptLen i).2 ++
          batch.responseMask i) ∧
      ∀ i, result.batch.teacherPositionIds i =
        computePositionIdWithMask (result.batch.teacherAttentionMask i) := by
  obtain ⟨-, -, -, -, -, -, hcolumns⟩ :=
    maybeBuildSelfDistillationBatch_eq_some h
  exact ⟨result.batch.teacherMessages, hcolumns⟩

/-- A tokenizer with one token per code point that pads on the left. -/
def charTokenizer : Tokenizer ℕ where
  decode ids := ids.map Char.ofNat
  render messages i := (messages i).flatMap fun message => message.content
  applyChatTemplate {n} messages maxLength i :=
    let ids := fun j => (((messages j).flatMap fun message =>
      message.content).map Char.toNat).take maxLength
    let width := (List.finRange n).foldr (fun j => max (ids j).length) 0
    let padding := width - (ids i).length
    (List.replicate padding 0 ++ ids i,
      List.replicate padding false ++ List.replicate (ids i).length true)

def twoRowConfig : RepromptConfig ℤ where
  successRewardThreshold := 1
  includeEnvironmentFeedback := true
  dontRepromptOnSelfSuccess := true
  repromptTemplate := "{prompt}{solution}{feedback}".toList
  solutionTemplate := "[{successful_previous_attempt}]".toList
  feedbackTemplate := "({feedback_raw})".toList

/-- Two rollouts of one prompt, with the responses `A` and `B`. -/
def twoRowBatch : RolloutBatch ℕ ℕ 2 where
  rawPrompt := some fun _ => [⟨"user".toList, "q".toList⟩]
  uid _ := 0
  responses := ![[65], [66]]
  responseMask _ := [true]

def feedbackInfos (texts : List String) : PyDict (List ExtraInfo) :=
  PyDict.ofKeys ["feedback"] (List.nodup_singleton _) fun _ =>
    texts.map fun s => .text s.toList

theorem maybeBuildSelfDistillationBatch_consistent_two_rows :
    ∃ result, maybeBuildSelfDistillationBatch formatNamed charTokenizer
        (some twoRowConfig) "sdpo" twoRowBatch ![[0], [1]]
        (some (feedbackInfos ["no"])) = .ok (some result) ∧
      ∃ demonstration feedback, BatchConsistent formatNamed charTokenizer
        twoRowConfig twoRowBatch (fun i => (![[0], [1]] i).sum)
        (some (feedbackInfos ["no"])) result.batch (MayInsert twoRowConfig)
        demonstration feedback := by
  obtain ⟨result, hresult⟩ : ∃ result,
      maybeBuildSelfDistillationBatch formatNamed charTokenizer
        (some twoRowConfig) "sdpo" twoRowBatch ![[0], [1]]
        (some (feedbackInfos ["no"])) = .ok (some result) := ⟨_, rfl⟩
  exact ⟨result, hresult,
    maybeBuildSelfDistillationBatch_consistent hresult⟩

/-- A feedback of blanks is not inserted although it is not empty: it would
have to be in the mask, and the mask is not set. -/
theorem nonempty_feedback_not_inserted :
    ¬ ∀ result, maybeBuildSelfDistillationBatch formatNamed charTokenizer
        (some twoRowConfig) "sdpo" twoRowBatch ![[0], [0]]
        (some (feedbackInfos [" "])) = .ok (some result) →
      ∃ demonstration feedback, BatchConsistent formatNamed charTokenizer
        twoRowConfig twoRowBatch (fun i => (![[0], [0]] i).sum)
        (some (feedbackInfos [" "])) result.batch (fun s => s ≠ [])
        demonstration feedback := by
  intro h
  obtain ⟨demonstration, feedback, hbuilt⟩ := h _ rfl
  have hdemonstration : demonstration 0 = none := by
    by_contra hsome
    obtain ⟨s, hs⟩ := Option.ne_none_iff_exists'.mp hsome
    obtain ⟨j, ⟨-, hscore, -⟩, -⟩ := hbuilt.demonstration_eq rfl 0 s hs
    revert hscore
    fin_cases j <;> decide
  have hfeedback : feedback 0 = some " ".toList :=
    (hbuilt.feedback_iff 0 _).mpr
      ⟨rfl, by decide, fun _ => hdemonstration⟩
  have hmask := (hbuilt.mask_iff 0).mpr
    ⟨.inr (.inl (by rw [hfeedback]; rfl)), by decide⟩
  exact absurd hmask (by decide)

end Consistency

end SelfDistillation
