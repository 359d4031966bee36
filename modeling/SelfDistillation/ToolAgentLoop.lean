/-
`ToolAgentLoop` (verl/experimental/agent_loop/tool_agent_loop.py): the state
machine of a conversation with a generation server, tools and an interaction,
and which tokens, masks and log-probs it returns.
-/
import SelfDistillation.Library.Transition
import SelfDistillation.Python

namespace SelfDistillation

open Transition

variable {τ π ι σ : Type}

/-- What the loop reads of the `TokenOutput` of the server. -/
structure TokenOutput (τ π : Type) where
  tokenIds : List τ
  logProbs : Option (List π)

/-- What the loop reads of a `ToolResponse`, with the tool's reward; an image
may be `None`. -/
structure ToolResponse (ι σ : Type) where
  images : List (Option ι)
  video : Bool
  reward : Option σ

/-- The answer of the interaction, tokenised. -/
structure InteractionReply (τ σ : Type) where
  shouldTerminateSequence : Bool
  reward : Option σ
  responseIds : List τ

/-- The configuration; a limit of `None` or 0 turns is none. -/
structure AgentConfig where
  maxUserTurns : Option Nat
  maxAssistantTurns : Option Nat
  maxParallelCalls : Nat
  responseLength : Nat
  interactionConfigFile : Bool
  imageProcessor : Bool

inductive AgentState
  | pending
  | generating
  | processingTools
  | terminated
  | interacting
deriving DecidableEq

/-- `AgentData`; of the parsed tool calls only their number. -/
structure AgentData (τ π ι σ : Type) where
  imageData : Option (List ι)
  promptIds : List τ
  responseIds : List τ
  responseMask : List Nat
  responseLogprobs : List π
  turnScores : List σ
  toolRewards : List σ
  userTurns : Nat
  assistantTurns : Nat
  toolCalls : Nat

def AgentData.init (images : Option (List ι)) : AgentData τ π ι σ where
  imageData := images
  promptIds := []
  responseIds := []
  responseMask := []
  responseLogprobs := []
  turnScores := []
  toolRewards := []
  userTurns := 0
  assistantTurns := 0
  toolCalls := 0

/-- `AgentLoopOutput`; the scores and the rewards of the turns are its extra
fields. -/
structure AgentLoopOutput (τ π ι σ : Type) where
  promptIds : List τ
  responseIds : List τ
  responseMask : List Nat
  responseLogprobs : Option (List π)
  images : Option (List ι)
  rewardScore : Option σ
  numTurns : Nat
  turnScores : List σ
  toolRewards : List σ

/-- What the surroundings answer in a turn: the tokenised prompt, the output
of the server with the number of tool calls parsed from it, the tool responses
with their tokens, or the reply of the interaction. -/
inductive Turn (τ π ι σ : Type)
  | prompt (promptIds : List τ)
  | generate (output : TokenOutput τ π) (toolCalls : Nat)
  | tools (responses : List (ToolResponse ι σ)) (responseIds : List τ)
  | interact (reply : InteractionReply τ σ)

section Handlers

variable [Zero π] (cfg : AgentConfig)

/-- `limit and turns >= limit` -/
def turnsReached (limit : Option Nat) (turns : Nat) : Bool :=
  match limit with
  | none => false
  | some limit => limit ≠ 0 && turns ≥ limit

/-- `_handle_pending_state` -/
def handlePendingState (data : AgentData τ π ι σ) (promptIds : List τ) :
    AgentData τ π ι σ × AgentState :=
  ({ data with promptIds }, .generating)

/-- `agent_data` with the output of the server. -/
def extendGenerated (data : AgentData τ π ι σ) (output : TokenOutput τ π) :
    AgentData τ π ι σ :=
  { data with
    assistantTurns := data.assistantTurns + 1
    responseIds := output.tokenIds
    promptIds := data.promptIds ++ output.tokenIds
    responseMask := data.responseMask ++
      List.replicate output.tokenIds.length 1
    -- None and an empty list both add nothing
    responseLogprobs := data.responseLogprobs ++ output.logProbs.getD [] }

/-- `_handle_generating_state` -/
def handleGeneratingState (data : AgentData τ π ι σ)
    (output : TokenOutput τ π) (toolCalls : Nat) :
    AgentData τ π ι σ × AgentState :=
  let data := extendGenerated data output
  if data.responseMask.length ≥ cfg.responseLength then (data, .terminated)
  else if turnsReached cfg.maxAssistantTurns data.assistantTurns then
    (data, .terminated)
  else if turnsReached cfg.maxUserTurns data.userTurns then
    (data, .terminated)
  else
    let data := { data with toolCalls }
    if toolCalls ≠ 0 then (data, .processingTools)
    else if cfg.interactionConfigFile then (data, .interacting)
    else (data, .terminated)

/-- `agent_data` with tokens the model did not generate. -/
def extendObserved (data : AgentData τ π ι σ) (responseIds : List τ) :
    AgentData τ π ι σ :=
  { data with
    promptIds := data.promptIds ++ responseIds
    responseMask := data.responseMask ++ List.replicate responseIds.length 0
    responseLogprobs :=
      if data.responseLogprobs.isEmpty then data.responseLogprobs
      else data.responseLogprobs ++ List.replicate responseIds.length 0
    userTurns := data.userTurns + 1 }

/-- The loop over the tool responses refuses some images and all videos. -/
def checkToolResponse (response : ToolResponse ι σ) : Py Unit :=
  if (!response.images.isEmpty || response.video) && !cfg.imageProcessor then
    .error (.valueError
      "Multimedia data can only be processed by `processor`, but the processor is None. This error is often caused if you are using a LLM model but your tool returns multimodal data. Plase use a vlm as the base model.")
  else if response.video then
    .error (.runtimeError
      "Multimedia type 'video' is not currently supported. Only 'image' is supported.")
  else .ok ()

/-- `_handle_processing_tools_state` -/
def handleProcessingToolsState (data : AgentData τ π ι σ)
    (responses : List (ToolResponse ι σ)) (responseIds : List τ) :
    Py (AgentData τ π ι σ × AgentState) := do
  forM responses fun response => checkToolResponse cfg response
  let newImages := responses.flatMap fun response =>
    response.images.reduceOption
  let data := { data with
    toolRewards := data.toolRewards ++
      (responses.map ToolResponse.reward).reduceOption }
  if data.responseMask.length + responseIds.length ≥ cfg.responseLength then
    return (data, .terminated)
  else
    let data := { data with
      imageData := if newImages.isEmpty then data.imageData
        else some (data.imageData.getD [] ++ newImages) }
    return (extendObserved data responseIds, .generating)

/-- `_handle_interacting_state` -/
def handleInteractingState (data : AgentData τ π ι σ)
    (reply : InteractionReply τ σ) : AgentData τ π ι σ × AgentState :=
  let data := { data with
    turnScores := data.turnScores ++ reply.reward.toList }
  (extendObserved data reply.responseIds,
    if reply.shouldTerminateSequence then .terminated else .generating)

/-- The loop of `run`: the handler of the state gets what the surroundings
answer.  A handler that raises ends the run without a result. -/
def agentStep (s : AgentData τ π ι σ × AgentState) (turn : Turn τ π ι σ) :
    Option (AgentData τ π ι σ × AgentState) :=
  match s.2, turn with
  | .pending, .prompt promptIds => some (handlePendingState s.1 promptIds)
  | .generating, .generate output toolCalls =>
      some (handleGeneratingState cfg s.1 output toolCalls)
  | .processingTools, .tools responses responseIds =>
      -- one response for every call that is made
      if responses.length = min s.1.toolCalls cfg.maxParallelCalls then
        (handleProcessingToolsState cfg s.1 responses responseIds).toOption
      else none
  | .interacting, .interact reply => some (handleInteractingState s.1 reply)
  | _, _ => none

def toolAgentLoop (images : Option (List ι)) :
    System (AgentData τ π ι σ × AgentState) (Turn τ π ι σ) where
  initial := (.init images, .pending)
  step := agentStep cfg

/-- `xs[-n:]` -/
def pyTakeLast (xs : List τ) (n : Nat) : List τ :=
  if n = 0 then xs else xs.drop (xs.length - n)

/-- What `run` makes of the data at the end. -/
def finalizeOutput (data : AgentData τ π ι σ) :
    AgentLoopOutput τ π ι σ where
  promptIds := data.promptIds.take
    (data.promptIds.length - data.responseMask.length)
  responseIds := (pyTakeLast data.promptIds data.responseMask.length).take
    cfg.responseLength
  responseMask := data.responseMask.take cfg.responseLength
  responseLogprobs :=
    if data.responseLogprobs.isEmpty then none
    else some (data.responseLogprobs.take cfg.responseLength)
  images := data.imageData
  rewardScore := none
  numTurns := data.userTurns + data.assistantTurns + 1
  turnScores := data.turnScores
  toolRewards := data.toolRewards

end Handlers

section Trajectory

/-- A token after the prompt, a generated one with what the server returned
as its log-prob. -/
inductive Recorded (τ π : Type)
  | generated (token : τ) (logProb : Option π)
  | observed (token : τ)
deriving DecidableEq

def Recorded.token : Recorded τ π → τ
  | .generated token _ => token
  | .observed token => token

/-- 1 at a generated token, 0 at a tool or user token. -/
def Recorded.mask : Recorded τ π → Nat
  | .generated _ _ => 1
  | .observed _ => 0

/-- The initial prompt and the tokens after it. -/
structure Trajectory (τ π : Type) where
  prompt : List τ
  entries : List (Recorded τ π)

def generatedEntries (output : TokenOutput τ π) : List (Recorded τ π) :=
  output.tokenIds.zipIdx.map fun tokenAt =>
    Recorded.generated tokenAt.1 (output.logProbs.bind fun logProbs =>
      logProbs[tokenAt.2]?)

def Trajectory.append (t : Trajectory τ π) (entries : List (Recorded τ π)) :
    Trajectory τ π :=
  { t with entries := t.entries ++ entries }

/-- What a turn adds to the conversation; tool tokens that do not fit into the
response are left out. -/
def Trajectory.record (cfg : AgentConfig) (t : Trajectory τ π) :
    Turn τ π ι σ → Trajectory τ π
  | .prompt promptIds => { t with prompt := promptIds }
  | .generate output _ => t.append (generatedEntries output)
  | .tools _ responseIds =>
      if t.entries.length + responseIds.length ≥ cfg.responseLength then t
      else t.append (responseIds.map Recorded.observed)
  | .interact reply => t.append (reply.responseIds.map Recorded.observed)

def trajectory (cfg : AgentConfig) (turns : List (Turn τ π ι σ)) :
    Trajectory τ π :=
  turns.foldl (Trajectory.record cfg) ⟨[], []⟩

/-- The output is the trajectory, cut at `response_length`. -/
structure FollowsTrajectory (cfg : AgentConfig) (t : Trajectory τ π)
    (output : AgentLoopOutput τ π ι σ) : Prop where
  promptIds : output.promptIds = t.prompt
  responseIds : output.responseIds =
    (t.entries.map Recorded.token).take cfg.responseLength
  responseMask : output.responseMask =
    (t.entries.map Recorded.mask).take cfg.responseLength
  length_responseMask : output.responseMask.length =
    output.responseIds.length
  length_le : output.responseIds.length ≤ cfg.responseLength
  length_responseLogprobs : ∀ logProbs : List π,
    output.responseLogprobs = some logProbs →
      logProbs.length = output.responseIds.length
  responseLogprobs : ∀ logProbs : List π,
    output.responseLogprobs = some logProbs →
    ∀ (i : Nat) (stored : π) (token : τ) (logProb : Option π),
      logProbs[i]? = some stored →
      t.entries[i]? = some (Recorded.generated token logProb) →
      logProb = some stored

end Trajectory

section Alignment

theorem map_token_generatedEntries (output : TokenOutput τ π) :
    (generatedEntries output).map Recorded.token = output.tokenIds := by
  rw [generatedEntries, List.map_map]
  exact List.zipIdx_map_fst ..

theorem map_mask_generatedEntries (output : TokenOutput τ π) :
    (generatedEntries output).map Recorded.mask =
      List.replicate output.tokenIds.length 1 := by
  rw [generatedEntries, List.map_map, List.eq_replicate_iff]
  refine ⟨by simp, fun k hk => ?_⟩
  obtain ⟨tokenAt, -, rfl⟩ := List.mem_map.mp hk
  rfl

theorem map_token_observed (responseIds : List τ) :
    (responseIds.map (Recorded.observed (π := π))).map Recorded.token =
      responseIds := by
  rw [List.map_map]
  exact List.map_id _

theorem map_mask_observed (responseIds : List τ) :
    (responseIds.map (Recorded.observed (π := π))).map Recorded.mask =
      List.replicate responseIds.length 0 := by
  rw [List.map_map]
  exact List.map_const' ..

/-- The data holds the tokens and the mask of the trajectory. -/
structure Records (t : Trajectory τ π)
    (s : AgentData τ π ι σ × AgentState) : Prop where
  promptIds : s.1.promptIds = t.prompt ++ t.entries.map Recorded.token
  responseMask : s.1.responseMask = t.entries.map Recorded.mask
  pending : s.2 = .pending → t.entries = []

theorem Records.extend {t : Trajectory τ π}
    {s s' : AgentData τ π ι σ × AgentState} {entries : List (Recorded τ π)}
    (hrecords : Records t s)
    (hprompt : s'.1.promptIds =
      s.1.promptIds ++ entries.map Recorded.token)
    (hmask : s'.1.responseMask =
      s.1.responseMask ++ entries.map Recorded.mask)
    (hstate : s'.2 ≠ .pending) : Records (t.append entries) s' where
  promptIds := by
    rw [hprompt, hrecords.promptIds, List.append_assoc, ← List.map_append]
    rfl
  responseMask := by
    rw [hmask, hrecords.responseMask, ← List.map_append]
    rfl
  pending := fun hpending => absurd hpending hstate

theorem Records.length_promptIds {t : Trajectory τ π}
    {s : AgentData τ π ι σ × AgentState} (hrecords : Records t s) :
    s.1.promptIds.length - s.1.responseMask.length = t.prompt.length := by
  rw [hrecords.promptIds, hrecords.responseMask, List.length_append,
    List.length_map, List.length_map, Nat.add_sub_cancel]

/-- The tokens after the prompt, or the whole prompt where there are none. -/
theorem Records.pyTakeLast_promptIds {t : Trajectory τ π}
    {s : AgentData τ π ι σ × AgentState} (hrecords : Records t s) :
    pyTakeLast s.1.promptIds s.1.responseMask.length =
      if t.entries = [] then t.prompt
      else t.entries.map Recorded.token := by
  rw [pyTakeLast, hrecords.length_promptIds, hrecords.promptIds,
    hrecords.responseMask, List.length_map]
  simp only [List.length_eq_zero_iff]
  split
  · rename_i hempty
    rw [hempty, List.map_nil, List.append_nil]
  · exact List.drop_left

theorem Records.finalizeOutput_responseIds {t : Trajectory τ π}
    {s : AgentData τ π ι σ × AgentState} (hrecords : Records t s)
    {cfg : AgentConfig}
    (hrecorded : t.entries ≠ [] ∨ t.prompt = [] ∨ cfg.responseLength = 0) :
    (finalizeOutput cfg s.1).responseIds =
      (t.entries.map Recorded.token).take cfg.responseLength := by
  simp only [finalizeOutput, hrecords.pyTakeLast_promptIds]
  split
  · rename_i hempty
    rw [hempty, List.map_nil, List.take_nil]
    rcases hrecorded with hsome | hprompt | hlength
    · exact absurd hempty hsome
    · rw [hprompt, List.take_nil]
    · rw [hlength, List.take_zero]
  · rfl

theorem Records.finalizeOutput_responseMask {t : Trajectory τ π}
    {s : AgentData τ π ι σ × AgentState} (hrecords : Records t s)
    (cfg : AgentConfig) :
    (finalizeOutput cfg s.1).responseMask =
      (t.entries.map Recorded.mask).take cfg.responseLength :=
  congrArg (List.take cfg.responseLength) hrecords.responseMask

variable [Zero π] {cfg : AgentConfig}

/-- The entry that belongs to a token: its log-prob, or zero. -/
def Recorded.Logs : Recorded τ π → π → Prop
  | .generated _ logProb, stored => logProb = some stored
  | .observed _, stored => stored = 0

/-- There are no log-probs, or there is one for every token. -/
def LogsKept (t : Trajectory τ π) (logProbs : List π) : Prop :=
  logProbs = [] ∨ List.Forall₂ Recorded.Logs t.entries logProbs

/-- Log-probs come one for every generated token, and the first ones before
any other token is recorded. -/
def KeepsLogProbs (s : AgentData τ π ι σ × AgentState) :
    Turn τ π ι σ → Prop
  | .generate output _ =>
      if output.logProbs.getD [] = [] then
        output.tokenIds = [] ∨ s.1.responseLogprobs = []
      else
        (output.logProbs.getD []).length = output.tokenIds.length ∧
          (s.1.responseMask = [] ∨ s.1.responseLogprobs ≠ [])
  | _ => True

/-- Tokens, masks and log-probs are appended. -/
structure Extended (data data' : AgentData τ π ι σ) (tokenIds : List τ)
    (mask : List Nat) (logProbs : List π) : Prop where
  promptIds : data'.promptIds = data.promptIds ++ tokenIds
  responseMask : data'.responseMask = data.responseMask ++ mask
  responseLogprobs : data'.responseLogprobs =
    data.responseLogprobs ++ logProbs

/-- What a turn does to the tokens. -/
inductive TurnCases (cfg : AgentConfig) (s : AgentData τ π ι σ × AgentState) :
    Turn τ π ι σ → AgentData τ π ι σ → Prop
  | prompt {data' : AgentData τ π ι σ} (promptIds : List τ)
      (hstate : s.2 = .pending) (hprompt : data'.promptIds = promptIds)
      (hmask : data'.responseMask = s.1.responseMask)
      (hlogs : data'.responseLogprobs = s.1.responseLogprobs) :
      TurnCases cfg s (.prompt promptIds) data'
  | generate {data' : AgentData τ π ι σ} (output : TokenOutput τ π)
      (toolCalls : Nat)
      (hextended : Extended s.1 data' output.tokenIds
        (List.replicate output.tokenIds.length 1)
        (output.logProbs.getD [])) :
      TurnCases cfg s (.generate output toolCalls) data'
  | refuse {data' : AgentData τ π ι σ}
      (responses : List (ToolResponse ι σ)) (responseIds : List τ)
      (hfull : s.1.responseMask.length + responseIds.length ≥
        cfg.responseLength)
      (hextended : Extended s.1 data' [] [] []) :
      TurnCases cfg s (.tools responses responseIds) data'
  | tools {data' : AgentData τ π ι σ}
      (responses : List (ToolResponse ι σ)) (responseIds : List τ)
      (hfits : ¬ s.1.responseMask.length + responseIds.length ≥
        cfg.responseLength)
      (hextended : Extended s.1 data' responseIds
        (List.replicate responseIds.length 0)
        (if s.1.responseLogprobs.isEmpty then []
          else List.replicate responseIds.length 0)) :
      TurnCases cfg s (.tools responses responseIds) data'
  | interact {data' : AgentData τ π ι σ} (reply : InteractionReply τ σ)
      (hextended : Extended s.1 data' reply.responseIds
        (List.replicate reply.responseIds.length 0)
        (if s.1.responseLogprobs.isEmpty then []
          else List.replicate reply.responseIds.length 0)) :
      TurnCases cfg s (.interact reply) data'

/-- The fields besides the tokens may have changed before. -/
theorem extended_extendObserved {data data' : AgentData τ π ι σ}
    (hprompt : data'.promptIds = data.promptIds)
    (hmask : data'.responseMask = data.responseMask)
    (hlogs : data'.responseLogprobs = data.responseLogprobs)
    (responseIds : List τ) :
    Extended data (extendObserved data' responseIds) responseIds
      (List.replicate responseIds.length 0)
      (if data.responseLogprobs.isEmpty then []
        else List.replicate responseIds.length 0) where
  promptIds := by rw [extendObserved, hprompt]
  responseMask := by rw [extendObserved, hmask]
  responseLogprobs := by
    simp only [extendObserved, hlogs]
    split
    · exact (List.append_nil _).symm
    · rfl

/-- Every step is one of these cases and leaves the pending state. -/
theorem agentStep_cases {s s' : AgentData τ π ι σ × AgentState}
    {turn : Turn τ π ι σ} (h : agentStep cfg s turn = some s') :
    TurnCases cfg s turn s'.1 ∧ s'.2 ≠ .pending := by
  obtain ⟨data, state⟩ := s
  cases turn with
  | prompt promptIds =>
      cases state with
      | pending =>
          cases h
          exact ⟨.prompt promptIds rfl rfl rfl rfl,
            by simp [handlePendingState]⟩
      | generating | processingTools | terminated | interacting => cases h
  | generate output toolCalls =>
      cases state with
      | generating =>
          cases h
          simp only [handleGeneratingState]
          refine ⟨.generate output toolCalls ?_, ?_⟩
          · split_ifs <;> exact ⟨rfl, rfl, rfl⟩
          · split_ifs <;> simp
      | pending | processingTools | terminated | interacting => cases h
  | tools responses responseIds =>
      cases state with
      | processingTools =>
          simp only [agentStep] at h
          split at h
          · cases hresult : handleProcessingToolsState cfg data responses
              responseIds with
            | error e =>
                rw [hresult] at h
                cases h
            | ok next =>
                rw [hresult] at h
                cases h
                rw [handleProcessingToolsState, bind_eq_ok] at hresult
                rcases hresult with ⟨_, -, hresult⟩
                dsimp only at hresult
                split at hresult
                · rename_i hfull
                  cases hresult
                  exact ⟨.refuse responses responseIds hfull
                    ⟨by simp, by simp, by simp⟩, by simp⟩
                · rename_i hfits
                  cases hresult
                  exact ⟨.tools responses responseIds hfits
                    (extended_extendObserved (by rfl) (by rfl) (by rfl)
                      responseIds), by simp⟩
          · cases h
      | pending | generating | terminated | interacting => cases h
  | interact reply =>
      cases state with
      | interacting =>
          cases h
          simp only [handleInteractingState]
          refine ⟨.interact reply (extended_extendObserved (by rfl) (by rfl)
            (by rfl) reply.responseIds), ?_⟩
          split_ifs <;> simp
      | pending | generating | processingTools | terminated => cases h

/-- The trajectory takes every turn. -/
def recordedTurns (cfg : AgentConfig) :
    System (Trajectory τ π) (Turn τ π ι σ) where
  initial := ⟨[], []⟩
  step t turn := some (t.record cfg turn)

/-- Every turn adds to the data what it adds to the trajectory. -/
theorem records_step {t : Trajectory τ π}
    {s s' : AgentData τ π ι σ × AgentState} {turn : Turn τ π ι σ}
    (hrecords : Records t s) (hstep : agentStep cfg s turn = some s') :
    Records (t.record cfg turn) s' := by
  obtain ⟨hcases, hstate⟩ := agentStep_cases hstep
  have hlength : t.entries.length = s.1.responseMask.length := by
    rw [hrecords.responseMask, List.length_map]
  cases hcases with
  | prompt promptIds hpending hprompt hmask hlogs =>
      have hempty := hrecords.pending hpending
      refine ⟨?_, ?_, fun h => absurd h hstate⟩
      · simp only [Trajectory.record, hprompt, hempty, List.map_nil,
          List.append_nil]
      · rw [hmask, hrecords.responseMask]
        rfl
  | generate output toolCalls hextended =>
      refine hrecords.extend ?_ ?_ hstate
      · rw [map_token_generatedEntries, hextended.promptIds]
      · rw [map_mask_generatedEntries, hextended.responseMask]
  | refuse responses responseIds hfull hextended =>
      have hrecord : t.record cfg (Turn.tools responses responseIds) = t :=
        if_pos (hlength ▸ hfull)
      rw [hrecord]
      refine ⟨?_, ?_, fun h => absurd h hstate⟩
      · rw [hextended.promptIds, List.append_nil, hrecords.promptIds]
      · rw [hextended.responseMask, List.append_nil, hrecords.responseMask]
  | tools responses responseIds hfits hextended =>
      have hrecord : t.record cfg (Turn.tools responses responseIds) =
          t.append (responseIds.map Recorded.observed) :=
        if_neg (hlength ▸ hfits)
      rw [hrecord]
      refine hrecords.extend ?_ ?_ hstate
      · rw [map_token_observed, hextended.promptIds]
      · rw [map_mask_observed, hextended.responseMask]
  | interact reply hextended =>
      refine hrecords.extend ?_ ?_ hstate
      · rw [map_token_observed, hextended.promptIds]
      · rw [map_mask_observed, hextended.responseMask]

theorem forall₂_logs_generatedEntries {output : TokenOutput τ π}
    (hlength : (output.logProbs.getD []).length = output.tokenIds.length) :
    List.Forall₂ Recorded.Logs (generatedEntries output)
      (output.logProbs.getD []) := by
  refine List.forall₂_iff_get.mpr ⟨?_, fun i hi hi' => ?_⟩
  · rw [hlength, generatedEntries, List.length_map, List.length_zipIdx]
  · obtain ⟨tokenIds, _ | logProbs⟩ := output
    · exact absurd hi' (Nat.not_lt_zero i)
    · have hlogged : i < logProbs.length := hi'
      simp [generatedEntries, Recorded.Logs, hlogged]

theorem forall₂_logs_observed (responseIds : List τ) :
    List.Forall₂ (Recorded.Logs (τ := τ) (π := π))
      (responseIds.map Recorded.observed)
      (List.replicate responseIds.length 0) := by
  induction responseIds with
  | nil => exact .nil
  | cons token responseIds ih => exact .cons rfl ih

theorem LogsKept.generate {t : Trajectory τ π}
    {s : AgentData τ π ι σ × AgentState} {output : TokenOutput τ π}
    {toolCalls : Nat} (hrecords : Records t s)
    (hkept : LogsKept t s.1.responseLogprobs)
    (hkeeps : KeepsLogProbs s (.generate output toolCalls)) :
    LogsKept (t.append (generatedEntries output))
      (s.1.responseLogprobs ++ output.logProbs.getD []) := by
  rw [KeepsLogProbs] at hkeeps
  split at hkeeps
  · rename_i hnone
    rw [hnone, List.append_nil]
    rcases hkeeps with htokens | hempty
    · have hentries : t.append (generatedEntries output) = t := by
        simp [Trajectory.append, generatedEntries, htokens]
      rwa [hentries]
    · exact .inl hempty
  · rcases hkeeps with ⟨hlength, hbefore⟩
    have hprevious : List.Forall₂ Recorded.Logs t.entries
        s.1.responseLogprobs := by
      rcases hkept with hempty | hlogs
      · rcases hbefore with hmask | hsome
        · have hentries : t.entries = [] := by
            rw [hrecords.responseMask, List.map_eq_nil_iff] at hmask
            exact hmask
          rw [hentries, hempty]
          exact .nil
        · exact absurd hempty hsome
      · exact hlogs
    exact .inr (List.rel_append hprevious
      (forall₂_logs_generatedEntries hlength))

theorem LogsKept.observe {t : Trajectory τ π} {logProbs : List π}
    (hkept : LogsKept t logProbs) (responseIds : List τ) :
    LogsKept (t.append (responseIds.map Recorded.observed))
      (logProbs ++ if logProbs.isEmpty then []
        else List.replicate responseIds.length 0) := by
  rcases hkept with rfl | hlogs
  · exact .inl rfl
  · split
    · rename_i hempty
      rw [List.isEmpty_iff] at hempty
      exact .inl (by rw [hempty, List.append_nil])
    · exact .inr (List.rel_append hlogs (forall₂_logs_observed responseIds))

theorem logsKept_step {t : Trajectory τ π}
    {s s' : AgentData τ π ι σ × AgentState} {turn : Turn τ π ι σ}
    (hrecords : Records t s) (hkept : LogsKept t s.1.responseLogprobs)
    (hkeeps : KeepsLogProbs s turn)
    (hstep : agentStep cfg s turn = some s') :
    LogsKept (t.record cfg turn) s'.1.responseLogprobs := by
  have hlength : t.entries.length = s.1.responseMask.length := by
    rw [hrecords.responseMask, List.length_map]
  cases (agentStep_cases hstep).1 with
  | prompt promptIds hpending hprompt hmask hlogs =>
      rw [hlogs]
      exact hkept
  | generate output toolCalls hextended =>
      rw [hextended.responseLogprobs]
      exact hkept.generate hrecords hkeeps
  | refuse responses responseIds hfull hextended =>
      have hrecord : t.record cfg (Turn.tools responses responseIds) = t :=
        if_pos (hlength ▸ hfull)
      rwa [hrecord, hextended.responseLogprobs, List.append_nil]
  | tools responses responseIds hfits hextended =>
      have hrecord : t.record cfg (Turn.tools responses responseIds) =
          t.append (responseIds.map Recorded.observed) :=
        if_neg (hlength ▸ hfits)
      rw [hrecord, hextended.responseLogprobs]
      exact hkept.observe responseIds
  | interact reply hextended =>
      rw [hextended.responseLogprobs]
      exact hkept.observe reply.responseIds

/-- Every run holds the tokens and the mask of its trajectory. -/
theorem run_records {images : Option (List ι)} {turns : List (Turn τ π ι σ)}
    {s : AgentData τ π ι σ × AgentState}
    (hrun : (toolAgentLoop cfg images).exec
      (toolAgentLoop cfg images).initial turns = some s) :
    Records (trajectory cfg turns) s := by
  obtain ⟨t, ht, hrecords⟩ : ∃ t, (recordedTurns cfg).exec ⟨[], []⟩ turns =
      some t ∧ Records t s :=
    System.simulation (R := fun s t => Records t s)
      (fun s turn s' t hR hstep =>
        ⟨t.record cfg turn, rfl, records_step hR hstep⟩)
      ⟨rfl, rfl, fun _ => rfl⟩ hrun
  rw [System.exec_eq_foldl (fun t turn => rfl)] at ht
  cases ht
  exact hrecords

/-- A run whose server keeps the log-probs holds them too. -/
theorem run_logsKept {images : Option (List ι)} {turns : List (Turn τ π ι σ)}
    {s : AgentData τ π ι σ × AgentState}
    (hguarded : (toolAgentLoop cfg images).Guarded KeepsLogProbs
      (toolAgentLoop cfg images).initial turns)
    (hrun : (toolAgentLoop cfg images).exec
      (toolAgentLoop cfg images).initial turns = some s) :
    LogsKept (trajectory cfg turns) s.1.responseLogprobs := by
  obtain ⟨t, ht, -, hkept⟩ : ∃ t, (recordedTurns cfg).exec ⟨[], []⟩ turns =
      some t ∧ Records t s ∧ LogsKept t s.1.responseLogprobs :=
    System.simulation_of_guarded
      (R := fun s t => Records t s ∧ LogsKept t s.1.responseLogprobs)
      (fun s turn s' t hR hkeeps hstep => ⟨t.record cfg turn, rfl,
        records_step hR.1 hstep, logsKept_step hR.1 hR.2 hkeeps hstep⟩)
      ⟨⟨rfl, rfl, fun _ => rfl⟩, .inl rfl⟩ hguarded hrun
  rw [System.exec_eq_foldl (fun t turn => rfl)] at ht
  cases ht
  exact hkept

theorem LogsKept.finalize {t : Trajectory τ π} {data : AgentData τ π ι σ}
    (hkept : LogsKept t data.responseLogprobs) {logProbs : List π}
    (hlogs : (finalizeOutput cfg data).responseLogprobs = some logProbs) :
    List.Forall₂ Recorded.Logs t.entries data.responseLogprobs ∧
      logProbs = data.responseLogprobs.take cfg.responseLength := by
  simp only [finalizeOutput] at hlogs
  split at hlogs
  · cases hlogs
  · rename_i hsome
    cases hlogs
    rw [List.isEmpty_iff] at hsome
    exact ⟨hkept.resolve_left hsome, rfl⟩

/-- The output is aligned unless it takes the prompt for the response. -/
theorem followsTrajectory_finalizeOutput {t : Trajectory τ π}
    {s : AgentData τ π ι σ × AgentState} (hrecords : Records t s)
    (hkept : LogsKept t s.1.responseLogprobs) :
    FollowsTrajectory cfg t (finalizeOutput cfg s.1) ↔
      t.entries ≠ [] ∨ t.prompt = [] ∨ cfg.responseLength = 0 := by
  constructor
  · intro haligned
    by_cases hempty : t.entries = []
    · have hresponse := haligned.responseIds
      simp only [finalizeOutput, hrecords.pyTakeLast_promptIds, hempty,
        if_true, List.map_nil, List.take_nil, List.take_eq_nil_iff]
        at hresponse
      exact .inr hresponse.symm
    · exact .inl hempty
  · intro hrecorded
    have hresponse := hrecords.finalizeOutput_responseIds hrecorded
    have hmask := hrecords.finalizeOutput_responseMask cfg
    have hlength : (finalizeOutput cfg s.1).responseIds.length =
        min cfg.responseLength t.entries.length := by
      rw [hresponse, List.length_take, List.length_map]
    refine ⟨?_, hresponse, hmask, ?_, ?_, ?_, ?_⟩
    · change s.1.promptIds.take
        (s.1.promptIds.length - s.1.responseMask.length) = t.prompt
      rw [hrecords.length_promptIds, hrecords.promptIds]
      exact List.take_left
    · rw [hlength, hmask, List.length_take, List.length_map]
    · rw [hlength]
      exact min_le_left ..
    · intro logProbs hlogs
      obtain ⟨hall, rfl⟩ := hkept.finalize hlogs
      rw [hlength, List.length_take, hall.length_eq]
    · intro logProbs hlogs i stored token logProb hstored hentry
      obtain ⟨hall, rfl⟩ := hkept.finalize hlogs
      rw [List.getElem?_take] at hstored
      split at hstored
      · obtain ⟨hi, hget⟩ := List.getElem?_eq_some_iff.mp hentry
        obtain ⟨hi', hget'⟩ := List.getElem?_eq_some_iff.mp hstored
        have hlogged := hall.get hi hi'
        rw [List.get_eq_getElem, List.get_eq_getElem, hget, hget']
          at hlogged
        exact hlogged
      · cases hstored

/-- A run whose server keeps the log-probs returns its trajectory exactly when
it has recorded a token, short of an empty prompt or no room. -/
theorem run_followsTrajectory_iff {images : Option (List ι)}
    {turns : List (Turn τ π ι σ)} {data : AgentData τ π ι σ}
    (hguarded : (toolAgentLoop cfg images).Guarded KeepsLogProbs
      (toolAgentLoop cfg images).initial turns)
    (hrun : (toolAgentLoop cfg images).exec
      (toolAgentLoop cfg images).initial turns = some (data, .terminated)) :
    FollowsTrajectory cfg (trajectory cfg turns) (finalizeOutput cfg data) ↔
      (trajectory cfg turns).entries ≠ [] ∨
        (trajectory cfg turns).prompt = [] ∨ cfg.responseLength = 0 := by
  exact followsTrajectory_finalizeOutput (run_records hrun)
    (run_logsKept hguarded hrun)

instance (s : AgentData τ π ι σ × AgentState) (turn : Turn τ π ι σ)
    [DecidableEq τ] [DecidableEq π] : Decidable (KeepsLogProbs s turn) := by
  cases turn <;> unfold KeepsLogProbs <;> infer_instance

end Alignment

section Runs

def interactive : AgentConfig where
  maxUserTurns := none
  maxAssistantTurns := none
  maxParallelCalls := 1
  responseLength := 5
  interactionConfigFile := true
  imageProcessor := false

/-- A tool reply that fits, an empty generation, a user message and a last
generation that does not fit. -/
def fourTurns : List (Turn Nat Nat Nat Nat) :=
  [.prompt [1, 2], .generate ⟨[3, 4], some [7, 8]⟩ 1,
    .tools [⟨[], false, some 1⟩] [5], .generate ⟨[], some []⟩ 0,
    .interact ⟨false, some 1, [6]⟩, .generate ⟨[9, 10], some [0, 1]⟩ 0]

theorem run_followsTrajectory_iff_fourTurns :
    ∃ s, (toolAgentLoop interactive none).exec
        (toolAgentLoop interactive none).initial fourTurns = some s ∧
      FollowsTrajectory interactive (trajectory interactive fourTurns)
        (finalizeOutput interactive s.1) := by
  refine ⟨(⟨none, [1, 2, 3, 4, 5, 6, 9, 10], [9, 10], [1, 1, 0, 0, 1, 1],
    [7, 8, 0, 0, 0, 1], [1], [1], 2, 3, 0⟩, .terminated), rfl, ?_⟩
  exact (run_followsTrajectory_iff (by decide +kernel) rfl).mpr
    (.inl (by simp [trajectory, fourTurns, Trajectory.record,
      Trajectory.append, generatedEntries]))

/-- The only generation is empty, and so is the reply to it. -/
def nothingRecorded : List (Turn Nat Nat Nat Nat) :=
  [.prompt [1, 2], .generate ⟨[], none⟩ 0, .interact ⟨true, none, []⟩]

/-- The first tokens with log-probs come after a user message. -/
def lateLogProbs : List (Turn Nat Nat Nat Nat) :=
  [.prompt [1, 2], .generate ⟨[], none⟩ 0, .interact ⟨false, none, [3]⟩,
    .generate ⟨[4], some [7]⟩ 0, .interact ⟨true, none, []⟩]

/-- The prompt is returned as the response, and a log-prob as that of the user
message. -/
theorem run_followsTrajectory_fails :
    (∃ s, (toolAgentLoop interactive none).exec
        (toolAgentLoop interactive none).initial nothingRecorded = some s ∧
      s.2 = .terminated ∧
      ¬ FollowsTrajectory interactive (trajectory interactive nothingRecorded)
        (finalizeOutput interactive s.1)) ∧
    ∃ s, (toolAgentLoop interactive none).exec
        (toolAgentLoop interactive none).initial lateLogProbs = some s ∧
      s.2 = .terminated ∧
      ¬ FollowsTrajectory interactive (trajectory interactive lateLogProbs)
        (finalizeOutput interactive s.1) := by
  refine ⟨⟨_, rfl, rfl, fun haligned => ?_⟩, _, rfl, rfl, fun haligned => ?_⟩
  · exact absurd haligned.responseIds (by decide)
  · exact absurd (haligned.length_responseLogprobs [7] rfl) (by decide)

end Runs

end SelfDistillation
