/-
`AsyncRolloutRequest` (verl/workers/rollout/schemas.py): the token buffers of a
multi-turn request, from which the generation prompt is taken away again
wherever they end with it.
-/
import SelfDistillation.Python
import SelfDistillation.Library.Transition

namespace SelfDistillation

namespace RolloutRequest

open Transition

variable {τ ι κ ν : Type}

/-- What the contents of a tool message are made of. -/
inductive Part
  | image
  | video
  | text (text : String)
deriving DecidableEq

inductive Content
  | text (text : String)
  | parts (parts : List Part)
deriving DecidableEq

structure Message (κ : Type) where
  role : String
  content : Content
  toolCalls : Option (List κ)
deriving DecidableEq

/-- `BASE_CHAT_HISTORY` -/
def baseChatHistory : List (Message κ) :=
  [⟨"system", .text "You are a helpful assistant.", none⟩,
    ⟨"user", .text "I am a user.", none⟩]

/-- `ToolResponse` (verl/tools/schemas.py) -/
structure ToolResponse (ι : Type) where
  text : Option String
  image : Option (List ι)
  video : Option (List ι)
deriving DecidableEq

namespace ToolResponse

variable (response : ToolResponse ι)

def hasText : Bool := decide (response.text.getD "" ≠ "")

def images : List ι := response.image.getD []

def videos : List ι := response.video.getD []

def isEmpty : Bool :=
  !response.hasText && response.images.isEmpty && response.videos.isEmpty

def isTextOnly : Bool :=
  response.hasText && response.images.isEmpty && response.videos.isEmpty

/-- The message `add_tool_response_messages` makes of it. -/
def message : Message κ where
  role := "tool"
  content :=
    if response.isTextOnly then .text (response.text.getD "")
    else .parts (List.replicate response.images.length .image ++
      List.replicate response.videos.length .video ++
      if response.hasText then [.text (response.text.getD "")] else [])
  toolCalls := none

end ToolResponse

abbrev MultiModalData (ι : Type) := PyDict (List ι)

/-- `{key: [] for key in multi_modal_keys}` -/
def emptyData (keys : List String) : MultiModalData ι :=
  keys.foldl (fun data key => data.set key []) .empty

/-- `data[key].extend(items)` -/
def extendData (data : MultiModalData ι) (key : String) (items : List ι) :
    Py (MultiModalData ι) := do
  let old ← data.get key
  return data.set key (old ++ items)

/-- The `model_inputs` of one text; `grids` are its `image_grid_thw` and
`video_grid_thw`, if one of them is there. -/
structure ModelInputs (τ ν : Type) where
  inputIds : List τ
  attentionMask : List ℕ
  grids : Option ν
  length_attentionMask : attentionMask.length = inputIds.length

/-- A tokenizer or processor with the tools of the request. -/
structure ProcessingClass (τ ι κ ν : Type) where
  /-- `_handle_apply_chat_template`: messages, multi-modal data, and whether to
  add the generation prompt. -/
  process : List (Message κ) → MultiModalData ι → Bool → Py (ModelInputs τ ν)
  /-- With a `Qwen2VLImageProcessor`, the `llm_positions` of `get_rope_index`
  for attended ids with images or videos. -/
  llmPositions : Option (List τ → ν → Py (Fin 3 → List ℤ))

/-- `compute_position_id_with_mask` (verl/utils/model.py) -/
def computePositionIdWithMask (mask : List ℕ) : List ℤ :=
  (List.range mask.length).map fun i =>
    max (((mask.take (i + 1)).sum : ℤ) - 1) 0

/-- `attention_mask.long().cumsum(-1) - 1`, with 1 where nothing is attended -/
def textRopeIndex (mask : List ℕ) : List ℤ :=
  (List.range mask.length).map fun i =>
    if mask[i]? = some 0 then 1 else ((mask.take (i + 1)).sum : ℤ) - 1

def assignFrom : List ℕ → List ℤ → List ℤ
  | [], _ => []
  | m :: mask, values =>
      if m = 1 then values.headD 1 :: assignFrom mask values.tail
      else 1 :: assignFrom mask values

/-- `position_ids[..., attention_mask == 1] = values` on a row of ones; a
single value is put everywhere. -/
def assignWhere (mask : List ℕ) (values : List ℤ) : Py (List ℤ) :=
  if values.length = mask.count 1 then .ok (assignFrom mask values)
  else if values.length = 1 then
    .ok (assignFrom mask (List.replicate (mask.count 1) (values.headD 1)))
  else .error (.runtimeError "shape mismatch")

/-- `get_rope_index` (verl/models/transformers/qwen2_vl.py) -/
def getRopeIndex (llmPositions : List τ → ν → Py (Fin 3 → List ℤ))
    (inputIds : List τ) (mask : List ℕ) : Option ν → Py (List (List ℤ))
  | none => .ok (List.replicate 3 (textRopeIndex mask))
  | some grids => do
      let attended := (inputIds.zip mask).filterMap fun e =>
        if e.2 = 1 then some e.1 else none
      let positions ← llmPositions attended grids
      let rows ← tabulateM fun axis => assignWhere mask (positions axis)
      return List.ofFn rows

/-- `_get_position_ids`: one row, or three. -/
def getPositionIds (p : ProcessingClass τ ι κ ν) (inputIds : List τ)
    (mask : List ℕ) (grids : Option ν) : Py (List (List ℤ)) :=
  match p.llmPositions with
  | some llmPositions => getRopeIndex llmPositions inputIds mask grids
  | none => .ok [computePositionIdWithMask mask]

/-- The buffers a caller may hand over, and their lengths. -/
structure Given (τ : Type) where
  inputIds : List τ
  attentionMask : List ℕ
  positionIds : List (List ℤ)
  promptPositionIds : Option (List (List ℤ))
  length_attentionMask : attentionMask.length = inputIds.length
  length_positionIds : ∀ row ∈ positionIds, row.length = inputIds.length
  length_promptPositionIds : ∀ rows ∈ promptPositionIds,
    (rows.headD []).length = inputIds.length

structure Args (τ ι κ : Type) where
  messages : List (Message κ)
  multiModalKeys : Option (List String)
  multiModalData : Option (MultiModalData ι)
  maxPromptLen : ℕ
  maxResponseLen : ℕ
  maxModelLen : ℕ
  useInferenceChatTemplate : Bool
  sanityCheck : Bool
  given : Option (Given τ)

/-- What `initialize_request` sets once. -/
structure Request (τ : Type) where
  multiModalKeys : List String
  maxResponseLen : ℕ
  maxModelLen : ℕ
  useInferenceChatTemplate : Bool
  /-- `tokenization_sanity_check_mode != DISABLE` -/
  sanityCheck : Bool
  promptIds : List τ
  promptAttentionMask : List ℕ
  promptPositionIds : Option (List (List ℤ))
  promptLossMask : List Bool
  generationPromptIds : List τ
  baseConvWoGenPromptEndPos : ℕ
  baseConvWithGenPromptEndPos : ℕ
deriving DecidableEq

/-- What the calls change. -/
structure Buffers (τ ι κ : Type) where
  messages : List (Message κ)
  multiModalData : MultiModalData ι
  inputIds : List τ
  attentionMask : List ℕ
  positionIds : List (List ℤ)
  lossMask : List Bool
deriving DecidableEq

def Args.check (args : Args τ ι κ) : Py Unit :=
  if args.messages.isEmpty then
    .error (.valueError
      "messages is required for AsyncRolloutRequest initialization")
  else if args.maxPromptLen = 0 then
    .error (.valueError
      "max_prompt_len is required for AsyncRolloutRequest initialization")
  else .ok ()

/-- The buffers of the prompt: ids, attention mask, positions and
`prompt_position_ids`. -/
def promptBuffers (p : ProcessingClass τ ι κ ν) (args : Args τ ι κ)
    (data : MultiModalData ι) :
    Py (List τ × List ℕ × List (List ℤ) × Option (List (List ℤ))) :=
  match args.given with
  | some given => .ok (given.inputIds, given.attentionMask,
      given.positionIds, given.promptPositionIds)
  | none => do
      let inputs ← p.process args.messages data true
      let positionIds ← getPositionIds p inputs.inputIds
        inputs.attentionMask inputs.grids
      return (inputs.inputIds, inputs.attentionMask, positionIds,
        some positionIds)

/-- `initialize_request` -/
def initializeRequest (p : ProcessingClass τ ι κ ν) (args : Args τ ι κ) :
    Py (Request τ × Buffers τ ι κ) := do
  args.check
  let keys := match args.multiModalKeys.getD [] with
    | [] => ["image", "video"]
    | keys => keys
  let given := args.multiModalData.getD .empty
  let data := keys.foldl (fun data key =>
    if data.contains key then data else data.set key []) given
  let tokensWithoutPrompt ← p.process args.messages data false
  let (inputIds, attentionMask, positionIds, promptPositionIds) ←
    promptBuffers p args data
  let withoutPrompt ← p.process baseChatHistory data false
  let withPrompt ← p.process baseChatHistory data true
  let lossMask := List.replicate inputIds.length false
  return (
    { multiModalKeys := keys
      maxResponseLen := args.maxResponseLen
      maxModelLen := args.maxModelLen
      useInferenceChatTemplate := args.useInferenceChatTemplate
      sanityCheck := args.sanityCheck
      promptIds := inputIds
      promptAttentionMask := attentionMask
      promptPositionIds := promptPositionIds
      promptLossMask := lossMask
      generationPromptIds := inputIds.drop tokensWithoutPrompt.inputIds.length
      baseConvWoGenPromptEndPos := withoutPrompt.inputIds.length
      baseConvWithGenPromptEndPos := withPrompt.inputIds.length },
    { messages := args.messages
      multiModalData := data
      inputIds := inputIds
      attentionMask := attentionMask
      positionIds := positionIds
      lossMask := lossMask })

/-- `xs[..., -k:]` -/
def lastPart {α : Type} (k : ℕ) (xs : List α) : List α :=
  xs.drop (sliceIndex xs.length (-(k : ℤ)))

/-- `xs[..., :-k]` -/
def withoutLast {α : Type} (k : ℕ) (xs : List α) : List α :=
  xs.take (sliceIndex xs.length (-(k : ℤ)))

/-- `a.eq(b).all()` of two rows; a row of one column is repeated. -/
def eqAll [DecidableEq τ] (a b : List τ) : Py Bool :=
  if a.length = b.length then .ok (decide (a = b))
  else
    match a, b with
    | [x], ys => .ok (ys.all fun y => x = y)
    | xs, [y] => .ok (xs.all fun x => x = y)
    | _, _ => .error (.runtimeError
        "The size of tensor a must match the size of tensor b")

/-- `position_ids[..., -1:] + 1` added to one row of new positions. -/
def shiftRow (old new : List ℤ) : Py (List ℤ) :=
  match old.getLast? with
  | some last => .ok (new.map fun i => i + (last + 1))
  | none =>
      if new.length ≤ 1 then .ok []
      else .error (.runtimeError
        "The size of tensor a must match the size of tensor b")

/-- The old positions followed by the new ones; a single new row is repeated
for all old ones. -/
def catPositionIds (old new : List (List ℤ)) : Py (List (List ℤ)) :=
  match new with
  | [row] => old.mapM fun rowBefore => do
      let shifted ← shiftRow rowBefore row
      return rowBefore ++ shifted
  | rows =>
      if old.length = rows.length then
        (old.zip rows).mapM fun e => do
          let shifted ← shiftRow e.1 e.2
          return e.1 ++ shifted
      else .error (.runtimeError "Sizes of tensors must match")

namespace Buffers

/-- The assertion on the lengths of the buffers. -/
def sameLengths (b : Buffers τ ι κ) : Bool :=
  decide (b.inputIds.length = b.attentionMask.length) &&
    (b.positionIds.all fun row => decide (row.length = b.inputIds.length)) &&
    decide (b.lossMask.length = b.inputIds.length)

/-- `_update_input_ids` -/
def updateInputIds (p : ProcessingClass τ ι κ ν) (b : Buffers τ ι κ)
    (newInputIds : List τ) (attentionMask lossMask : Bool) (grids : Option ν) :
    Py (Buffers τ ι κ) := do
  let mask := List.replicate newInputIds.length attentionMask.toNat
  let newPositionIds ← getPositionIds p newInputIds mask grids
  let positionIds ← catPositionIds b.positionIds newPositionIds
  let b' := { b with
    inputIds := b.inputIds ++ newInputIds
    attentionMask := b.attentionMask ++ mask
    lossMask := b.lossMask ++ List.replicate newInputIds.length lossMask
    positionIds := positionIds }
  pyAssert b'.sameLengths "Request has different length"
  return b'

variable [DecidableEq τ]

/-- The comparison of the last ids with the generation prompt. -/
def endsWithGenerationPrompt (r : Request τ) (b : Buffers τ ι κ) : Py Bool :=
  eqAll (lastPart r.generationPromptIds.length b.inputIds)
    r.generationPromptIds

/-- All four buffers without their last `k` columns. -/
def dropLast (k : ℕ) (b : Buffers τ ι κ) : Buffers τ ι κ :=
  { b with
    inputIds := withoutLast k b.inputIds
    attentionMask := withoutLast k b.attentionMask
    positionIds := b.positionIds.map (withoutLast k)
    lossMask := withoutLast k b.lossMask }

/-- `_remove_generation_prompt_ids_if_present` -/
def removeGenerationPromptIdsIfPresent (r : Request τ) (b : Buffers τ ι κ) :
    Py (Buffers τ ι κ) := do
  let present ← b.endsWithGenerationPrompt r
  return if present then b.dropLast r.generationPromptIds.length else b

/-- `get_generation_prompt_ids`, with the ids for the rollout engine -/
def getGenerationPromptIds (p : ProcessingClass τ ι κ ν) (r : Request τ)
    (b : Buffers τ ι κ) : Py (Buffers τ ι κ × List τ) := do
  let present ← b.endsWithGenerationPrompt r
  let b' ← (if present then .ok b
    else b.updateInputIds p r.generationPromptIds true false none)
  if r.useInferenceChatTemplate then
    let inputs ← p.process b'.messages b'.multiModalData true
    return (b', inputs.inputIds)
  else return (b', b'.inputIds)

/-- `add_user_message` -/
def addUserMessage (p : ProcessingClass τ ι κ ν) (r : Request τ)
    (b : Buffers τ ι κ) (content : String) : Py (Buffers τ ι κ) := do
  let message : Message κ := ⟨"user", .text content, none⟩
  let b := { b with messages := b.messages ++ [message] }
  let inputs ← p.process (baseChatHistory ++ [message]) .empty false
  b.updateInputIds p (inputs.inputIds.drop r.baseConvWoGenPromptEndPos)
    true false none

end Buffers

/-- The ids of an assistant message: those of the engine, or the message as
the template writes it. -/
def assistantIds (p : ProcessingClass τ ι κ ν) (r : Request τ)
    (message : Message κ) : Option (List τ) → Py (List τ)
  | some contentIds => .ok contentIds
  | none => do
      let inputs ← p.process (baseChatHistory ++ [message]) .empty false
      return inputs.inputIds.drop r.baseConvWithGenPromptEndPos

namespace Buffers

/-- `add_assistant_message` -/
def addAssistantMessage (p : ProcessingClass τ ι κ ν) (r : Request τ)
    (b : Buffers τ ι κ) (content : String) (contentIds : Option (List τ))
    (toolCalls : Option (List κ)) : Py (Buffers τ ι κ) := do
  let message : Message κ := ⟨"assistant", .text content, toolCalls⟩
  let b := { b with messages := b.messages ++ [message] }
  let ids ← assistantIds p r message contentIds
  b.updateInputIds p ids true true none

/-- The images and videos of tool responses, under the keys of the request. -/
def deltaMultiModalData (keys : List String)
    (contents : List (ToolResponse ι)) : Py (MultiModalData ι) :=
  contents.foldlM (fun delta content => do
    let delta ← if content.images.isEmpty then pure delta
      else extendData delta "image" content.images
    if content.videos.isEmpty then pure delta
    else extendData delta "video" content.videos) (emptyData keys)

variable [DecidableEq τ]

/-- `add_tool_response_messages` -/
def addToolResponseMessages (p : ProcessingClass τ ι κ ν) (r : Request τ)
    (b : Buffers τ ι κ) (contents : List (ToolResponse ι)) :
    Py (Buffers τ ι κ) :=
  if contents.all ToolResponse.isEmpty then .ok b
  else do
    let delta ← deltaMultiModalData r.multiModalKeys contents
    let messages := contents.map ToolResponse.message
    let data ← r.multiModalKeys.foldlM (fun data key => do
      let items ← delta.get key
      if items.isEmpty then pure data else extendData data key items)
      b.multiModalData
    let inputs ← p.process (baseChatHistory ++ messages) delta false
    let b ← { b with
      messages := b.messages ++ messages
      multiModalData := data }.removeGenerationPromptIdsIfPresent r
    b.updateInputIds p (inputs.inputIds.drop r.baseConvWoGenPromptEndPos)
      true false inputs.grids

end Buffers

inductive FinishReason
  | length
  | stop
  | toolCalls
deriving DecidableEq

def FinishReason.check : FinishReason → Py Unit
  | .length | .stop => .ok ()
  | .toolCalls => .error (.valueError
      "Unsupported finalize finish reason type: tool_calls")

structure Response (τ : Type) where
  responseIds : List τ
  responseAttentionMask : List ℕ
  responsePositionIds : List (List ℤ)
  responseLossMask : List Bool
deriving DecidableEq

namespace Buffers

/-- `truncate_output_ids`; a row of `prompt_position_ids` is as long as all
are. -/
def truncateOutputIds (r : Request τ) (b : Buffers τ ι κ) :
    Py (Buffers τ ι κ × Response τ) := do
  let b := { b with
    inputIds := b.inputIds.take r.maxModelLen
    attentionMask := b.attentionMask.take r.maxModelLen
    positionIds := b.positionIds.map (List.take r.maxModelLen)
    lossMask := b.lossMask.take r.maxModelLen }
  match r.promptPositionIds with
  | none => throw .attributeError
  | some promptPositionIds =>
      let promptPositions := (promptPositionIds.headD []).length
      return (b,
        { responseIds :=
            (b.inputIds.drop r.promptIds.length).take r.maxResponseLen
          responseAttentionMask :=
            (b.attentionMask.drop r.promptAttentionMask.length).take
              r.maxResponseLen
          responsePositionIds := b.positionIds.map fun row =>
            (row.drop promptPositions).take r.maxResponseLen
          responseLossMask :=
            (b.lossMask.drop r.promptLossMask.length).take
              r.maxResponseLen })

/-- The sanity check applies the template and logs. -/
def sanityCheck (p : ProcessingClass τ ι κ ν) (r : Request τ)
    (b : Buffers τ ι κ) : Py Unit :=
  if r.sanityCheck then
    (fun _ => ()) <$> p.process b.messages b.multiModalData false
  else .ok ()

/-- `finalize` -/
def finalize [DecidableEq τ] (p : ProcessingClass τ ι κ ν) (r : Request τ)
    (b : Buffers τ ι κ) (finishReasonType : FinishReason) :
    Py (Buffers τ ι κ × Response τ) := do
  let b ← b.removeGenerationPromptIdsIfPresent r
  b.sanityCheck p r
  finishReasonType.check
  let (b, response) ← b.truncateOutputIds r
  pyAssert b.sameLengths "Request has different length"
  return (b, response)

end Buffers

inductive Call (τ ι κ : Type)
  | getGenerationPromptIds
  | addUserMessage (content : String)
  | addAssistantMessage (content : String) (contentIds : Option (List τ))
      (toolCalls : Option (List κ))
  | addToolResponseMessages (contents : List (ToolResponse ι))

def Buffers.call [DecidableEq τ] (p : ProcessingClass τ ι κ ν) (r : Request τ)
    (b : Buffers τ ι κ) : Call τ ι κ → Py (Buffers τ ι κ)
  | .getGenerationPromptIds => Prod.fst <$> b.getGenerationPromptIds p r
  | .addUserMessage content => b.addUserMessage p r content
  | .addAssistantMessage content contentIds toolCalls =>
      b.addAssistantMessage p r content contentIds toolCalls
  | .addToolResponseMessages contents => b.addToolResponseMessages p r contents

/-- The calls one after the other, as long as none raises. -/
def system [DecidableEq τ] (p : ProcessingClass τ ι κ ν) (r : Request τ)
    (initial : Buffers τ ι κ) : System (Buffers τ ι κ) (Call τ ι κ) where
  initial := initial
  step b call := (b.call p r call).toOption

/-- Where the buffers end with the generation prompt, what is taken away lies
behind the prompt and has no token of an assistant message. -/
def Removable [DecidableEq τ] (r : Request τ) (b : Buffers τ ι κ) : Prop :=
  b.endsWithGenerationPrompt r = .ok true →
    r.promptIds.length ≤
      (withoutLast r.generationPromptIds.length b.inputIds).length ∧
    ∀ bit ∈ b.lossMask.drop
      (withoutLast r.generationPromptIds.length b.inputIds).length,
      bit = false

/-- Of the calls only one with tool responses takes anything away. -/
def Undisturbed [DecidableEq τ] (r : Request τ) (b : Buffers τ ι κ) :
    Call τ ι κ → Prop
  | .addToolResponseMessages contents =>
      contents.all ToolResponse.isEmpty = false → Removable r b
  | _ => True

instance [DecidableEq τ] (r : Request τ) (b : Buffers τ ι κ) :
    Decidable (Removable r b) :=
  inferInstanceAs (Decidable (_ → _ ∧ _))

instance [DecidableEq τ] (r : Request τ) (b : Buffers τ ι κ) :
    ∀ call, Decidable (Undisturbed r b call)
  | .addToolResponseMessages _ => inferInstanceAs (Decidable (_ → _))
  | .getGenerationPromptIds | .addUserMessage _ |
    .addAssistantMessage _ _ _ => isTrue trivial

/-- What a call has to do with the tokens after the prompt and their loss
mask: an assistant message adds its ids with loss mask 1, any other call only
tokens with loss mask 0. -/
def Contributes (p : ProcessingClass τ ι κ ν) (r : Request τ) :
    Call τ ι κ → List (τ × Bool) → Prop
  | .addAssistantMessage content contentIds toolCalls, segment =>
      ∃ ids, assistantIds p r ⟨"assistant", .text content, toolCalls⟩
        contentIds = .ok ids ∧ segment = ids.map fun id => (id, true)
  | _, segment => ∀ e ∈ segment, e.2 = false

/-- The ids are the prompt and then what the calls contributed, one after the
other; the loss mask goes with them. -/
def Composed (p : ProcessingClass τ ι κ ν) (r : Request τ)
    (calls : List (Call τ ι κ)) (ids : List τ) (lossMask : List Bool) : Prop :=
  ∃ segments, List.Forall₂ (Contributes p r) calls segments ∧
    ids = r.promptIds ++ segments.flatten.map Prod.fst ∧
    lossMask = List.replicate r.promptIds.length false ++
      segments.flatten.map Prod.snd

/-- Every row is 0, 1, 2, ... -/
def Counts (rows : List (List ℤ)) : Prop :=
  ∀ row ∈ rows, row = (List.range row.length).map Nat.cast

/-- A text prompt without padding. -/
def PlainText (p : ProcessingClass τ ι κ ν) (args : Args τ ι κ)
    (r : Request τ) : Prop :=
  p.llmPositions = none ∧ (∀ m ∈ r.promptAttentionMask, m = 1) ∧
    ∀ given ∈ args.given, Counts given.positionIds

section Positions

variable {mask : List ℕ} {rows old new : List (List ℤ)}

theorem length_assignFrom (mask : List ℕ) (values : List ℤ) :
    (assignFrom mask values).length = mask.length := by
  induction mask generalizing values with
  | nil => rfl
  | cons m mask ih =>
      by_cases hm : m = 1
      · simp [assignFrom, hm, ih]
      · simp [assignFrom, hm, ih]

theorem length_of_assignWhere {values row : List ℤ}
    (h : assignWhere mask values = .ok row) : row.length = mask.length := by
  rw [assignWhere] at h
  split at h
  · cases h
    exact length_assignFrom mask _
  · split at h
    · cases h
      exact length_assignFrom mask _
    · cases h

theorem length_of_getRopeIndex
    {llmPositions : List τ → ν → Py (Fin 3 → List ℤ)} {inputIds : List τ}
    {grids : Option ν}
    (h : getRopeIndex llmPositions inputIds mask grids = .ok rows) :
    rows ≠ [] ∧ ∀ row ∈ rows, row.length = mask.length := by
  cases grids with
  | none =>
      cases h
      refine ⟨by simp, fun row hrow => ?_⟩
      rw [List.eq_of_mem_replicate hrow, textRopeIndex, List.length_map,
        List.length_range]
  | some grids =>
      obtain ⟨positions, -, h⟩ := bind_eq_ok.mp h
      obtain ⟨assigned, hassigned, h⟩ := bind_eq_ok.mp h
      cases h
      refine ⟨by simp, fun row hrow => ?_⟩
      obtain ⟨axis, rfl⟩ := List.mem_ofFn.mp hrow
      exact length_of_assignWhere (tabulateM_eq_ok.mp hassigned axis)

theorem length_of_getPositionIds {p : ProcessingClass τ ι κ ν}
    {inputIds : List τ} {grids : Option ν}
    (h : getPositionIds p inputIds mask grids = .ok rows) :
    rows ≠ [] ∧ ∀ row ∈ rows, row.length = mask.length := by
  rw [getPositionIds] at h
  cases hllm : p.llmPositions with
  | some llmPositions =>
      rw [hllm] at h
      exact length_of_getRopeIndex h
  | none =>
      rw [hllm] at h
      cases h
      simp [computePositionIdWithMask]

/-- Without padding the positions count from 0. -/
theorem computePositionIdWithMask_replicate (n : ℕ) :
    computePositionIdWithMask (List.replicate n 1) =
      (List.range n).map Nat.cast := by
  rw [computePositionIdWithMask, List.length_replicate]
  apply List.map_congr_left
  intro i hi
  rw [List.take_replicate, List.sum_replicate,
    Nat.min_eq_left (List.mem_range.mp hi)]
  simp

/-- Positions that go on counting where the row ends. -/
theorem counts_shiftRow {before after : List ℤ} {n : ℕ}
    (hbefore : before = (List.range before.length).map Nat.cast)
    (h : shiftRow before ((List.range n).map Nat.cast) = .ok after)
    (hlength : (before ++ after).length = before.length + n) :
    before ++ after =
      (List.range (before ++ after).length).map Nat.cast := by
  cases hlast : before.getLast? with
  | none =>
      have hnil := List.getLast?_eq_none_iff.mp hlast
      subst hnil
      rw [shiftRow, hlast] at h
      simp only [List.length_map, List.length_range] at h
      split at h
      · cases h
        rfl
      · cases h
  | some last =>
      have hlast' : last + 1 = before.length := by
        rw [hbefore, List.getLast?_map, List.getLast?_range] at hlast
        split at hlast
        · cases hlast
        · next hne =>
            cases hlast
            omega
      simp only [shiftRow, hlast, hlast', List.map_map] at h
      cases h
      rw [hlength, List.range_add, List.map_append, List.map_map]
      congr 1
      apply List.map_congr_left
      intro i _
      simp [add_comm]

theorem counts_catPositionIds {n total : ℕ} (hold : Counts old)
    (hlength : ∀ row ∈ old, row.length + n = total)
    (h : catPositionIds old [(List.range n).map Nat.cast] = .ok rows)
    (htotal : ∀ row ∈ rows, row.length = total) : Counts rows := by
  intro row hrow
  obtain ⟨before, hbefore, hshift⟩ :=
    exists_of_forall₂_right (mapM_eq_ok_iff.mp h) hrow
  obtain ⟨after, hafter, hok⟩ := bind_eq_ok.mp hshift
  cases hok
  refine counts_shiftRow (hold before hbefore) hafter ?_
  rw [htotal _ hrow, ← hlength before hbefore]

end Positions

section Rows

variable {α : Type}

/-- `xs[..., :-k]` keeps the same columns of all rows. -/
theorem withoutLast_eq_take {k n : ℕ} {xs : List α} (h : xs.length = n) :
    withoutLast k xs = xs.take (sliceIndex n (-(k : ℤ))) := by
  rw [withoutLast, h]

theorem sliceIndex_neg_le (n k : ℕ) : sliceIndex n (-(k : ℤ)) ≤ n := by
  rw [sliceIndex]
  split <;> omega

theorem length_withoutLast (k : ℕ) (xs : List α) :
    (withoutLast k xs).length = sliceIndex xs.length (-(k : ℤ)) := by
  rw [withoutLast, List.length_take]
  exact min_eq_left (sliceIndex_neg_le _ _)

theorem length_lastPart_of_pos {k : ℕ} (hk : 0 < k) {xs : List α}
    (hle : k ≤ xs.length) : (lastPart k xs).length = k := by
  rw [lastPart, List.length_drop, sliceIndex, if_pos (by omega)]
  omega

end Rows

section Composing

variable {p : ProcessingClass τ ι κ ν} {r : Request τ} {call : Call τ ι κ}
  {calls : List (Call τ ι κ)} {segment : List (τ × Bool)} {ids : List τ}
  {lossMask : List Bool}

/-- Only tokens with loss mask 0 may be missing from what a call adds. -/
theorem Contributes.take (h : Contributes p r call segment) {m : ℕ}
    (hdropped : ∀ e ∈ segment.drop m, e.2 = false) :
    Contributes p r call (segment.take m) := by
  cases call with
  | addAssistantMessage content contentIds toolCalls =>
      obtain ⟨ids, hids, rfl⟩ := h
      have hnil : (ids.map fun id => (id, true)).drop m = [] := by
        rw [List.eq_nil_iff_forall_not_mem]
        intro e he
        have hfalse := hdropped e he
        obtain ⟨id, -, rfl⟩ := List.mem_map.mp (List.mem_of_mem_drop he)
        cases hfalse
      refine ⟨ids, hids, ?_⟩
      exact List.take_of_length_le (List.drop_eq_nil_iff.mp hnil)
  | getGenerationPromptIds => exact fun e he => h e (List.mem_of_mem_take he)
  | addUserMessage content => exact fun e he => h e (List.mem_of_mem_take he)
  | addToolResponseMessages contents =>
      exact fun e he => h e (List.mem_of_mem_take he)

theorem exists_take_segments {segments : List (List (τ × Bool))}
    (h : List.Forall₂ (Contributes p r) calls segments) {m : ℕ}
    (hdropped : ∀ e ∈ segments.flatten.drop m, e.2 = false) :
    ∃ kept, List.Forall₂ (Contributes p r) calls kept ∧
      kept.flatten = segments.flatten.take m := by
  induction h generalizing m with
  | nil => exact ⟨[], .nil, by simp⟩
  | @cons call segment calls segments hcall _ ih =>
      rw [List.flatten_cons, List.drop_append] at hdropped
      obtain ⟨kept, hkept, hflatten⟩ := ih (m := m - segment.length)
        fun e he => hdropped e (List.mem_append_right _ he)
      refine ⟨segment.take m :: kept, .cons ?_ hkept, ?_⟩
      · exact hcall.take fun e he => hdropped e (List.mem_append_left _ he)
      · rw [List.flatten_cons, List.flatten_cons, List.take_append, hflatten]

theorem Composed.append (h : Composed p r calls ids lossMask)
    (hcall : Contributes p r call segment) :
    Composed p r (calls ++ [call]) (ids ++ segment.map Prod.fst)
      (lossMask ++ segment.map Prod.snd) := by
  obtain ⟨segments, hsegments, rfl, rfl⟩ := h
  refine ⟨segments ++ [segment], ?_, ?_, ?_⟩
  · exact List.rel_append hsegments (.cons hcall .nil)
  · simp
  · simp

/-- The end of the buffers is taken away, as far as it has no token of the
prompt or of an assistant message. -/
theorem Composed.take (h : Composed p r calls ids lossMask) {m : ℕ}
    (hprompt : r.promptIds.length ≤ m)
    (hdropped : ∀ bit ∈ lossMask.drop m, bit = false) :
    Composed p r calls (ids.take m) (lossMask.take m) := by
  obtain ⟨segments, hsegments, rfl, rfl⟩ := h
  obtain ⟨kept, hkept, hflatten⟩ :=
    exists_take_segments (m := m - r.promptIds.length) hsegments (by
      intro e he
      apply hdropped
      rw [List.drop_append, List.length_replicate, ← List.map_drop]
      exact List.mem_append_right _ (List.mem_map_of_mem he))
  refine ⟨kept, hkept, ?_, ?_⟩
  · rw [hflatten, List.take_append, List.take_of_length_le hprompt,
      List.map_take]
  · rw [hflatten, List.take_append, List.length_replicate, List.map_take,
      List.take_of_length_le (by simpa using hprompt)]

theorem Composed.prompt_le (h : Composed p r calls ids lossMask) :
    r.promptIds <+: ids := by
  obtain ⟨segments, -, rfl, -⟩ := h
  exact List.prefix_append _ _

theorem Composed.length_eq (h : Composed p r calls ids lossMask) :
    lossMask.length = ids.length := by
  obtain ⟨segments, -, rfl, rfl⟩ := h
  rw [List.length_append, List.length_append, List.length_replicate,
    List.length_map, List.length_map]

end Composing

/-- What holds between the calls. -/
structure Inv (p : ProcessingClass τ ι κ ν) (r : Request τ)
    (calls : List (Call τ ι κ)) (b : Buffers τ ι κ) : Prop where
  composed : Composed p r calls b.inputIds b.lossMask
  attentionMask : b.attentionMask.length = b.inputIds.length
  positionIds : ∀ row ∈ b.positionIds, row.length = b.inputIds.length

/-- A property of positions that adding plain text and cutting the end keep. -/
def CountsIf (p : ProcessingClass τ ι κ ν) (b : Buffers τ ι κ) : Prop :=
  p.llmPositions = none → Counts b.positionIds

section Calls

variable {p : ProcessingClass τ ι κ ν} {r : Request τ} {call : Call τ ι κ}
  {calls : List (Call τ ι κ)} {b b' : Buffers τ ι κ}

theorem sameLengths_iff : b.sameLengths = true ↔
    b.attentionMask.length = b.inputIds.length ∧
      (∀ row ∈ b.positionIds, row.length = b.inputIds.length) ∧
      b.lossMask.length = b.inputIds.length := by
  rw [Buffers.sameLengths, Bool.and_eq_true, Bool.and_eq_true, and_assoc,
    decide_eq_true_iff, decide_eq_true_iff, List.all_eq_true]
  simp only [decide_eq_true_iff]
  exact and_congr_left fun _ => eq_comm

theorem Inv.sameLengths (h : Inv p r calls b) : b.sameLengths = true :=
  sameLengths_iff.mpr
    ⟨h.attentionMask, h.positionIds, h.composed.length_eq⟩

/-- Neither ids, nor positions, nor masks are changed. -/
theorem Inv.congr (h : Inv p r calls b) (hids : b'.inputIds = b.inputIds)
    (hmask : b'.attentionMask = b.attentionMask)
    (hpositions : b'.positionIds = b.positionIds)
    (hloss : b'.lossMask = b.lossMask) : Inv p r calls b' := by
  constructor
  · rw [hids, hloss]
    exact h.composed
  · rw [hmask, hids]
    exact h.attentionMask
  · rw [hpositions, hids]
    exact h.positionIds

theorem updateInputIds_eq_ok {newInputIds : List τ}
    {attentionMask lossMask : Bool} {grids : Option ν}
    (h : b.updateInputIds p newInputIds attentionMask lossMask grids =
      .ok b') :
    b'.inputIds = b.inputIds ++ newInputIds ∧
      b'.lossMask =
        b.lossMask ++ List.replicate newInputIds.length lossMask ∧
      b'.sameLengths = true ∧
      ∃ rows, getPositionIds p newInputIds
          (List.replicate newInputIds.length attentionMask.toNat) grids =
            .ok rows ∧
        catPositionIds b.positionIds rows = .ok b'.positionIds := by
  obtain ⟨rows, hrows, h⟩ := bind_eq_ok.mp h
  obtain ⟨positionIds, hpositions, h⟩ := bind_eq_ok.mp h
  dsimp only at h
  obtain ⟨_, hassert, h⟩ := bind_eq_ok.mp h
  cases h
  exact ⟨rfl, rfl, pyAssert_eq_ok.mp hassert, rows, hrows, hpositions⟩

theorem Inv.update (h : Inv p r calls b) {segment : List (τ × Bool)}
    {newInputIds : List τ} {attentionMask lossMask : Bool}
    {grids : Option ν}
    (hupdate : b.updateInputIds p newInputIds attentionMask lossMask grids =
      .ok b')
    (hsegment : segment = newInputIds.map fun id => (id, lossMask))
    (hcall : Contributes p r call segment) :
    Inv p r (calls ++ [call]) b' := by
  obtain ⟨hids, hloss, hlengths, -⟩ := updateInputIds_eq_ok hupdate
  obtain ⟨hmask, hpositions, -⟩ := sameLengths_iff.mp hlengths
  refine ⟨?_, hmask, hpositions⟩
  have hcomposed := h.composed.append hcall
  rw [hsegment, List.map_map, List.map_map] at hcomposed
  rw [hids, hloss]
  simpa [Function.comp_def] using hcomposed

theorem Inv.counts_update (hinv : Inv p r calls b)
    {newInputIds : List τ} {lossMask : Bool} {grids : Option ν}
    (hupdate : b.updateInputIds p newInputIds true lossMask grids = .ok b')
    (h : CountsIf p b) : CountsIf p b' := by
  intro htext
  obtain ⟨hids, -, hlengths, rows, hrows, hcat⟩ :=
    updateInputIds_eq_ok hupdate
  obtain ⟨-, hpositions, -⟩ := sameLengths_iff.mp hlengths
  rw [getPositionIds, htext] at hrows
  cases hrows
  rw [Bool.toNat_true, computePositionIdWithMask_replicate] at hcat
  refine counts_catPositionIds (h htext) (fun row hrow => ?_) hcat hpositions
  rw [hinv.positionIds row hrow, hids, List.length_append]

/-- The same columns of all buffers are kept. -/
theorem Inv.dropLast (h : Inv p r calls b) {k : ℕ}
    (hprompt : r.promptIds.length ≤ (withoutLast k b.inputIds).length)
    (hdropped : ∀ bit ∈ b.lossMask.drop (withoutLast k b.inputIds).length,
      bit = false) : Inv p r calls (b.dropLast k) := by
  rw [length_withoutLast] at hprompt hdropped
  refine ⟨?_, ?_, ?_⟩
  · have hcomposed := h.composed.take hprompt hdropped
    rw [Buffers.dropLast, withoutLast_eq_take rfl,
      withoutLast_eq_take h.composed.length_eq]
    exact hcomposed
  · rw [Buffers.dropLast, length_withoutLast, length_withoutLast,
      h.attentionMask]
  · intro row hrow
    obtain ⟨old, hold, rfl⟩ := List.mem_map.mp hrow
    rw [Buffers.dropLast, length_withoutLast, length_withoutLast,
      h.positionIds old hold]

theorem counts_take {rows : List (List ℤ)} (h : Counts rows) (k : ℕ) :
    Counts (rows.map (List.take k)) := by
  intro row hrow
  obtain ⟨old, hold, rfl⟩ := List.mem_map.mp hrow
  rw [h old hold, ← List.map_take, List.take_range, List.length_map,
    List.length_range]

theorem Inv.counts_dropLast (hinv : Inv p r calls b) (k : ℕ)
    (h : CountsIf p b) : CountsIf p (b.dropLast k) := by
  intro htext
  have hrows : (b.dropLast k).positionIds = b.positionIds.map
      (List.take (sliceIndex b.inputIds.length (-(k : ℤ)))) :=
    List.map_congr_left fun row hrow =>
      withoutLast_eq_take (hinv.positionIds row hrow)
  rw [hrows]
  exact counts_take (h htext) _

/-- A call that adds nothing. -/
theorem Inv.nothing (h : Inv p r calls b)
    (hcall : Contributes p r call []) : Inv p r (calls ++ [call]) b where
  composed := by simpa using h.composed.append hcall
  attentionMask := h.attentionMask
  positionIds := h.positionIds

end Calls

section Removing

variable [DecidableEq τ] {p : ProcessingClass τ ι κ ν} {r : Request τ}
  {calls : List (Call τ ι κ)} {b b' : Buffers τ ι κ}

/-- The call takes nothing away, or the end as far as it may. -/
theorem Inv.remove (h : Inv p r calls b) (hremovable : Removable r b)
    (hremove : b.removeGenerationPromptIdsIfPresent r = .ok b') :
    Inv p r calls b' := by
  obtain ⟨present, hpresent, hremove⟩ := bind_eq_ok.mp hremove
  cases hremove
  cases present with
  | false => exact h
  | true =>
      obtain ⟨hprompt, hdropped⟩ := hremovable hpresent
      exact h.dropLast hprompt hdropped

theorem Inv.counts_remove (hinv : Inv p r calls b)
    (hremove : b.removeGenerationPromptIdsIfPresent r = .ok b')
    (h : CountsIf p b) : CountsIf p b' := by
  obtain ⟨present, -, hremove⟩ := bind_eq_ok.mp hremove
  cases hremove
  cases present with
  | false => exact h
  | true => exact hinv.counts_dropLast _ h

theorem getGenerationPromptIds_eq_ok {ids : List τ}
    (h : b.getGenerationPromptIds p r = .ok (b', ids)) : b' = b ∨
      b.updateInputIds p r.generationPromptIds true false none = .ok b' := by
  obtain ⟨present, -, h⟩ := bind_eq_ok.mp h
  obtain ⟨next, hnext, h⟩ := bind_eq_ok.mp h
  have hb : b' = next := by
    split at h
    · obtain ⟨inputs, -, h⟩ := bind_eq_ok.mp h
      cases h
      rfl
    · cases h
      rfl
  subst hb
  cases present with
  | true =>
      cases hnext
      exact .inl rfl
  | false => exact .inr hnext

theorem addToolResponseMessages_eq_ok {contents : List (ToolResponse ι)}
    (h : b.addToolResponseMessages p r contents = .ok b') : b' = b ∨
      contents.all ToolResponse.isEmpty = false ∧
      ∃ messages data removed newInputIds grids,
        Buffers.removeGenerationPromptIdsIfPresent r
          { b with messages := messages, multiModalData := data } =
            .ok removed ∧
        removed.updateInputIds p newInputIds true false grids = .ok b' := by
  rw [Buffers.addToolResponseMessages] at h
  by_cases hempty : contents.all ToolResponse.isEmpty = true
  · rw [if_pos hempty] at h
    cases h
    exact .inl rfl
  · rw [if_neg hempty] at h
    obtain ⟨delta, -, h⟩ := bind_eq_ok.mp h
    dsimp only at h
    obtain ⟨data, -, h⟩ := bind_eq_ok.mp h
    obtain ⟨inputs, -, h⟩ := bind_eq_ok.mp h
    obtain ⟨removed, hremoved, h⟩ := bind_eq_ok.mp h
    exact .inr ⟨Bool.not_eq_true _ ▸ hempty, _, data, removed, _, _, hremoved,
      h⟩

/-- What one call keeps. -/
theorem Inv.call {call : Call τ ι κ} (h : Inv p r calls b)
    (hundisturbed : Undisturbed r b call) (hcall : b.call p r call = .ok b') :
    Inv p r (calls ++ [call]) b' ∧ (CountsIf p b → CountsIf p b') := by
  cases call with
  | getGenerationPromptIds =>
      obtain ⟨⟨next, ids⟩, hnext, rfl⟩ := map_eq_ok.mp hcall
      rcases getGenerationPromptIds_eq_ok hnext with rfl | hupdate
      · exact ⟨h.nothing fun e he => (by cases he), id⟩
      · refine ⟨h.update hupdate rfl fun e he => ?_,
          h.counts_update hupdate⟩
        obtain ⟨id, -, rfl⟩ := List.mem_map.mp he
        rfl
  | addUserMessage content =>
      obtain ⟨inputs, -, hupdate⟩ := bind_eq_ok.mp hcall
      have hsame : Inv p r calls { b with
          messages := b.messages ++ [⟨"user", .text content, none⟩] } :=
        h.congr rfl rfl rfl rfl
      refine ⟨hsame.update hupdate rfl fun e he => ?_,
        hsame.counts_update hupdate⟩
      obtain ⟨id, -, rfl⟩ := List.mem_map.mp he
      rfl
  | addAssistantMessage content contentIds toolCalls =>
      obtain ⟨ids, hids, hupdate⟩ := bind_eq_ok.mp hcall
      have hsame : Inv p r calls { b with
          messages := b.messages ++
            [⟨"assistant", .text content, toolCalls⟩] } :=
        h.congr rfl rfl rfl rfl
      exact ⟨hsame.update hupdate rfl ⟨ids, hids, rfl⟩,
        hsame.counts_update hupdate⟩
  | addToolResponseMessages contents =>
      rcases addToolResponseMessages_eq_ok hcall with rfl |
        ⟨hcontents, messages, data, removed, ids, grids, hremove, hupdate⟩
      · exact ⟨h.nothing fun e he => (by cases he), id⟩
      · have hsame : Inv p r calls { b with
            messages := messages, multiModalData := data } :=
          h.congr rfl rfl rfl rfl
        have hremoved := hsame.remove (hundisturbed hcontents) hremove
        refine ⟨hremoved.update hupdate rfl fun e he => ?_, fun hcounts =>
          hremoved.counts_update hupdate (hsame.counts_remove hremove hcounts)⟩
        obtain ⟨id, -, rfl⟩ := List.mem_map.mp he
        rfl

end Removing

/-- What `initialize_request` leaves. -/
structure Initial (p : ProcessingClass τ ι κ ν) (args : Args τ ι κ)
    (r : Request τ) (b : Buffers τ ι κ) : Prop where
  inputIds : b.inputIds = r.promptIds
  attentionMask : b.attentionMask = r.promptAttentionMask
  lossMask : b.lossMask = List.replicate r.promptIds.length false
  length_attentionMask : r.promptAttentionMask.length = r.promptIds.length
  length_lossMask : r.promptLossMask.length = r.promptIds.length
  length_positionIds : ∀ row ∈ b.positionIds,
    row.length = r.promptIds.length
  length_promptPositionIds : ∀ rows ∈ r.promptPositionIds,
    (rows.headD []).length = r.promptIds.length
  counts : PlainText p args r → Counts b.positionIds
  generationPrompt : r.generationPromptIds.length ≤ r.promptIds.length

section Initialising

variable {p : ProcessingClass τ ι κ ν} {args : Args τ ι κ}
  {data : MultiModalData ι} {ids : List τ} {mask : List ℕ}
  {positionIds : List (List ℤ)} {promptPositionIds : Option (List (List ℤ))}

theorem promptBuffers_lengths (h : promptBuffers p args data =
      .ok (ids, mask, positionIds, promptPositionIds)) :
    mask.length = ids.length ∧
      (∀ row ∈ positionIds, row.length = ids.length) ∧
      ∀ rows ∈ promptPositionIds, (rows.headD []).length = ids.length := by
  rw [promptBuffers] at h
  cases hgiven : args.given with
  | some given =>
      rw [hgiven] at h
      cases h
      exact ⟨given.length_attentionMask, given.length_positionIds,
        given.length_promptPositionIds⟩
  | none =>
      rw [hgiven] at h
      obtain ⟨inputs, -, h⟩ := bind_eq_ok.mp h
      obtain ⟨rows, hrows, h⟩ := bind_eq_ok.mp h
      cases h
      obtain ⟨hne, hlength⟩ := length_of_getPositionIds hrows
      rw [inputs.length_attentionMask] at hlength
      refine ⟨inputs.length_attentionMask, hlength, fun _ hmem => ?_⟩
      cases hmem
      cases positionIds with
      | nil => exact absurd rfl hne
      | cons row rows => exact hlength row List.mem_cons_self

theorem promptBuffers_counts (h : promptBuffers p args data =
      .ok (ids, mask, positionIds, promptPositionIds))
    (htext : p.llmPositions = none) (hmask : ∀ m ∈ mask, m = 1)
    (hgivens : ∀ given ∈ args.given, Counts given.positionIds) :
    Counts positionIds := by
  rw [promptBuffers] at h
  cases hgiven : args.given with
  | some given =>
      rw [hgiven] at h
      cases h
      exact hgivens given hgiven
  | none =>
      rw [hgiven] at h
      obtain ⟨inputs, -, h⟩ := bind_eq_ok.mp h
      obtain ⟨rows, hrows, h⟩ := bind_eq_ok.mp h
      cases h
      rw [getPositionIds, htext] at hrows
      cases hrows
      intro row hrow
      rw [List.mem_singleton.mp hrow, List.eq_replicate_of_mem hmask,
        computePositionIdWithMask_replicate, List.length_map,
        List.length_range]

theorem initializeRequest_eq_ok {r : Request τ} {b : Buffers τ ι κ}
    (h : initializeRequest p args = .ok (r, b)) : Initial p args r b := by
  obtain ⟨_, -, h⟩ := bind_eq_ok.mp h
  dsimp only at h
  obtain ⟨withoutPrompt, -, h⟩ := bind_eq_ok.mp h
  obtain ⟨⟨ids, mask, positionIds, promptPositionIds⟩, hbuffers, h⟩ :=
    bind_eq_ok.mp h
  obtain ⟨baseWithout, -, h⟩ := bind_eq_ok.mp h
  obtain ⟨baseWith, -, h⟩ := bind_eq_ok.mp h
  cases h
  obtain ⟨hmask, hpositions, hprompt⟩ := promptBuffers_lengths hbuffers
  exact {
    inputIds := rfl
    attentionMask := rfl
    lossMask := rfl
    length_attentionMask := hmask
    length_lossMask := List.length_replicate
    length_positionIds := hpositions
    length_promptPositionIds := hprompt
    counts := fun hplain =>
      promptBuffers_counts hbuffers hplain.1 hplain.2.1 hplain.2.2
    generationPrompt := by
      rw [List.length_drop]
      exact Nat.sub_le _ _ }

theorem Initial.inv {r : Request τ} {b : Buffers τ ι κ}
    (h : Initial p args r b) : Inv p r [] b where
  composed := ⟨[], .nil, by simp [h.inputIds], by simp [h.lossMask]⟩
  attentionMask := by
    rw [h.attentionMask, h.inputIds, h.length_attentionMask]
  positionIds row hrow := by
    rw [h.length_positionIds row hrow, h.inputIds]

end Initialising

/-- The buffers of a request at any time. -/
structure Consistent [DecidableEq τ] (p : ProcessingClass τ ι κ ν)
    (args : Args τ ι κ) (r : Request τ) (b : Buffers τ ι κ) : Prop where
  attentionMask : b.attentionMask.length = b.inputIds.length
  positionIds : ∀ row ∈ b.positionIds, row.length = b.inputIds.length
  lossMask : b.lossMask.length = b.inputIds.length
  prompt : r.promptIds <+: b.inputIds
  counts : PlainText p args r → Counts b.positionIds
  /-- A generation prompt that is not empty is compared without an error. -/
  compares : r.generationPromptIds ≠ [] →
    ∃ present, b.endsWithGenerationPrompt r = .ok present

/-- The response buffers: a first part of what the calls contributed after the
prompt. -/
structure Finalized (p : ProcessingClass τ ι κ ν) (r : Request τ)
    (calls : List (Call τ ι κ)) (response : Response τ) : Prop where
  attentionMask : response.responseAttentionMask.length =
    response.responseIds.length
  positionIds : ∀ row ∈ response.responsePositionIds,
    row.length = response.responseIds.length
  lossMask : response.responseLossMask.length = response.responseIds.length
  limit : response.responseIds.length ≤ r.maxResponseLen
  kept : ∃ segments, List.Forall₂ (Contributes p r) calls segments ∧
    ∃ k, k = min r.maxResponseLen (r.maxModelLen - r.promptIds.length) ∧
      response.responseIds = (segments.flatten.take k).map Prod.fst ∧
      response.responseLossMask = (segments.flatten.take k).map Prod.snd

section Finalizing

variable {p : ProcessingClass τ ι κ ν} {args : Args τ ι κ} {r : Request τ}
  {calls : List (Call τ ι κ)} {initial b b' : Buffers τ ι κ}
  {response : Response τ}

theorem drop_take_append {α : Type} {before after : List α} {n m : ℕ}
    (hn : before.length = n) :
    ((before ++ after).take m).drop n = after.take (m - n) := by
  rw [List.drop_take, ← hn, List.drop_left]

theorem Composed.truncated {ids : List τ} {lossMask : List Bool}
    (h : Composed p r calls ids lossMask) :
    ∃ segments, List.Forall₂ (Contributes p r) calls segments ∧
      ∃ k, k = min r.maxResponseLen (r.maxModelLen - r.promptIds.length) ∧
        ((ids.take r.maxModelLen).drop r.promptIds.length).take
            r.maxResponseLen = (segments.flatten.take k).map Prod.fst ∧
        ((lossMask.take r.maxModelLen).drop r.promptIds.length).take
            r.maxResponseLen = (segments.flatten.take k).map Prod.snd := by
  obtain ⟨segments, hsegments, rfl, rfl⟩ := h
  refine ⟨segments, hsegments, _, rfl, ?_, ?_⟩
  · rw [drop_take_append rfl, List.take_take, List.map_take]
  · rw [drop_take_append List.length_replicate, List.take_take, List.map_take]

theorem length_response {α : Type} {xs : List α} {n P M R : ℕ}
    (h : xs.length = n) :
    (((xs.take M).drop P).take R).length = min R (min M n - P) := by
  rw [List.length_take, List.length_drop, List.length_take, h]

theorem truncateOutputIds_eq_ok
    (h : b.truncateOutputIds r = .ok (b', response)) :
    b'.inputIds = b.inputIds.take r.maxModelLen ∧
    b'.positionIds = b.positionIds.map (List.take r.maxModelLen) ∧
    ∃ rows, r.promptPositionIds = some rows ∧
      response = {
        responseIds := ((b.inputIds.take r.maxModelLen).drop
          r.promptIds.length).take r.maxResponseLen
        responseAttentionMask := ((b.attentionMask.take r.maxModelLen).drop
          r.promptAttentionMask.length).take r.maxResponseLen
        responsePositionIds := b.positionIds.map fun row =>
          ((row.take r.maxModelLen).drop (rows.headD []).length).take
            r.maxResponseLen
        responseLossMask := ((b.lossMask.take r.maxModelLen).drop
          r.promptLossMask.length).take r.maxResponseLen } := by
  rw [Buffers.truncateOutputIds] at h
  cases hrows : r.promptPositionIds with
  | none =>
      rw [hrows] at h
      cases h
  | some rows =>
      rw [hrows] at h
      cases h
      refine ⟨rfl, rfl, rows, rfl, ?_⟩
      rw [List.map_map]
      rfl

theorem Inv.finalized (h : Inv p r calls b)
    (hinitial : Initial p args r initial)
    (htruncate : b.truncateOutputIds r = .ok (b', response)) :
    Finalized p r calls response := by
  obtain ⟨-, -, rows, hrows, rfl⟩ := truncateOutputIds_eq_ok htruncate
  have hpositions := hinitial.length_promptPositionIds rows hrows
  obtain ⟨segments, hsegments, k, hk, hids, hloss⟩ := h.composed.truncated
  constructor
  · rw [hinitial.length_attentionMask, length_response h.attentionMask,
      length_response rfl]
  · intro row hrow
    obtain ⟨old, hold, rfl⟩ := List.mem_map.mp hrow
    rw [hpositions, length_response (h.positionIds old hold),
      length_response rfl]
  · rw [hinitial.length_lossMask, length_response h.composed.length_eq,
      length_response rfl]
  · exact List.length_take_le _ _
  · refine ⟨segments, hsegments, k, hk, hids, ?_⟩
    rw [hinitial.length_lossMask]
    exact hloss

variable [DecidableEq τ]

theorem finalize_eq_ok {reason : FinishReason}
    (h : b.finalize p r reason = .ok (b', response)) :
    ∃ removed, b.removeGenerationPromptIdsIfPresent r = .ok removed ∧
      removed.truncateOutputIds r = .ok (b', response) ∧
      b'.sameLengths = true := by
  obtain ⟨removed, hremoved, h⟩ := bind_eq_ok.mp h
  obtain ⟨_, -, h⟩ := bind_eq_ok.mp h
  obtain ⟨_, -, h⟩ := bind_eq_ok.mp h
  obtain ⟨⟨final, response⟩, htruncate, h⟩ := bind_eq_ok.mp h
  obtain ⟨_, hassert, h⟩ := bind_eq_ok.mp h
  cases h
  exact ⟨removed, hremoved, htruncate, pyAssert_eq_ok.mp hassert⟩

/-- The comparison finds as many ids as the generation prompt has. -/
theorem exists_endsWithGenerationPrompt (hne : r.generationPromptIds ≠ [])
    (hle : r.generationPromptIds.length ≤ b.inputIds.length) :
    ∃ present, b.endsWithGenerationPrompt r = .ok present := by
  have hlength := length_lastPart_of_pos (List.length_pos_iff.mpr hne) hle
  unfold Buffers.endsWithGenerationPrompt eqAll
  rw [if_pos hlength]
  exact ⟨_, rfl⟩

theorem Inv.consistent (h : Inv p r calls b)
    (hinitial : Initial p args r initial)
    (hcounts : CountsIf p initial → CountsIf p b) : Consistent p args r b where
  attentionMask := h.attentionMask
  positionIds := h.positionIds
  lossMask := h.composed.length_eq
  prompt := h.composed.prompt_le
  counts hplain := hcounts (fun _ => hinitial.counts hplain) hplain.1
  compares hne := exists_endsWithGenerationPrompt hne
    (hinitial.generationPrompt.trans h.composed.prompt_le.length_le)

theorem Inv.finalize {reason : FinishReason} (h : Inv p r calls b)
    (hinitial : Initial p args r initial)
    (hcounts : CountsIf p initial → CountsIf p b)
    (hprompt : r.promptIds.length ≤ r.maxModelLen)
    (hremovable : Removable r b)
    (hfinalize : b.finalize p r reason = .ok (b', response)) :
    Consistent p args r b' ∧ Finalized p r calls response := by
  obtain ⟨removed, hremove, htruncate, hlengths⟩ := finalize_eq_ok hfinalize
  have hremoved := h.remove hremovable hremove
  obtain ⟨hids, hpositions, -⟩ := truncateOutputIds_eq_ok htruncate
  obtain ⟨hattention, hrows, hloss⟩ := sameLengths_iff.mp hlengths
  have hprefix : r.promptIds <+: b'.inputIds := by
    rw [hids, List.prefix_take_iff]
    exact ⟨hremoved.composed.prompt_le, hprompt⟩
  refine ⟨⟨hattention, hrows, hloss, hprefix, fun hplain => ?_, fun hne => ?_⟩,
    hremoved.finalized hinitial htruncate⟩
  · rw [hpositions]
    exact counts_take (h.counts_remove hremove
      (hcounts fun _ => hinitial.counts hplain) hplain.1) _
  · exact exists_endsWithGenerationPrompt hne
      (hinitial.generationPrompt.trans hprefix.length_le)

theorem call_of_step {call : Call τ ι κ}
    (h : (system p r initial).step b call = some b') :
    b.call p r call = .ok b' := by
  change (b.call p r call).toOption = some b' at h
  cases hcall : b.call p r call with
  | error e =>
      rw [hcall] at h
      cases h
  | ok next =>
      rw [hcall] at h
      cases h
      rfl

/-- Where the calls and `finalize` take away only generation prompts behind
the prompt, the buffers stay consistent, and the response buffers hold what
was added, up to the truncation. -/
theorem calls_consistent (p : ProcessingClass τ ι κ ν) (args : Args τ ι κ)
    (r : Request τ) (initial b : Buffers τ ι κ) (calls : List (Call τ ι κ))
    (hrequest : initializeRequest p args = .ok (r, initial))
    (hundisturbed : (system p r initial).Guarded (Undisturbed r) initial calls)
    (hrun : (system p r initial).exec initial calls = some b) :
    Consistent p args r b ∧
      ∀ reason b' response, Removable r b →
        r.promptIds.length ≤ r.maxModelLen →
        b.finalize p r reason = .ok (b', response) →
          Consistent p args r b' ∧ Finalized p r calls response := by
  have hinitial := initializeRequest_eq_ok hrequest
  have hstep : ∀ done b call b',
      Inv p r done b ∧ (CountsIf p initial → CountsIf p b) →
      Undisturbed r b call → (system p r initial).step b call = some b' →
      Inv p r (done ++ [call]) b' ∧ (CountsIf p initial → CountsIf p b') := by
    intro done b call b' h hguard hcall
    obtain ⟨hnext, hkeeps⟩ := h.1.call hguard (call_of_step hcall)
    exact ⟨hnext, fun hcounts => hkeeps (h.2 hcounts)⟩
  have hstart : Inv p r [] initial ∧
      (CountsIf p initial → CountsIf p initial) := ⟨hinitial.inv, id⟩
  obtain ⟨hinv, hcounts⟩ :=
    System.invariant_of_guarded_history hstep hstart hundisturbed hrun
  exact ⟨hinv.consistent hinitial hcounts,
    fun reason b' response hremovable hprompt hfinalize =>
      hinv.finalize hinitial hcounts hprompt hremovable hfinalize⟩

end Finalizing

/-- A template without a generation prompt: two ids are already too many to be
compared with none. -/
theorem raises_of_empty [DecidableEq τ] {p : ProcessingClass τ ι κ ν}
    {r : Request τ} {b : Buffers τ ι κ} (hempty : r.generationPromptIds = [])
    (hlong : 2 ≤ b.inputIds.length) (reason : FinishReason) :
    ∃ e, b.endsWithGenerationPrompt r = .error e ∧
      b.getGenerationPromptIds p r = .error e ∧
      b.finalize p r reason = .error e := by
  have hall : lastPart 0 b.inputIds = b.inputIds := by
    rw [lastPart, sliceIndex, if_neg (by simp)]
    simp
  have hends : b.endsWithGenerationPrompt r = .error (.runtimeError
      "The size of tensor a must match the size of tensor b") := by
    rw [Buffers.endsWithGenerationPrompt, hempty, List.length_nil, hall]
    match hids : b.inputIds, hlong with
    | x :: y :: rest, _ => rfl
  refine ⟨_, hends, ?_, ?_⟩
  · rw [Buffers.getGenerationPromptIds, hends]
    rfl
  · rw [Buffers.finalize, Buffers.removeGenerationPromptIdsIfPresent, hends]
    rfl

/-- The role of a message, then its text and an end mark for the assistant. -/
def render (message : Message Unit) : List ℕ :=
  if message.role = "system" then [0]
  else if message.role = "user" then [1]
  else if message.role = "assistant" then [9, 3, 8]
  else [4]

/-- A template whose generation prompt is one token. -/
def chat : ProcessingClass ℕ Unit Unit Unit where
  process messages _ addGenerationPrompt :=
    let ids := messages.flatMap render ++
      if addGenerationPrompt then [9] else []
    .ok ⟨ids, List.replicate ids.length 1, none, List.length_replicate⟩
  llmPositions := none

def chatArgs : Args ℕ Unit Unit where
  messages := [⟨"user", .text "Hi", none⟩]
  multiModalKeys := none
  multiModalData := none
  maxPromptLen := 10
  maxResponseLen := 100
  maxModelLen := 200
  useInferenceChatTemplate := false
  sanityCheck := true
  given := none

def chatRequest : Request ℕ where
  multiModalKeys := ["image", "video"]
  maxResponseLen := 100
  maxModelLen := 200
  useInferenceChatTemplate := false
  sanityCheck := true
  promptIds := [1, 9]
  promptAttentionMask := [1, 1]
  promptPositionIds := some [[0, 1]]
  promptLossMask := [false, false]
  generationPromptIds := [9]
  baseConvWoGenPromptEndPos := 2
  baseConvWithGenPromptEndPos := 3

def chatPrompt : Buffers ℕ Unit Unit where
  messages := [⟨"user", .text "Hi", none⟩]
  multiModalData := emptyData ["image", "video"]
  inputIds := [1, 9]
  attentionMask := [1, 1]
  positionIds := [[0, 1]]
  lossMask := [false, false]

theorem initializeRequest_chat :
    initializeRequest chat chatArgs = .ok (chatRequest, chatPrompt) := by
  rfl

/-- A tool call and an answer. -/
def toolCall : List (Call ℕ Unit Unit) :=
  [.getGenerationPromptIds, .addAssistantMessage "3" (some [3, 8]) none,
    .getGenerationPromptIds,
    .addToolResponseMessages [⟨some "4", none, none⟩],
    .getGenerationPromptIds, .addAssistantMessage "3" none none]

theorem calls_consistent_toolCall :
    ∃ b b' response,
      (system chat chatRequest chatPrompt).exec chatPrompt toolCall = some b ∧
      b.finalize chat chatRequest .stop = .ok (b', response) ∧
      Consistent chat chatArgs chatRequest b ∧
      Consistent chat chatArgs chatRequest b' ∧
      Finalized chat chatRequest toolCall response ∧
      response.responseLossMask =
        [true, true, false, false, true, true] := by
  obtain ⟨b, hrun⟩ : ∃ b, (system chat chatRequest chatPrompt).exec chatPrompt
      toolCall = some b := ⟨_, rfl⟩
  obtain ⟨hconsistent, hfinalize⟩ := calls_consistent chat chatArgs chatRequest
    chatPrompt b toolCall initializeRequest_chat (by decide +kernel) hrun
  cases hrun
  obtain ⟨hfinal, hresponse⟩ := hfinalize .stop _ _ (by decide +kernel)
    (by decide +kernel) rfl
  exact ⟨_, _, _, rfl, rfl, hconsistent, hfinal, hresponse, rfl⟩

/-- An assistant message that ends with the generation prompt loses its end. -/
theorem not_finalized_assistantMessage :
    ¬ ∀ (p : ProcessingClass ℕ Unit Unit Unit) (args : Args ℕ Unit Unit)
      (r : Request ℕ) (initial b b' : Buffers ℕ Unit Unit)
      (calls : List (Call ℕ Unit Unit)) (reason : FinishReason)
      (response : Response ℕ),
      initializeRequest p args = .ok (r, initial) →
      (system p r initial).exec initial calls = some b →
      b.finalize p r reason = .ok (b', response) →
        Consistent p args r b' ∧ Finalized p r calls response := by
  intro h
  obtain ⟨-, hfinalized⟩ := h chat chatArgs chatRequest chatPrompt _ _
    [.addAssistantMessage "39" (some [3, 9]) none] .stop _
    initializeRequest_chat rfl rfl
  obtain ⟨segments, hsegments, k, hk, hids, -⟩ := hfinalized.kept
  cases hsegments with
  | cons hcall hrest =>
      cases hrest
      obtain ⟨ids, hassistant, rfl⟩ := hcall
      cases hassistant
      have htwo := congrArg List.length hids
      rw [hk] at htwo
      exact absurd htwo (by decide +kernel)

end RolloutRequest

end SelfDistillation
