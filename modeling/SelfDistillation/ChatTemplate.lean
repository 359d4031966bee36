/-
Chat templates applied turn by turn (verl/utils/chat_template.py), as the
multi-turn SFT dataset and the agent loops do
(utils/dataset/multiturn_sft_dataset.py, experimental/agent_loop).
-/
import SelfDistillation.PyText

namespace SelfDistillation

namespace ChatTemplate

variable {ξ τ : Type}

inductive Part
  | text (text : Text)
  | image
  | video
deriving DecidableEq, Repr

inductive Content
  | text (text : Text)
  | parts (parts : List Part)
deriving DecidableEq, Repr

/-- A message; `rest` are the fields other than role and content. -/
structure Message (ξ : Type) where
  role : String
  content : Content
  rest : Option ξ
deriving DecidableEq, Repr

/-- `{"role": "user", "content": ""}` -/
def emptyUser : Message ξ := ⟨"user", .text [], none⟩

/-- `{"role": "user", "content": [{"type": "text", "text": ""}]}` -/
def dummyUser : Message ξ := ⟨"user", .parts [.text []], none⟩

abbrev Kwargs := PyDict Text

/-- A system prefix, the messages one after the other, and a generation
prompt that every assistant message starts with. -/
structure Template (ξ τ : Type) where
  systemPrefix : Option τ → Kwargs → Text
  render : Kwargs → Message ξ → Text
  generationPrompt : Kwargs → Text
  /-- The template raises on messages without a user message. -/
  requiresUser : Bool
  prompt_isPrefix : ∀ kwargs message, message.role = "assistant" →
    generationPrompt kwargs <+: render kwargs message

def hasUser (messages : List (Message ξ)) : Bool :=
  messages.any fun message => message.role == "user"

namespace Template

variable (t : Template ξ τ)

def Accepts (messages : List (Message ξ)) : Prop :=
  t.requiresUser = true → hasUser messages = true

instance (messages : List (Message ξ)) : Decidable (t.Accepts messages) :=
  inferInstanceAs (Decidable (_ → _))

/-- The pieces of a text a template makes. -/
def segments (messages : List (Message ξ)) (addGenerationPrompt : Bool)
    (tools : Option τ) (kwargs : Kwargs) : List Text :=
  t.systemPrefix tools kwargs :: messages.map (t.render kwargs) ++
    if addGenerationPrompt then [t.generationPrompt kwargs] else []

/-- The library's `apply_chat_template(..., tokenize=False)`. -/
def apply (messages : List (Message ξ)) (addGenerationPrompt : Bool)
    (tools : Option τ) (kwargs : Kwargs) : Py Text :=
  if t.Accepts messages then
    .ok (t.segments messages addGenerationPrompt tools kwargs).flatten
  else .error (.runtimeError "No user query found in messages.")

def IsSegment (kwargs : Kwargs) (segment : Text) : Prop :=
  (∃ tools, segment = t.systemPrefix tools kwargs) ∨
  (∃ message, segment = t.render kwargs message) ∨
  segment = t.generationPrompt kwargs

end Template

/-- A tokenizer with its template; tokenisation commutes with concatenation at
the borders of the pieces. -/
structure Processor (ξ τ : Type) where
  template : Template ξ τ
  encode : Text → List Nat
  encode_segments : ∀ (kwargs : Kwargs) (segments : List Text),
    (∀ segment ∈ segments, template.IsSegment kwargs segment) →
    encode segments.flatten = segments.flatMap encode

/-- The library's `apply_chat_template(..., tokenize=True)`: messages, whether
to add the generation prompt, tools and arguments. -/
abbrev Tokenize (ξ τ : Type) :=
  List (Message ξ) → Bool → Option τ → Kwargs → Py (List Nat)

def tokenized (p : Processor ξ τ) : Tokenize ξ τ :=
  fun messages addGenerationPrompt tools kwargs =>
    p.encode <$> p.template.apply messages addGenerationPrompt tools kwargs

section Applying

variable (tokenize : Tokenize ξ τ)

/-- The system prompt by the lengths of two dummy renderings. -/
def initializeSystemPrompt (_applyChatTemplateKwargs : Kwargs) :
    Py (List Nat) := do
  let token1 ← tokenize [emptyUser] false none PyDict.empty
  let token2 ← tokenize [emptyUser, emptyUser] false none PyDict.empty
  return token1.take (sliceIndex token1.length
    (-((token2.length : Int) - token1.length)))

def extractSystemPromptAndGeneration : Py (List Nat × List Nat) := do
  let token1 ← tokenize [emptyUser] false none PyDict.empty
  let token2 ← tokenize [emptyUser, emptyUser] false none PyDict.empty
  let systemPrompt := token1.take (sliceIndex token1.length
    (-((token2.length : Int) - token1.length)))
  let token3 ← tokenize [emptyUser] true none PyDict.empty
  return (systemPrompt, token3.drop token1.length)

/-- `apply_chat_template(..., tokenize=False)` of this repository. -/
def applyChatTemplateText (p : Processor ξ τ) (messages : List (Message ξ))
    (addGenerationPrompt : Bool) (tools : Option τ) (kwargs : Kwargs) :
    Py Text :=
  match p.template.apply messages addGenerationPrompt tools kwargs with
  | .ok output => .ok output
  | .error _ => do
      let dummyUserPrefix ← p.template.apply [dummyUser] false tools kwargs
      let output ← p.template.apply (dummyUser :: messages)
        addGenerationPrompt tools kwargs
      return output.drop dummyUserPrefix.length

/-- `apply_chat_template(..., tokenize=True)`; only a plain list of ids is
asked for its first element. -/
def applyChatTemplateIds (messages : List (Message ξ))
    (addGenerationPrompt : Bool) (tools : Option τ) (kwargs : Kwargs)
    (returnDict : Bool) : Py (List Nat) :=
  match tokenize messages addGenerationPrompt tools kwargs with
  | .ok output => .ok output
  | .error _ => do
      let dummyUserPrefix ← tokenize [dummyUser] false tools kwargs
      let output ← tokenize (dummyUser :: messages) addGenerationPrompt
        tools kwargs
      if !returnDict && output.isEmpty then .error .indexError
      else return output.drop dummyUserPrefix.length

end Applying

section Dataset

/-- One message of the SFT dataset. -/
structure Processed where
  inputIds : List Nat
  lossMask : List Nat
  attentionMask : List Nat
deriving DecidableEq, Repr

variable (tokenize : Tokenize ξ τ) (systemPrompt generationPrompt : List Nat)
  (kwargs : Kwargs)

def withoutSystemPrompt {α : Type} (index : Nat) (message : Message ξ)
    (values : List α) : List α :=
  if index ≠ 0 ∧ message.role ≠ "system" then
    values.drop systemPrompt.length
  else values

def processSingleMessage (index : Nat) (message : Message ξ)
    (tools : Option τ) : Py Processed := do
  let inputIds ← applyChatTemplateIds tokenize [message] false tools kwargs true
  let attentionMask := List.replicate inputIds.length 1
  let inputIds := withoutSystemPrompt systemPrompt index message inputIds
  let attentionMask :=
    withoutSystemPrompt systemPrompt index message attentionMask
  let lossMask :=
    if message.role = "assistant" then
      List.replicate (min generationPrompt.length attentionMask.length) 0 ++
        List.replicate (attentionMask.length - generationPrompt.length) 1
    else List.replicate attentionMask.length 0
  return ⟨inputIds, lossMask, attentionMask⟩

/-- The messages from the place `index` on; the tools go with the first. -/
def processFrom (tools : Option τ) : Nat → List (Message ξ) →
    Py (List Processed)
  | _, [] => .ok []
  | index, message :: messages => do
      let processed ← processSingleMessage tokenize systemPrompt generationPrompt
        kwargs index message (if index = 0 then tools else none)
      let rest ← processFrom tools (index + 1) messages
      return processed :: rest

/-- The ids and masks of a conversation, message by message. -/
def tokenizeMessages (tokenizer : Tokenize ξ τ) (tools : Option τ)
    (messages : List (Message ξ)) : Py Processed := do
  let (systemPrompt, generationPrompt) ←
    extractSystemPromptAndGeneration tokenizer
  let processed ← processFrom tokenize systemPrompt generationPrompt kwargs
    tools 0 messages
  if processed.isEmpty then
    .error (.runtimeError "torch.cat(): expected a non-empty list of Tensors")
  else
    return ⟨processed.flatMap (·.inputIds), processed.flatMap (·.lossMask),
      processed.flatMap (·.attentionMask)⟩

end Dataset

section AgentLoop

variable (p : Processor ξ τ) (hasProcessor : Bool) (kwargs : Kwargs)
  (systemPrompt : List Nat)

/-- `AgentLoopBase.apply_chat_template` on text: with a processor the template
gives a text, which is tokenized afterwards. -/
def agentApplyChatTemplate (messages : List (Message ξ)) (tools : Option τ)
    (removeSystemPrompt : Bool) : Py (List Nat) := do
  let promptIds ←
    if hasProcessor then
      p.encode <$> applyChatTemplateText p messages true tools kwargs
    else applyChatTemplateIds (tokenized p) messages true tools kwargs false
  return if removeSystemPrompt then promptIds.drop systemPrompt.length
    else promptIds

/-- What is generated, and the tool or user messages that answer it. -/
structure Round (ξ : Type) where
  assistant : Message ξ
  responseIds : List Nat
  addMessages : List (Message ξ)

/-- The prompt after the rounds that follow. -/
def extendPrompt (promptIds : List Nat) :
    List (Round ξ) → Py (List Nat)
  | [] => .ok promptIds
  | round :: rounds => do
      let addedIds ← agentApplyChatTemplate p hasProcessor kwargs systemPrompt
        round.addMessages none true
      extendPrompt (promptIds ++ round.responseIds ++ addedIds) rounds

/-- `prompt_ids` of a run: the first messages, then round after round. -/
def runPromptIds (initial : List (Message ξ)) (tools : Option τ)
    (rounds : List (Round ξ)) : Py (List Nat) := do
  let systemPrompt ← initializeSystemPrompt (tokenized p) kwargs
  let promptIds ← agentApplyChatTemplate p hasProcessor kwargs systemPrompt
    initial tools false
  extendPrompt p hasProcessor kwargs systemPrompt promptIds rounds

/-- All messages of a run. -/
def conversation (initial : List (Message ξ)) (rounds : List (Round ξ)) :
    List (Message ξ) :=
  initial ++ rounds.flatMap fun round => round.assistant :: round.addMessages

end AgentLoop

section Ids

variable (p : Processor ξ τ)

def prefixIds (tools : Option τ) (kwargs : Kwargs) : List Nat :=
  p.encode (p.template.systemPrefix tools kwargs)

def messageIds (kwargs : Kwargs) (message : Message ξ) : List Nat :=
  p.encode (p.template.render kwargs message)

def messagesIds (kwargs : Kwargs) (messages : List (Message ξ)) : List Nat :=
  messages.flatMap (messageIds p kwargs)

def promptIds (kwargs : Kwargs) (addGenerationPrompt : Bool) : List Nat :=
  if addGenerationPrompt then p.encode (p.template.generationPrompt kwargs)
  else []

variable {p} {messages : List (Message ξ)} {addGenerationPrompt : Bool}
  {tools : Option τ} {kwargs : Kwargs}

theorem isSegment_render (messages : List (Message ξ)) :
    ∀ segment ∈ messages.map (p.template.render kwargs) ++
      (if addGenerationPrompt then [p.template.generationPrompt kwargs]
        else []),
      p.template.IsSegment kwargs segment := by
  intro segment hsegment
  rcases List.mem_append.mp hsegment with hsegment | hsegment
  · obtain ⟨message, -, rfl⟩ := List.mem_map.mp hsegment
    exact .inr (.inl ⟨message, rfl⟩)
  · split at hsegment
    · exact .inr (.inr (List.mem_singleton.mp hsegment))
    · cases hsegment

/-- Messages and generation prompt, without the system prefix. -/
theorem encode_rendered :
    p.encode (messages.map (p.template.render kwargs) ++
      if addGenerationPrompt then [p.template.generationPrompt kwargs]
        else []).flatten =
      messagesIds p kwargs messages ++
        promptIds p kwargs addGenerationPrompt := by
  rw [p.encode_segments kwargs _ (isSegment_render messages),
    List.flatMap_append, List.flatMap_map, messagesIds, promptIds]
  congr 1
  split
  · exact List.flatMap_singleton _ _
  · rfl

theorem encode_flatten_segments :
    p.encode (p.template.segments messages addGenerationPrompt tools
      kwargs).flatten =
      prefixIds p tools kwargs ++ (messagesIds p kwargs messages ++
        promptIds p kwargs addGenerationPrompt) := by
  have hsegments : ∀ segment ∈ p.template.systemPrefix tools kwargs ::
      (messages.map (p.template.render kwargs) ++
        if addGenerationPrompt then [p.template.generationPrompt kwargs]
          else []), p.template.IsSegment kwargs segment := by
    intro segment hsegment
    rcases List.mem_cons.mp hsegment with rfl | hsegment
    · exact .inl ⟨tools, rfl⟩
    · exact isSegment_render messages segment hsegment
  rw [Template.segments, List.cons_append, p.encode_segments kwargs _ hsegments,
    List.flatMap_cons, ← p.encode_segments kwargs _ (isSegment_render messages),
    encode_rendered, prefixIds]

theorem tokenized_of_accepts (addGenerationPrompt : Bool) (tools : Option τ)
    (kwargs : Kwargs) (h : p.template.Accepts messages) :
    tokenized p messages addGenerationPrompt tools kwargs =
      .ok (prefixIds p tools kwargs ++ (messagesIds p kwargs messages ++
        promptIds p kwargs addGenerationPrompt)) := by
  rw [tokenized, Template.apply, if_pos h, ← encode_flatten_segments]
  rfl

theorem accepts_cons_of_user {message : Message ξ}
    (h : message.role = "user") (messages : List (Message ξ)) :
    p.template.Accepts (message :: messages) := by
  intro _
  rw [hasUser, List.any_cons, h]
  rfl

theorem role_dummyUser : (dummyUser : Message ξ).role = "user" := rfl

theorem role_emptyUser : (emptyUser : Message ξ).role = "user" := rfl

theorem messagesIds_cons (message : Message ξ)
    (messages : List (Message ξ)) :
    messagesIds p kwargs (message :: messages) =
      messageIds p kwargs message ++ messagesIds p kwargs messages := by
  rw [messagesIds, messagesIds, List.flatMap_cons]

theorem messagesIds_singleton (message : Message ξ) :
    messagesIds p kwargs [message] = messageIds p kwargs message :=
  List.flatMap_singleton _ _

theorem messagesIds_append (front back : List (Message ξ)) :
    messagesIds p kwargs (front ++ back) =
      messagesIds p kwargs front ++ messagesIds p kwargs back :=
  List.flatMap_append

/-- What the fallback cuts off, and what it leaves. -/
theorem exists_fallback (p : Processor ξ τ) (messages : List (Message ξ))
    (addGenerationPrompt : Bool) (tools : Option τ) (kwargs : Kwargs) :
    ∃ prefixText outputText,
      p.template.apply [dummyUser] false tools kwargs = .ok prefixText ∧
      p.template.apply (dummyUser :: messages) addGenerationPrompt tools
        kwargs = .ok outputText ∧
      p.encode prefixText =
        prefixIds p tools kwargs ++ messageIds p kwargs dummyUser ∧
      p.encode outputText =
        prefixIds p tools kwargs ++ messageIds p kwargs dummyUser ++
          (messagesIds p kwargs messages ++
            promptIds p kwargs addGenerationPrompt) ∧
      p.encode (outputText.drop prefixText.length) =
        messagesIds p kwargs messages ++
          promptIds p kwargs addGenerationPrompt := by
  refine ⟨(p.template.segments [dummyUser] false tools kwargs).flatten,
    (p.template.segments (dummyUser :: messages) addGenerationPrompt tools
      kwargs).flatten, ?_, ?_, ?_, ?_, ?_⟩
  · rw [Template.apply, if_pos (accepts_cons_of_user role_dummyUser [])]
  · rw [Template.apply, if_pos (accepts_cons_of_user role_dummyUser messages)]
  · rw [encode_flatten_segments, messagesIds_singleton, promptIds]
    simp
  · rw [encode_flatten_segments, messagesIds_cons]
    simp only [List.append_assoc]
  · have hsplit : (p.template.segments (dummyUser :: messages)
        addGenerationPrompt tools kwargs).flatten =
        (p.template.segments [dummyUser] false tools kwargs).flatten ++
          (messages.map (p.template.render kwargs) ++
            if addGenerationPrompt then [p.template.generationPrompt kwargs]
            else []).flatten := by
      simp [Template.segments]
    rw [hsplit, List.drop_left, encode_rendered]

/-- Cutting a rendering off the end, of which an empty one cuts everything. -/
theorem take_sliceIndex (front rendering : List Nat) :
    (front ++ rendering).take (sliceIndex (front ++ rendering).length
      (-(((front ++ (rendering ++ rendering)).length : Int) -
        (front ++ rendering).length))) =
      if rendering = [] then [] else front := by
  have hlength : -(((front ++ (rendering ++ rendering)).length : Int) -
      (front ++ rendering).length) = -(rendering.length : Int) := by
    simp only [List.length_append, Nat.cast_add]
    omega
  rw [hlength]
  by_cases hempty : rendering = []
  · rw [if_pos hempty, hempty, List.length_nil]
    rfl
  · have hpos := List.length_pos_iff.mpr hempty
    have hlt : -(rendering.length : Int) < 0 := by omega
    have hindex : (-(rendering.length : Int) +
        ((front ++ rendering).length : Nat)).toNat = front.length := by
      rw [List.length_append]
      omega
    rw [if_neg hempty, sliceIndex, if_pos hlt, hindex, List.take_left]

theorem tokenized_emptyUsers :
    tokenized p [emptyUser] false none PyDict.empty =
      .ok (prefixIds p none PyDict.empty ++
        messageIds p PyDict.empty emptyUser) ∧
    tokenized p [emptyUser, emptyUser] false none PyDict.empty =
      .ok (prefixIds p none PyDict.empty ++
        (messageIds p PyDict.empty emptyUser ++
          messageIds p PyDict.empty emptyUser)) ∧
    tokenized p [emptyUser] true none PyDict.empty =
      .ok (prefixIds p none PyDict.empty ++
        messageIds p PyDict.empty emptyUser ++
          promptIds p PyDict.empty true) := by
  have haccepts : ∀ messages : List (Message ξ),
      p.template.Accepts (emptyUser :: messages) :=
    accepts_cons_of_user role_emptyUser
  refine ⟨?_, ?_, ?_⟩
  · rw [tokenized_of_accepts false none PyDict.empty (haccepts []),
      messagesIds_singleton, promptIds]
    simp
  · rw [tokenized_of_accepts false none PyDict.empty (haccepts [emptyUser]),
      messagesIds_cons, messagesIds_singleton, promptIds]
    simp
  · rw [tokenized_of_accepts true none PyDict.empty (haccepts []),
      messagesIds_singleton, List.append_assoc]

/-- The two dummy renderings differ by the empty user message. -/
theorem initializeSystemPrompt_eq :
    initializeSystemPrompt (tokenized p) kwargs =
      .ok (if messageIds p PyDict.empty emptyUser = [] then []
        else prefixIds p none PyDict.empty) := by
  obtain ⟨hone, htwo, -⟩ := tokenized_emptyUsers (p := p)
  rw [initializeSystemPrompt, hone, ok_bind, htwo, ok_bind, take_sliceIndex]
  rfl

theorem extractSystemPromptAndGeneration_eq :
    extractSystemPromptAndGeneration (tokenized p) =
      .ok (if messageIds p PyDict.empty emptyUser = [] then []
        else prefixIds p none PyDict.empty, promptIds p PyDict.empty true) := by
  obtain ⟨hone, htwo, hthree⟩ := tokenized_emptyUsers (p := p)
  rw [extractSystemPromptAndGeneration, hone, ok_bind, htwo, ok_bind, hthree,
    ok_bind, take_sliceIndex, List.drop_left]
  rfl

/-- What the template's ids are with the fallback. -/
def appliedIds (p : Processor ξ τ) (messages : List (Message ξ))
    (addGenerationPrompt : Bool) (tools : Option τ) (kwargs : Kwargs) :
    List Nat :=
  (if p.template.Accepts messages then prefixIds p tools kwargs else []) ++
    (messagesIds p kwargs messages ++ promptIds p kwargs addGenerationPrompt)

/-- The text with the fallback: the system prefix is there where the messages
are accepted. -/
theorem applyChatTemplateText_eq :
    p.encode <$> applyChatTemplateText p messages addGenerationPrompt tools
      kwargs =
      .ok (appliedIds p messages addGenerationPrompt tools kwargs) := by
  rw [appliedIds]
  by_cases h : p.template.Accepts messages
  · rw [if_pos h, ← encode_flatten_segments, applyChatTemplateText,
      Template.apply, if_pos h]
    rfl
  · obtain ⟨prefixText, outputText, hfront, houtput, -, -, hrest⟩ :=
      exists_fallback p messages addGenerationPrompt tools kwargs
    have hraises : p.template.apply messages addGenerationPrompt tools kwargs =
        .error (.runtimeError "No user query found in messages.") := by
      rw [Template.apply, if_neg h]
    rw [if_neg h, List.nil_append, ← hrest, applyChatTemplateText, hraises]
    simp only [hfront, houtput, ok_bind]
    rfl

theorem tokenized_of_not_accepts (h : ¬ p.template.Accepts messages) :
    tokenized p messages addGenerationPrompt tools kwargs =
      .error (.runtimeError "No user query found in messages.") := by
  rw [tokenized, Template.apply, if_neg h]
  rfl

theorem applyChatTemplateIds_of_not_accepts (returnDict : Bool)
    (h : ¬ p.template.Accepts messages) :
    applyChatTemplateIds (tokenized p) messages addGenerationPrompt tools kwargs
        returnDict =
      if !returnDict && (prefixIds p tools kwargs ++
          messageIds p kwargs dummyUser ++ (messagesIds p kwargs messages ++
            promptIds p kwargs addGenerationPrompt)).isEmpty then
        .error .indexError
      else .ok (messagesIds p kwargs messages ++
        promptIds p kwargs addGenerationPrompt) := by
  obtain ⟨prefixText, outputText, hfront, houtput, hfrontIds, houtputIds, -⟩ :=
    exists_fallback p messages addGenerationPrompt tools kwargs
  have hfront' : tokenized p [dummyUser] false tools kwargs =
      .ok (p.encode prefixText) := by
    rw [tokenized, hfront]
    rfl
  have houtput' : tokenized p (dummyUser :: messages) addGenerationPrompt
      tools kwargs = .ok (p.encode outputText) := by
    rw [tokenized, houtput]
    rfl
  rw [applyChatTemplateIds, tokenized_of_not_accepts h]
  simp only [hfront', houtput', ok_bind]
  rw [houtputIds, hfrontIds, List.drop_left]
  rfl

theorem applyChatTemplateIds_dict :
    applyChatTemplateIds (tokenized p) messages addGenerationPrompt tools kwargs true =
      .ok (appliedIds p messages addGenerationPrompt tools kwargs) := by
  rw [appliedIds]
  by_cases h : p.template.Accepts messages
  · rw [if_pos h, applyChatTemplateIds, tokenized_of_accepts _ _ _ h]
  · rw [if_neg h, applyChatTemplateIds_of_not_accepts true h]
    rfl

end Ids

section Concatenating

variable {p : Processor ξ τ} {kwargs : Kwargs} {tools : Option τ}
  {systemPrompt generationPrompt : List Nat}

/-- Pieces kept in part, put together, are the same only piece by piece. -/
theorem flatten_eq_flatten_iff {xs ys : List (List Nat)}
    (h : List.Forall₂ List.Sublist xs ys) :
    xs.flatten = ys.flatten ↔ xs = ys := by
  have hle : xs.flatten.length ≤ ys.flatten.length ∧
      (xs.flatten.length = ys.flatten.length → xs = ys) := by
    induction h with
    | nil => exact ⟨Nat.le_refl _, fun _ => rfl⟩
    | cons hxy _ ih =>
        have hlength := hxy.length_le
        rw [List.flatten_cons, List.flatten_cons, List.length_append,
          List.length_append]
        refine ⟨Nat.add_le_add hlength ih.1, fun hsum => ?_⟩
        have hrest := ih.1
        rw [hxy.eq_of_length (by omega), ih.2 (by omega)]
  constructor
  · intro heq
    exact hle.2 (congrArg List.length heq)
  · intro heq
    rw [heq]

/-- The loss mask of a message of so many tokens. -/
def lossMaskOf (generationPrompt : List Nat) (message : Message ξ)
    (length : Nat) : List Nat :=
  if message.role = "assistant" then
    List.replicate (min generationPrompt.length length) 0 ++
      List.replicate (length - generationPrompt.length) 1
  else List.replicate length 0

theorem withoutSystemPrompt_mask (index : Nat) (message : Message ξ)
    (values : List Nat) :
    withoutSystemPrompt systemPrompt index message
        (List.replicate values.length 1) =
      List.replicate (withoutSystemPrompt systemPrompt index message
        values).length 1 := by
  rw [withoutSystemPrompt, withoutSystemPrompt]
  split
  · rw [List.drop_replicate, List.length_drop]
  · rfl

/-- Ids and masks of a message. -/
def processedOf (generationPrompt : List Nat) (message : Message ξ)
    (ids : List Nat) : Processed :=
  ⟨ids, lossMaskOf generationPrompt message ids.length,
    List.replicate ids.length 1⟩

/-- The masks fit what is left of the ids of a message. -/
theorem processSingleMessage_of_ids {tokenize : Tokenize ξ τ}
    {message : Message ξ} {ids : List Nat}
    (h : applyChatTemplateIds tokenize [message] false tools kwargs true =
      .ok ids) (index : Nat) :
    processSingleMessage tokenize systemPrompt generationPrompt kwargs index
        message tools =
      .ok (processedOf generationPrompt message
        (withoutSystemPrompt systemPrompt index message ids)) := by
  simp only [processSingleMessage, h, ok_bind, withoutSystemPrompt_mask,
    List.length_replicate]
  rfl

/-- The ids of one message, as the dataset keeps them. -/
def pieceIds (p : Processor ξ τ) (systemPrompt : List Nat) (kwargs : Kwargs)
    (tools : Option τ) (index : Nat) (message : Message ξ) : List Nat :=
  withoutSystemPrompt systemPrompt index message
    (appliedIds p [message] false tools kwargs)

theorem processSingleMessage_eq (index : Nat) (message : Message ξ) :
    processSingleMessage (tokenized p) systemPrompt generationPrompt kwargs
        index message tools =
      .ok (processedOf generationPrompt message
        (pieceIds p systemPrompt kwargs tools index message)) :=
  processSingleMessage_of_ids applyChatTemplateIds_dict index

/-- A message after the first. -/
def laterIds (p : Processor ξ τ) (systemPrompt : List Nat) (kwargs : Kwargs)
    (message : Message ξ) : List Nat :=
  pieceIds p systemPrompt kwargs none 1 message

/-- The pieces of a conversation. -/
def piecesIds (p : Processor ξ τ) (systemPrompt : List Nat) (kwargs : Kwargs)
    (tools : Option τ) : List (Message ξ) → List (List Nat)
  | [] => []
  | first :: rest => pieceIds p systemPrompt kwargs tools 0 first ::
      rest.map (laterIds p systemPrompt kwargs)

theorem processFrom_later (index : Nat) (messages : List (Message ξ)) :
    processFrom (tokenized p) systemPrompt generationPrompt kwargs tools (index + 1)
        messages =
      .ok (messages.map fun message => processedOf generationPrompt message
        (laterIds p systemPrompt kwargs message)) := by
  induction messages generalizing index with
  | nil => rfl
  | cons message messages ih =>
      have hne : index + 1 ≠ 0 := Nat.succ_ne_zero index
      have hpiece : pieceIds p systemPrompt kwargs none (index + 1) message =
          laterIds p systemPrompt kwargs message := by
        rw [laterIds, pieceIds, pieceIds, withoutSystemPrompt,
          withoutSystemPrompt]
        simp only [hne, Nat.one_ne_zero, ne_eq, not_false_eq_true, true_and]
      rw [processFrom, if_neg hne, processSingleMessage_eq, ok_bind, ih,
        ok_bind, hpiece]
      rfl

theorem processFrom_eq (messages : List (Message ξ)) :
    processFrom (tokenized p) systemPrompt generationPrompt kwargs tools 0 messages =
      .ok (List.zipWith (processedOf generationPrompt) messages
        (piecesIds p systemPrompt kwargs tools messages)) := by
  cases messages with
  | nil => rfl
  | cons first rest =>
      rw [processFrom, if_pos rfl, processSingleMessage_eq, ok_bind,
        processFrom_later, ok_bind, piecesIds, List.zipWith_cons_cons,
        List.zipWith_map_right, List.zipWith_self]
      rfl

theorem flatten_zipWith_inputIds (generationPrompt : List Nat)
    (messages : List (Message ξ)) (pieces : List (List Nat))
    (h : messages.length = pieces.length) :
    (List.zipWith (processedOf generationPrompt) messages pieces).flatMap
      (·.inputIds) = pieces.flatten := by
  induction messages generalizing pieces with
  | nil => rw [List.length_eq_zero_iff.mp h.symm]; rfl
  | cons message messages ih =>
      cases pieces with
      | nil => exact absurd h (Nat.succ_ne_zero _)
      | cons piece pieces =>
          rw [List.zipWith_cons_cons, List.flatMap_cons, List.flatten_cons,
            ih pieces (Nat.succ.inj h)]
          rfl

theorem length_piecesIds (p : Processor ξ τ) (systemPrompt : List Nat)
    (kwargs : Kwargs) (tools : Option τ) (messages : List (Message ξ)) :
    messages.length =
      (piecesIds p systemPrompt kwargs tools messages).length := by
  cases messages with
  | nil => rfl
  | cons first rest => simp [piecesIds]

/-- The system prompt the code finds. -/
def foundPrompt (p : Processor ξ τ) : List Nat :=
  if messageIds p PyDict.empty emptyUser = [] then []
  else prefixIds p none PyDict.empty

theorem tokenizeMessages_eq (first : Message ξ) (rest : List (Message ξ)) :
    (·.inputIds) <$> tokenizeMessages (tokenized p) kwargs (tokenized p) tools (first :: rest) =
      .ok (piecesIds p (foundPrompt p) kwargs tools (first :: rest)).flatten := by
  have hids := flatten_zipWith_inputIds (promptIds p PyDict.empty true)
    (first :: rest) _
    (length_piecesIds p (foundPrompt p) kwargs tools (first :: rest))
  rw [tokenizeMessages, extractSystemPromptAndGeneration_eq, ok_bind]
  simp only []
  rw [← foundPrompt, processFrom_eq, ok_bind, ← hids]
  rfl

end Concatenating

section Equivalence

variable (p : Processor ξ τ) (kwargs : Kwargs) (tools : Option τ)

/-- An empty user message is seen, and the arguments do not change the prefix
the two dummy renderings show. -/
def PrefixFound : Prop :=
  if messageIds p PyDict.empty emptyUser = [] then
    prefixIds p none kwargs = []
  else prefixIds p none PyDict.empty = prefixIds p none kwargs

/-- Where a template wants a user message, only a user message is rendered
with the prefix, and yet the prefix is cut off every later message. -/
def DatasetBorders : List (Message ξ) → Prop
  | [] => False
  | first :: rest =>
      if p.template.requiresUser then
        (first.role = "user" ∨ prefixIds p tools kwargs = []) ∧
        ∀ message ∈ rest, message.role ≠ "user" → message.role ≠ "system" →
          prefixIds p none kwargs = [] ∨ messageIds p kwargs message = []
      else ∀ message ∈ rest, message.role = "system" →
        prefixIds p none kwargs = []

variable {p kwargs tools}

theorem initializeSystemPrompt_iff :
    initializeSystemPrompt (tokenized p) kwargs = .ok (prefixIds p none kwargs) ↔
      PrefixFound p kwargs := by
  rw [initializeSystemPrompt_eq, PrefixFound]
  by_cases h : messageIds p PyDict.empty emptyUser = []
  · rw [if_pos h, if_pos h, Except.ok.injEq, eq_comm]
  · rw [if_neg h, if_neg h, Except.ok.injEq]

theorem foundPrompt_of_prefixFound (h : PrefixFound p kwargs) :
    foundPrompt p = prefixIds p none kwargs := by
  have hok := initializeSystemPrompt_iff.mpr h
  rw [initializeSystemPrompt_eq] at hok
  exact Except.ok.inj hok

theorem accepts_singleton {message : Message ξ} :
    p.template.Accepts [message] ↔
      (p.template.requiresUser = true → message.role = "user") := by
  rw [Template.Accepts, hasUser, List.any_cons, List.any_nil, Bool.or_false,
    beq_iff_eq]

theorem accepts_of_not_requiresUser (h : p.template.requiresUser = false)
    (messages : List (Message ξ)) : p.template.Accepts messages := by
  intro htrue
  rw [h] at htrue
  cases htrue

theorem appliedIds_singleton (message : Message ξ) :
    appliedIds p [message] false tools kwargs =
      (if p.template.Accepts [message] then prefixIds p tools kwargs
        else []) ++ messageIds p kwargs message := by
  rw [appliedIds, messagesIds_singleton, promptIds, if_neg Bool.false_ne_true,
    List.append_nil]

/-- What the conversation as a whole gives for each message. -/
def wantedIds (p : Processor ξ τ) (kwargs : Kwargs) (tools : Option τ)
    (first : Message ξ) (rest : List (Message ξ)) : List (List Nat) :=
  (prefixIds p tools kwargs ++ messageIds p kwargs first) ::
    rest.map (messageIds p kwargs)

theorem pieceIds_zero (systemPrompt : List Nat) (first : Message ξ) :
    pieceIds p systemPrompt kwargs tools 0 first =
      (if p.template.Accepts [first] then prefixIds p tools kwargs
        else []) ++ messageIds p kwargs first := by
  rw [pieceIds, withoutSystemPrompt, if_neg (fun h => h.1 rfl),
    appliedIds_singleton]

theorem laterIds_system (systemPrompt : List Nat) {message : Message ξ}
    (h : message.role = "system") :
    laterIds p systemPrompt kwargs message =
      (if p.template.Accepts [message] then prefixIds p none kwargs
        else []) ++ messageIds p kwargs message := by
  rw [laterIds, pieceIds, withoutSystemPrompt, if_neg (fun hne => hne.2 h),
    appliedIds_singleton]

theorem laterIds_of_ne_system (systemPrompt : List Nat) {message : Message ξ}
    (h : message.role ≠ "system") :
    laterIds p systemPrompt kwargs message =
      ((if p.template.Accepts [message] then prefixIds p none kwargs
        else []) ++ messageIds p kwargs message).drop
          systemPrompt.length := by
  rw [laterIds, pieceIds, withoutSystemPrompt, if_pos ⟨Nat.one_ne_zero, h⟩,
    appliedIds_singleton]

/-- Cutting the front off what has none takes nothing only if one is empty. -/
theorem drop_length_eq_iff (front ids : List Nat) :
    ids.drop front.length = ids ↔ front = [] ∨ ids = [] := by
  constructor
  · intro h
    have hlength := congrArg List.length h
    rw [List.length_drop] at hlength
    by_cases hids : ids = []
    · exact .inr hids
    · have hpos := List.length_pos_iff.mpr hids
      exact .inl (List.length_eq_zero_iff.mp (by omega))
  · intro h
    rcases h with rfl | rfl
    · rfl
    · exact List.drop_nil

theorem ite_append_sublist {c : Prop} [Decidable c] (front ids : List Nat) :
    List.Sublist ((if c then front else []) ++ ids) (front ++ ids) := by
  by_cases hc : c
  · rw [if_pos hc]
  · rw [if_neg hc]
    exact List.sublist_append_right front ids

theorem ite_append_eq_iff {c : Prop} [Decidable c] (front ids : List Nat) :
    (if c then front else []) ++ ids = front ++ ids ↔ c ∨ front = [] := by
  rw [List.append_cancel_right_eq]
  by_cases hc : c
  · rw [if_pos hc]
    exact ⟨fun _ => .inl hc, fun _ => rfl⟩
  · rw [if_neg hc, eq_comm]
    exact ⟨.inr, fun h => h.resolve_left hc⟩

theorem sublist_messageIds_laterIds (h : p.template.requiresUser = false)
    (message : Message ξ) :
    List.Sublist (messageIds p kwargs message)
      (laterIds p (prefixIds p none kwargs) kwargs message) := by
  have haccepts := accepts_of_not_requiresUser h [message]
  by_cases hsystem : message.role = "system"
  · rw [laterIds_system _ hsystem, if_pos haccepts]
    exact List.sublist_append_right _ _
  · rw [laterIds_of_ne_system _ hsystem, if_pos haccepts, List.drop_left]

theorem laterIds_eq_iff_of_not_requiresUser
    (h : p.template.requiresUser = false) (message : Message ξ) :
    laterIds p (prefixIds p none kwargs) kwargs message =
        messageIds p kwargs message ↔
      (message.role = "system" → prefixIds p none kwargs = []) := by
  have haccepts := accepts_of_not_requiresUser h [message]
  by_cases hsystem : message.role = "system"
  · rw [laterIds_system _ hsystem, if_pos haccepts, List.append_left_eq_self]
    exact ⟨fun heq _ => heq, fun heq => heq hsystem⟩
  · rw [laterIds_of_ne_system _ hsystem, if_pos haccepts, List.drop_left]
    exact ⟨fun _ hrole => absurd hrole hsystem, fun _ => rfl⟩

theorem laterIds_sublist_messageIds (h : p.template.requiresUser = true)
    (message : Message ξ) :
    List.Sublist (laterIds p (prefixIds p none kwargs) kwargs message)
      (messageIds p kwargs message) := by
  by_cases hsystem : message.role = "system"
  · have hrefused : ¬ p.template.Accepts [message] := by
      rw [accepts_singleton, hsystem]
      exact fun himp => absurd (himp h) (by decide)
    rw [laterIds_system _ hsystem, if_neg hrefused, List.nil_append]
  · rw [laterIds_of_ne_system _ hsystem]
    by_cases haccepts : p.template.Accepts [message]
    · rw [if_pos haccepts, List.drop_left]
    · rw [if_neg haccepts, List.nil_append]
      exact List.drop_sublist _ _

theorem laterIds_eq_iff_of_requiresUser (h : p.template.requiresUser = true)
    (message : Message ξ) :
    laterIds p (prefixIds p none kwargs) kwargs message =
        messageIds p kwargs message ↔
      (message.role ≠ "user" → message.role ≠ "system" →
        prefixIds p none kwargs = [] ∨ messageIds p kwargs message = []) := by
  by_cases huser : message.role = "user"
  · have hsystem : message.role ≠ "system" := by
      rw [huser]
      decide
    rw [laterIds_of_ne_system _ hsystem,
      if_pos (accepts_singleton.mpr fun _ => huser), List.drop_left]
    exact ⟨fun _ hne => absurd huser hne, fun _ => rfl⟩
  · have hrefused : ¬ p.template.Accepts [message] :=
      fun haccepts => huser (accepts_singleton.mp haccepts h)
    by_cases hsystem : message.role = "system"
    · rw [laterIds_system _ hsystem, if_neg hrefused, List.nil_append]
      exact ⟨fun _ _ hne => absurd hsystem hne, fun _ => rfl⟩
    · rw [laterIds_of_ne_system _ hsystem, if_neg hrefused, List.nil_append,
        drop_length_eq_iff]
      exact ⟨fun heq _ _ => heq, fun heq => heq huser hsystem⟩

theorem forall₂_map_of_forall {f g : Message ξ → List Nat}
    (h : ∀ message, List.Sublist (f message) (g message)) (messages : List (Message ξ)) :
    List.Forall₂ List.Sublist (messages.map f) (messages.map g) := by
  induction messages with
  | nil => exact .nil
  | cons message messages ih => exact .cons (h message) ih

/-- Message by message the dataset gives what the conversation gives, just
under its condition. -/
theorem flatten_piecesIds_iff (first : Message ξ) (rest : List (Message ξ)) :
    (piecesIds p (prefixIds p none kwargs) kwargs tools
        (first :: rest)).flatten = (wantedIds p kwargs tools first rest).flatten ↔
      DatasetBorders p kwargs tools (first :: rest) := by
  cases hrequires : p.template.requiresUser with
  | true =>
      have hsublist : List.Forall₂ List.Sublist
          (piecesIds p (prefixIds p none kwargs) kwargs tools (first :: rest))
          (wantedIds p kwargs tools first rest) := by
        apply List.Forall₂.cons
        · rw [pieceIds_zero]
          exact ite_append_sublist _ _
        · exact forall₂_map_of_forall (laterIds_sublist_messageIds hrequires) rest
      rw [flatten_eq_flatten_iff hsublist, DatasetBorders, if_pos hrequires,
        piecesIds, wantedIds, List.cons.injEq, pieceIds_zero,
        ite_append_eq_iff, accepts_singleton, List.map_inj_left]
      simp only [laterIds_eq_iff_of_requiresUser hrequires, hrequires,
        forall_const]
  | false =>
      have hsublist : List.Forall₂ List.Sublist
          (wantedIds p kwargs tools first rest)
          (piecesIds p (prefixIds p none kwargs) kwargs tools
            (first :: rest)) := by
        apply List.Forall₂.cons
        · rw [pieceIds_zero,
            if_pos (accepts_of_not_requiresUser hrequires [first])]
        · exact forall₂_map_of_forall (sublist_messageIds_laterIds hrequires)
            rest
      rw [eq_comm, flatten_eq_flatten_iff hsublist, eq_comm, DatasetBorders,
        if_neg (ne_true_of_eq_false hrequires), piecesIds, wantedIds,
        List.cons.injEq, pieceIds_zero, ite_append_eq_iff, List.map_inj_left]
      simp only [laterIds_eq_iff_of_not_requiresUser hrequires,
        accepts_of_not_requiresUser hrequires, true_or, true_and]

theorem tokenizeMessages_nil :
    tokenizeMessages (tokenized p) kwargs (tokenized p) tools [] =
      .error (.runtimeError
        "torch.cat(): expected a non-empty list of Tensors") := by
  rw [tokenizeMessages, extractSystemPromptAndGeneration_eq]
  rfl

theorem dataset_iff (hfound : PrefixFound p kwargs)
    {messages : List (Message ξ)} (haccepts : p.template.Accepts messages) :
    (·.inputIds) <$> tokenizeMessages (tokenized p) kwargs (tokenized p) tools messages =
        tokenized p messages false tools kwargs ↔
      DatasetBorders p kwargs tools messages := by
  rw [tokenized_of_accepts false tools kwargs haccepts]
  cases messages with
  | nil =>
      rw [tokenizeMessages_nil]
      exact ⟨fun h => absurd h (nofun), False.elim⟩
  | cons first rest =>
      have hwanted : prefixIds p tools kwargs ++
          (messagesIds p kwargs (first :: rest) ++ promptIds p kwargs false) =
          (wantedIds p kwargs tools first rest).flatten := by
        rw [promptIds, if_neg Bool.false_ne_true, List.append_nil,
          messagesIds_cons, ← List.append_assoc, messagesIds, wantedIds,
          List.flatten_cons, List.flatMap_def]
      rw [tokenizeMessages_eq, foundPrompt_of_prefixFound hfound, hwanted,
        Except.ok.injEq, flatten_piecesIds_iff]

end Equivalence

section Rounds

variable (p : Processor ξ τ) (hasProcessor : Bool) (kwargs : Kwargs)
  (tools : Option τ)

/-- The response is the rest of an assistant message. -/
def Generated (round : Round ξ) : Prop :=
  round.assistant.role = "assistant" ∧
  promptIds p kwargs true ++ round.responseIds =
    messageIds p kwargs round.assistant

/-- There is an `output[0]` to ask whether it is a list. -/
def HasFirstId (messages : List (Message ξ)) : Prop :=
  hasProcessor = true ∨ p.template.Accepts messages ∨
  prefixIds p tools kwargs ++ messageIds p kwargs dummyUser ++
    (messagesIds p kwargs messages ++ promptIds p kwargs true) ≠ []

instance (messages : List (Message ξ)) :
    Decidable (HasFirstId p hasProcessor kwargs tools messages) :=
  inferInstanceAs (Decidable (_ ∨ _ ∨ _))

/-- Where a template wants a user message, the first messages and the answers
of each round have one, or there is nothing to cut off. -/
def AgentBorders (initial : List (Message ξ)) (rounds : List (Round ξ)) :
    Prop :=
  HasFirstId p hasProcessor kwargs tools initial ∧
  (p.template.Accepts initial ∨ prefixIds p tools kwargs = []) ∧
  ∀ round ∈ rounds,
    HasFirstId p hasProcessor kwargs none round.addMessages ∧
    (p.template.Accepts round.addMessages ∨ prefixIds p none kwargs = [] ∨
      messagesIds p kwargs round.addMessages ++ promptIds p kwargs true = [])

variable {p hasProcessor kwargs tools}

theorem applyChatTemplateIds_ok_iff {messages : List (Message ξ)}
    {ids : List Nat} :
    applyChatTemplateIds (tokenized p) messages true tools kwargs false = .ok ids ↔
      HasFirstId p false kwargs tools messages ∧
      ids = appliedIds p messages true tools kwargs := by
  rw [appliedIds]
  by_cases haccepts : p.template.Accepts messages
  · rw [applyChatTemplateIds, tokenized_of_accepts _ _ _ haccepts,
      if_pos haccepts]
    simp only [HasFirstId, haccepts, true_or, or_true, true_and,
      Except.ok.injEq]
    exact eq_comm
  · rw [applyChatTemplateIds_of_not_accepts false haccepts, if_neg haccepts]
    simp only [HasFirstId, haccepts, Bool.false_eq_true, false_or,
      Bool.not_false, Bool.true_and, List.isEmpty_iff, List.nil_append]
    by_cases hempty : prefixIds p tools kwargs ++
        messageIds p kwargs dummyUser ++ (messagesIds p kwargs messages ++
          promptIds p kwargs true) = []
    · rw [if_pos hempty]
      exact ⟨fun h => (nomatch h), fun h => absurd hempty h.1⟩
    · rw [if_neg hempty, Except.ok.injEq, eq_comm]
      exact ⟨fun h => ⟨hempty, h⟩, fun h => h.2⟩

theorem agentApplyChatTemplate_ok_iff {messages : List (Message ξ)}
    {systemPrompt ids : List Nat} {removeSystemPrompt : Bool} :
    agentApplyChatTemplate p hasProcessor kwargs systemPrompt messages tools
        removeSystemPrompt = .ok ids ↔
      HasFirstId p hasProcessor kwargs tools messages ∧
      ids = (appliedIds p messages true tools kwargs).drop
        (if removeSystemPrompt then systemPrompt.length else 0) := by
  have hdrop : ∀ found : List Nat,
      (if removeSystemPrompt then found.drop systemPrompt.length else found) =
        found.drop (if removeSystemPrompt then systemPrompt.length else 0) := by
    intro found
    cases removeSystemPrompt <;> rfl
  simp only [agentApplyChatTemplate, hdrop]
  cases hasProcessor with
  | true =>
      rw [if_pos rfl, applyChatTemplateText_eq, ok_bind]
      constructor
      · intro h
        exact ⟨.inl rfl, (Except.ok.inj h).symm⟩
      · intro h
        rw [h.2]
        rfl
  | false =>
      rw [if_neg Bool.false_ne_true, bind_eq_ok]
      constructor
      · rintro ⟨found, hfound, hids⟩
        obtain ⟨hfirst, rfl⟩ := applyChatTemplateIds_ok_iff.mp hfound
        exact ⟨hfirst, (Except.ok.inj hids).symm⟩
      · rintro ⟨hfirst, hids⟩
        refine ⟨_, applyChatTemplateIds_ok_iff.mpr ⟨hfirst, rfl⟩, ?_⟩
        rw [hids]
        rfl

/-- What a round adds: the response, and its answers without the system
prompt. -/
def roundIds (p : Processor ξ τ) (systemPrompt : List Nat) (kwargs : Kwargs)
    (round : Round ξ) : List (List Nat) :=
  [round.responseIds,
    (appliedIds p round.addMessages true none kwargs).drop systemPrompt.length]

theorem extendPrompt_ok_iff {systemPrompt promptIds ids : List Nat}
    {rounds : List (Round ξ)} :
    extendPrompt p hasProcessor kwargs systemPrompt promptIds rounds =
        .ok ids ↔
      (∀ round ∈ rounds,
        HasFirstId p hasProcessor kwargs none round.addMessages) ∧
      ids = promptIds ++
        (rounds.flatMap (roundIds p systemPrompt kwargs)).flatten := by
  induction rounds generalizing promptIds with
  | nil =>
      rw [extendPrompt, Except.ok.injEq, List.flatMap_nil, List.flatten_nil,
        List.append_nil, eq_comm]
      exact ⟨fun h => ⟨fun _ hmem => absurd hmem List.not_mem_nil, h⟩,
        fun h => h.2⟩
  | cons round rounds ih =>
      have hround : ∀ rest : List Nat, promptIds ++ round.responseIds ++
          (appliedIds p round.addMessages true none kwargs).drop
            systemPrompt.length ++ rest =
          promptIds ++ ((roundIds p systemPrompt kwargs round).flatten ++
            rest) := by
        intro rest
        simp only [roundIds, List.flatten_cons, List.flatten_nil,
          List.append_nil, List.append_assoc]
      rw [extendPrompt, bind_eq_ok, List.flatMap_cons, List.flatten_append,
        List.forall_mem_cons, ← hround]
      constructor
      · rintro ⟨addedIds, hadded, hrest⟩
        obtain ⟨hfirst, rfl⟩ := agentApplyChatTemplate_ok_iff.mp hadded
        obtain ⟨hall, hids⟩ := ih.mp hrest
        exact ⟨⟨hfirst, hall⟩, hids⟩
      · rintro ⟨⟨hfirst, hall⟩, hids⟩
        exact ⟨_, agentApplyChatTemplate_ok_iff.mpr ⟨hfirst, rfl⟩,
          ih.mpr ⟨hall, hids⟩⟩

/-- The pieces of a run. -/
def runPieces (p : Processor ξ τ) (systemPrompt : List Nat) (kwargs : Kwargs)
    (tools : Option τ) (initial : List (Message ξ))
    (rounds : List (Round ξ)) : List (List Nat) :=
  appliedIds p initial true tools kwargs ::
    rounds.flatMap (roundIds p systemPrompt kwargs)

theorem runPromptIds_ok_iff {initial : List (Message ξ)}
    {rounds : List (Round ξ)} {ids : List Nat} :
    runPromptIds p hasProcessor kwargs initial tools rounds = .ok ids ↔
      HasFirstId p hasProcessor kwargs tools initial ∧
      (∀ round ∈ rounds,
        HasFirstId p hasProcessor kwargs none round.addMessages) ∧
      ids = (runPieces p (foundPrompt p) kwargs tools initial
        rounds).flatten := by
  rw [runPromptIds, initializeSystemPrompt_eq, ok_bind, ← foundPrompt,
    bind_eq_ok, runPieces, List.flatten_cons]
  constructor
  · rintro ⟨promptIds, hprompt, hrest⟩
    obtain ⟨hfirst, rfl⟩ := agentApplyChatTemplate_ok_iff.mp hprompt
    exact ⟨hfirst, extendPrompt_ok_iff.mp hrest⟩
  · rintro ⟨hfirst, hrest⟩
    exact ⟨_, agentApplyChatTemplate_ok_iff.mpr ⟨hfirst, rfl⟩,
      extendPrompt_ok_iff.mpr hrest⟩

/-- What the conversation as a whole gives for a round. -/
def wantedRound (p : Processor ξ τ) (kwargs : Kwargs) (round : Round ξ) :
    List (List Nat) :=
  [round.responseIds,
    messagesIds p kwargs round.addMessages ++ promptIds p kwargs true]

theorem generationPrompt_append_rounds {rounds : List (Round ξ)}
    (h : ∀ round ∈ rounds, Generated p kwargs round) :
    promptIds p kwargs true ++
        (rounds.flatMap (wantedRound p kwargs)).flatten =
      messagesIds p kwargs (rounds.flatMap fun round =>
        round.assistant :: round.addMessages) ++ promptIds p kwargs true := by
  induction rounds with
  | nil =>
      rw [List.flatMap_nil, List.flatMap_nil, List.flatten_nil, messagesIds,
        List.flatMap_nil, List.append_nil, List.nil_append]
  | cons round rounds ih =>
      have hround := (h round List.mem_cons_self).2
      have hrest := ih fun other hmem => h other (List.mem_cons_of_mem _ hmem)
      calc promptIds p kwargs true ++
          ((round :: rounds).flatMap (wantedRound p kwargs)).flatten
        _ = promptIds p kwargs true ++ round.responseIds ++
            (messagesIds p kwargs round.addMessages ++
              (promptIds p kwargs true ++
                (rounds.flatMap (wantedRound p kwargs)).flatten)) := by
          simp only [List.flatMap_cons, wantedRound, List.flatten_append,
            List.flatten_cons, List.flatten_nil, List.append_nil,
            List.append_assoc]
        _ = messageIds p kwargs round.assistant ++
            (messagesIds p kwargs round.addMessages ++
              (messagesIds p kwargs (rounds.flatMap fun round =>
                round.assistant :: round.addMessages) ++
                  promptIds p kwargs true)) := by
          rw [hround, hrest]
        _ = _ := by
          rw [List.flatMap_cons, messagesIds_append, messagesIds_cons]
          simp only [List.append_assoc]

theorem sublist_drop_ite {c : Prop} [Decidable c] (front ids : List Nat) :
    List.Sublist (((if c then front else []) ++ ids).drop front.length) ids := by
  by_cases hc : c
  · rw [if_pos hc, List.drop_left]
  · rw [if_neg hc, List.nil_append]
    exact List.drop_sublist _ _

theorem drop_ite_eq_iff {c : Prop} [Decidable c] (front ids : List Nat) :
    ((if c then front else []) ++ ids).drop front.length = ids ↔
      c ∨ front = [] ∨ ids = [] := by
  by_cases hc : c
  · rw [if_pos hc, List.drop_left]
    exact ⟨fun _ => .inl hc, fun _ => rfl⟩
  · rw [if_neg hc, List.nil_append, drop_length_eq_iff]
    exact ⟨.inr, fun h => h.resolve_left hc⟩

theorem roundIds_sublist (rounds : List (Round ξ)) :
    List.Forall₂ List.Sublist
      (rounds.flatMap (roundIds p (prefixIds p none kwargs) kwargs))
      (rounds.flatMap (wantedRound p kwargs)) := by
  induction rounds with
  | nil => exact .nil
  | cons round rounds ih =>
      rw [List.flatMap_cons, List.flatMap_cons]
      exact .cons (List.Sublist.refl _) (.cons (sublist_drop_ite _ _) ih)

theorem roundIds_eq_iff (rounds : List (Round ξ)) :
    rounds.flatMap (roundIds p (prefixIds p none kwargs) kwargs) =
        rounds.flatMap (wantedRound p kwargs) ↔
      ∀ round ∈ rounds, p.template.Accepts round.addMessages ∨
        prefixIds p none kwargs = [] ∨
        messagesIds p kwargs round.addMessages ++ promptIds p kwargs true =
          [] := by
  induction rounds with
  | nil => exact ⟨fun _ _ hmem => absurd hmem List.not_mem_nil, fun _ => rfl⟩
  | cons round rounds ih =>
      rw [List.flatMap_cons, List.flatMap_cons, List.forall_mem_cons,
        ← drop_ite_eq_iff, ← ih]
      simp only [roundIds, wantedRound, appliedIds, List.cons_append,
        List.nil_append, List.cons.injEq, true_and]

theorem agent_iff (hfound : PrefixFound p kwargs)
    {initial : List (Message ξ)} {rounds : List (Round ξ)}
    (haccepts : p.template.Accepts (conversation initial rounds))
    (hrounds : ∀ round ∈ rounds, Generated p kwargs round) :
    runPromptIds p hasProcessor kwargs initial tools rounds =
        tokenized p (conversation initial rounds) true tools kwargs ↔
      AgentBorders p hasProcessor kwargs tools initial rounds := by
  have hwanted : prefixIds p tools kwargs ++
      (messagesIds p kwargs (conversation initial rounds) ++
        promptIds p kwargs true) =
      ((prefixIds p tools kwargs ++ (messagesIds p kwargs initial ++
        promptIds p kwargs true)) ::
          rounds.flatMap (wantedRound p kwargs)).flatten := by
    rw [conversation, messagesIds_append, List.append_assoc,
      ← generationPrompt_append_rounds hrounds, List.flatten_cons]
    simp only [List.append_assoc]
  have hsublist : List.Forall₂ List.Sublist
      (runPieces p (prefixIds p none kwargs) kwargs tools initial rounds)
      ((prefixIds p tools kwargs ++ (messagesIds p kwargs initial ++
        promptIds p kwargs true)) :: rounds.flatMap (wantedRound p kwargs)) :=
    .cons (ite_append_sublist _ _) (roundIds_sublist rounds)
  rw [tokenized_of_accepts true tools kwargs haccepts, runPromptIds_ok_iff,
    foundPrompt_of_prefixFound hfound, hwanted,
    @eq_comm _ (List.flatten _), flatten_eq_flatten_iff hsublist, runPieces,
    List.cons.injEq, roundIds_eq_iff, appliedIds, ite_append_eq_iff,
    AgentBorders]
  constructor
  · rintro ⟨hfirst, hall, hborder, hborders⟩
    exact ⟨hfirst, hborder, fun round hmem =>
      ⟨hall round hmem, hborders round hmem⟩⟩
  · rintro ⟨hfirst, hborder, hall⟩
    exact ⟨hfirst, fun round hmem => (hall round hmem).1, hborder,
      fun round hmem => (hall round hmem).2⟩

end Rounds

section Main

/-- Turn by turn, the dataset and the agent loops give the ids of the whole
conversation, with the prefix found, just under their conditions. -/
theorem turnByTurn_iff (p : Processor ξ τ) (kwargs : Kwargs)
    (tools : Option τ) (messages initial : List (Message ξ))
    (hasProcessor : Bool) (rounds : List (Round ξ))
    (hmessages : p.template.Accepts messages)
    (hconversation : p.template.Accepts (conversation initial rounds))
    (hrounds : ∀ round ∈ rounds, Generated p kwargs round) :
    ((initializeSystemPrompt (tokenized p) kwargs = .ok (prefixIds p none kwargs) ∧
        (·.inputIds) <$> tokenizeMessages (tokenized p) kwargs (tokenized p) tools messages =
          tokenized p messages false tools kwargs) ↔
      PrefixFound p kwargs ∧ DatasetBorders p kwargs tools messages) ∧
    ((initializeSystemPrompt (tokenized p) kwargs = .ok (prefixIds p none kwargs) ∧
        runPromptIds p hasProcessor kwargs initial tools rounds =
          tokenized p (conversation initial rounds) true tools kwargs) ↔
      PrefixFound p kwargs ∧
        AgentBorders p hasProcessor kwargs tools initial rounds) := by
  rw [initializeSystemPrompt_iff]
  exact ⟨and_congr_right fun hfound => dataset_iff hfound hmessages,
    and_congr_right fun hfound => agent_iff hfound hconversation hrounds⟩

/-- A character a token. -/
def encodeChars (text : Text) : List Nat := text.map Char.toNat

/-- A prefix `S`, the initial of the role before each content. -/
def initialsTemplate (requiresUser : Bool) : Template Unit Unit where
  systemPrefix _ _ := ['S']
  render _ message := message.role.toList.take 1 ++
    match message.content with
    | .text text => text
    | .parts _ => []
  generationPrompt _ := ['a']
  requiresUser := requiresUser
  prompt_isPrefix := by
    intro _ message hrole
    rw [hrole]
    exact List.prefix_append _ _

def initialsProcessor (requiresUser : Bool) : Processor Unit Unit where
  template := initialsTemplate requiresUser
  encode := encodeChars
  encode_segments := by
    intro _ segments _
    rw [encodeChars, List.map_flatten, List.flatMap_def]
    rfl

def textMessage (role : String) (text : Text) : Message Unit :=
  ⟨role, .text text, none⟩

theorem turnByTurn_oneRound :
    let p := initialsProcessor true
    let round : Round Unit := ⟨textMessage "assistant" ['x'], [120],
      [textMessage "user" ['y']]⟩
    ((initializeSystemPrompt (tokenized p) PyDict.empty =
          .ok (prefixIds p none PyDict.empty) ∧
        runPromptIds p false PyDict.empty [textMessage "user" ['q']] none
          [round] =
          tokenized p (conversation [textMessage "user" ['q']] [round]) true
            none PyDict.empty) ↔
      PrefixFound p PyDict.empty ∧
        AgentBorders p false PyDict.empty none [textMessage "user" ['q']]
          [round]) := by
  apply And.right
  apply turnByTurn_iff (initialsProcessor true) PyDict.empty none
    [textMessage "user" ['q']] [textMessage "user" ['q']] false
    [⟨textMessage "assistant" ['x'], [120], [textMessage "user" ['y']]⟩]
  · intro _
    rfl
  · intro _
    rfl
  · intro round hmem
    rw [List.mem_singleton.mp hmem]
    exact ⟨rfl, rfl⟩

/-- A template that wants a user message, and a question with its answer: the
answer comes without the prefix, and its first token is cut off. -/
theorem dataset_answer_cut :
    ¬ ∀ (p : Processor Unit Unit) (messages : List (Message Unit)),
      p.template.Accepts messages →
      initializeSystemPrompt (tokenized p) PyDict.empty =
          .ok (prefixIds p none PyDict.empty) ∧
        (·.inputIds) <$> tokenizeMessages (tokenized p) PyDict.empty (tokenized p) none messages =
          tokenized p messages false none PyDict.empty := by
  intro h
  have hwhole := (h (initialsProcessor true)
    [textMessage "user" ['q'], textMessage "assistant" ['x']]
    (fun _ => rfl)).2
  have hcut : (·.inputIds) <$> tokenizeMessages (tokenized (initialsProcessor true))
      PyDict.empty (tokenized (initialsProcessor true)) none
      [textMessage "user" ['q'], textMessage "assistant" ['x']] =
      .ok (encodeChars ['S', 'u', 'q', 'x']) := rfl
  have hids : tokenized (initialsProcessor true)
      [textMessage "user" ['q'], textMessage "assistant" ['x']] false none
      PyDict.empty = .ok (encodeChars ['S', 'u', 'q', 'a', 'x']) := rfl
  rw [hcut, hids] at hwhole
  exact absurd (Except.ok.inj hwhole) (by decide)

end Main

end ChatTemplate

end SelfDistillation
