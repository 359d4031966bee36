/-
Items of the multi-turn SFT dataset in its two padding modes
(verl/utils/dataset/multiturn_sft_dataset.py).
-/
import SelfDistillation.ChatTemplate

namespace SelfDistillation

namespace MultiturnSft

open ChatTemplate

variable {ξ τ : Type}

inductive Truncation
  | error
  | left
  | right
deriving DecidableEq, Repr

inductive DatasetPadMode
  | right
  | noPadding
deriving DecidableEq, Repr

/-- One row, or for the Qwen-VL models a text row above the vision rows. -/
inductive PositionIds
  | row (text : List Nat)
  | rows (text : List Nat) (vision : List (List Nat))
deriving DecidableEq, Repr

namespace PositionIds

def text : PositionIds → List Nat
  | row text => text
  | rows text _ => text

def vision : PositionIds → List (List Nat)
  | row _ => []
  | rows _ vision => vision

/-- What is done along the last dimension. -/
def mapLast (f : List Nat → List Nat) : PositionIds → PositionIds
  | row text => row (f text)
  | rows text vision => rows (f text) (vision.map f)

end PositionIds

structure Item where
  inputIds : List Nat
  /-- Only in the mode `right`. -/
  attentionMask : Option (List Nat)
  positionIds : PositionIds
  lossMask : List Nat
deriving DecidableEq, Repr

/-- A row of the data, its messages built. -/
structure Example (ξ τ : Type) where
  messages : List (Message ξ)
  tools : Option τ
  enableThinking : Option Text

structure SftDataset (ξ τ : Type) where
  tokenizer : Tokenize ξ τ
  processor : Option (Tokenize ξ τ)
  systemPrompt : List Nat
  generationPrompt : List Nat
  applyChatTemplateKwargs : Kwargs
  padTokenId : Option Nat
  maxLength : Int
  truncation : Truncation
  ignoreInputIdsMismatch : Bool
  /-- `get_rope_index` of the ids and their attention mask, where the image
  processor is a `Qwen2VLImageProcessor`. -/
  getRopeIndex : Option (List Nat → List Nat → Py (List (List Nat)))
  /-- Both prompts come from the tokenizer, once. -/
  prompts_found : extractSystemPromptAndGeneration tokenizer =
    .ok (systemPrompt, generationPrompt)

/-- `input_ids[-max_length:]` -/
def lastOf {α : Type} (maxLength : Int) (values : List α) : List α :=
  values.drop (sliceIndex values.length (-maxLength))

/-- `input_ids[:max_length]` -/
def firstOf {α : Type} (maxLength : Int) (values : List α) : List α :=
  values.take (sliceIndex values.length maxLength)

namespace SftDataset

variable (ds : SftDataset ξ τ) (row : Example ξ τ)

/-- `self.processor if self.processor is not None else self.tokenizer` -/
def tokenize : Tokenize ξ τ := ds.processor.getD ds.tokenizer

def kwargs : Kwargs :=
  match row.enableThinking with
  | none => ds.applyChatTemplateKwargs
  | some enableThinking =>
      ds.applyChatTemplateKwargs.set "enable_thinking" enableThinking

def errorMessage : String :=
  "MultiTurnSFTDataset apply_chat_template to each turn separately and " ++
  "concat `input_ids` as a whole sequence, which may not equal to " ++
  "apply_chat_template to whole messages at once.\n" ++
  "For example, Qwen Thinking series models add <think></think> tags to " ++
  "last turn, please check your tokenizer chat template settings.\n" ++
  "Set `ignore_input_ids_mismatch=True` to ignore input_ids mismatch and " ++
  "use the concatenated input_ids as the final input_ids. "

def sanityCheck (inputIds : List Nat) : Py Unit := do
  let whole ← ds.tokenize row.messages false row.tools (ds.kwargs row)
  if inputIds = whole ∨ ds.ignoreInputIdsMismatch = true then .ok ()
  else .error (.assertionError errorMessage)

def positionIds (processed : Processed) : Py PositionIds :=
  let text := List.range processed.inputIds.length
  match ds.getRopeIndex with
  | none => .ok (.row text)
  | some getRopeIndex => do
      let vision ← getRopeIndex processed.inputIds processed.attentionMask
      if vision.all (fun ids => ids.length == processed.inputIds.length) then
        .ok (.rows text vision)
      else .error (.runtimeError
        "Sizes of tensors must match except in dimension 0.")

/-- The ids and masks of the messages put together, and their positions. -/
def assemble : Py (Processed × PositionIds) := do
  let processed ← tokenizeMessages ds.tokenize (ds.kwargs row) ds.tokenizer
    row.tools row.messages
  pyAssert (processed.inputIds.length == processed.lossMask.length &&
      processed.lossMask.length == processed.attentionMask.length)
    (s!"Shape mismatch: torch.Size([{processed.inputIds.length}]), " ++
      s!"torch.Size([{processed.lossMask.length}]), " ++
      s!"torch.Size([{processed.attentionMask.length}])")
  ds.sanityCheck row processed.inputIds
  let positionIds ← ds.positionIds processed
  return (processed, positionIds)

def tooLong (sequenceLength : Nat) : PyErr :=
  .valueError (s!"sequence_length={sequenceLength} is larger than " ++
    s!"self.max_length={ds.maxLength}")

def padRight (processed : Processed) (positionIds : PositionIds) : Py Item :=
  let sequenceLength := processed.inputIds.length
  if (sequenceLength : Int) < ds.maxLength then
    let missing := (ds.maxLength - sequenceLength).toNat
    .ok ⟨processed.inputIds ++ List.replicate missing (ds.padTokenId.getD 0),
      some (processed.attentionMask ++ List.replicate missing 0),
      positionIds.mapLast (fun ids => ids ++ List.replicate missing 0),
      processed.lossMask ++ List.replicate missing 0⟩
  else if (sequenceLength : Int) > ds.maxLength then
    match ds.truncation with
    | .left =>
        .ok ⟨lastOf ds.maxLength processed.inputIds,
          some (lastOf ds.maxLength processed.attentionMask),
          positionIds.mapLast (lastOf ds.maxLength),
          lastOf ds.maxLength processed.lossMask⟩
    | .right =>
        .ok ⟨firstOf ds.maxLength processed.inputIds,
          some (firstOf ds.maxLength processed.attentionMask),
          positionIds.mapLast (firstOf ds.maxLength),
          firstOf ds.maxLength processed.lossMask⟩
    | .error => .error (ds.tooLong sequenceLength)
  else .ok ⟨processed.inputIds, some processed.attentionMask, positionIds,
    processed.lossMask⟩

def noPadding (processed : Processed) (positionIds : PositionIds) : Py Item :=
  let sequenceLength := processed.inputIds.length
  if (sequenceLength : Int) > ds.maxLength ∧ ds.truncation = .error then
    .error (ds.tooLong sequenceLength)
  else if (sequenceLength : Int) > ds.maxLength then
    .ok ⟨firstOf ds.maxLength processed.inputIds, none,
      positionIds.mapLast (firstOf ds.maxLength),
      firstOf ds.maxLength processed.lossMask⟩
  else .ok ⟨processed.inputIds, none, positionIds, processed.lossMask⟩

/-- `__getitem__` -/
def getItem (padMode : DatasetPadMode) : Py Item := do
  let (processed, positionIds) ← ds.assemble row
  match padMode with
  | .right => ds.padRight processed positionIds
  | .noPadding => ds.noPadding processed positionIds

end SftDataset

/-- `item[mask == 1]` -/
def keepWhere {α : Type} (mask : List Nat) (values : List α) : List α :=
  (List.zip mask values).filterMap fun e =>
    if e.1 = 1 then some e.2 else none

namespace Item

variable (item : Item)

/-- What is attended; without padding everything is. -/
def attended : List Nat :=
  item.attentionMask.getD (List.replicate item.inputIds.length 1)

/-- The item at its attended places. -/
def restricted : Item where
  inputIds := keepWhere item.attended item.inputIds
  attentionMask := none
  positionIds := item.positionIds.mapLast (keepWhere item.attended)
  lossMask := keepWhere item.attended item.lossMask

/-- 1 just where an attended token is a token to be trained on; its position
says which token of the conversation it is. -/
def wantedMask (trained : List Bool) : List Nat :=
  List.zipWith (fun attended position =>
    if attended = 1 ∧ trained[position]? = some true then 1 else 0)
    item.attended item.positionIds.text

end Item

section Trained

variable (ds : SftDataset ξ τ) (row : Example ξ τ)
  (bodyStart : Option τ → Message ξ → Nat)

/-- The tokens a message is rendered to on its own. -/
def renderedLength (tools : Option τ) (message : Message ξ) : Nat :=
  match applyChatTemplateIds ds.tokenize [message] false tools (ds.kwargs row)
    true with
  | .ok ids => ids.length
  | .error _ => 0

/-- Which tokens of a message are trained on: those of an assistant message
after its generation prompt, where `bodyStart` is how many stand before. -/
def trainedOf (index : Nat) (message : Message ξ) : List Bool :=
  let tools := if index = 0 then row.tools else none
  withoutSystemPrompt ds.systemPrompt index message
    ((List.range (renderedLength ds row tools message)).map fun k =>
      message.role = "assistant" ∧ bodyStart tools message ≤ k)

def trainedFrom : Nat → List (Message ξ) → List Bool
  | _, [] => []
  | index, message :: messages =>
      trainedOf ds row bodyStart index message ++
        trainedFrom (index + 1) messages

/-- What `_process_single_message` cuts off the front. -/
def cutLength (index : Nat) (message : Message ξ) : Nat :=
  if index ≠ 0 ∧ message.role ≠ "system" then ds.systemPrompt.length else 0

def pieceLength (index : Nat) (message : Message ξ) : Nat :=
  renderedLength ds row (if index = 0 then row.tools else none) message -
    cutLength ds index message

def sequenceLength : Nat → List (Message ξ) → Nat
  | _, [] => 0
  | index, message :: messages =>
      pieceLength ds row index message + sequenceLength (index + 1) messages

/-- Among the first `kept` tokens, each assistant message has as many before
its body as the generation prompt is long, or the message ends earlier. -/
def MaskBorders : Nat → Nat → List (Message ξ) → Prop
  | _, _, [] => True
  | kept, index, message :: messages =>
      let seen := min (pieceLength ds row index message) kept
      let tools := if index = 0 then row.tools else none
      (message.role = "assistant" → min ds.generationPrompt.length seen =
        min (bodyStart tools message - cutLength ds index message) seen) ∧
      MaskBorders (kept - pieceLength ds row index message) (index + 1)
        messages

end Trained

/-- `keptLength` tokens are left of a sequence. -/
def keptLength (maxLength : Int) (sequenceLength : Nat) : Nat :=
  if (sequenceLength : Int) > maxLength then
    sliceIndex sequenceLength maxLength
  else sequenceLength

section Masks

/-- So many zeros and then ones, of `n` in all. -/
def zerosThenOnes (zeros n : Nat) : List Nat :=
  (List.range n).map fun k => if zeros ≤ k then 1 else 0

theorem length_zerosThenOnes (zeros n : Nat) :
    (zerosThenOnes zeros n).length = n := by
  rw [zerosThenOnes, List.length_map, List.length_range]

theorem getElem?_zerosThenOnes {zeros n k : Nat} (h : k < n) :
    (zerosThenOnes zeros n)[k]? = some (if zeros ≤ k then 1 else 0) := by
  rw [zerosThenOnes, List.getElem?_map, List.getElem?_range h]
  rfl

theorem take_zerosThenOnes (zeros n k : Nat) :
    (zerosThenOnes zeros n).take k = zerosThenOnes zeros (min n k) := by
  rw [zerosThenOnes, zerosThenOnes, ← List.map_take, List.take_range,
    Nat.min_comm]

theorem drop_zerosThenOnes (zeros n k : Nat) :
    (zerosThenOnes zeros n).drop k = zerosThenOnes (zeros - k) (n - k) := by
  apply List.ext_getElem?
  intro j
  rw [List.getElem?_drop]
  by_cases hj : k + j < n
  · rw [getElem?_zerosThenOnes hj, getElem?_zerosThenOnes (by omega)]
    have hle : zeros ≤ k + j ↔ zeros - k ≤ j := by omega
    simp only [hle]
  · rw [List.getElem?_eq_none (by rw [length_zerosThenOnes]; omega),
      List.getElem?_eq_none (by rw [length_zerosThenOnes]; omega)]

theorem zerosThenOnes_eq_iff {a b n : Nat} :
    zerosThenOnes a n = zerosThenOnes b n ↔ min a n = min b n := by
  constructor
  · intro h
    have hplace : ∀ k < n, (a ≤ k ↔ b ≤ k) := by
      intro k hk
      have hentry := congrArg (·[k]?) h
      simp only [getElem?_zerosThenOnes hk, Option.some.injEq] at hentry
      by_cases ha : a ≤ k
      · rw [if_pos ha] at hentry
        by_cases hb : b ≤ k
        · exact ⟨fun _ => hb, fun _ => ha⟩
        · rw [if_neg hb] at hentry
          cases hentry
      · rw [if_neg ha] at hentry
        by_cases hb : b ≤ k
        · rw [if_pos hb] at hentry
          cases hentry
        · exact ⟨fun h => absurd h ha, fun h => absurd h hb⟩
    have hleft := hplace (min a n)
    have hright := hplace (min b n)
    omega
  · intro h
    apply List.map_congr_left
    intro k hk
    have hlt := List.mem_range.mp hk
    have hle : a ≤ k ↔ b ≤ k := by omega
    simp only [hle]

theorem zerosThenOnes_of_le {zeros n : Nat} (h : n ≤ zeros) :
    zerosThenOnes zeros n = List.replicate n 0 := by
  rw [zerosThenOnes, List.eq_replicate_iff]
  refine ⟨by rw [List.length_map, List.length_range], ?_⟩
  intro value hvalue
  obtain ⟨k, hk, rfl⟩ := List.mem_map.mp hvalue
  have hlt := List.mem_range.mp hk
  exact if_neg (by omega)

theorem lossMaskOf_assistant {generationPrompt : List Nat}
    {message : Message ξ} (h : message.role = "assistant") (n : Nat) :
    lossMaskOf generationPrompt message n =
      zerosThenOnes generationPrompt.length n := by
  have hzeros : (zerosThenOnes generationPrompt.length n).take
      generationPrompt.length =
      List.replicate (min generationPrompt.length n) 0 := by
    rw [take_zerosThenOnes, zerosThenOnes_of_le (Nat.min_le_right _ _),
      Nat.min_comm]
  have hones : (zerosThenOnes generationPrompt.length n).drop
      generationPrompt.length =
      List.replicate (n - generationPrompt.length) 1 := by
    rw [drop_zerosThenOnes, Nat.sub_self, zerosThenOnes, List.eq_replicate_iff]
    refine ⟨by rw [List.length_map, List.length_range], ?_⟩
    intro value hvalue
    obtain ⟨k, -, rfl⟩ := List.mem_map.mp hvalue
    exact if_pos (Nat.zero_le k)
  rw [lossMaskOf, if_pos h, ← hzeros, ← hones, List.take_append_drop]

theorem lossMaskOf_other {generationPrompt : List Nat}
    {message : Message ξ} (h : message.role ≠ "assistant") (n : Nat) :
    lossMaskOf generationPrompt message n = List.replicate n 0 :=
  if_neg h

end Masks

section Labels

variable {ds : SftDataset ξ τ} {row : Example ξ τ}
  {bodyStart : Option τ → Message ξ → Nat}

def bit (trained : Bool) : Nat := if trained = true then 1 else 0

theorem withoutSystemPrompt_eq_drop {α : Type} (index : Nat)
    (message : Message ξ) (values : List α) :
    withoutSystemPrompt ds.systemPrompt index message values =
      values.drop (cutLength ds index message) := by
  rw [withoutSystemPrompt, cutLength]
  split
  · rfl
  · rfl

theorem length_trainedOf (index : Nat) (message : Message ξ) :
    (trainedOf ds row bodyStart index message).length =
      pieceLength ds row index message := by
  rw [trainedOf, withoutSystemPrompt_eq_drop, List.length_drop,
    List.length_map, List.length_range, pieceLength]

theorem trainedOf_assistant {index : Nat} {message : Message ξ}
    (h : message.role = "assistant") :
    (trainedOf ds row bodyStart index message).map bit =
      zerosThenOnes (bodyStart (if index = 0 then row.tools else none)
        message - cutLength ds index message)
        (pieceLength ds row index message) := by
  rw [trainedOf, withoutSystemPrompt_eq_drop, List.map_drop, List.map_map,
    pieceLength, ← drop_zerosThenOnes, zerosThenOnes]
  congr 1
  apply List.map_congr_left
  intro k _
  simp only [Function.comp_apply, bit, h, true_and, decide_eq_true_eq]

theorem trainedOf_other {index : Nat} {message : Message ξ}
    (h : message.role ≠ "assistant") :
    (trainedOf ds row bodyStart index message).map bit =
      List.replicate (pieceLength ds row index message) 0 := by
  rw [List.eq_replicate_iff, List.length_map, length_trainedOf]
  refine ⟨rfl, ?_⟩
  intro value hvalue
  obtain ⟨trained, htrained, rfl⟩ := List.mem_map.mp hvalue
  rw [trainedOf, withoutSystemPrompt_eq_drop] at htrained
  obtain ⟨k, -, rfl⟩ := List.mem_map.mp (List.mem_of_mem_drop htrained)
  simp only [bit, h, false_and, decide_false, Bool.false_eq_true, if_false]

/-- The loss mask the code makes for the messages from a place on. -/
def codeMask (ds : SftDataset ξ τ) (row : Example ξ τ) :
    Nat → List (Message ξ) → List Nat
  | _, [] => []
  | index, message :: messages =>
      lossMaskOf ds.generationPrompt message
        (pieceLength ds row index message) ++
        codeMask ds row (index + 1) messages

theorem length_lossMaskOf (generationPrompt : List Nat)
    (message : Message ξ) (n : Nat) :
    (lossMaskOf generationPrompt message n).length = n := by
  by_cases h : message.role = "assistant"
  · rw [lossMaskOf_assistant h, length_zerosThenOnes]
  · rw [lossMaskOf_other h, List.length_replicate]

theorem length_codeMask (index : Nat) (messages : List (Message ξ)) :
    (codeMask ds row index messages).length =
      sequenceLength ds row index messages := by
  induction messages generalizing index with
  | nil => rfl
  | cons message messages ih =>
      rw [codeMask, List.length_append, length_lossMaskOf, ih, sequenceLength]

theorem length_trainedFrom (index : Nat) (messages : List (Message ξ)) :
    (trainedFrom ds row bodyStart index messages).length =
      sequenceLength ds row index messages := by
  induction messages generalizing index with
  | nil => rfl
  | cons message messages ih =>
      rw [trainedFrom, List.length_append, length_trainedOf, ih,
        sequenceLength]

/-- Of one message: the two masks agree on what is seen of it. -/
theorem take_lossMaskOf_eq_iff (kept index : Nat) (message : Message ξ) :
    (lossMaskOf ds.generationPrompt message
        (pieceLength ds row index message)).take kept =
      ((trainedOf ds row bodyStart index message).map bit).take kept ↔
      (message.role = "assistant" →
        min ds.generationPrompt.length
            (min (pieceLength ds row index message) kept) =
          min (bodyStart (if index = 0 then row.tools else none) message -
            cutLength ds index message)
            (min (pieceLength ds row index message) kept)) := by
  by_cases h : message.role = "assistant"
  · rw [lossMaskOf_assistant h, trainedOf_assistant h, take_zerosThenOnes,
      take_zerosThenOnes, zerosThenOnes_eq_iff]
    exact ⟨fun heq _ => heq, fun heq => heq h⟩
  · rw [lossMaskOf_other h, trainedOf_other h]
    exact ⟨fun _ hrole => absurd hrole h, fun _ => rfl⟩

theorem take_append_eq_iff {xs ys xs' ys' : List Nat} (k : Nat)
    (h : xs.length = xs'.length) :
    (xs ++ ys).take k = (xs' ++ ys').take k ↔
      xs.take k = xs'.take k ∧
        ys.take (k - xs.length) = ys'.take (k - xs.length) := by
  rw [List.take_append, List.take_append, ← h]
  constructor
  · intro heq
    apply List.append_inj heq
    rw [List.length_take, List.length_take, h]
  · intro heq
    rw [heq.1, heq.2]

/-- Over all messages: the induction goes message by message, with what is left
of the tokens that are kept. -/
theorem take_codeMask_eq_iff (kept index : Nat)
    (messages : List (Message ξ)) :
    (codeMask ds row index messages).take kept =
      ((trainedFrom ds row bodyStart index messages).map bit).take kept ↔
      MaskBorders ds row bodyStart kept index messages := by
  induction messages generalizing kept index with
  | nil => exact ⟨fun _ => trivial, fun _ => rfl⟩
  | cons message messages ih =>
      have hlength : (lossMaskOf ds.generationPrompt message
          (pieceLength ds row index message)).length =
          ((trainedOf ds row bodyStart index message).map bit).length := by
        rw [length_lossMaskOf, List.length_map, length_trainedOf]
      rw [codeMask, trainedFrom, List.map_append,
        take_append_eq_iff kept hlength, take_lossMaskOf_eq_iff,
        length_lossMaskOf, ih, MaskBorders]

end Labels

section Assembling

variable {ds : SftDataset ξ τ} {row : Example ξ τ}

theorem renderedLength_of_ok {tools : Option τ} {message : Message ξ}
    {ids : List Nat}
    (h : applyChatTemplateIds ds.tokenize [message] false tools
      (ds.kwargs row) true = .ok ids) :
    renderedLength ds row tools message = ids.length := by
  rw [renderedLength, h]

theorem processSingleMessage_ok {tools : Option τ} {index : Nat}
    {message : Message ξ} {q : Processed}
    (h : processSingleMessage ds.tokenize ds.systemPrompt ds.generationPrompt
      (ds.kwargs row) index message tools = .ok q) :
    ∃ ids : List Nat, q = processedOf ds.generationPrompt message ids ∧
      ids.length = renderedLength ds row tools message -
        cutLength ds index message := by
  cases hids : applyChatTemplateIds ds.tokenize [message] false tools
      (ds.kwargs row) true with
  | error e =>
      rw [processSingleMessage, hids] at h
      cases h
  | ok ids =>
      rw [processSingleMessage_of_ids hids] at h
      refine ⟨_, (Except.ok.inj h).symm, ?_⟩
      rw [withoutSystemPrompt_eq_drop, List.length_drop,
        renderedLength_of_ok hids]

/-- Ids and masks of the messages put together. -/
structure Tokenized (ds : SftDataset ξ τ) (row : Example ξ τ) (index : Nat)
    (messages : List (Message ξ)) (q : Processed) : Prop where
  length_inputIds : q.inputIds.length = sequenceLength ds row index messages
  lossMask_eq : q.lossMask = codeMask ds row index messages
  attentionMask_eq : q.attentionMask =
    List.replicate (sequenceLength ds row index messages) 1

def joined (pieces : List Processed) : Processed :=
  ⟨pieces.flatMap (·.inputIds), pieces.flatMap (·.lossMask),
    pieces.flatMap (·.attentionMask)⟩

theorem tokenized_of_processFrom {index : Nat} {messages : List (Message ξ)}
    {pieces : List Processed}
    (h : processFrom ds.tokenize ds.systemPrompt ds.generationPrompt
      (ds.kwargs row) row.tools index messages = .ok pieces) :
    Tokenized ds row index messages (joined pieces) := by
  induction messages generalizing index pieces with
  | nil =>
      cases h
      exact ⟨rfl, rfl, rfl⟩
  | cons message messages ih =>
      rw [processFrom] at h
      obtain ⟨q, hq, hrest⟩ := bind_eq_ok.mp h
      obtain ⟨rest, hfrom, hpieces⟩ := bind_eq_ok.mp hrest
      cases hpieces
      obtain ⟨ids, rfl, hids⟩ := processSingleMessage_ok hq
      have htail := ih hfrom
      constructor
      · rw [joined, List.flatMap_cons, List.length_append, sequenceLength,
          pieceLength, ← hids]
        exact congrArg (ids.length + ·) htail.length_inputIds
      · rw [joined, List.flatMap_cons, codeMask, pieceLength, ← hids]
        exact congrArg (_ ++ ·) htail.lossMask_eq
      · rw [joined, List.flatMap_cons, sequenceLength, pieceLength, ← hids,
          List.replicate_add]
        exact congrArg (_ ++ ·) htail.attentionMask_eq

theorem tokenized_of_tokenizeMessages {q : Processed}
    (h : tokenizeMessages ds.tokenize (ds.kwargs row) ds.tokenizer row.tools
      row.messages = .ok q) : Tokenized ds row 0 row.messages q := by
  rw [tokenizeMessages, ds.prompts_found, ok_bind] at h
  obtain ⟨pieces, hpieces, hq⟩ := bind_eq_ok.mp h
  have htokenized := tokenized_of_processFrom hpieces
  by_cases hempty : pieces.isEmpty = true
  · rw [if_pos hempty] at hq
    cases hq
  · rw [if_neg hempty] at hq
    cases hq
    exact htokenized

/-- Positions from 0 on; the vision rows are as long. -/
structure Positioned (n : Nat) (positionIds : PositionIds) : Prop where
  text_eq : positionIds.text = List.range n
  length_vision : ∀ ids ∈ positionIds.vision, ids.length = n

theorem positioned_of_positionIds {q : Processed} {positionIds : PositionIds}
    (h : ds.positionIds q = .ok positionIds) :
    Positioned q.inputIds.length positionIds := by
  rw [SftDataset.positionIds] at h
  cases hrope : ds.getRopeIndex with
  | none =>
      simp only [hrope] at h
      cases h
      exact ⟨rfl, fun _ hmem => absurd hmem List.not_mem_nil⟩
  | some getRopeIndex =>
      simp only [hrope] at h
      obtain ⟨vision, -, hvision⟩ := bind_eq_ok.mp h
      by_cases hall : vision.all
          (fun ids => ids.length == q.inputIds.length) = true
      · rw [if_pos hall] at hvision
        cases hvision
        refine ⟨rfl, fun ids hids => ?_⟩
        exact beq_iff_eq.mp (List.all_eq_true.mp hall ids hids)
      · rw [if_neg hall] at hvision
        cases hvision

theorem assemble_ok {q : Processed} {positionIds : PositionIds}
    (h : ds.assemble row = .ok (q, positionIds)) :
    Tokenized ds row 0 row.messages q ∧
      Positioned q.inputIds.length positionIds := by
  rw [SftDataset.assemble] at h
  obtain ⟨q', hq, h⟩ := bind_eq_ok.mp h
  obtain ⟨_, -, h⟩ := bind_eq_ok.mp h
  obtain ⟨_, -, h⟩ := bind_eq_ok.mp h
  obtain ⟨positionIds', hpositions, h⟩ := bind_eq_ok.mp h
  cases h
  exact ⟨tokenized_of_tokenizeMessages hq,
    positioned_of_positionIds hpositions⟩

end Assembling

section Padding

theorem mapLast_congr {f g : List Nat → List Nat} {n : Nat}
    {positionIds : PositionIds} (hpos : Positioned n positionIds)
    (h : ∀ ids : List Nat, ids.length = n → f ids = g ids) :
    positionIds.mapLast f = positionIds.mapLast g := by
  have htext : positionIds.text.length = n := by
    rw [hpos.text_eq, List.length_range]
  cases positionIds with
  | row text => exact congrArg PositionIds.row (h text htext)
  | rows text vision =>
      rw [PositionIds.mapLast, PositionIds.mapLast, h text htext]
      congr 1
      apply List.map_congr_left
      intro ids hids
      exact h ids (hpos.length_vision ids hids)

theorem mapLast_mapLast (f g : List Nat → List Nat)
    (positionIds : PositionIds) :
    (positionIds.mapLast f).mapLast g =
      positionIds.mapLast fun ids => g (f ids) := by
  cases positionIds with
  | row text => rfl
  | rows text vision =>
      rw [PositionIds.mapLast, PositionIds.mapLast, PositionIds.mapLast,
        List.map_map]
      rfl

theorem mapLast_id (positionIds : PositionIds) :
    (positionIds.mapLast fun ids => ids) = positionIds := by
  cases positionIds with
  | row text => rfl
  | rows text vision => rw [PositionIds.mapLast, List.map_id']

@[simp] theorem text_mapLast (f : List Nat → List Nat)
    (positionIds : PositionIds) :
    (positionIds.mapLast f).text = f positionIds.text := by
  cases positionIds <;> rfl

theorem keepWhere_append {α : Type} (missing : Nat) (xs ys : List α) :
    keepWhere (List.replicate xs.length 1 ++ List.replicate missing 0)
      (xs ++ ys) = xs := by
  induction xs with
  | nil =>
      rw [keepWhere, List.filterMap_eq_nil_iff]
      intro e he
      have hzero := List.eq_of_mem_replicate (List.of_mem_zip he).1
      rw [hzero]
      rfl
  | cons x xs ih => exact congrArg (x :: ·) ih

theorem keepWhere_ones {α : Type} (xs : List α) :
    keepWhere (List.replicate xs.length 1) xs = xs := by
  have h := keepWhere_append 0 xs []
  rwa [List.replicate_zero, List.append_nil, List.append_nil] at h

/-- Positions all attended ask for the marks of the tokens they name. -/
theorem zipWith_ones (trained : List Bool) (positions : List Nat) :
    List.zipWith (fun attended position =>
      if attended = 1 ∧ trained[position]? = some true then 1 else 0)
      (List.replicate positions.length 1) positions =
    positions.map fun position =>
      if trained[position]? = some true then 1 else 0 := by
  induction positions with
  | nil => rfl
  | cons position positions ih =>
      rw [List.length_cons, List.replicate_succ, List.zipWith_cons_cons, ih,
        List.map_cons]
      simp only [true_and]

theorem map_range_trained {trained : List Bool} {n : Nat}
    (h : trained.length = n) :
    ((List.range n).map fun position =>
      if trained[position]? = some true then 1 else 0) = trained.map bit := by
  apply List.ext_getElem?
  intro k
  rw [List.getElem?_map, List.getElem?_map]
  by_cases hk : k < n
  · have hentry := List.getElem?_eq_getElem (l := trained) (h ▸ hk)
    simp only [List.getElem?_range hk, hentry, Option.map_some,
      Option.some.injEq, bit]
  · rw [List.getElem?_eq_none (by rw [List.length_range]; omega),
      List.getElem?_eq_none (by omega)]
    rfl

/-- The first `kept` tokens of a sample. -/
def keptItem (q : Processed) (positionIds : PositionIds) (kept : Nat) : Item :=
  ⟨q.inputIds.take kept, none, positionIds.mapLast (·.take kept),
    q.lossMask.take kept⟩

/-- What stands after the first `dropped` tokens. -/
def tailItem (q : Processed) (positionIds : PositionIds) (dropped : Nat) :
    Item :=
  ⟨q.inputIds.drop dropped, none, positionIds.mapLast (·.drop dropped),
    q.lossMask.drop dropped⟩

variable {ds : SftDataset ξ τ} {q : Processed} {positionIds : PositionIds}
  {n : Nat}

/-- A sample of `n` tokens. -/
structure Sample (q : Processed) (positionIds : PositionIds) (n : Nat) :
    Prop where
  length_inputIds : q.inputIds.length = n
  length_lossMask : q.lossMask.length = n
  attentionMask_eq : q.attentionMask = List.replicate n 1
  positioned : Positioned n positionIds

theorem keptItem_all (h : Sample q positionIds n) :
    keptItem q positionIds n = ⟨q.inputIds, none, positionIds, q.lossMask⟩ := by
  have hpositions : positionIds.mapLast (·.take n) = positionIds := by
    rw [mapLast_congr h.positioned (fun ids hids => ?_), mapLast_id]
    exact List.take_of_length_le (Nat.le_of_eq hids)
  rw [keptItem, hpositions,
    List.take_of_length_le (Nat.le_of_eq h.length_inputIds),
    List.take_of_length_le (Nat.le_of_eq h.length_lossMask)]

theorem firstOf_of_length {α : Type} (maxLength : Int) {values : List α}
    (h : values.length = n) :
    firstOf maxLength values = values.take (sliceIndex n maxLength) := by
  rw [firstOf, h]

theorem lastOf_of_length {α : Type} (maxLength : Int) {values : List α}
    (h : values.length = n) :
    lastOf maxLength values = values.drop (sliceIndex n (-maxLength)) := by
  rw [lastOf, h]

theorem mapLast_firstOf (maxLength : Int) (h : Positioned n positionIds) :
    positionIds.mapLast (firstOf maxLength) =
      positionIds.mapLast (·.take (sliceIndex n maxLength)) :=
  mapLast_congr h fun _ hids => firstOf_of_length maxLength hids

theorem mapLast_lastOf (maxLength : Int) (h : Positioned n positionIds) :
    positionIds.mapLast (lastOf maxLength) =
      positionIds.mapLast (·.drop (sliceIndex n (-maxLength))) :=
  mapLast_congr h fun _ hids => lastOf_of_length maxLength hids

theorem noPadding_eq (h : Sample q positionIds n) :
    ds.noPadding q positionIds =
      if (n : Int) > ds.maxLength ∧ ds.truncation = .error then
        .error (ds.tooLong n)
      else .ok (keptItem q positionIds (keptLength ds.maxLength n)) := by
  simp only [SftDataset.noPadding, h.length_inputIds]
  by_cases hraise : (n : Int) > ds.maxLength ∧ ds.truncation = .error
  · rw [if_pos hraise, if_pos hraise]
  · rw [if_neg hraise, if_neg hraise, keptLength]
    by_cases hover : (n : Int) > ds.maxLength
    · rw [if_pos hover, if_pos hover, keptItem,
        firstOf_of_length _ h.length_inputIds,
        firstOf_of_length _ h.length_lossMask, mapLast_firstOf _ h.positioned]
    · rw [if_neg hover, if_neg hover, keptItem_all h]

/-- An item attended everywhere, whose positions are a part of the range. -/
theorem wantedMask_of_ones {item : Item} {trained : List Bool}
    (h : item.attended = List.replicate item.positionIds.text.length 1) :
    item.wantedMask trained = item.positionIds.text.map fun position =>
      if trained[position]? = some true then 1 else 0 := by
  rw [Item.wantedMask, h, zipWith_ones]

theorem wantedMask_keptItem (h : Sample q positionIds n)
    {trained : List Bool} (htrained : trained.length = n) (kept : Nat) :
    (keptItem q positionIds kept).wantedMask trained =
      (trained.map bit).take kept := by
  rw [wantedMask_of_ones]
  · rw [keptItem, text_mapLast, h.positioned.text_eq, List.map_take,
      map_range_trained htrained]
  · rw [Item.attended, keptItem, text_mapLast, h.positioned.text_eq,
      Option.getD_none, List.length_take, List.length_take,
      h.length_inputIds, List.length_range]

/-- An item with nothing padded: a part of a sample, `m` tokens long. -/
theorem restricted_of_ones (item : Item) {f : List Nat → List Nat} {m : Nat}
    (hids : item.inputIds.length = m) (hloss : item.lossMask.length = m)
    (hattention : item.attentionMask = some (List.replicate m 1))
    (hpositions : item.positionIds = positionIds.mapLast f)
    (h : Positioned n positionIds)
    (hf : ∀ ids : List Nat, ids.length = n → (f ids).length = m) :
    item.restricted =
        ⟨item.inputIds, none, item.positionIds, item.lossMask⟩ ∧
      ∀ trained : List Bool,
        item.wantedMask trained = item.restricted.wantedMask trained := by
  have hattended : item.attended = List.replicate m 1 := by
    rw [Item.attended, hattention, Option.getD_some]
  have hkeep : ∀ values : List Nat, values.length = m →
      keepWhere (List.replicate m 1) values = values := by
    intro values hvalues
    rw [← hvalues, keepWhere_ones]
  have hrestricted : item.restricted =
      ⟨item.inputIds, none, item.positionIds, item.lossMask⟩ := by
    have hrows : item.positionIds.mapLast (keepWhere (List.replicate m 1)) =
        item.positionIds := by
      rw [hpositions, mapLast_mapLast]
      exact mapLast_congr h fun ids hlength => hkeep _ (hf ids hlength)
    rw [Item.restricted, hattended, hkeep _ hids, hkeep _ hloss, hrows]
  refine ⟨hrestricted, fun trained => ?_⟩
  rw [hrestricted, Item.wantedMask, hattended, Item.wantedMask, Item.attended,
    Option.getD_none, hids]

/-- A short sample is padded on the right. -/
theorem padRight_short (h : Sample q positionIds n)
    (hshort : (n : Int) < ds.maxLength) {trained : List Bool}
    (htrained : trained.length = n) :
    ∃ r, ds.padRight q positionIds = .ok r ∧
      r.restricted = keptItem q positionIds n ∧
      (r.lossMask = r.wantedMask trained ↔
        q.lossMask = trained.map bit) := by
  let missing := (ds.maxLength - n).toNat
  have hpadded : ∀ values padding : List Nat, values.length = n →
      keepWhere (List.replicate n 1 ++ List.replicate missing 0)
        (values ++ padding) = values := by
    intro values padding hvalues
    rw [← hvalues]
    exact keepWhere_append missing values padding
  refine ⟨⟨q.inputIds ++ List.replicate missing (ds.padTokenId.getD 0),
      some (List.replicate n 1 ++ List.replicate missing 0),
      positionIds.mapLast (fun ids => ids ++ List.replicate missing 0),
      q.lossMask ++ List.replicate missing 0⟩, ?_, ?_, ?_⟩
  · simp only [SftDataset.padRight, h.length_inputIds, h.attentionMask_eq]
    rw [if_pos hshort]
  · have hpositions : (positionIds.mapLast fun ids =>
        ids ++ List.replicate missing 0).mapLast (keepWhere
          (List.replicate n 1 ++ List.replicate missing 0)) = positionIds := by
      rw [mapLast_mapLast]
      exact (mapLast_congr h.positioned fun ids hids =>
        hpadded ids _ hids).trans (mapLast_id positionIds)
    rw [keptItem_all h, Item.restricted, Item.attended, Option.getD_some,
      hpadded _ _ h.length_inputIds, hpadded _ _ h.length_lossMask,
      hpositions]
  · have hones : List.zipWith (fun attended position =>
        if attended = 1 ∧ trained[position]? = some true then 1 else 0)
        (List.replicate n 1) (List.range n) = trained.map bit := by
      have hzip := zipWith_ones trained (List.range n)
      rw [List.length_range] at hzip
      rw [hzip, map_range_trained htrained]
    have hzeros : List.zipWith (fun attended position =>
        if attended = 1 ∧ trained[position]? = some true then 1 else 0)
        (List.replicate missing 0) (List.replicate missing 0) =
        List.replicate missing 0 := by
      rw [List.zipWith_replicate', if_neg (fun hand => by cases hand.1)]
    rw [Item.wantedMask, Item.attended, Option.getD_some, text_mapLast,
      h.positioned.text_eq,
      List.zipWith_append (by rw [List.length_replicate, List.length_range]),
      hones, hzeros, List.append_cancel_right_eq]

/-- A sample cut to `kept` tokens keeps its first ones. -/
theorem restricted_take (h : Sample q positionIds n) (kept : Nat)
    {trained : List Bool} (htrained : trained.length = n) :
    let r : Item := ⟨q.inputIds.take kept, some (q.attentionMask.take kept),
      positionIds.mapLast (·.take kept), q.lossMask.take kept⟩
    r.restricted = keptItem q positionIds kept ∧
      r.wantedMask trained = (trained.map bit).take kept := by
  intro r
  obtain ⟨hrestricted, hwanted⟩ := restricted_of_ones r
    (f := (·.take kept)) (m := min kept n)
    (by rw [List.length_take, h.length_inputIds])
    (by rw [List.length_take, h.length_lossMask])
    (congrArg some (by rw [h.attentionMask_eq, List.take_replicate])) rfl
    h.positioned (fun ids hids => by rw [List.length_take, hids])
  refine ⟨hrestricted, ?_⟩
  rw [hwanted, hrestricted]
  exact wantedMask_keptItem h htrained kept

theorem restricted_drop (h : Sample q positionIds n) (dropped : Nat) :
    let r : Item := ⟨q.inputIds.drop dropped,
      some (q.attentionMask.drop dropped),
      positionIds.mapLast (·.drop dropped), q.lossMask.drop dropped⟩
    r.restricted = tailItem q positionIds dropped ∧
      ∀ trained : List Bool,
        r.wantedMask trained = r.restricted.wantedMask trained := by
  intro r
  exact restricted_of_ones r (f := (·.drop dropped)) (m := n - dropped)
    (by rw [List.length_drop, h.length_inputIds])
    (by rw [List.length_drop, h.length_lossMask])
    (congrArg some (by rw [h.attentionMask_eq, List.drop_replicate])) rfl
    h.positioned (fun ids hids => by rw [List.length_drop, hids])

/-- A sample just as long as it may be stays as it is. -/
theorem padRight_exact (h : Sample q positionIds n)
    (hexact : (n : Int) = ds.maxLength) {trained : List Bool}
    (htrained : trained.length = n) :
    ∃ r, ds.padRight q positionIds = .ok r ∧
      r.restricted = keptItem q positionIds n ∧
      (r.lossMask = r.wantedMask trained ↔
        q.lossMask = trained.map bit) := by
  have htake : ∀ {α : Type} {values : List α}, values.length = n →
      values.take n = values := fun hvalues =>
    List.take_of_length_le (Nat.le_of_eq hvalues)
  have hpositions : positionIds.mapLast (·.take n) = positionIds :=
    (mapLast_congr h.positioned fun ids hids => htake hids).trans
      (mapLast_id positionIds)
  obtain ⟨hrestricted, hwanted⟩ := restricted_take h n htrained
  rw [htake h.length_inputIds, htake h.length_lossMask, hpositions,
    htake (by rw [h.attentionMask_eq, List.length_replicate])]
    at hrestricted hwanted
  refine ⟨⟨q.inputIds, some q.attentionMask, positionIds, q.lossMask⟩, ?_,
    hrestricted, ?_⟩
  · simp only [SftDataset.padRight, h.length_inputIds]
    rw [if_neg (by omega), if_neg (by omega)]
  · rw [hwanted, htake (by rw [List.length_map, htrained])]

theorem padRight_long_right (h : Sample q positionIds n)
    (hlong : (n : Int) > ds.maxLength) (hright : ds.truncation = .right)
    {trained : List Bool} (htrained : trained.length = n) :
    ∃ r, ds.padRight q positionIds = .ok r ∧
      r.restricted = keptItem q positionIds (sliceIndex n ds.maxLength) ∧
      (r.lossMask = r.wantedMask trained ↔
        q.lossMask.take (sliceIndex n ds.maxLength) =
          (trained.map bit).take (sliceIndex n ds.maxLength)) := by
  obtain ⟨hrestricted, hwanted⟩ := restricted_take h
    (sliceIndex n ds.maxLength) htrained
  refine ⟨_, ?_, hrestricted, ?_⟩
  · simp only [SftDataset.padRight, h.length_inputIds, hright]
    rw [if_neg (by omega), if_pos hlong, firstOf_of_length _ h.length_inputIds,
      firstOf_of_length _ h.length_lossMask, firstOf_of_length _
        (by rw [h.attentionMask_eq, List.length_replicate]),
      mapLast_firstOf _ h.positioned]
  · rw [hwanted]

theorem padRight_long_left (h : Sample q positionIds n)
    (hlong : (n : Int) > ds.maxLength) (hleft : ds.truncation = .left) :
    ∃ r, ds.padRight q positionIds = .ok r ∧
      r.restricted =
        tailItem q positionIds (sliceIndex n (-ds.maxLength)) ∧
      r.lossMask = r.restricted.lossMask ∧
      ∀ trained : List Bool,
        r.wantedMask trained = r.restricted.wantedMask trained := by
  obtain ⟨hrestricted, hwanted⟩ := restricted_drop h
    (sliceIndex n (-ds.maxLength))
  refine ⟨_, ?_, hrestricted, (congrArg Item.lossMask hrestricted).symm,
    hwanted⟩
  simp only [SftDataset.padRight, h.length_inputIds, hleft]
  rw [if_neg (by omega), if_pos hlong, lastOf_of_length _ h.length_inputIds,
    lastOf_of_length _ h.length_lossMask, lastOf_of_length _
      (by rw [h.attentionMask_eq, List.length_replicate]),
    mapLast_lastOf _ h.positioned]

theorem take_range_eq_drop_iff {n k i : Nat} :
    (List.range n).take k = (List.range n).drop i ↔
      (n ≤ i ∧ (k = 0 ∨ n = 0)) ∨ (i = 0 ∧ n ≤ k) := by
  constructor
  · intro h
    have hlength := congrArg List.length h
    rw [List.length_take, List.length_drop, List.length_range] at hlength
    have hfirst := congrArg (·[0]?) h
    simp only [List.getElem?_drop, Nat.add_zero] at hfirst
    by_cases hi : i < n
    · rw [List.getElem?_range hi,
        List.getElem?_take_of_lt (by omega : 0 < k),
        List.getElem?_range (by omega : 0 < n), Option.some.injEq] at hfirst
      omega
    · omega
  · intro h
    rcases h with ⟨hi, hk⟩ | ⟨rfl, hk⟩
    · rw [List.drop_of_length_le (by rw [List.length_range]; exact hi)]
      rcases hk with rfl | rfl
      · rfl
      · exact List.take_nil
    · rw [List.drop_zero, List.take_of_length_le]
      rw [List.length_range]
      exact hk

/-- The first and the last tokens of a sample that is too long are the same
only where both are none. -/
theorem keptItem_eq_tailItem_iff (h : Sample q positionIds n)
    {maxLength : Int} (hlong : (n : Int) > maxLength) :
    tailItem q positionIds (sliceIndex n (-maxLength)) =
        keptItem q positionIds (sliceIndex n maxLength) ↔
      (n : Int) + maxLength ≤ 0 := by
  constructor
  · intro heq
    have htext := congrArg (fun item => item.positionIds.text) heq
    simp only [keptItem, tailItem, text_mapLast, h.positioned.text_eq]
      at htext
    have hcases := take_range_eq_drop_iff.mp htext.symm
    simp only [sliceIndex] at hcases
    by_cases hneg : maxLength < 0
    · rw [if_pos hneg, if_neg (by omega)] at hcases
      omega
    · rw [if_neg hneg] at hcases
      split at hcases <;> omega
  · intro hle
    have hk : sliceIndex n maxLength = 0 := by
      rw [sliceIndex]
      split <;> omega
    have hi : sliceIndex n (-maxLength) = n := by
      rw [sliceIndex]
      split <;> omega
    have hdrop : ∀ {α : Type} {values : List α}, values.length = n →
        values.drop n = values.take 0 := fun hvalues => by
      rw [List.drop_of_length_le (Nat.le_of_eq hvalues), List.take_zero]
    rw [hk, hi, tailItem, keptItem, hdrop h.length_inputIds,
      hdrop h.length_lossMask,
      mapLast_congr h.positioned fun ids hids => hdrop hids]

/-- `right` gives an item whenever `no_padding` does, and at its attended
places it is the same item just where the same end of the sample is cut. -/
theorem padRight_ok (h : Sample q positionIds n)
    (hfine : ¬ ((n : Int) > ds.maxLength ∧ ds.truncation = .error))
    {trained : List Bool} (htrained : trained.length = n) :
    ∃ r, ds.padRight q positionIds = .ok r ∧
      (r.restricted = keptItem q positionIds (keptLength ds.maxLength n) ↔
        ((n : Int) > ds.maxLength → ds.truncation = .left →
          (n : Int) + ds.maxLength ≤ 0)) ∧
      (r.restricted = keptItem q positionIds (keptLength ds.maxLength n) →
        (r.lossMask = r.wantedMask trained ↔
          q.lossMask.take (keptLength ds.maxLength n) =
            (trained.map bit).take (keptLength ds.maxLength n))) := by
  by_cases hlong : (n : Int) > ds.maxLength
  · rw [keptLength, if_pos hlong]
    cases htruncation : ds.truncation with
    | error => exact absurd ⟨hlong, htruncation⟩ hfine
    | right =>
        obtain ⟨r, hr, hrestricted, hmask⟩ :=
          padRight_long_right h hlong htruncation htrained
        exact ⟨r, hr, ⟨fun _ _ hleft => (nomatch hleft),
          fun _ => hrestricted⟩, fun _ => hmask⟩
    | left =>
        obtain ⟨r, hr, hrestricted, hloss, hwanted⟩ :=
          padRight_long_left h hlong htruncation
        refine ⟨r, hr, ?_, fun hkept => ?_⟩
        · rw [hrestricted, keptItem_eq_tailItem_iff h hlong]
          exact ⟨fun hle _ _ => hle, fun hle => hle hlong rfl⟩
        · rw [hwanted, hloss, hkept, wantedMask_keptItem h htrained]
          rfl
  · have hall : ∀ {values : List Nat}, values.length = n →
        values.take n = values := fun hvalues =>
      List.take_of_length_le (Nat.le_of_eq hvalues)
    have hfits : ∃ r, ds.padRight q positionIds = .ok r ∧
        r.restricted = keptItem q positionIds n ∧
        (r.lossMask = r.wantedMask trained ↔
          q.lossMask = trained.map bit) := by
      by_cases hshort : (n : Int) < ds.maxLength
      · exact padRight_short h hshort htrained
      · exact padRight_exact h (by omega) htrained
    obtain ⟨r, hr, hrestricted, hmask⟩ := hfits
    rw [keptLength, if_neg hlong, hall h.length_lossMask,
      hall (by rw [List.length_map, htrained])]
    exact ⟨r, hr, ⟨fun _ hgt => absurd hgt hlong, fun _ => hrestricted⟩,
      fun _ => hmask⟩

end Padding

section Main

variable {ds : SftDataset ξ τ} {row : Example ξ τ} {q : Processed}
  {positionIds : PositionIds}

theorem sample_of_assemble
    (h : ds.assemble row = .ok (q, positionIds)) :
    Sample q positionIds (sequenceLength ds row 0 row.messages) := by
  obtain ⟨htokenized, hpositioned⟩ := assemble_ok h
  constructor
  · exact htokenized.length_inputIds
  · rw [htokenized.lossMask_eq, length_codeMask]
  · exact htokenized.attentionMask_eq
  · rw [← htokenized.length_inputIds]
    exact hpositioned

theorem padRight_error {n : Nat} (h : Sample q positionIds n)
    (hraise : (n : Int) > ds.maxLength ∧ ds.truncation = .error) :
    ds.padRight q positionIds = .error (ds.tooLong n) := by
  simp only [SftDataset.padRight, h.length_inputIds, hraise.2]
  rw [if_neg (by have := hraise.1; omega), if_pos hraise.1]

/-- The two modes raise on the same samples. -/
theorem getItem_ok_iff {n : Nat} (hassemble : ds.assemble row =
      .ok (q, positionIds)) (h : Sample q positionIds n)
    (padMode : DatasetPadMode) :
    (∃ item, ds.getItem row padMode = .ok item) ↔
      ¬ ((n : Int) > ds.maxLength ∧ ds.truncation = .error) := by
  rw [SftDataset.getItem, hassemble, ok_bind]
  constructor
  · rintro ⟨item, hitem⟩ hraise
    cases padMode with
    | right => exact nomatch (padRight_error h hraise).symm.trans hitem
    | noPadding =>
        simp only [] at hitem
        rw [noPadding_eq h, if_pos hraise] at hitem
        cases hitem
  · intro hfine
    cases padMode with
    | right =>
        obtain ⟨r, hr, -⟩ := padRight_ok h hfine
          (List.length_replicate (n := n) (a := true))
        exact ⟨r, hr⟩
    | noPadding =>
        refine ⟨keptItem q positionIds (keptLength ds.maxLength n), ?_⟩
        simp only []
        rw [noPadding_eq h, if_neg hfine]

/-- Whenever one of the modes gives an item, both do, the one without padding
is the attended part of the other, and both are trained on just the tokens after
the generation prompts of the assistant messages, if and only if no sample that
is too long is cut on the left and the generation prompt found is as long as
what stands before the body of each assistant message. -/
theorem padModes_iff (ds : SftDataset ξ τ) (row : Example ξ τ)
    (bodyStart : Option τ → Message ξ → Nat)
    (h : ∃ padMode item, ds.getItem row padMode = .ok item) :
    (∃ r u, ds.getItem row .right = .ok r ∧
      ds.getItem row .noPadding = .ok u ∧ u = r.restricted ∧
      r.lossMask =
        r.wantedMask (trainedFrom ds row bodyStart 0 row.messages) ∧
      u.lossMask =
        u.wantedMask (trainedFrom ds row bodyStart 0 row.messages)) ↔
    ((sequenceLength ds row 0 row.messages : Int) > ds.maxLength →
      ds.truncation = .left →
      (sequenceLength ds row 0 row.messages : Int) + ds.maxLength ≤ 0) ∧
    MaskBorders ds row bodyStart
      (keptLength ds.maxLength (sequenceLength ds row 0 row.messages)) 0
      row.messages := by
  obtain ⟨padMode, item, hitem⟩ := h
  obtain ⟨⟨q, positionIds⟩, hassemble, -⟩ := bind_eq_ok.mp hitem
  have hsample := sample_of_assemble hassemble
  have hloss := (assemble_ok hassemble).1.lossMask_eq
  have htrained : (trainedFrom ds row bodyStart 0 row.messages).length =
      sequenceLength ds row 0 row.messages := length_trainedFrom 0 row.messages
  have hfine := (getItem_ok_iff hassemble hsample padMode).mp ⟨item, hitem⟩
  obtain ⟨r, hr, hsame, hmask⟩ := padRight_ok hsample hfine htrained
  have hright : ds.getItem row .right = .ok r := by
    rw [SftDataset.getItem, hassemble]
    exact hr
  have hnone : ds.getItem row .noPadding = .ok (keptItem q positionIds
      (keptLength ds.maxLength (sequenceLength ds row 0 row.messages))) := by
    rw [SftDataset.getItem, hassemble, ok_bind]
    simp only []
    rw [noPadding_eq hsample, if_neg hfine]
  rw [← hsame, ← take_codeMask_eq_iff, ← hloss]
  constructor
  · rintro ⟨r', u, hr', hu, hrestricted, hrmask, -⟩
    obtain rfl := Except.ok.inj (hright.symm.trans hr')
    obtain rfl := Except.ok.inj (hnone.symm.trans hu)
    exact ⟨hrestricted.symm, (hmask hrestricted.symm).mp hrmask⟩
  · rintro ⟨hrestricted, htake⟩
    refine ⟨r, _, hright, hnone, hrestricted.symm,
      (hmask hrestricted).mpr htake, ?_⟩
    rw [wantedMask_keptItem hsample htrained]
    exact htake

/-- With a concatenating template, the prefix and the generation prompt stand
before the body of an assistant message. -/
def bodyStartOf (p : Processor ξ τ) (kwargs : Kwargs) (tools : Option τ)
    (message : Message ξ) : Nat :=
  (if p.template.Accepts [message] then (prefixIds p tools kwargs).length
    else 0) + (promptIds p kwargs true).length

def initialsDataset (maxLength : Int) (truncation : Truncation) :
    SftDataset Unit Unit where
  tokenizer := tokenized (initialsProcessor false)
  processor := none
  systemPrompt := encodeChars ['S']
  generationPrompt := encodeChars ['a']
  applyChatTemplateKwargs := PyDict.empty
  padTokenId := none
  maxLength := maxLength
  truncation := truncation
  ignoreInputIdsMismatch := false
  getRopeIndex := none
  prompts_found := rfl

/-- Rendered as `Suqax`. -/
def questionAnswer : Example Unit Unit where
  messages := [textMessage "user" ['q'], textMessage "assistant" ['x']]
  tools := none
  enableThinking := none

theorem padModes_rightTruncated :
    let ds := initialsDataset 4 .right
    let trained := trainedFrom ds questionAnswer
      (bodyStartOf (initialsProcessor false) PyDict.empty) 0
      questionAnswer.messages
    ∃ r u, ds.getItem questionAnswer .right = .ok r ∧
      ds.getItem questionAnswer .noPadding = .ok u ∧ u = r.restricted ∧
      r.lossMask = r.wantedMask trained ∧
      u.lossMask = u.wantedMask trained := by
  apply (padModes_iff (initialsDataset 4 .right) questionAnswer
    (bodyStartOf (initialsProcessor false) PyDict.empty)
    ⟨.right, _, rfl⟩).mpr
  refine ⟨fun _ hleft => (nomatch hleft), ?_, ?_, trivial⟩
  · decide
  · decide

/-- Five tokens where two fit, cut on the left: padded to the right the last two
stay, without padding the first two. -/
theorem getItem_leftTruncated :
    let ds := initialsDataset 2 .left
    let r : Item := ⟨encodeChars ['a', 'x'], some [1, 1], .row [3, 4], [0, 1]⟩
    let u : Item := ⟨encodeChars ['S', 'u'], none, .row [0, 1], [0, 0]⟩
    ds.getItem questionAnswer .right = .ok r ∧
      ds.getItem questionAnswer .noPadding = .ok u ∧ u ≠ r.restricted :=
  ⟨rfl, rfl, by decide⟩

end Main

end MultiturnSft

end SelfDistillation
