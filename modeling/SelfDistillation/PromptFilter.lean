/-
`maybe_filter_out_long_prompts` of verl/utils/dataset/rl_dataset.py beside the
prompt that `AgentLoopBase.apply_chat_template`
(verl/experimental/agent_loop/agent_loop.py) makes of the same row.
-/
import SelfDistillation.PyText

namespace SelfDistillation

namespace PromptFilter

/-- A part of a message, with an image or a video as the row has it. -/
inductive Part (ι ν : Type)
  | text (text : Text)
  | image (image : ι)
  | video (video : ν)
deriving DecidableEq, Repr

inductive Content (ι ν : Type)
  | text (text : Text)
  | parts (parts : List (Part ι ν))
deriving DecidableEq, Repr

/-- A message; `rest` are the fields other than role and content. -/
structure Message (ξ ι ν : Type) where
  role : String
  content : Content ι ν
  rest : Option ξ
deriving DecidableEq, Repr

/-- An entry of the image column: a PIL image, a dict with what opening its
bytes gives, or a value of another type. -/
inductive ImageItem (ι : Type)
  | pil (image : ι)
  | dict (opened : Py ι)
  | other (typeName : String)

/-- A row: the prompt, and the columns of images and videos, if it has
them. -/
structure Doc (ξ ι ν : Type) where
  prompt : List (Message ξ ι ν)
  images : Option (List (ImageItem ι))
  videos : Option (List ν)

section BuildMessages

variable {ξ ι ν : Type}

/-- A segment of a content, split at `<image>` and `<video>`. -/
inductive Segment
  | image
  | video
  | text (text : Text)
deriving DecidableEq, Repr

/-- The text passed so far, unless it is empty. -/
def flush (passed : Text) : List Segment :=
  if passed = [] then [] else [.text passed]

/-- `re.split("(<image>|<video>)", content)` without empty segments, with one
unit of fuel for every code point. -/
def segmentsFrom (passed : Text) : Nat → Text → List Segment
  | 0, _ => flush passed
  | _ + 1, [] => flush passed
  | fuel + 1, c :: cs =>
      if "<image>".toList <+: c :: cs then
        flush passed ++ .image :: segmentsFrom [] fuel ((c :: cs).drop 7)
      else if "<video>".toList <+: c :: cs then
        flush passed ++ .video :: segmentsFrom [] fuel ((c :: cs).drop 7)
      else segmentsFrom (passed ++ [c]) fuel cs

def segments (content : Text) : List Segment :=
  segmentsFrom [] content.length content

/-- The image part of a message. -/
def ImageItem.part : ImageItem ι → Py ι
  | .pil image => .ok image
  | .dict opened => opened
  | .other typeName => .error (.typeError
      ("image must be dict or PIL.Image, unsupported image type: " ++
        typeName))

/-- `image_offset` and `video_offset` -/
structure Offsets where
  image : Nat
  video : Nat

variable (images : List (ImageItem ι)) (videos : List ν)

/-- `content_list` of the segments of a message. -/
def contentList (offsets : Offsets) :
    List Segment → Py (List (Part ι ν) × Offsets)
  | [] => .ok ([], offsets)
  | .image :: rest =>
      match images[offsets.image]? with
      | none => .error (.assertionError
          s!"image_offset {offsets.image} >= len(images) {images.length}")
      | some item => do
          let image ← item.part
          let (parts, offsets) ←
            contentList { offsets with image := offsets.image + 1 } rest
          return (.image image :: parts, offsets)
  | .video :: rest =>
      match videos[offsets.video]? with
      | none => .error (.assertionError
          s!"video_offset {offsets.video} >= len(videos) {videos.length}")
      | some video => do
          let (parts, offsets) ←
            contentList { offsets with video := offsets.video + 1 } rest
          return (.video video :: parts, offsets)
  | .text text :: rest => do
      let (parts, offsets) ← contentList offsets rest
      return (.text text :: parts, offsets)

/-- The loop over the messages. -/
def replaceFrom (hasProcessor : Bool) (offsets : Offsets) :
    List (Message ξ ι ν) → Py (List (Message ξ ι ν) × Offsets)
  | [] => .ok ([], offsets)
  | message :: messages =>
      if images.isEmpty && videos.isEmpty then do
        let (replaced, offsets) ← replaceFrom hasProcessor offsets messages
        return (message :: replaced, offsets)
      else do
        pyAssert hasProcessor "processor is needed to process image and video"
        match message.content with
        | .parts _ => do
            let (replaced, offsets) ←
              replaceFrom hasProcessor offsets messages
            return (message :: replaced, offsets)
        | .text content => do
            let (parts, offsets) ←
              contentList images videos offsets (segments content)
            let (replaced, offsets) ←
              replaceFrom hasProcessor offsets messages
            return ({ message with content := .parts parts } :: replaced,
              offsets)

/-- `_build_messages`: the messages, and the row it takes them and the columns
of images and videos from. -/
def buildMessages (hasProcessor : Bool) (example_ : Doc ξ ι ν) :
    Py (List (Message ξ ι ν) × Doc ξ ι ν) := do
  let images := example_.images.getD []
  let videos := example_.videos.getD []
  let (messages, offsets) ←
    replaceFrom images videos hasProcessor ⟨0, 0⟩ example_.prompt
  pyAssert (offsets.image = images.length)
    s!"image_offset {offsets.image} != len(images) {images.length}"
  pyAssert (offsets.video = videos.length)
    s!"video_offset {offsets.video} != len(videos) {videos.length}"
  return (messages, ⟨messages, none, none⟩)

end BuildMessages

section Encoding

variable {ξ ι ν τ κ : Type}

/-- The tokenizer or processor, and the functions that load visuals: `ι` and
`ν` as they stand in a row or a message, `Img` and `Vid` as the processor takes
them.  Tools and template arguments are those of the configuration. -/
structure Encoder (ξ ι ν τ κ Img Vid : Type) where
  /-- `apply_chat_template(..., tokenize=False)` of the processor. -/
  template : List (Message ξ ι ν) → Bool → Option τ → κ → Py Text
  /-- `apply_chat_template(..., tokenize=True)` of the tokenizer. -/
  tokenized : List (Message ξ ι ν) → Bool → Option τ → κ → Py (List Nat)
  /-- `input_ids` the processor gives for a text, images and videos. -/
  inputIds : Text → Option (List Img) → Option (List Vid) → Py (List Nat)
  /-- `process_image` and `process_video` of a column. -/
  processImage : ImageItem ι → Py Img
  processVideo : ν → Py Vid
  /-- What `process_vision_info` loads for a part of a message. -/
  fetchImage : ι → Py Img
  fetchVideo : ν → Py Vid

/-- With visuals a prompt is not shorter than its text alone: a placeholder is
one token, and each visual is expanded to at least one. -/
def Encoder.Expands {Img Vid : Type} (e : Encoder ξ ι ν τ κ Img Vid) : Prop :=
  ∀ text images videos ids, e.inputIds text images videos = .ok ids →
    ∃ plain, e.inputIds text none none = .ok plain ∧
      plain.length ≤ ids.length

variable {Img Vid : Type} (e : Encoder ξ ι ν τ κ Img Vid)
  (hasProcessor : Bool) (tools : Option τ) (kwargs : κ)

/-- A column that is there and not empty, each entry loaded. -/
def loadColumn {α β : Type} (load : α → Py β) (column : Option (List α)) :
    Py (Option (List β)) :=
  if column.getD [] = [] then .ok none
  else some <$> (column.getD []).mapM load

/-- `doc2len`, without its `except`. -/
def docIds (doc : Doc ξ ι ν) : Py (List Nat) :=
  if hasProcessor then do
    let (messages, doc) ← buildMessages hasProcessor doc
    let rawPrompt ← e.template messages true tools kwargs
    let images ← loadColumn e.processImage doc.images
    let videos ← loadColumn e.processVideo doc.videos
    e.inputIds rawPrompt images videos
  else e.tokenized doc.prompt true tools kwargs

/-- `doc2len`; a row that raises is longer than every limit. -/
def doc2len (maxPromptLength : Int) (doc : Doc ξ ι ν) : Int :=
  match docIds e hasProcessor tools kwargs doc with
  | .ok ids => ids.length
  | .error _ => maxPromptLength + 1

/-- `maybe_filter_out_long_prompts` -/
def maybeFilterOutLongPrompts (filterOverlongPrompts : Bool)
    (maxPromptLength : Int) (dataframe : List (Doc ξ ι ν)) :
    List (Doc ξ ι ν) :=
  if filterOverlongPrompts then
    dataframe.filter fun doc =>
      doc2len e hasProcessor tools kwargs maxPromptLength doc ≤
        maxPromptLength
  else dataframe

/-- `{"role": "user", "content": [{"type": "text", "text": ""}]}` -/
def dummyUserMessage : Message ξ ι ν := ⟨"user", .parts [.text []], none⟩

/-- The text with a dummy user message in front, and that taken off. -/
def fallbackText (messages : List (Message ξ ι ν)) : Py Text := do
  let dummyUserPrefix ← e.template [dummyUserMessage] false tools kwargs
  let output ← e.template (dummyUserMessage :: messages) true tools kwargs
  return output.drop dummyUserPrefix.length

/-- The same with `tokenize=True`. -/
def fallbackIds (messages : List (Message ξ ι ν)) : Py (List Nat) := do
  let dummyUserPrefix ← e.tokenized [dummyUserMessage] false tools kwargs
  let output ← e.tokenized (dummyUserMessage :: messages) true tools kwargs
  if output.isEmpty then .error .indexError
  else return output.drop dummyUserPrefix.length

/-- `apply_chat_template` of verl/utils/chat_template.py: the fallback is for
templates that need a user message. -/
def orElse {α : Type} (first fallback : Py α) : Py α :=
  match first with
  | .ok output => .ok output
  | .error _ => fallback

/-- The visuals of the messages, in their order. -/
def visionInfos (messages : List (Message ξ ι ν)) : List (ι ⊕ ν) :=
  messages.flatMap fun message =>
    match message.content with
    | .text _ => []
    | .parts parts => parts.filterMap fun part =>
        match part with
        | .text _ => none
        | .image image => some (.inl image)
        | .video video => some (.inr video)

def fetch : ι ⊕ ν → Py (Img ⊕ Vid)
  | .inl image => .inl <$> e.fetchImage image
  | .inr video => .inr <$> e.fetchVideo video

/-- `None` for an empty list. -/
def orNone {α : Type} (values : List α) : Option (List α) :=
  if values.isEmpty then none else some values

/-- `process_vision_info` -/
def processVisionInfo (messages : List (Message ξ ι ν)) :
    Py (Option (List Img) × Option (List Vid)) := do
  let visuals ← (visionInfos messages).mapM (fetch e)
  return (orNone (visuals.filterMap Sum.getLeft?),
    orNone (visuals.filterMap Sum.getRight?))

/-- The prompt of the processor for a text and the visuals of the messages. -/
def withVisuals (messages : List (Message ξ ι ν)) (rawPrompt : Text) :
    Py (List Nat) := do
  let visuals ← processVisionInfo e messages
  e.inputIds rawPrompt visuals.1 visuals.2

/-- The ids of the prompt an agent loop builds for the row: `_build_messages`,
`process_vision_info` and `AgentLoopBase.apply_chat_template`. -/
def agentPromptIds (doc : Doc ξ ι ν) : Py (List Nat) := do
  let (messages, _) ← buildMessages hasProcessor doc
  if hasProcessor then do
    let visuals ← processVisionInfo e messages
    let rawPrompt ← orElse (e.template messages true tools kwargs)
      (fallbackText e tools kwargs messages)
    e.inputIds rawPrompt visuals.1 visuals.2
  else
    orElse (e.tokenized messages true tools kwargs)
      (fallbackIds e tools kwargs messages)

end Encoding

section Measure

variable {ξ ι ν τ κ Img Vid : Type} (e : Encoder ξ ι ν τ κ Img Vid)
  (hasProcessor : Bool) (tools : Option τ) (kwargs : κ)
  (maxPromptLength : Int)

/-- A prompt that can be made and is not too long. -/
def Fits (ids : Py (List Nat)) : Prop :=
  ∃ promptIds, ids = .ok promptIds ∧
    (promptIds.length : Int) ≤ maxPromptLength

/-- The row has an image or a video in its columns. -/
def Doc.HasVisuals (doc : Doc ξ ι ν) : Prop :=
  doc.images.getD [] ≠ [] ∨ doc.videos.getD [] ≠ []

/-- When the length of a row is that of its prompt, as far as the limit is
concerned. -/
structure Measured (doc : Doc ξ ι ν) : Prop where
  /-- The visuals of a prompt whose text fits can be loaded, and with them it
  fits still. -/
  visuals : hasProcessor = true → ∀ messages row rawPrompt,
    buildMessages true doc = .ok (messages, row) →
    e.template messages true tools kwargs = .ok rawPrompt →
    Fits maxPromptLength (e.inputIds rawPrompt none none) →
      Fits maxPromptLength (withVisuals e messages rawPrompt)
  /-- No prompt that fits is made with a dummy user message. -/
  fallback : hasProcessor = true → ∀ messages row,
    buildMessages true doc = .ok (messages, row) →
    (∀ rawPrompt, e.template messages true tools kwargs ≠ .ok rawPrompt) →
      ¬ Fits maxPromptLength
        (fallbackText e tools kwargs messages >>= withVisuals e messages)
  fallbackTokens : hasProcessor = false → ¬ doc.HasVisuals →
    (∀ ids, e.tokenized doc.prompt true tools kwargs ≠ .ok ids) →
      ¬ Fits maxPromptLength (fallbackIds e tools kwargs doc.prompt)
  /-- Without a processor, the text of a row with visuals does not fit. -/
  unprocessed : hasProcessor = false → doc.HasVisuals →
    ¬ Fits maxPromptLength (e.tokenized doc.prompt true tools kwargs)

end Measure

section Build

variable {ξ ι ν : Type} {doc : Doc ξ ι ν}

/-- The columns are taken from the row. -/
theorem buildMessages_row {hasProcessor : Bool}
    {messages : List (Message ξ ι ν)} {row : Doc ξ ι ν}
    (h : buildMessages hasProcessor doc = .ok (messages, row)) :
    row = ⟨messages, none, none⟩ := by
  unfold buildMessages at h
  dsimp only at h
  obtain ⟨replaced, -, h⟩ := bind_eq_ok.mp h
  obtain ⟨_, -, h⟩ := bind_eq_ok.mp h
  obtain ⟨_, -, h⟩ := bind_eq_ok.mp h
  cases h
  rfl

theorem replaceFrom_nil (hasProcessor : Bool) (offsets : Offsets)
    (messages : List (Message ξ ι ν)) :
    replaceFrom ([] : List (ImageItem ι)) [] hasProcessor offsets messages =
      .ok (messages, offsets) := by
  induction messages with
  | nil => rfl
  | cons message messages ih =>
      rw [replaceFrom, List.isEmpty_nil, List.isEmpty_nil]
      exact bind_eq_ok.mpr ⟨_, ih, rfl⟩

theorem buildMessages_of_not_hasVisuals (hasProcessor : Bool)
    (h : ¬ doc.HasVisuals) :
    buildMessages hasProcessor doc =
      .ok (doc.prompt, ⟨doc.prompt, none, none⟩) := by
  rw [Doc.HasVisuals, not_or, not_not, not_not] at h
  unfold buildMessages
  rw [h.1, h.2]
  dsimp only
  rw [replaceFrom_nil]
  rfl

/-- Visuals need a processor. -/
theorem buildMessages_of_hasVisuals (h : doc.HasVisuals)
    (built : List (Message ξ ι ν) × Doc ξ ι ν) :
    buildMessages false doc ≠ .ok built := by
  intro hbuilt
  unfold buildMessages at hbuilt
  dsimp only at hbuilt
  obtain ⟨⟨replaced, offsets⟩, hreplaced, hbuilt⟩ := bind_eq_ok.mp hbuilt
  obtain ⟨_, himages, hbuilt⟩ := bind_eq_ok.mp hbuilt
  obtain ⟨_, hvideos, -⟩ := bind_eq_ok.mp hbuilt
  have hsome : ((doc.images.getD []).isEmpty &&
      (doc.videos.getD []).isEmpty) = false := by
    rw [Bool.and_eq_false_iff, List.isEmpty_eq_false_iff,
      List.isEmpty_eq_false_iff]
    exact h
  cases hprompt : doc.prompt with
  | nil =>
      rw [hprompt, replaceFrom] at hreplaced
      cases hreplaced
      rw [pyAssert_eq_ok, decide_eq_true_eq] at himages hvideos
      obtain hnone | hnone := h
      · exact hnone (List.length_eq_zero_iff.mp himages.symm)
      · exact hnone (List.length_eq_zero_iff.mp hvideos.symm)
  | cons message messages =>
      rw [hprompt, replaceFrom, hsome, if_neg Bool.false_ne_true]
        at hreplaced
      obtain ⟨_, hassert, -⟩ := bind_eq_ok.mp hreplaced
      rw [pyAssert_eq_ok] at hassert
      cases hassert

end Build

section Keep

variable {ξ ι ν τ κ Img Vid : Type} {e : Encoder ξ ι ν τ κ Img Vid}
  {hasProcessor : Bool} {tools : Option τ} {kwargs : κ}
  {maxPromptLength : Int}

@[simp] theorem fits_ok {ids : List Nat} :
    Fits maxPromptLength (.ok ids) ↔ (ids.length : Int) ≤ maxPromptLength := by
  simp [Fits]

@[simp] theorem not_fits_error (error : PyErr) :
    ¬ Fits maxPromptLength (.error error) := by
  simp [Fits]

theorem doc2len_le_iff (doc : Doc ξ ι ν) :
    doc2len e hasProcessor tools kwargs maxPromptLength doc ≤
        maxPromptLength ↔
      Fits maxPromptLength (docIds e hasProcessor tools kwargs doc) := by
  unfold doc2len
  cases docIds e hasProcessor tools kwargs doc with
  | ok ids => simp
  | error error => simp

theorem docIds_of_built {doc : Doc ξ ι ν} {messages : List (Message ξ ι ν)}
    {row : Doc ξ ι ν} (h : buildMessages true doc = .ok (messages, row)) :
    docIds e true tools kwargs doc =
      e.template messages true tools kwargs >>= fun rawPrompt =>
        e.inputIds rawPrompt none none := by
  have hrow := buildMessages_row h
  subst hrow
  unfold docIds
  rw [h]
  rfl

/-- It does not matter which of two prompts is made first. -/
theorem bind_comm_iff {α β : Type} {a : Py α} {b : Py β}
    {f : α → β → Py (List Nat)} :
    Fits maxPromptLength (a >>= fun x => b >>= fun y => f x y) ↔
      Fits maxPromptLength (b >>= fun y => a >>= fun x => f x y) := by
  cases a with
  | error _ => cases b <;> simp [Fits, bind, Except.bind]
  | ok x => cases b <;> simp [Fits, bind, Except.bind]

theorem measured_of_not_built {doc : Doc ξ ι ν}
    (h : ∀ built, buildMessages true doc ≠ .ok built) :
    Measured e true tools kwargs maxPromptLength doc where
  visuals := fun _ _ _ _ hbuilt => absurd hbuilt (h _)
  fallback := fun _ _ _ hbuilt => absurd hbuilt (h _)
  fallbackTokens := nofun
  unprocessed := nofun

/-- With a processor: the messages are the same, and so is the text if the
template takes them. -/
theorem keeps_iff_processor (hexpands : e.Expands) (doc : Doc ξ ι ν) :
    (Fits maxPromptLength (docIds e true tools kwargs doc) ↔
        Fits maxPromptLength (agentPromptIds e true tools kwargs doc)) ↔
      Measured e true tools kwargs maxPromptLength doc := by
  cases hbuilt : buildMessages true doc with
  | error error =>
      have hdoc : docIds e true tools kwargs doc = .error error := by
        unfold docIds
        rw [hbuilt]
        rfl
      have hagent : agentPromptIds e true tools kwargs doc = .error error := by
        unfold agentPromptIds
        rw [hbuilt]
        rfl
      rw [hdoc, hagent]
      refine iff_of_true Iff.rfl (measured_of_not_built fun built hok => ?_)
      rw [hbuilt] at hok
      cases hok
  | ok built =>
      obtain ⟨messages, row⟩ := built
      have hagent : agentPromptIds e true tools kwargs doc =
          processVisionInfo e messages >>= fun visuals =>
            orElse (e.template messages true tools kwargs)
              (fallbackText e tools kwargs messages) >>= fun rawPrompt =>
                e.inputIds rawPrompt visuals.1 visuals.2 := by
        unfold agentPromptIds
        rw [hbuilt]
        rfl
      rw [docIds_of_built hbuilt, hagent, bind_comm_iff]
      cases htemplate : e.template messages true tools kwargs with
      | ok rawPrompt =>
          change (Fits maxPromptLength (e.inputIds rawPrompt none none) ↔
            Fits maxPromptLength (withVisuals e messages rawPrompt)) ↔ _
          have hplain : Fits maxPromptLength
              (withVisuals e messages rawPrompt) →
                Fits maxPromptLength (e.inputIds rawPrompt none none) := by
            rintro ⟨ids, hids, hlength⟩
            obtain ⟨visuals, -, hids⟩ := bind_eq_ok.mp hids
            obtain ⟨plain, hplain, hle⟩ := hexpands _ _ _ ids hids
            exact ⟨plain, hplain, by omega⟩
          constructor
          · intro hsame
            refine ⟨fun _ messages' row' rawPrompt' hbuilt' htemplate' => ?_,
              fun _ messages' row' hbuilt' hnone => ?_, nofun, nofun⟩
            · rw [hbuilt] at hbuilt'
              cases hbuilt'
              rw [htemplate] at htemplate'
              cases htemplate'
              exact hsame.mp
            · rw [hbuilt] at hbuilt'
              cases hbuilt'
              exact absurd htemplate (hnone rawPrompt)
          · intro hmeasured
            exact ⟨hmeasured.visuals rfl messages row rawPrompt hbuilt
              htemplate, hplain⟩
      | error error =>
          change (Fits maxPromptLength (.error error) ↔
            Fits maxPromptLength
              (fallbackText e tools kwargs messages >>=
                withVisuals e messages)) ↔ _
          rw [iff_false_left (not_fits_error error)]
          constructor
          · intro hnot
            refine ⟨fun _ messages' row' rawPrompt' hbuilt' htemplate' => ?_,
              fun _ messages' row' hbuilt' _ => ?_, nofun, nofun⟩
            · rw [hbuilt] at hbuilt'
              cases hbuilt'
              rw [htemplate] at htemplate'
              cases htemplate'
            · rw [hbuilt] at hbuilt'
              cases hbuilt'
              exact hnot
          · intro hmeasured
            refine hmeasured.fallback rfl messages row hbuilt fun raw hok => ?_
            rw [htemplate] at hok
            cases hok

/-- With a tokenizer alone: the row has no visuals, and the template takes its
messages. -/
theorem keeps_iff_tokenizer (doc : Doc ξ ι ν) :
    (Fits maxPromptLength (docIds e false tools kwargs doc) ↔
        Fits maxPromptLength (agentPromptIds e false tools kwargs doc)) ↔
      Measured e false tools kwargs maxPromptLength doc := by
  have hdoc : docIds e false tools kwargs doc =
      e.tokenized doc.prompt true tools kwargs := rfl
  rw [hdoc]
  by_cases hvisuals : doc.HasVisuals
  · have hagent : ¬ Fits maxPromptLength
        (agentPromptIds e false tools kwargs doc) := by
      rintro ⟨ids, hids, -⟩
      obtain ⟨built, hbuilt, -⟩ := bind_eq_ok.mp hids
      exact buildMessages_of_hasVisuals hvisuals built hbuilt
    rw [iff_false_right hagent]
    constructor
    · exact fun hnot => ⟨nofun, nofun, fun _ hnone => absurd hvisuals hnone,
        fun _ _ => hnot⟩
    · exact fun hmeasured => hmeasured.unprocessed rfl hvisuals
  · have hagent : agentPromptIds e false tools kwargs doc =
        orElse (e.tokenized doc.prompt true tools kwargs)
          (fallbackIds e tools kwargs doc.prompt) := by
      unfold agentPromptIds
      rw [buildMessages_of_not_hasVisuals false hvisuals]
      rfl
    rw [hagent]
    cases htokens : e.tokenized doc.prompt true tools kwargs with
    | ok ids =>
        refine iff_of_true Iff.rfl ⟨nofun, nofun, fun _ _ hnone => ?_,
          fun _ hsome => absurd hsome hvisuals⟩
        exact absurd htokens (hnone ids)
    | error error =>
        change (Fits maxPromptLength (.error error) ↔
          Fits maxPromptLength (fallbackIds e tools kwargs doc.prompt)) ↔ _
        rw [iff_false_left (not_fits_error error)]
        constructor
        · exact fun hnot => ⟨nofun, nofun, fun _ _ _ => hnot,
            fun _ hsome => absurd hsome hvisuals⟩
        · intro hmeasured
          refine hmeasured.fallbackTokens rfl hvisuals fun ids hok => ?_
          rw [htokens] at hok
          cases hok

variable (e hasProcessor tools kwargs maxPromptLength) in
/-- The filter keeps the rows whose prompt in the agent loop is not too long
exactly where the length is that of the prompt. -/
theorem mem_filter_iff_fits_iff (hexpands : e.Expands)
    {dataframe : List (Doc ξ ι ν)} {doc : Doc ξ ι ν}
    (hdoc : doc ∈ dataframe) :
    (doc ∈ maybeFilterOutLongPrompts e hasProcessor tools kwargs true
        maxPromptLength dataframe ↔
      Fits maxPromptLength
        (agentPromptIds e hasProcessor tools kwargs doc)) ↔
      Measured e hasProcessor tools kwargs maxPromptLength doc := by
  rw [maybeFilterOutLongPrompts, if_pos rfl, List.mem_filter,
    decide_eq_true_eq, and_iff_right hdoc, doc2len_le_iff]
  cases hasProcessor with
  | true => exact keeps_iff_processor hexpands doc
  | false => exact keeps_iff_tokenizer doc

/-- Text as it stands and a `#` for each visual; every visual takes as many
tokens as it is large, and at least one. -/
def plainEncoder : Encoder Unit Nat Nat Unit Unit Nat Nat where
  template messages addGenerationPrompt _ _ := .ok
    (messages.flatMap (fun message =>
      match message.content with
      | .text text => text
      | .parts parts => parts.flatMap fun part =>
          match part with
          | .text text => text
          | .image _ => ['#']
          | .video _ => ['#']) ++ if addGenerationPrompt then ['>'] else [])
  tokenized messages addGenerationPrompt _ _ := .ok
    (messages.flatMap (fun message =>
      match message.content with
      | .text text => text.map Char.toNat
      | .parts _ => []) ++ if addGenerationPrompt then [0] else [])
  inputIds text images videos := .ok
    (text.map Char.toNat ++
      ((images.getD []) ++ (videos.getD [])).flatMap
        fun size => List.replicate (size - 1) 0)
  processImage item := item.part
  processVideo video := .ok video
  fetchImage image := .ok image
  fetchVideo video := .ok video

theorem expands_plainEncoder : plainEncoder.Expands := by
  intro text images videos ids hids
  cases hids
  refine ⟨_, rfl, ?_⟩
  simp

/-- One image that takes `size` tokens, and a short text. -/
def imageDoc (size : Nat) : Doc Unit Nat Nat where
  prompt := [⟨"user", .text "<image>?".toList, none⟩]
  images := some [.pil size]
  videos := none

theorem mem_filter_iff_fits_iff_image :
    (imageDoc 4 ∈ maybeFilterOutLongPrompts plainEncoder true none () true 8
        [imageDoc 4] ↔
      Fits 8 (agentPromptIds plainEncoder true none () (imageDoc 4))) ↔
      Measured plainEncoder true none () 8 (imageDoc 4) :=
  mem_filter_iff_fits_iff plainEncoder true none () 8 expands_plainEncoder
    (List.mem_singleton_self _)

/-- An image of twenty tokens is measured as its placeholder. -/
theorem not_mem_filter_iff_fits :
    ¬ ∀ (e : Encoder Unit Nat Nat Unit Unit Nat Nat) (hasProcessor : Bool)
      (tools : Option Unit) (kwargs : Unit) (maxPromptLength : Int)
      (dataframe : List (Doc Unit Nat Nat)), e.Expands →
      ∀ doc ∈ dataframe,
        (doc ∈ maybeFilterOutLongPrompts e hasProcessor tools kwargs true
            maxPromptLength dataframe ↔
          Fits maxPromptLength
            (agentPromptIds e hasProcessor tools kwargs doc)) := by
  intro h
  have hkeeps := h plainEncoder true none () 8 [imageDoc 20]
    expands_plainEncoder (imageDoc 20) (List.mem_singleton_self _)
  have hlong : agentPromptIds plainEncoder true none () (imageDoc 20) =
      .ok ([35, 63, 62] ++ List.replicate 19 0) := by
    decide +kernel
  have hshort : docIds plainEncoder true none () (imageDoc 20) =
      .ok [35, 63, 62] := by
    decide +kernel
  rw [maybeFilterOutLongPrompts, if_pos rfl, List.mem_filter,
    decide_eq_true_eq, and_iff_right (List.mem_singleton_self _),
    doc2len_le_iff, hlong, hshort, fits_ok, fits_ok] at hkeeps
  exact absurd hkeeps (by decide)

end Keep

end PromptFilter

end SelfDistillation
