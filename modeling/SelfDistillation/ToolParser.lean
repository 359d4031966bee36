/-
The tool parsers (verl/experimental/agent_loop/tool_parser.py): Hermes, with a
JSON object in each block, and Qwen3 coder, with functions and parameters in
tags of their own.
-/
import SelfDistillation.Library.Delimited
import SelfDistillation.PyText

namespace SelfDistillation

namespace ToolParser

open Delimited

structure FunctionCall where
  name : Text
  arguments : Text
deriving DecidableEq, Repr

/-- `tool_call_start_token` -/
def startToken : Text := "<tool_call>".toList

/-- `tool_call_end_token` -/
def endToken : Text := "</tool_call>".toList

section Hermes

/-- The `json` module: `loads` where it does not raise, `value[key]`, strings,
and `dumps(value, ensure_ascii=False)`. -/
structure Json (J : Type) where
  loads : Text → Option J
  get : J → Text → Option J
  asStr : J → Option Text
  dumps : J → Text

variable {J : Type} (json : Json J)

/-- The body of the loop over the matches; what raises in it is logged. -/
def decodeCall (content : Text) : Option FunctionCall := do
  let functionCall ← json.loads content
  let name ← json.get functionCall "name".toList
  let arguments ← json.get functionCall "arguments".toList
  let name ← json.asStr name
  return ⟨name, json.dumps arguments⟩

/-- `tool_call_regex.findall(text)` -/
def hermesBlocks (text : Text) : List Text :=
  findAll startToken endToken (fun _ => none) text

/-- `HermesToolParser.extract_tool_calls`, of the decoded text -/
def hermesExtractToolCalls (text : Text) : Text × List FunctionCall :=
  if ¬ startToken <:+: text ∨ ¬ endToken <:+: text then (text, [])
  else (removeAll startToken endToken text,
    (hermesBlocks text).filterMap (decodeCall json))

end Hermes

section Qwen3

/-- A tool by its type, the name of its function, and the types of the
properties of its parameters. -/
structure ToolSchema where
  type : Text
  name : Text
  properties : PyDict Text

/-- What Python makes of the text of a parameter: `int`, the number that
`float` gives, `json.loads` and `eval` where they do not raise, and the text
of a dictionary, where it can be serialized. -/
structure Conversion (V : Type) where
  null : V
  ofText : Text → V
  ofBool : Bool → V
  int : Text → Option V
  number : Text → Option V
  jsonLoads : Text → Option V
  eval : Text → Option V
  lower : Text → Text
  dumps : PyDict V → Option Text

variable {V : Type} (conv : Conversion V)

/-- `get_arguments_config` -/
def getArgumentsConfig (tools : Option (List ToolSchema)) (funcName : Text) :
    Py (PyDict Text) :=
  match tools with
  | none => .error (.typeError "'NoneType' object is not iterable")
  | some tools =>
      match tools.find? fun config =>
        config.type = "function".toList ∧ config.name = funcName with
      | some config => .ok config.properties
      | none => .ok PyDict.empty

/-- `value.startswith(...)` for one of the texts -/
def startsWithAny (texts : List String) (value : Text) : Bool :=
  texts.any fun text => text.toList.isPrefixOf value

/-- `value in [...]` -/
def isAny (texts : List String) (value : Text) : Bool :=
  texts.any fun text => text.toList = value

/-- `convert_param_value` -/
def convertParamValue (paramValue paramName : Text)
    (paramConfig : PyDict Text) : V :=
  if conv.lower paramValue = "null".toList then conv.null
  else
    match paramConfig.get? (String.ofList paramName) with
    | none => conv.ofText paramValue
    | some type =>
        let paramType := conv.lower (strip type)
        if isAny ["string", "str", "text", "varchar", "char", "enum"]
            paramType then conv.ofText paramValue
        else if startsWithAny ["int", "uint", "long", "short", "unsigned"]
            paramType then
          (conv.int paramValue).getD (conv.ofText paramValue)
        else if startsWithAny ["num", "float"] paramType then
          (conv.number paramValue).getD (conv.ofText paramValue)
        else if isAny ["boolean", "bool", "binary"] paramType then
          conv.ofBool (conv.lower paramValue = "true".toList)
        else
          let loaded :=
            if isAny ["object"] paramType ∨ startsWithAny ["dict"] paramType
            then conv.jsonLoads paramValue else none
          match loaded with
          | some value => value
          | none => (conv.eval paramValue).getD (conv.ofText paramValue)

/-- The text up to the first `>` and the text behind it; `index` raises if
there is none. -/
def splitAtIndex (s : Text) : Py (Text × Text) :=
  match splitFirst ">".toList s with
  | some parts => .ok parts
  | none => .error (.valueError "substring not found")

/-- What `(.*?)$` captures: `$` matches before a newline at the end as well. -/
def dropFinalNewline (s : Text) : Text :=
  if s.getLast? = some '\n' then s.dropLast else s

/-- `param_value` without a newline at its start and one at its end -/
def trimNewlines (s : Text) : Text :=
  dropFinalNewline (if s.head? = some '\n' then s.tail else s)

/-- The body of the loop over the parameters. -/
def setParameter (config : PyDict Text) (paramDict : PyDict V)
    (matchText : Text) : Py (PyDict V) := do
  let (paramName, paramValue) ← splitAtIndex matchText
  return paramDict.set (String.ofList paramName)
    (convertParamValue conv (trimNewlines paramValue) paramName config)

/-- `_parse_xml_function_call` -/
def parseXmlFunctionCall (tools : Option (List ToolSchema))
    (functionCallStr : Text) : Py FunctionCall := do
  let (functionName, parameters) ← splitAtIndex functionCallStr
  let paramConfig ← getArgumentsConfig tools functionName
  let paramDict ← (findAll "<parameter=".toList "</parameter>".toList
    (fun rest => some (dropFinalNewline rest)) parameters).foldlM
      (setParameter conv paramConfig) PyDict.empty
  match conv.dumps paramDict with
  | some arguments => return ⟨functionName, arguments⟩
  | none => throw (.typeError "Object is not JSON serializable")

/-- `tool_call_regex.findall(text)`: the last block may lack its end. -/
def qwenBlocks (text : Text) : List Text :=
  findAll startToken endToken (fun rest => some (dropFinalNewline rest)) text

/-- `tool_call_function_regex.findall(tool_call)` -/
def functionTexts (toolCall : Text) : List Text :=
  findAll "<function=".toList "</function>".toList some toolCall

/-- `_get_function_calls` -/
def getFunctionCalls (modelOutput : Text) : List Text :=
  let rawToolCalls := qwenBlocks modelOutput
  let rawToolCalls := if rawToolCalls = [] then [modelOutput]
    else rawToolCalls
  rawToolCalls.flatMap functionTexts

/-- `Qwen3XMLToolParser.extract_tool_calls`, of the decoded text -/
def qwenExtractToolCalls (tools : Option (List ToolSchema)) (text : Text) :
    Text × List FunctionCall :=
  match splitFirst startToken text with
  | none => (text, [])
  | some (content, _) =>
      let functionCalls := getFunctionCalls text
      if functionCalls = [] then (text, [])
      else
        match functionCalls.mapM (parseXmlFunctionCall conv tools) with
        | .ok toolCalls => (content, toolCalls)
        | .error _ => (text, [])

end Qwen3

section Blocks

variable {J V : Type} {json : Json J} {conv : Conversion V}
  {tools : Option (List ToolSchema)} {text : Text}

/-- The calls of the well-formed blocks, in order.  Of the blocks that end at
one end tag, because a start tag before them has no end tag of its own, the
outermost well-formed one counts. -/
def wellFormedCalls (calls : Text → Option (List FunctionCall))
    (blocks : List Text) : List FunctionCall :=
  blocks.flatMap fun block =>
    ((nested startToken block).findSome? calls).getD []

/-- The call of a well-formed Hermes block. -/
def hermesCalls (json : Json J) (content : Text) :
    Option (List FunctionCall) :=
  (decodeCall json content).map fun call => [call]

/-- The calls of a well-formed Qwen3 block: it has functions, and all parse. -/
def qwenCalls (conv : Conversion V) (tools : Option (List ToolSchema))
    (content : Text) : Option (List FunctionCall) :=
  if functionTexts content = [] then none
  else ((functionTexts content).mapM
    (parseXmlFunctionCall conv tools)).toOption

/-- Both parsers return exactly the calls of the well-formed blocks. -/
structure NeverHides (json : Json J) (conv : Conversion V)
    (tools : Option (List ToolSchema)) (text : Text) : Prop where
  hermes : (hermesExtractToolCalls json text).2 =
    wellFormedCalls (hermesCalls json) (hermesBlocks text)
  qwen : (qwenExtractToolCalls conv tools text).2 =
    wellFormedCalls (qwenCalls conv tools) (qwenBlocks text)

/-- A block that is no call has none behind a start tag within it. -/
def HermesAgrees (json : Json J) (text : Text) : Prop :=
  ∀ block ∈ hermesBlocks text, decodeCall json block = none →
    ∀ inner ∈ nested startToken block, decodeCall json inner = none

/-- All functions of all blocks parse, or no block is well-formed. -/
def QwenAgrees (conv : Conversion V) (tools : Option (List ToolSchema))
    (text : Text) : Prop :=
  (∀ block ∈ qwenBlocks text, ∀ functionCall ∈ functionTexts block,
    (parseXmlFunctionCall conv tools functionCall).isOk = true) ∨
  ∀ block ∈ qwenBlocks text, ∀ inner ∈ nested startToken block,
    qwenCalls conv tools inner = none

theorem startToken_ne_nil : startToken ≠ [] := by decide

theorem endToken_ne_nil : endToken ≠ [] := by decide

/-- Where one search finds nothing the other does not find, they find the
same if the first misses nothing. -/
theorem filterMap_eq_filterMap_iff {α β : Type} {f g : α → Option β}
    {xs : List α} (h : ∀ x y, f x = some y → g x = some y) :
    xs.filterMap f = xs.filterMap g ↔
      ∀ x ∈ xs, f x = none → g x = none := by
  have hlength : ∀ xs : List α,
      (xs.filterMap f).length ≤ (xs.filterMap g).length := by
    intro xs
    induction xs with
    | nil => exact Nat.le_refl _
    | cons x xs ih =>
        cases hf : f x with
        | none =>
            rw [List.filterMap_cons_none hf]
            cases hg : g x with
            | none => rwa [List.filterMap_cons_none hg]
            | some y =>
                rw [List.filterMap_cons_some hg, List.length_cons]
                exact Nat.le_succ_of_le ih
        | some y =>
            rw [List.filterMap_cons_some hf, List.filterMap_cons_some (h x y hf)]
            exact Nat.succ_le_succ ih
  induction xs with
  | nil => simp
  | cons x xs ih =>
      rw [List.forall_mem_cons]
      cases hf : f x with
      | some y =>
          rw [List.filterMap_cons_some hf, List.filterMap_cons_some (h x y hf),
            List.cons.injEq]
          constructor
          · rintro ⟨-, heq⟩
            exact ⟨nofun, ih.mp heq⟩
          · rintro ⟨-, hrest⟩
            exact ⟨rfl, ih.mpr hrest⟩
      | none =>
          rw [List.filterMap_cons_none hf]
          cases hg : g x with
          | none =>
              rw [List.filterMap_cons_none hg]
              constructor
              · exact fun heq => ⟨fun _ => rfl, ih.mp heq⟩
              · exact fun h => ih.mpr h.2
          | some y =>
              refine iff_of_false (fun heq => ?_) (by simp)
              have hle := hlength xs
              rw [heq, List.filterMap_cons_some hg, List.length_cons] at hle
              exact absurd hle (Nat.not_succ_le_self _)

theorem hermesExtractToolCalls_snd :
    (hermesExtractToolCalls json text).2 =
      (hermesBlocks text).filterMap (decodeCall json) := by
  rw [hermesExtractToolCalls]
  split
  case isTrue hmissing =>
    have hnone : hermesBlocks text = [] := by
      rcases hmissing with hstart | hend
      · exact findAll_eq_nil hstart
      · exact findAll_eq_nil_of_stop (fun _ => rfl) endToken_ne_nil hend
    rw [hnone]
    rfl
  case isFalse => rfl

theorem wellFormedCalls_hermes (blocks : List Text) :
    wellFormedCalls (hermesCalls json) blocks =
      blocks.filterMap fun block =>
        (nested startToken block).findSome? (decodeCall json) := by
  rw [wellFormedCalls, List.filterMap_eq_flatMap_toList]
  congr 1
  funext block
  have hmap : ∀ contents : List Text, contents.findSome? (hermesCalls json) =
      (contents.findSome? (decodeCall json)).map fun call => [call] := by
    intro contents
    induction contents with
    | nil => rfl
    | cons content rest ih =>
        rw [List.findSome?_cons, List.findSome?_cons, hermesCalls]
        cases decodeCall json content with
        | none => exact ih
        | some call => rfl
  rw [hmap]
  cases (nested startToken block).findSome? (decodeCall json) <;> rfl

theorem hermes_iff :
    (hermesExtractToolCalls json text).2 =
        wellFormedCalls (hermesCalls json) (hermesBlocks text) ↔
      HermesAgrees json text := by
  rw [hermesExtractToolCalls_snd, wellFormedCalls_hermes,
    filterMap_eq_filterMap_iff]
  · simp only [HermesAgrees, List.findSome?_eq_none_iff]
  · intro block call hcall
    rw [nested, List.findSome?_cons, hcall]

theorem functionTexts_inner {block inner : Text}
    (hblock : functionTexts block = [])
    (hinner : inner ∈ nested startToken block) : functionTexts inner = [] := by
  have hnone : ¬ "<function=".toList <:+: block :=
    infix_of_findAll_eq_nil (fun _ => rfl) hblock (by decide)
  apply findAll_eq_nil
  intro hoccurs
  exact hnone (hoccurs.trans (suffix_of_mem_nested hinner).isInfix)

theorem qwenCalls_ne_nil {content : Text} {calls : List FunctionCall}
    (h : qwenCalls conv tools content = some calls) : calls ≠ [] := by
  rw [qwenCalls] at h
  split at h
  case isTrue => cases h
  case isFalse hfunctions =>
    cases hparse : (functionTexts content).mapM
        (parseXmlFunctionCall conv tools) with
    | error e =>
        rw [hparse] at h
        cases h
    | ok found =>
        rw [hparse] at h
        cases h
        have hlength := (mapM_eq_ok_iff.mp hparse).length_eq
        rintro rfl
        exact hfunctions (List.length_eq_zero_iff.mp hlength)

/-- The calls of blocks come to nothing exactly if none is well-formed. -/
theorem wellFormedCalls_eq_nil_iff {blocks : List Text} :
    wellFormedCalls (qwenCalls conv tools) blocks = [] ↔
      ∀ block ∈ blocks, ∀ inner ∈ nested startToken block,
        qwenCalls conv tools inner = none := by
  rw [wellFormedCalls, List.flatMap_eq_nil_iff]
  apply forall₂_congr
  intro block _
  rw [← List.findSome?_eq_none_iff]
  cases hfound : (nested startToken block).findSome?
      (qwenCalls conv tools) with
  | none => simp
  | some calls =>
      obtain ⟨inner, -, hcalls⟩ := List.exists_of_findSome?_eq_some hfound
      simpa using qwenCalls_ne_nil hcalls

/-- The call a function parses to, where it does. -/
def parsedCall (conv : Conversion V) (tools : Option (List ToolSchema))
    (functionCall : Text) : FunctionCall :=
  ((parseXmlFunctionCall conv tools functionCall).toOption).getD ⟨[], []⟩

theorem parse_eq_ok {functionCall : Text}
    (h : (parseXmlFunctionCall conv tools functionCall).isOk = true) :
    parseXmlFunctionCall conv tools functionCall =
      .ok (parsedCall conv tools functionCall) := by
  obtain ⟨call, hcall⟩ := exists_of_isOk h
  rw [parsedCall, hcall]
  rfl

/-- If all functions parse the calls of a block are what they parse to. -/
theorem wellFormedCalls_of_parse {blocks : List Text}
    (h : ∀ block ∈ blocks, ∀ functionCall ∈ functionTexts block,
      (parseXmlFunctionCall conv tools functionCall).isOk = true) :
    wellFormedCalls (qwenCalls conv tools) blocks =
      (blocks.flatMap functionTexts).map (parsedCall conv tools) := by
  rw [wellFormedCalls, List.map_flatMap]
  apply List.flatMap_congr
  intro block hblock
  by_cases hempty : functionTexts block = []
  · have hnone : (nested startToken block).findSome?
        (qwenCalls conv tools) = none := by
      apply List.findSome?_eq_none_iff.mpr
      intro inner hinner
      exact if_pos (functionTexts_inner hempty hinner)
    rw [hnone, hempty]
    rfl
  · have hparse : (functionTexts block).mapM
        (parseXmlFunctionCall conv tools) =
          .ok ((functionTexts block).map (parsedCall conv tools)) :=
      mapM_eq_ok_of_forall fun functionCall hmem =>
        parse_eq_ok (h block hblock functionCall hmem)
    rw [nested, List.findSome?_cons, qwenCalls, if_neg hempty, hparse]
    rfl

/-- What the parser returns: all calls, or none if one function fails. -/
theorem qwenExtractToolCalls_snd :
    (qwenExtractToolCalls conv tools text).2 =
      match ((qwenBlocks text).flatMap functionTexts).mapM
        (parseXmlFunctionCall conv tools) with
      | .ok calls => calls
      | .error _ => [] := by
  rw [qwenExtractToolCalls]
  cases hsplit : splitFirst startToken text with
  | none =>
      have hnone : qwenBlocks text = [] := findAll_eq_nil
        ((splitFirst_eq_none_iff startToken_ne_nil).mp hsplit)
      rw [hnone]
      rfl
  | some parts =>
      have hblocks : qwenBlocks text ≠ [] := by
        intro hnil
        have hmissing := infix_of_findAll_eq_nil (fun _ => rfl) hnil
          startToken_ne_nil
        rw [(splitFirst_eq_none_iff startToken_ne_nil).mpr hmissing] at hsplit
        cases hsplit
      simp only [getFunctionCalls, if_neg hblocks]
      by_cases hnone : (qwenBlocks text).flatMap functionTexts = []
      · rw [if_pos hnone, hnone]
        rfl
      · rw [if_neg hnone]
        cases ((qwenBlocks text).flatMap functionTexts).mapM
          (parseXmlFunctionCall conv tools) <;> rfl

theorem qwen_iff :
    (qwenExtractToolCalls conv tools text).2 =
        wellFormedCalls (qwenCalls conv tools) (qwenBlocks text) ↔
      QwenAgrees conv tools text := by
  rw [qwenExtractToolCalls_snd, QwenAgrees]
  by_cases hall : ∀ block ∈ qwenBlocks text,
      ∀ functionCall ∈ functionTexts block,
        (parseXmlFunctionCall conv tools functionCall).isOk = true
  · have hparse : ((qwenBlocks text).flatMap functionTexts).mapM
        (parseXmlFunctionCall conv tools) =
          .ok (((qwenBlocks text).flatMap functionTexts).map
            (parsedCall conv tools)) := by
      apply mapM_eq_ok_of_forall
      intro functionCall hmem
      obtain ⟨block, hblock, hfunction⟩ := List.mem_flatMap.mp hmem
      exact parse_eq_ok (hall block hblock functionCall hfunction)
    rw [hparse, wellFormedCalls_of_parse hall]
    exact iff_of_true rfl (.inl hall)
  · rw [or_iff_right hall, ← wellFormedCalls_eq_nil_iff]
    cases hparse : ((qwenBlocks text).flatMap functionTexts).mapM
        (parseXmlFunctionCall conv tools) with
    | error e => exact eq_comm
    | ok calls =>
        apply absurd _ hall
        intro block hblock functionCall hfunction
        have hmem := List.mem_flatMap.mpr ⟨block, hblock, hfunction⟩
        obtain ⟨call, -, hcall⟩ :=
          exists_of_forall₂_right (mapM_eq_ok_iff.mp hparse).flip hmem
        rw [hcall]
        rfl

end Blocks

section Rendered

variable {J V : Type} {json : Json J} {conv : Conversion V}
  {tools : Option (List ToolSchema)} {blocks : List (Text × Text)}
  {tail : Text}

/-- Text between blocks that all have their end tag and no tag within. -/
structure Tagged (blocks : List (Text × Text)) (tail : Text) : Prop where
  plain : ∀ block ∈ blocks, ¬ startToken <:+: block.1
  content : ∀ block ∈ blocks, ¬ endToken <:+: block.2
  inner : ∀ block ∈ blocks, ¬ startToken <:+: block.2
  tail : ¬ startToken <:+: tail

theorem freeOf_tags (h : Tagged blocks tail) :
    ∀ block ∈ blocks, FreeOf startToken block.1 ∧ FreeOf endToken block.2 := by
  intro block hblock
  constructor
  · exact freeOf_of_not_infix (m := '<') (by decide) (h.plain block hblock)
  · exact freeOf_of_not_infix (m := '<') (by decide) (h.content block hblock)

theorem hermesBlocks_render (h : Tagged blocks tail) :
    hermesBlocks (render startToken endToken blocks tail) =
      blocks.map Prod.snd :=
  findAll_render startToken_ne_nil endToken_ne_nil (freeOf_tags h) h.tail

theorem qwenBlocks_render (h : Tagged blocks tail) :
    qwenBlocks (render startToken endToken blocks tail) =
      blocks.map Prod.snd :=
  findAll_render startToken_ne_nil endToken_ne_nil (freeOf_tags h) h.tail

/-- Of blocks that all have their end tag Hermes returns the well-formed
ones. -/
theorem hermesAgrees_render (h : Tagged blocks tail) :
    HermesAgrees json (render startToken endToken blocks tail) := by
  intro content hcontent hnone inner hinner
  rw [hermesBlocks_render h] at hcontent
  obtain ⟨block, hblock, rfl⟩ := List.mem_map.mp hcontent
  rw [nested_eq_singleton (h.inner block hblock),
    List.mem_singleton] at hinner
  rw [hinner, hnone]

/-- Of blocks that all have their end tag Qwen3 returns the well-formed ones
if all functions parse, or if there are none. -/
theorem qwenAgrees_render (h : Tagged blocks tail) :
    QwenAgrees conv tools (render startToken endToken blocks tail) ↔
      (∀ block ∈ blocks, ∀ functionCall ∈ functionTexts block.2,
        (parseXmlFunctionCall conv tools functionCall).isOk = true) ∨
      ∀ block ∈ blocks, qwenCalls conv tools block.2 = none := by
  have hnested : ∀ block ∈ blocks, nested startToken block.2 = [block.2] :=
    fun block hblock => nested_eq_singleton (h.inner block hblock)
  rw [QwenAgrees, qwenBlocks_render h]
  simp only [List.forall_mem_map]
  apply or_congr_right
  apply forall₂_congr
  intro block hblock
  rw [hnested block hblock, List.forall_mem_singleton]

end Rendered

section Outputs

/-- A JSON object with the name `f` and no arguments. -/
def callText : Text :=
  "\x7b\"name\": \"f\", \"arguments\": \x7b\x7d\x7d".toList

/-- The values of the object above and of nothing else, as their texts. -/
def oneCall : Json Text where
  loads content := if content = callText then some content else none
  get _ key :=
    if key = "name".toList then some "f".toList
    else if key = "arguments".toList then some "\x7b\x7d".toList
    else none
  asStr value := some value
  dumps value := value

/-- Functions without parameters. -/
def noParameters : Conversion Unit where
  null := ()
  ofText _ := ()
  ofBool _ := ()
  int _ := none
  number _ := none
  jsonLoads _ := none
  eval _ := none
  lower s := s
  dumps _ := some "\x7b\x7d".toList

end Outputs

end ToolParser

end SelfDistillation
