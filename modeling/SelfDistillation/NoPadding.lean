/-
The padding conversions of the engine workers: `left_right_2_no_padding` and
`no_padding_2_padding` (verl/workers/utils/padding.py), the critic's
`_slice_response_from_unpad_output` (verl/workers/utils/losses.py), and the
unpad, `pad_input` and slice route of verl/workers/actor/dp_actor.py.
-/
import SelfDistillation.DataProto
import SelfDistillation.EngineForward
import SelfDistillation.Library.Ragged

namespace SelfDistillation

namespace NoPadding

open Packing Ragged

variable {F ε : Type} {b P R v : Nat}

/-- A PPO batch: prompts padded on the left to `P` slots and responses padded
on the right to `R` slots.  `prompts` and `responses` are stored padded or as
nested tensors. -/
structure LeftRightBatch (b P R v : Nat) (ε : Type) where
  promptIds : Fin b → List (Fin v)
  responseIds : Fin b → List (Fin v)
  positionIds : Fin b → List (Nat × ε)
  responseMask : Fin b → List Nat
  promptLen : Fin b → Nat
  responseLen : Fin b → Nat
  isNested : Bool
  nonempty : 0 < b
  length_promptIds : ∀ i, (promptIds i).length = P
  length_responseIds : ∀ i, (responseIds i).length = R
  length_positionIds : ∀ i, (positionIds i).length = P + R
  length_responseMask : ∀ i, (responseMask i).length = R
  promptLen_pos : ∀ i, 0 < promptLen i
  promptLen_le : ∀ i, promptLen i ≤ P
  responseLen_le : ∀ i, responseLen i ≤ R

/-- What the padding functions read and write of the TensorDict. -/
structure NoPaddingData (v : Nat) (ε : Type) where
  inputIds : List (List (Fin v))
  positionIds : List (List (Nat × ε))
  lossMask : List (List Nat)
  prompts : Column (List (Fin v))
  responses : Column (List (Fin v))
  attentionMask : Column (List Bool)
  maxSeqLen : Option Int
  maxResponseLen : Option Int
  indices : List Nat

/-- The output of the model for every unpadded token. -/
inductive ModelOutput (F : Type)
  | nested (rows : List (List F))
  | flat (values : List F)

/-- `tensor.values() if tensor.is_nested else tensor` -/
def ModelOutput.values : ModelOutput F → List F
  | nested rows => rows.flatten
  | flat values => values

namespace LeftRightBatch

variable (batch : LeftRightBatch b P R v ε)

def promptMask (i : Fin b) : List Bool :=
  List.replicate (P - batch.promptLen i) false ++
    List.replicate (batch.promptLen i) true

def responseAttention (i : Fin b) : List Bool :=
  List.replicate (batch.responseLen i) true ++
    List.replicate (R - batch.responseLen i) false

def attentionMask (i : Fin b) : List Bool :=
  batch.promptMask i ++ batch.responseAttention i

def inputIds (i : Fin b) : List (Fin v) :=
  batch.promptIds i ++ batch.responseIds i

/-- A column of token ids, of which the padded form has `width` slots. -/
def tokenColumn (width : Nat) (mask : Fin b → List Bool)
    (ids : Fin b → List (Fin v)) : Column (List (Fin v)) :=
  if batch.isNested then
    ⟨none, (List.finRange b).map fun i => pack (mask i) (ids i)⟩
  else ⟨some width, (List.finRange b).map ids⟩

def prompts : Column (List (Fin v)) :=
  batch.tokenColumn P batch.promptMask batch.promptIds

def responses : Column (List (Fin v)) :=
  batch.tokenColumn R batch.responseAttention batch.responseIds

end LeftRightBatch

/-- `left_right_2_no_padding` -/
def leftRight2NoPadding (data : LeftRightBatch b P R v ε) :
    NoPaddingData v ε :=
  let indices := nonzero (flattenRows data.attentionMask)
  let inputIdsRmpad := gather (flattenRows data.inputIds) indices
  let lengths := (List.finRange b).map fun i =>
    (data.attentionMask i).count true
  { inputIds := (diff (offsets lengths)).splitLengths inputIdsRmpad
    positionIds := (List.finRange b).map fun i =>
      pack (data.attentionMask i) (data.positionIds i)
    lossMask := (List.finRange b).map data.responseMask
    prompts := data.prompts
    responses := data.responses
    attentionMask := ⟨some (P + R), (List.finRange b).map data.attentionMask⟩
    maxSeqLen := some ((P + R : Nat) : Int)
    maxResponseLen := some (R : Int)
    indices }

/-- `tensor.offsets()` of a nested tensor -/
def nestedOffsets {α : Type} (column : Column (List α)) : List Nat :=
  offsets (column.rows.map List.length)

/-- `tensor.shape[1]` of a padded tensor -/
def denseWidth {τ : Type} (column : Column τ) : Py Nat :=
  match column.lastDim with
  | some width => .ok width
  | none => .error .attributeError

/-- `tensor.max().item()` -/
def maxItem (tensor : List Nat) : Py Nat :=
  match tensor.max? with
  | some largest => .ok largest
  | none => .error (.runtimeError ("max(): Expected reduction dim to be " ++
      "specified for input.numel() == 0."))

/-- `F.pad(row, (0, pad_size))`: a negative size takes entries away. -/
def padRight [Zero F] (row : List F) (padSize : Int) : Py (List F) :=
  if (row.length : Int) + padSize < 0 then
    .error (.runtimeError "narrow(): length must be non-negative.")
  else .ok (row.take (row.length + padSize).toNat ++
    List.replicate padSize.toNat 0)

/-- `torch.stack(rows, dim=0)` -/
def stackRows (rows : List (List F)) : Py (List (List F)) :=
  match rows with
  | [] => .error (.runtimeError "stack expects a non-empty TensorList")
  | first :: rest =>
      if ∀ row ∈ rest, row.length = first.length then .ok rows
      else .error (.runtimeError
        "stack expects each tensor to be equal size")

/-- A row of `response_list`: the slice ends one token early, since the output
of a token is about the token after it. -/
def responseRow [Zero F] (values : List F) (maxResponseLen : Int)
    (respLen seqOffset : Nat) : Py (List F) :=
  let padSize := maxResponseLen - respLen
  let start := sliceIndex values.length ((seqOffset : Int) - respLen - 1)
  let stop := sliceIndex values.length ((seqOffset : Int) - 1)
  padRight ((values.take stop).drop start) padSize

/-- The common end of the two slicing functions -/
def stackResponses [Zero F] (values : List F)
    (promptLens responseLens : List Nat) (maxResponseLen : Int) :
    Py (List (List F)) := do
  let sequenceLens := List.zipWith (· + ·) promptLens responseLens
  let sequenceOffsets := cumsum sequenceLens
  match sequenceOffsets.getLast? with
  | none => .error .indexError
  | some last => do
      pyAssert (last = values.length) ""
      let responseList ← (responseLens.zip sequenceOffsets).mapM
        fun entry => responseRow values maxResponseLen entry.1 entry.2
      stackRows responseList

/-- `prompt_lens` and `response_lens` of a dense batch -/
def denseLens (data : NoPaddingData v ε) (promptWidth : Nat) :
    List Nat × List Nat :=
  (data.attentionMask.rows.map fun mask =>
      (mask.take promptWidth).count true,
    data.attentionMask.rows.map fun mask =>
      (mask.drop promptWidth).count true)

/-- The branch of the two slicing functions for padded prompts -/
def stackDense [Zero F] (values : List F) (data : NoPaddingData v ε) :
    Py (List (List F)) := do
  pyAssert (!data.attentionMask.isNested) ""
  let promptWidth ← denseWidth data.prompts
  let (promptLens, responseLens) := denseLens data promptWidth
  let maxResponseLen ← denseWidth data.responses
  stackResponses values promptLens responseLens maxResponseLen

/-- `if max_response_len < 0` -/
def storedOrLongest (maxResponseLen : Int) (responseLens : List Nat) :
    Py Int :=
  if maxResponseLen < 0 then
    (fun longest : Nat => (longest : Int)) <$> maxItem responseLens
  else .ok maxResponseLen

/-- `no_padding_2_padding` -/
def noPadding2Padding [Zero F] (tensor : ModelOutput F)
    (data : NoPaddingData v ε) : Py (List (List F)) := do
  let values := tensor.values
  let maxResponseLen : Int := data.maxResponseLen.getD (-1)
  if data.prompts.isNested then do
    let promptLens := diff (nestedOffsets data.prompts)
    let responseLens := diff (nestedOffsets data.responses)
    let maxResponseLen ← storedOrLongest maxResponseLen responseLens
    stackResponses values promptLens responseLens maxResponseLen
  else stackDense values data

/-- `_slice_response_from_unpad_output` -/
def sliceResponseFromUnpadOutput [Zero F] (tensor : ModelOutput F)
    (data : NoPaddingData v ε) : Py (List (List F)) := do
  let values := tensor.values
  if data.prompts.isNested then do
    let promptLens := diff (nestedOffsets data.prompts)
    let responseLens := diff (nestedOffsets data.responses)
    -- the largest offset, not the largest length
    let maxResponseLen ← maxItem (nestedOffsets data.responses)
    stackResponses values promptLens responseLens maxResponseLen
  else stackDense values data

section Lengths

variable (batch : LeftRightBatch b P R v ε) (i : Fin b)

@[simp] theorem length_promptMask : (batch.promptMask i).length = P := by
  have hle := batch.promptLen_le i
  rw [LeftRightBatch.promptMask, List.length_append, List.length_replicate,
    List.length_replicate, Nat.sub_add_cancel hle]

@[simp] theorem length_responseAttention :
    (batch.responseAttention i).length = R := by
  have hle := batch.responseLen_le i
  rw [LeftRightBatch.responseAttention, List.length_append,
    List.length_replicate, List.length_replicate, Nat.add_sub_cancel' hle]

@[simp] theorem length_attentionMask :
    (batch.attentionMask i).length = P + R := by
  rw [LeftRightBatch.attentionMask, List.length_append, length_promptMask,
    length_responseAttention]

@[simp] theorem count_promptMask :
    (batch.promptMask i).count true = batch.promptLen i := by
  simp [LeftRightBatch.promptMask, List.count_replicate]

@[simp] theorem count_responseAttention :
    (batch.responseAttention i).count true = batch.responseLen i := by
  simp [LeftRightBatch.responseAttention, List.count_replicate]

theorem count_attentionMask :
    (batch.attentionMask i).count true =
      batch.promptLen i + batch.responseLen i := by
  rw [LeftRightBatch.attentionMask, List.count_append, count_promptMask,
    count_responseAttention]

theorem take_attentionMask :
    (batch.attentionMask i).take P = batch.promptMask i :=
  List.take_left' (length_promptMask batch i)

theorem drop_attentionMask :
    (batch.attentionMask i).drop P = batch.responseAttention i :=
  List.drop_left' (length_promptMask batch i)

/-- The lengths of the real prompts and responses. -/
def realLens (len : Fin b → Nat) : List Nat := (List.finRange b).map len

theorem denseLens_leftRight :
    denseLens (leftRight2NoPadding batch) P =
      (realLens batch.promptLen, realLens batch.responseLen) := by
  simp only [denseLens, leftRight2NoPadding, realLens, List.map_map,
    Function.comp_def, take_attentionMask, drop_attentionMask,
    count_promptMask, count_responseAttention]

/-- A nested column has the offsets of its real tokens. -/
theorem nestedOffsets_tokenColumn {width : Nat} {mask : Fin b → List Bool}
    {ids : Fin b → List (Fin v)} (hnested : batch.isNested = true)
    (hlen : ∀ i, (ids i).length = (mask i).length) :
    nestedOffsets (batch.tokenColumn width mask ids) =
      offsets (realLens fun i => (mask i).count true) := by
  rw [nestedOffsets, LeftRightBatch.tokenColumn, if_pos hnested, realLens,
    List.map_map]
  congr 1
  apply List.map_congr_left
  intro i _
  exact length_pack (hlen i)

theorem nestedOffsets_prompts (hnested : batch.isNested = true) :
    nestedOffsets (leftRight2NoPadding batch).prompts =
      offsets (realLens batch.promptLen) := by
  have hlen : ∀ i, (batch.promptIds i).length =
      (batch.promptMask i).length := by
    intro i
    rw [batch.length_promptIds, length_promptMask]
  refine (nestedOffsets_tokenColumn batch hnested hlen).trans ?_
  simp only [count_promptMask]

theorem nestedOffsets_responses (hnested : batch.isNested = true) :
    nestedOffsets (leftRight2NoPadding batch).responses =
      offsets (realLens batch.responseLen) := by
  have hlen : ∀ i, (batch.responseIds i).length =
      (batch.responseAttention i).length := by
    intro i
    rw [batch.length_responseIds, length_responseAttention]
  refine (nestedOffsets_tokenColumn batch hnested hlen).trans ?_
  simp only [count_responseAttention]

theorem isNested_prompts :
    (leftRight2NoPadding batch).prompts.isNested = batch.isNested := by
  change (batch.tokenColumn P batch.promptMask batch.promptIds).isNested = _
  rw [LeftRightBatch.tokenColumn]
  cases batch.isNested <;> rfl

theorem denseWidth_tokenColumn {width : Nat} {mask : Fin b → List Bool}
    {ids : Fin b → List (Fin v)} (hdense : batch.isNested = false) :
    denseWidth (batch.tokenColumn width mask ids) = .ok width := by
  rw [LeftRightBatch.tokenColumn, hdense]
  rfl

end Lengths

section Stack

variable [Zero F] (batch : LeftRightBatch b P R v ε) (outputs : Fin b → List F)

/-- The outputs of the tokens before the response tokens of row `i`, and
zeros up to `width`. -/
def shiftedRow (width : Nat) (i : Fin b) : List F :=
  ((outputs i).take (batch.promptLen i + batch.responseLen i - 1)).drop
      (batch.promptLen i - 1) ++
    List.replicate (width - batch.responseLen i) 0

/-- One output for every unpadded token. -/
def PerToken : Prop :=
  ∀ i, (outputs i).length = batch.promptLen i + batch.responseLen i

variable {batch outputs}

theorem length_shiftedRow (houtputs : PerToken batch outputs) {width : Nat}
    {i : Fin b} (hwidth : batch.responseLen i ≤ width) :
    (shiftedRow batch outputs width i).length = width := by
  have hpos := batch.promptLen_pos i
  rw [shiftedRow, List.length_append, List.length_drop, List.length_take,
    houtputs i, List.length_replicate]
  omega

theorem getElem?_shiftedRow_of_lt (houtputs : PerToken batch outputs)
    (width : Nat) {i : Fin b} {t : Nat} (ht : t < batch.responseLen i) :
    (shiftedRow batch outputs width i)[t]? =
      (outputs i)[batch.promptLen i - 1 + t]? := by
  have hpos := batch.promptLen_pos i
  have hlen := houtputs i
  rw [shiftedRow, List.getElem?_append_left, List.getElem?_drop,
    List.getElem?_take_of_lt (by omega)]
  rw [List.length_drop, List.length_take]
  omega

theorem getElem?_shiftedRow_of_le (houtputs : PerToken batch outputs)
    {width : Nat} {i : Fin b} {t : Nat} (ht : batch.responseLen i ≤ t)
    (hwidth : t < width) :
    (shiftedRow batch outputs width i)[t]? = some 0 := by
  have hpos := batch.promptLen_pos i
  have hlen := houtputs i
  have hfront : (((outputs i).take
      (batch.promptLen i + batch.responseLen i - 1)).drop
        (batch.promptLen i - 1)).length = batch.responseLen i := by
    rw [List.length_drop, List.length_take]
    omega
  rw [shiftedRow, List.getElem?_append_right (by omega), hfront,
    List.getElem?_replicate, if_pos (by omega)]

theorem sliceIndex_natCast {n k : Nat} (hk : k ≤ n) :
    sliceIndex n (k : Int) = k := by
  rw [sliceIndex, if_neg (by omega), Int.toNat_natCast, Nat.min_eq_left hk]

theorem padRight_natCast (row : List F) {width : Nat}
    (hwidth : row.length ≤ width) :
    padRight row ((width : Int) - row.length) =
      .ok (row ++ List.replicate (width - row.length) 0) := by
  rw [padRight, if_neg (by omega)]
  have hall : ((row.length : Int) + ((width : Int) - row.length)).toNat =
      width := by omega
  have hzeros : ((width : Int) - row.length).toNat = width - row.length := by
    omega
  rw [hall, hzeros, List.take_of_length_le hwidth]

omit [Zero F] in
theorem stackRows_eq_ok {rows : List (List F)} {width : Nat}
    (hne : rows ≠ []) (hrows : ∀ row ∈ rows, row.length = width) :
    stackRows rows = .ok rows := by
  obtain ⟨first, rest, rfl⟩ := List.exists_cons_of_ne_nil hne
  rw [List.forall_mem_cons] at hrows
  rw [stackRows, if_pos]
  intro row hrow
  rw [hrows.1, hrows.2 row hrow]

/-- Where row `i` starts among all unpadded tokens. -/
def rowStart (batch : LeftRightBatch b P R v ε) (i : Fin b) : Nat :=
  ((realLens fun j =>
    batch.promptLen j + batch.responseLen j).take i).sum

omit [Zero F] in
/-- A slice inside a row of the outputs -/
theorem drop_take_flattenRows (houtputs : PerToken batch outputs) (i : Fin b)
    (start : Nat) {stop : Nat}
    (hstop : stop ≤ batch.promptLen i + batch.responseLen i) :
    rowStart batch i + stop ≤ (flattenRows outputs).length ∧
      ((flattenRows outputs).take (rowStart batch i + stop)).drop
        (rowStart batch i + start) = ((outputs i).take stop).drop start := by
  have hrow : ((List.finRange b).map outputs)[(i : Nat)]? =
      some (outputs i) := by simp
  have hlens : ((List.finRange b).map outputs).map List.length =
      realLens fun j => batch.promptLen j + batch.responseLen j := by
    rw [List.map_map, realLens]
    exact List.map_congr_left fun j _ => houtputs j
  have hflat : flattenRows outputs =
      ((List.finRange b).map outputs).flatten := by
    rw [flattenRows, List.flatMap_def]
  have hstart : rowStart batch i =
      ((((List.finRange b).map outputs).take i).map List.length).sum := by
    rw [rowStart, ← hlens, List.map_take]
  rw [← houtputs i] at hstop
  rw [hstart, hflat]
  exact ⟨start_add_le hrow hstop, drop_take_flatten hrow start hstop⟩

theorem getElem?_cumsum_rowStart (batch : LeftRightBatch b P R v ε)
    (i : Fin b) :
    (cumsum (realLens fun j => batch.promptLen j + batch.responseLen j))[
        (i : Nat)]? =
      some (rowStart batch i + (batch.promptLen i + batch.responseLen i)) := by
  have hlens : (realLens fun j =>
      batch.promptLen j + batch.responseLen j)[(i : Nat)]? =
        some (batch.promptLen i + batch.responseLen i) := by
    simp [realLens]
  rw [getElem?_cumsum _ (by simp [realLens]), sum_take_succ hlens, rowStart]

theorem responseRow_eq (houtputs : PerToken batch outputs) (i : Fin b)
    {width : Nat} (hwidth : batch.responseLen i ≤ width) :
    responseRow (flattenRows outputs) width (batch.responseLen i)
        (rowStart batch i + (batch.promptLen i + batch.responseLen i)) =
      .ok (shiftedRow batch outputs width i) := by
  have hpos := batch.promptLen_pos i
  obtain ⟨hstop, hslice⟩ := drop_take_flattenRows houtputs i
    (batch.promptLen i - 1)
    (Nat.sub_le (batch.promptLen i + batch.responseLen i) 1)
  have hstartEq : ((rowStart batch i +
      (batch.promptLen i + batch.responseLen i) : Nat) : Int) -
        batch.responseLen i - 1 =
      ((rowStart batch i + (batch.promptLen i - 1) : Nat) : Int) := by
    omega
  have hstopEq : ((rowStart batch i +
      (batch.promptLen i + batch.responseLen i) : Nat) : Int) - 1 =
      ((rowStart batch i +
        (batch.promptLen i + batch.responseLen i - 1) : Nat) : Int) := by
    omega
  have hlen : (((outputs i).take
      (batch.promptLen i + batch.responseLen i - 1)).drop
        (batch.promptLen i - 1)).length = batch.responseLen i := by
    rw [List.length_drop, List.length_take, houtputs i]
    omega
  rw [responseRow, hstartEq, hstopEq]
  rw [sliceIndex_natCast hstop, sliceIndex_natCast (by omega), hslice]
  have hpad := padRight_natCast _ (hlen.trans_le hwidth)
  rw [hlen] at hpad
  exact hpad

/-- What both slicing functions return for a width that no response
exceeds. -/
theorem stackResponses_eq (houtputs : PerToken batch outputs) {width : Nat}
    (hwidth : ∀ i, batch.responseLen i ≤ width) :
    stackResponses (flattenRows outputs) (realLens batch.promptLen)
        (realLens batch.responseLen) width =
      .ok ((List.finRange b).map (shiftedRow batch outputs width)) := by
  have hlens : List.zipWith (· + ·) (realLens batch.promptLen)
      (realLens batch.responseLen) =
        realLens fun j => batch.promptLen j + batch.responseLen j := by
    simp only [realLens, List.zipWith_map, List.zipWith_self]
  have hne : (realLens fun j =>
      batch.promptLen j + batch.responseLen j) ≠ [] := by
    rw [realLens, ne_eq, List.map_eq_nil_iff, List.finRange_eq_nil_iff]
    exact batch.nonempty.ne'
  have htotal : (realLens fun j =>
      batch.promptLen j + batch.responseLen j).sum =
        (flattenRows outputs).length := by
    rw [flattenRows, List.length_flatMap, realLens]
    exact congrArg List.sum
      (List.map_congr_left fun j _ => (houtputs j).symm)
  have hrows : ((realLens batch.responseLen).zip (cumsum (realLens fun j =>
      batch.promptLen j + batch.responseLen j))).mapM
        (fun entry => responseRow (flattenRows outputs) width entry.1 entry.2) =
      .ok ((List.finRange b).map (shiftedRow batch outputs width)) := by
    rw [mapM_eq_ok_iff, List.forall₂_iff_get]
    constructor
    · simp [realLens]
    · intro j hj hj'
      have hjb : j < b := by simpa using hj'
      have hcumsum := getElem?_cumsum_rowStart batch ⟨j, hjb⟩
      have hend := (List.getElem?_eq_some_iff.mp hcumsum).2
      simp only [List.get_eq_getElem, List.getElem_zip, hend]
      simpa [realLens] using responseRow_eq houtputs ⟨j, hjb⟩ (hwidth _)
  have hstack : stackRows ((List.finRange b).map
      (shiftedRow batch outputs width)) =
        .ok ((List.finRange b).map (shiftedRow batch outputs width)) := by
    have hrowWidth : ∀ row ∈ (List.finRange b).map
        (shiftedRow batch outputs width), row.length = width := by
      intro row hrow
      obtain ⟨i, -, rfl⟩ := List.mem_map.mp hrow
      exact length_shiftedRow houtputs (hwidth i)
    refine stackRows_eq_ok ?_ hrowWidth
    rw [ne_eq, List.map_eq_nil_iff, List.finRange_eq_nil_iff]
    exact batch.nonempty.ne'
  rw [stackResponses, hlens, getLast?_cumsum hne]
  simp only [htotal, hrows, ok_bind, pyAssert_true, decide_true, hstack]

theorem stackDense_eq (houtputs : PerToken batch outputs)
    (hdense : batch.isNested = false) :
    stackDense (flattenRows outputs) (leftRight2NoPadding batch) =
      .ok ((List.finRange b).map (shiftedRow batch outputs R)) := by
  have hprompts : denseWidth (leftRight2NoPadding batch).prompts = .ok P :=
    denseWidth_tokenColumn batch hdense
  have hresponses : denseWidth (leftRight2NoPadding batch).responses =
      .ok R := denseWidth_tokenColumn batch hdense
  have hmask : (!(leftRight2NoPadding batch).attentionMask.isNested) =
      true := rfl
  rw [stackDense, hmask, pyAssert_true, ok_bind, hprompts, ok_bind,
    denseLens_leftRight]
  simp only [hresponses, ok_bind]
  exact stackResponses_eq houtputs batch.responseLen_le

/-- The round trip gives rows of the padded width. -/
theorem noPadding2Padding_eq (houtputs : PerToken batch outputs)
    {tensor : ModelOutput F} (htensor : tensor.values = flattenRows outputs) :
    noPadding2Padding tensor (leftRight2NoPadding batch) =
      .ok ((List.finRange b).map (shiftedRow batch outputs R)) := by
  have hstored : (leftRight2NoPadding batch).maxResponseLen.getD (-1) =
      (R : Int) := rfl
  rw [noPadding2Padding, htensor, isNested_prompts, hstored]
  cases hnested : batch.isNested with
  | true =>
      rw [if_pos rfl, nestedOffsets_prompts batch hnested,
        nestedOffsets_responses batch hnested, diff_offsets, diff_offsets]
      have hwidth : storedOrLongest (R : Int)
          (realLens batch.responseLen) = .ok (R : Int) :=
        if_neg (by omega)
      simp only [hwidth, ok_bind]
      exact stackResponses_eq houtputs batch.responseLen_le
  | false =>
      rw [if_neg Bool.false_ne_true, stackDense_eq houtputs hnested]

/-- The width of the critic's rows -/
def criticWidth (batch : LeftRightBatch b P R v ε) : Nat :=
  if batch.isNested then ∑ i, batch.responseLen i else R

theorem responseLen_le_criticWidth (batch : LeftRightBatch b P R v ε)
    (i : Fin b) : batch.responseLen i ≤ criticWidth batch := by
  rw [criticWidth]
  split
  · exact Finset.single_le_sum (fun j _ => Nat.zero_le _) (Finset.mem_univ i)
  · exact batch.responseLen_le i

/-- The critic's rows are filled up to the number of response tokens of the
batch if its responses are nested. -/
theorem sliceResponseFromUnpadOutput_eq (houtputs : PerToken batch outputs)
    {tensor : ModelOutput F} (htensor : tensor.values = flattenRows outputs) :
    sliceResponseFromUnpadOutput tensor (leftRight2NoPadding batch) =
      .ok ((List.finRange b).map
        (shiftedRow batch outputs (criticWidth batch))) := by
  rw [sliceResponseFromUnpadOutput, htensor, isNested_prompts]
  cases hnested : batch.isNested with
  | true =>
      have hwidth : maxItem (offsets (realLens batch.responseLen)) =
          .ok (criticWidth batch) := by
        rw [maxItem, max?_offsets, criticWidth, if_pos hnested, realLens,
          ← List.ofFn_eq_map, List.sum_ofFn]
      rw [if_pos rfl, nestedOffsets_prompts batch hnested,
        nestedOffsets_responses batch hnested, diff_offsets, diff_offsets,
        hwidth, ok_bind]
      exact stackResponses_eq houtputs (responseLen_le_criticWidth batch)
  | false =>
      have hwidth : criticWidth batch = R := by
        rw [criticWidth, hnested, if_neg Bool.false_ne_true]
      rw [if_neg Bool.false_ne_true, stackDense_eq houtputs hnested, hwidth]

end Stack

section Legacy

variable (batch : LeftRightBatch b P R v ε)

/-- The micro-batch the actor of dp_actor.py is given. -/
def LeftRightBatch.toMicroBatch : MicroBatch b (P + R) R v where
  inputIds := batch.inputIds
  attentionMask := batch.attentionMask
  positionIds := fun i => (batch.positionIds i).map Prod.fst
  responses := batch.responseIds
  length_inputIds := by
    intro i
    rw [LeftRightBatch.inputIds, List.length_append, batch.length_promptIds,
      batch.length_responseIds]
  length_attentionMask := length_attentionMask batch
  length_positionIds := by
    intro i
    rw [List.length_map, batch.length_positionIds]
  length_responses := batch.length_responseIds

theorem attentionMask_eq (i : Fin b) :
    batch.attentionMask i =
      List.replicate (P - batch.promptLen i) false ++
        (List.replicate (batch.promptLen i + batch.responseLen i) true ++
          List.replicate (R - batch.responseLen i) false) := by
  simp only [LeftRightBatch.attentionMask, LeftRightBatch.promptMask,
    LeftRightBatch.responseAttention, List.replicate_add, List.append_assoc]

/-- The columns that predict the real tokens of a response. -/
theorem getElem?_attentionMask {i : Fin b} {t : Nat}
    (ht : t < batch.responseLen i) :
    (batch.attentionMask i)[P - 1 + t]? = some true := by
  have hpos := batch.promptLen_pos i
  have hle := batch.promptLen_le i
  rw [attentionMask_eq, List.getElem?_append_right
      (by rw [List.length_replicate]; omega),
    List.getElem?_append_left (by simp only [List.length_replicate]; omega),
    List.getElem?_replicate, if_pos]
  rw [List.length_replicate]
  omega

/-- As many real tokens stand before such a column as in the unpadded row. -/
theorem rank_attentionMask {i : Fin b} {t : Nat}
    (ht : t < batch.responseLen i) :
    rank (batch.attentionMask i) (P - 1 + t) = batch.promptLen i - 1 + t := by
  have hpos := batch.promptLen_pos i
  have hle := batch.promptLen_le i
  simp only [rank, attentionMask_eq, List.take_append, List.take_replicate,
    List.count_append, List.count_replicate, List.length_replicate]
  simp only [beq_self_eq_true, if_true, reduceCtorEq, beq_iff_eq, if_false]
  omega

/-- What the actor's route leaves at a valid position -/
theorem getElem?_padBack_leftRight [Zero F] {outputs : Fin b → List F}
    (houtputs : PerToken batch outputs) {i : Fin b} {t : Nat}
    (ht : t < batch.responseLen i) :
    (batch.toMicroBatch.padBack 0 (flattenRows outputs) i)[t]? =
      (outputs i)[batch.promptLen i - 1 + t]? := by
  have hpos := batch.promptLen_pos i
  have hP : 0 < P := hpos.trans_le (batch.promptLen_le i)
  have hR : t < R := ht.trans_le (batch.responseLen_le i)
  have hmask := getElem?_attentionMask batch ht
  have hcount : ∀ j, (outputs j).length =
      (batch.attentionMask j).count true := by
    intro j
    rw [houtputs j, count_attentionMask]
  have hzero : batch.toMicroBatch.isMaskAllZero = false :=
    MicroBatch.isMaskAllZero_eq_false (by omega) hmask
  have hrows : ∀ j, (unpack 0 (batch.attentionMask j) (outputs j)).length =
      P + R := by
    intro j
    rw [length_unpack, length_attentionMask]
  calc (batch.toMicroBatch.padBack 0 (flattenRows outputs) i)[t]?
      = (unpack 0 (flattenRows batch.attentionMask) (flattenRows outputs))[
          i * (P + R) + (P - 1 + t)]? :=
        MicroBatch.getElem?_padBack 0 rfl hP hR hzero
    _ = (flattenRows fun j =>
          unpack 0 (batch.attentionMask j) (outputs j))[
            i * (P + R) + (P - 1 + t)]? := by
        rw [flattenRows, flattenRows, flattenRows, unpack_flatMap 0 hcount]
    _ = (unpack 0 (batch.attentionMask i) (outputs i))[P - 1 + t]? :=
        getElem?_flattenRows hrows i (by omega)
    _ = (outputs i)[batch.promptLen i - 1 + t]? := by
        rw [getElem?_unpack_of_true 0 hmask (hcount i),
          rank_attentionMask batch ht]

end Legacy

section RoundTrip

variable [Zero F] (batch : LeftRightBatch b P R v ε)

/-- Both slicing functions return the same rows: at a real token of a response
the output of the token before it, as the actor's route has it, and zeros up to
the padded width. -/
def RoundTripOf (outputs : Fin b → List F) (tensor : ModelOutput F) : Prop :=
  ∃ rows,
    noPadding2Padding tensor (leftRight2NoPadding batch) = .ok rows ∧
    sliceResponseFromUnpadOutput tensor (leftRight2NoPadding batch) =
      .ok rows ∧
    rows.length = b ∧
    ∀ i : Fin b, ∃ row, rows[(i : Nat)]? = some row ∧ row.length = R ∧
      (∀ t < batch.responseLen i, ∃ output,
        (outputs i)[batch.promptLen i + t - 1]? = some output ∧
        row[t]? = some output ∧
        (batch.toMicroBatch.padBack 0 tensor.values i)[t]? = some output) ∧
      ∀ t, batch.responseLen i ≤ t → t < R → row[t]? = some 0

variable (F) in
/-- The round trip for whatever the model puts out. -/
def RoundTrip : Prop :=
  ∀ outputs : Fin b → List F, PerToken batch outputs →
    ∀ tensor : ModelOutput F, tensor.values = flattenRows outputs →
      RoundTripOf batch outputs tensor

variable {batch}

/-- Each row of the round trip, next to what the actor's route leaves. -/
theorem roundTrip_row {outputs : Fin b → List F}
    (houtputs : PerToken batch outputs) {i : Fin b} {t : Nat}
    (ht : t < batch.responseLen i) :
    ∃ output, (outputs i)[batch.promptLen i + t - 1]? = some output ∧
      (shiftedRow batch outputs R i)[t]? = some output ∧
      (batch.toMicroBatch.padBack 0 (flattenRows outputs) i)[t]? =
        some output := by
  have hpos := batch.promptLen_pos i
  have hlen := houtputs i
  have hindex : batch.promptLen i + t - 1 = batch.promptLen i - 1 + t := by
    omega
  have hlt : batch.promptLen i - 1 + t < (outputs i).length := by omega
  have houtput := List.getElem?_eq_getElem hlt
  rw [hindex, getElem?_shiftedRow_of_lt houtputs R ht,
    getElem?_padBack_leftRight batch houtputs ht]
  exact ⟨_, houtput, houtput, houtput⟩

/-- The conversion and the critic's slices agree exactly if the batch is
stored padded or its responses have as many tokens in all as the response mask
is wide. -/
theorem roundTrip_iff :
    RoundTrip F batch ↔
      (batch.isNested = true → ∑ i, batch.responseLen i = R) := by
  constructor
  · intro hround hnested
    let outputs : Fin b → List F := fun i =>
      List.replicate (batch.promptLen i + batch.responseLen i) 0
    have houtputs : PerToken batch outputs := fun i => List.length_replicate
    obtain ⟨rows, hpad, hslice, -, -⟩ :=
      hround outputs houtputs (.flat (flattenRows outputs)) rfl
    rw [noPadding2Padding_eq houtputs rfl] at hpad
    rw [sliceResponseFromUnpadOutput_eq houtputs rfl, ← hpad] at hslice
    have hrows := Except.ok.inj hslice
    have hrow := List.map_inj_left.mp hrows ⟨0, batch.nonempty⟩
      (List.mem_finRange _)
    have hwidth := congrArg List.length hrow
    rw [length_shiftedRow houtputs (responseLen_le_criticWidth batch _),
      length_shiftedRow houtputs (batch.responseLen_le _), criticWidth,
      if_pos hnested] at hwidth
    exact hwidth
  · intro hcond outputs houtputs tensor htensor
    have hwidth : criticWidth batch = R := by
      rw [criticWidth]
      split
      · exact hcond ‹_›
      · rfl
    have hslice := sliceResponseFromUnpadOutput_eq houtputs htensor
    rw [hwidth] at hslice
    refine ⟨_, noPadding2Padding_eq houtputs htensor, hslice, by simp,
      fun i => ⟨shiftedRow batch outputs R i, by simp,
        length_shiftedRow houtputs (batch.responseLen_le i), ?_, ?_⟩⟩
    · intro t ht
      rw [htensor]
      exact roundTrip_row houtputs ht
    · intro t ht htR
      exact getElem?_shiftedRow_of_le houtputs ht htR

/-- Two nested rows with responses of one and two tokens, in two slots -/
def raggedBatch : LeftRightBatch 2 1 2 1 Unit where
  promptIds := fun _ => [0]
  responseIds := fun _ => [0, 0]
  positionIds := fun _ => [(0, ()), (1, ()), (2, ())]
  responseMask := ![[1, 0], [1, 1]]
  promptLen := fun _ => 1
  responseLen := ![1, 2]
  isNested := true
  nonempty := Nat.two_pos
  length_promptIds := by decide
  length_responseIds := by decide
  length_positionIds := by decide
  length_responseMask := by decide
  promptLen_pos := by decide
  promptLen_le := by decide
  responseLen_le := by decide

/-- The critic's rows are one column wider than the actor's. -/
theorem raggedBatch_widths :
    noPadding2Padding (.flat [10, 11, 20, 21, 22])
        (leftRight2NoPadding raggedBatch) = .ok [[10, 0], [20, 21]] ∧
      sliceResponseFromUnpadOutput (.flat [10, 11, 20, 21, 22])
        (leftRight2NoPadding raggedBatch) = .ok [[10, 0, 0], [20, 21, 0]] ∧
      ¬ RoundTrip Nat raggedBatch := by
  have hpad : noPadding2Padding (.flat [10, 11, 20, 21, 22])
      (leftRight2NoPadding raggedBatch) = .ok [[10, 0], [20, 21]] := by
    decide +kernel
  have hslice : sliceResponseFromUnpadOutput (.flat [10, 11, 20, 21, 22])
      (leftRight2NoPadding raggedBatch) = .ok [[10, 0, 0], [20, 21, 0]] := by
    decide +kernel
  refine ⟨hpad, hslice, fun hround => ?_⟩
  obtain ⟨rows, hpad', hslice', -⟩ := hround ![[10, 11], [20, 21, 22]]
    (by unfold PerToken; decide) (.flat [10, 11, 20, 21, 22]) (by decide)
  rw [hpad] at hpad'
  rw [hslice, ← hpad'] at hslice'
  exact absurd hslice' (by decide)

end RoundTrip

end NoPadding

end SelfDistillation
