/-
`DataProto` (verl/protocol.py): a batch of tensor columns and of object
columns with one entry for every row, and the operations that select, repeat,
concatenate, pad and cut it.
-/
import SelfDistillation.Library.Chunks
import SelfDistillation.Library.Gather
import SelfDistillation.Python

namespace SelfDistillation

open Chunks Gather

variable {α β τ ν μ : Type}

/-- A tensor by its rows along dim 0.  `lastDim` is the trailing dimension of
a dense tensor; a jagged nested tensor has none. -/
structure Column (τ : Type) where
  lastDim : Option Nat
  rows : List τ
deriving DecidableEq

def Column.isNested (column : Column τ) : Bool := column.lastDim.isNone

/-- `xs[indices]` -/
def pyIndex (xs : List α) (indices : List Nat) : Py (List α) :=
  match gather xs indices with
  | some ys => .ok ys
  | none => .error .indexError

theorem pyIndex_eq_ok {xs ys : List α} {indices : List Nat} :
    pyIndex xs indices = .ok ys ↔ gather xs indices = some ys := by
  unfold pyIndex
  cases gather xs indices <;> simp

def Column.select (column : Column τ) (indices : List Nat) :
    Py (Column τ) :=
  (fun rows => { column with rows }) <$> pyIndex column.rows indices

theorem Column.select_eq_ok {column selected : Column τ}
    {indices : List Nat} :
    column.select indices = .ok selected ↔
      selected.lastDim = column.lastDim ∧
        gather column.rows indices = some selected.rows := by
  rw [Column.select, map_eq_ok]
  constructor
  · rintro ⟨rows, hrows, rfl⟩
    exact ⟨rfl, pyIndex_eq_ok.mp hrows⟩
  · rintro ⟨hdim, hrows⟩
    refine ⟨selected.rows, pyIndex_eq_ok.mpr hrows, ?_⟩
    cases selected
    cases column
    simp_all

/-- `tensor.repeat_interleave(repeat_times, dim=0)`, or the whole tensor
`repeat_times` times. -/
def repeatRows (interleave : Bool) (repeatTimes : Nat) (xs : List α) :
    List α :=
  if interleave then xs.flatMap (List.replicate repeatTimes)
  else (List.replicate repeatTimes xs).flatten

theorem length_repeatRows (interleave : Bool) (k : Nat) (xs : List α) :
    (repeatRows interleave k xs).length = xs.length * k := by
  cases interleave <;>
    simp [repeatRows, List.length_flatMap, List.length_flatten, Nat.mul_comm]

/-- `torch.cat(columns, dim=0)` -/
def Column.cat (columns : List (Column τ)) : Py (Column τ) :=
  match columns with
  | [] => .error (.runtimeError
      "torch.cat(): expected a non-empty list of Tensors")
  | first :: _ =>
      if columns.all fun column => column.lastDim == first.lastDim then
        .ok ⟨first.lastDim, columns.flatMap Column.rows⟩
      else .error (.runtimeError "Sizes of tensors must match")

namespace PyDict

/-- The entries of row `i` of a dictionary of columns, with the names of the
columns. -/
def row (d : PyDict (List α)) (i : Nat) : List (String × α) :=
  d.entries.filterMap fun e => e.2[i]?.map fun a => (e.1, a)

/-- Every column of `d'` is that of `d` read at the indices. -/
def SelectedAt (indices : List Nat) (d d' : PyDict (List α)) : Prop :=
  List.Forall₂ (fun x y => x.1 = y.1 ∧ gather x.2 indices = some y.2)
    d.entries d'.entries

/-- Row `j` of a selection is the row its index names. -/
theorem SelectedAt.row_eq {indices : List Nat} {d d' : PyDict (List α)}
    (h : SelectedAt indices d d') {j i : Nat} (hj : indices[j]? = some i) :
    d'.row j = d.row i := by
  unfold row
  unfold SelectedAt at h
  generalize d.entries = xs at h
  generalize d'.entries = ys at h
  induction h with
  | nil => rfl
  | cons hxy _ ih =>
      obtain ⟨hkey, hrows⟩ := hxy
      simp only [List.filterMap_cons, ih, getElem?_of_gather hrows, hj,
        Option.bind_some, hkey]

theorem row_mapVals_slice (d : PyDict (List α)) {start stop i : Nat}
    (hi : start + i < stop) :
    (d.mapVals fun xs => (xs.take stop).drop start).row i =
      d.row (start + i) := by
  simp only [row, mapVals_entries, List.filterMap_map, Function.comp_def,
    List.getElem?_drop]
  congr 1
  funext e
  rw [List.getElem?_take_of_lt hi]

end PyDict

/-- `TensorDict`: columns that all have `batch_size` rows. -/
structure TensorDict (τ : Type) where
  columns : PyDict (Column τ)
  batchSize : Nat
  aligned : ∀ e ∈ columns.entries, e.2.rows.length = batchSize
deriving DecidableEq

namespace TensorDict

def rowAt (td : TensorDict τ) (i : Nat) : List (String × τ) :=
  (td.columns.mapVals Column.rows).row i

def rows (td : TensorDict τ) : List (List (String × τ)) :=
  (List.range td.batchSize).map td.rowAt

/-- `batch[key]` -/
def get (td : TensorDict τ) (key : String) : Py (Column τ) :=
  td.columns.get key

/-- `TensorDict(source=columns, batch_size=batch_size)` -/
def init (columns : PyDict (Column τ)) (batchSize : Nat) :
    Py (TensorDict τ) :=
  if h : ∀ e ∈ columns.entries, e.2.rows.length = batchSize then
    .ok ⟨columns, batchSize, h⟩
  else .error (.runtimeError "batch dimension mismatch")

theorem init_eq_ok {columns : PyDict (Column τ)} {batchSize : Nat}
    {td : TensorDict τ} :
    init columns batchSize = .ok td ↔
      td.columns = columns ∧ td.batchSize = batchSize := by
  obtain ⟨columns', batchSize', aligned⟩ := td
  unfold init
  constructor
  · intro h
    split at h
    · cases h
      exact ⟨rfl, rfl⟩
    · cases h
  · rintro ⟨rfl, rfl⟩
    rw [dif_pos aligned]

/-- `index_select_tensor_dict` -/
def indexSelect (td : TensorDict τ) (indices : List Nat) :
    Py (TensorDict τ) := do
  let columns ← td.columns.mapEntriesM fun _ column => column.select indices
  init columns indices.length

/-- With a column, the columns decide the batch size. -/
theorem eq_of_columns {td td' : TensorDict τ}
    (hcolumns : td.columns = td'.columns) (hne : td.columns.entries ≠ []) :
    td = td' := by
  obtain ⟨e, he⟩ := List.exists_mem_of_ne_nil _ hne
  have hsize : td.batchSize = td'.batchSize := by
    rw [← td.aligned e he, ← td'.aligned e (hcolumns ▸ he)]
  cases td
  cases td'
  simp_all

/-- What selecting does to the columns: each is read at the indices. -/
theorem indexSelect_eq_ok {td selected : TensorDict τ} {indices : List Nat} :
    td.indexSelect indices = .ok selected ↔
      selected.batchSize = indices.length ∧
      List.Forall₂ (fun x y => x.1 = y.1 ∧ y.2.lastDim = x.2.lastDim ∧
          gather x.2.rows indices = some y.2.rows)
        td.columns.entries selected.columns.entries := by
  simp only [indexSelect, bind_eq_ok, PyDict.mapEntriesM_eq_ok,
    Column.select_eq_ok, init_eq_ok]
  constructor
  · rintro ⟨columns, hall, rfl, hsize⟩
    exact ⟨hsize, hall⟩
  · rintro ⟨hsize, hall⟩
    exact ⟨selected.columns, hall, rfl, hsize⟩

theorem get_indexSelect {td selected : TensorDict τ} {indices : List Nat}
    (h : td.indexSelect indices = .ok selected) {key : String}
    {column : Column τ} (hget : td.get key = .ok column) :
    ∃ column', selected.get key = .ok column' ∧
      column'.lastDim = column.lastDim ∧
        gather column.rows indices = some column'.rows := by
  obtain ⟨_, hall⟩ := indexSelect_eq_ok.mp h
  obtain ⟨i, hi, hentry⟩ := List.mem_iff_getElem.mp (PyDict.get_eq_ok.mp hget)
  have hi' : i < selected.columns.entries.length := hall.length_eq ▸ hi
  have hat := hall.get hi hi'
  simp only [List.get_eq_getElem, hentry] at hat
  obtain ⟨hkey, hdim, hrows⟩ := hat
  refine ⟨_, PyDict.get_eq_ok.mpr ?_, hdim, hrows⟩
  rw [hkey]
  exact List.getElem_mem hi'

theorem columns_ne_nil_of_indexSelect {td selected : TensorDict τ}
    {indices : List Nat} (h : td.indexSelect indices = .ok selected)
    (hne : td.columns.entries ≠ []) : selected.columns.entries ≠ [] := by
  have hlen := (indexSelect_eq_ok.mp h).2.length_eq
  rw [← List.length_pos_iff] at hne ⊢
  omega

theorem rowAt_indexSelect {td selected : TensorDict τ} {indices : List Nat}
    (h : td.indexSelect indices = .ok selected) {j i : Nat}
    (hj : indices[j]? = some i) : selected.rowAt j = td.rowAt i := by
  obtain ⟨_, hall⟩ := indexSelect_eq_ok.mp h
  refine PyDict.SelectedAt.row_eq ?_ hj
  simp only [PyDict.SelectedAt, PyDict.mapVals_entries,
    List.forall₂_map_left_iff, List.forall₂_map_right_iff]
  exact hall.imp fun _ _ hxy => ⟨hxy.1, hxy.2.2⟩

theorem gather_rows {td selected : TensorDict τ} {indices : List Nat}
    (h : td.indexSelect indices = .ok selected)
    (hlt : ∀ i ∈ indices, i < td.batchSize) :
    gather td.rows indices = some selected.rows := by
  obtain ⟨hsize, _⟩ := indexSelect_eq_ok.mp h
  rw [gather_eq_some_iff, List.forall₂_iff_get]
  refine ⟨by simp [rows, hsize], ?_⟩
  intro j hj hj'
  have hget : indices[j]? = some (indices.get ⟨j, hj⟩) :=
    List.getElem?_eq_getElem hj
  have hi := hlt _ (List.getElem_mem hj)
  simp only [rows, List.get_eq_getElem, List.getElem_map,
    List.getElem_range, List.getElem?_map]
  rw [List.getElem?_range hi, Option.map_some, rowAt_indexSelect h hget]
  rfl

/-- `batch[start:stop]` -/
def slice (td : TensorDict τ) (start stop : Nat) : TensorDict τ where
  columns := td.columns.mapVals fun column =>
    { column with rows := (column.rows.take stop).drop start }
  batchSize := min stop td.batchSize - start
  aligned := by
    intro e he
    obtain ⟨e', he', rfl⟩ := List.mem_map.mp he
    simp [td.aligned e' he']

theorem rowAt_slice (td : TensorDict τ) {start stop i : Nat}
    (hi : start + i < stop) :
    (td.slice start stop).rowAt i = td.rowAt (start + i) := by
  rw [rowAt, rowAt, ← PyDict.row_mapVals_slice _ hi]
  simp [PyDict.row, slice, Function.comp_def]

/-- The repeated tensors, as a `TensorDict`. -/
def repeatTensors (td : TensorDict τ) (interleave : Bool)
    (repeatTimes : Nat) : Py (TensorDict τ) :=
  init (td.columns.mapVals fun column =>
      { column with rows := repeatRows interleave repeatTimes column.rows })
    (td.batchSize * repeatTimes)

/-- `torch.cat(tds, dim=0)`: the keys have to be the same. -/
def cat (tds : List (TensorDict τ)) : Py (TensorDict τ) :=
  match tds with
  | [] => .error (.runtimeError "list_of_tensordicts cannot be empty")
  | first :: _ => do
      forM tds fun td =>
        if td.columns.keys.all first.columns.contains &&
            td.columns.keys.length == first.columns.keys.length then .ok ()
        else .error (.keyError "the sets of keys do not match")
      let columns ← first.columns.mapEntriesM fun key _ => do
        let parts ← tds.mapM fun td => td.get key
        Column.cat parts
      init columns (tds.map batchSize).sum

/-- `td.chunk(chunks, dim=0)`: pieces of the rounded up size, the last one
shorter, and fewer than `chunks` when the rows run out. -/
def chunk (td : TensorDict τ) (chunks : Nat) : Py (List (TensorDict τ)) :=
  if chunks = 0 then
    .error (.valueError "chunks must be a strictly positive integer")
  else
    let size := (td.batchSize + chunks - 1) / chunks
    let pieces := max 1 ((td.batchSize + size - 1) / size)
    .ok ((List.range pieces).map fun j =>
      td.slice (j * size) ((j + 1) * size))

end TensorDict

/-- `np.array_split(val, indices)` -/
def arraySplitAt (val : List α) (indices : List Nat) : List (List α) :=
  List.zipWith (fun start stop => (val.take stop).drop start)
    (0 :: indices) (indices ++ [val.length])

/-- `np.array_split(val, sections)`: the first pieces are one longer. -/
def arraySplit (val : List α) (sections : Nat) : Py (List (List α)) :=
  if sections = 0 then
    .error (.valueError "number sections must be larger than 0.")
  else .ok (arraySplitAt val ((List.range (sections - 1)).map fun j =>
    (j + 1) * (val.length / sections) +
      min (j + 1) (val.length % sections)))

/-- What the operations ask of a value of `meta_info`. -/
class MetaValue (μ : Type) where
  /-- `bool(v)` -/
  truthy : μ → Bool
  /-- The dictionaries of a `metrics` entry: of `None` none, of a list its
  elements, else the value itself, which has to be a dictionary. -/
  metricDicts : μ → Py (List (PyDict μ))
  /-- A dictionary of lists as a value. -/
  ofDictOfList : PyDict (List μ) → μ

/-- Flags as values of `meta_info`. -/
instance : MetaValue Bool where
  truthy := id
  metricDicts _ := .error .attributeError
  ofDictOfList _ := true

/-- The invariant `check_consistency` asserts: object columns have as many
entries as the tensor batch has rows. -/
def Consistent (batch : Option (TensorDict τ))
    (nonTensorBatch : PyDict (List ν)) : Prop :=
  ∀ td ∈ batch, ∀ e ∈ nonTensorBatch.entries, e.2.length = td.batchSize

instance (batch : Option (TensorDict τ)) (nonTensorBatch : PyDict (List ν)) :
    Decidable (Consistent batch nonTensorBatch) :=
  match batch with
  | none => isTrue (by simp [Consistent])
  | some td => decidable_of_iff
      (∀ e ∈ nonTensorBatch.entries, e.2.length = td.batchSize)
      (by simp [Consistent])

/-- The first key `check_consistency` complains about. -/
def inconsistency (batch : Option (TensorDict τ))
    (nonTensorBatch : PyDict (List ν)) : String :=
  match batch with
  | none => ""
  | some td =>
      match nonTensorBatch.entries.find? fun e => e.2.length ≠ td.batchSize with
      | none => ""
      | some (key, val) =>
          s!"key {key} length {val.length} is not equal to batch size {td.batchSize}"

/-- `DataProto` -/
structure DataProto (τ ν μ : Type) where
  batch : Option (TensorDict τ)
  nonTensorBatch : PyDict (List ν)
  metaInfo : PyDict μ
  consistent : Consistent batch nonTensorBatch

namespace DataProto

/-- `DataProto(batch, non_tensor_batch, meta_info)` with the check of
`__post_init__` -/
def init (batch : Option (TensorDict τ)) (nonTensorBatch : PyDict (List ν))
    (metaInfo : PyDict μ) : Py (DataProto τ ν μ) :=
  if h : Consistent batch nonTensorBatch then
    .ok ⟨batch, nonTensorBatch, metaInfo, h⟩
  else .error (.assertionError (inconsistency batch nonTensorBatch))

theorem init_eq_ok {batch : Option (TensorDict τ)}
    {nonTensorBatch : PyDict (List ν)} {metaInfo : PyDict μ}
    {data : DataProto τ ν μ} :
    init batch nonTensorBatch metaInfo = .ok data ↔
      data.batch = batch ∧ data.nonTensorBatch = nonTensorBatch ∧
        data.metaInfo = metaInfo := by
  obtain ⟨batch', nonTensorBatch', metaInfo', consistent⟩ := data
  unfold init
  constructor
  · intro h
    split at h
    · cases h
      exact ⟨rfl, rfl, rfl⟩
    · cases h
  · rintro ⟨rfl, rfl, rfl⟩
    rw [dif_pos consistent]

/-- `from_dict` -/
def fromDict (tensors : PyDict (Column τ)) (nonTensors : PyDict (List ν))
    (metaInfo : PyDict μ) : Py (DataProto τ ν μ) :=
  match tensors.entries with
  | [] => init none nonTensors metaInfo
  | (pivotKey, pivot) :: _ => do
      forM tensors.entries fun e =>
        pyAssert (e.2.rows.length == pivot.rows.length)
          (s!"Not all the tensor in tensors have the same batch size with batch_dims=1. " ++
            s!"Got {pivotKey} has torch.Size([{pivot.rows.length}]), " ++
            s!"{e.1} has torch.Size([{e.2.rows.length}])")
      let tensorDict ← TensorDict.init tensors pivot.rows.length
      init (some tensorDict) nonTensors metaInfo

theorem fromDict_eq_ok {tensors : PyDict (Column τ)}
    {nonTensors : PyDict (List ν)} {metaInfo : PyDict μ}
    {data : DataProto τ ν μ}
    (h : fromDict tensors nonTensors metaInfo = .ok data) :
    (data.batch = none ∧ tensors.entries = [] ∨
        ∃ td, data.batch = some td ∧ td.columns = tensors) ∧
      data.nonTensorBatch = nonTensors ∧ data.metaInfo = metaInfo := by
  unfold fromDict at h
  split at h
  · rename_i hentries
    obtain ⟨hbatch, hrest⟩ := init_eq_ok.mp h
    exact ⟨.inl ⟨hbatch, hentries⟩, hrest⟩
  · obtain ⟨_, _, h⟩ := bind_eq_ok.mp h
    obtain ⟨td, htd, h⟩ := bind_eq_ok.mp h
    obtain ⟨hbatch, hrest⟩ := init_eq_ok.mp h
    exact ⟨.inr ⟨td, hbatch, (TensorDict.init_eq_ok.mp htd).1⟩, hrest⟩

/-- `__len__` -/
def length (data : DataProto τ ν μ) : Nat :=
  match data.batch with
  | some td => td.batchSize
  | none =>
      match data.nonTensorBatch.entries with
      | [] => 0
      | (_, val) :: _ => val.length

/-- The tensor and object entries of one row, with their names. -/
abbrev Row (τ ν : Type) := List (String × τ) × List (String × ν)

def rowAt (data : DataProto τ ν μ) (i : Nat) : Row τ ν :=
  (match data.batch with
    | some td => td.rowAt i
    | none => [],
    data.nonTensorBatch.row i)

def rows (data : DataProto τ ν μ) : List (Row τ ν) :=
  (List.range data.length).map data.rowAt

@[simp] theorem length_rows (data : DataProto τ ν μ) :
    data.rows.length = data.length := by
  simp [rows]

/-- `select_idxs` for a list of indices. -/
def selectIdxs (data : DataProto τ ν μ) (idxs : List Nat) :
    Py (DataProto τ ν μ) := do
  let selectedBatch ← data.batch.mapM fun td => td.indexSelect idxs
  let selectedNonTensor ←
    data.nonTensorBatch.mapEntriesM fun _ val => pyIndex val idxs
  init selectedBatch selectedNonTensor data.metaInfo

/-- `repeat` -/
def repeatData (data : DataProto τ ν μ) (repeatTimes : Nat := 2)
    (interleave : Bool := true) : Py (DataProto τ ν μ) := do
  let repeatedBatch ← data.batch.mapM fun td =>
    td.repeatTensors interleave repeatTimes
  init repeatedBatch
    (data.nonTensorBatch.mapVals (repeatRows interleave repeatTimes))
    data.metaInfo

section Meta

variable [DecidableEq μ] [MetaValue μ]

/-- One entry of the loop that merges `meta_info`: the merged entries and
`all_metrics` so far. -/
def mergeMetaEntry (merged : PyDict μ × List (PyDict μ))
    (entry : String × μ) : Py (PyDict μ × List (PyDict μ)) :=
  if entry.1 = "metrics" then
    (fun dicts => (merged.1, merged.2 ++ dicts)) <$>
      MetaValue.metricDicts entry.2
  else
    match merged.1.get? entry.1 with
    | some v =>
        (fun _ => merged) <$> pyAssert (v == entry.2)
          s!"Conflicting values for meta_info key '{entry.1}'"
    | none => .ok (merged.1.set entry.1 entry.2, merged.2)

/-- `merged_meta_info` -/
def mergeMetaInfo (metaInfos : List (PyDict μ)) : Py (PyDict μ) := do
  let (merged, allMetrics) ←
    (metaInfos.flatMap PyDict.entries).foldlM mergeMetaEntry
      (PyDict.empty, [])
  match allMetrics with
  | [] => return merged
  | _ => do
      let metrics ← listOfDictToDictOfList allMetrics
      return merged.set "metrics" (MetaValue.ofDictOfList metrics)

/-- An element of the list for `torch.cat`. -/
def expectTensor : Option (TensorDict τ) → Py (TensorDict τ)
  | some td => .ok td
  | none => .error (.typeError "expected Tensor as element in argument 0")

/-- `new_batch`: the first batch decides whether there is one. -/
def concatBatches (batchLst : List (Option (TensorDict τ))) :
    Py (Option (TensorDict τ)) :=
  match batchLst with
  | [] => .error .indexError
  | none :: _ => .ok none
  | some _ :: _ => do
      let tds ← batchLst.mapM expectTensor
      some <$> TensorDict.cat tds

/-- `concat` -/
def concat (data : List (DataProto τ ν μ)) : Py (DataProto τ ν μ) := do
  let newBatch ← concatBatches (data.map batch)
  let nonTensorBatch ← listOfDictToDictOfList (data.map nonTensorBatch)
  let metaInfo ← mergeMetaInfo (data.map metaInfo)
  init newBatch (nonTensorBatch.mapVals List.flatten) metaInfo

/-- `is_padding_enabled`; `autoPadding` is `DataProtoConfig.auto_padding`. -/
def isPaddingEnabled (autoPadding : Bool) (data : DataProto τ ν μ) : Bool :=
  ((data.metaInfo.get? "_verl_auto_padding").map MetaValue.truthy).getD
    false || autoPadding

/-- `padding`: what becomes of the object.  Its `meta_info` stays. -/
def padding (data : DataProto τ ν μ) (paddingSize : Nat)
    (paddingCandidate : String := "") : Py (DataProto τ ν μ) :=
  if paddingSize = 0 then .ok data
  else do
    let candidate ← data.selectIdxs
      [if paddingCandidate = "first" then 0 else data.length - 1]
    let paddingPart ← candidate.repeatData paddingSize
    let padded ← concat [data, paddingPart]
    return ⟨padded.batch, padded.nonTensorBatch, data.metaInfo,
      padded.consistent⟩

/-- `batch_lst`, and how the object columns are split alongside. -/
def chunkBatch (batch : Option (TensorDict τ)) (chunks : Nat) :
    Py (List (Option (TensorDict τ)) × (List ν → Py (List (List ν)))) :=
  match batch with
  | some td => do
      let batchLst ← td.chunk chunks
      let bszInBatch := batchLst.map TensorDict.batchSize
      let chunkIndices := ((List.range bszInBatch.length).map fun j =>
        (bszInBatch.take (j + 1)).sum).dropLast
      return (batchLst.map some,
        fun val => .ok (arraySplitAt val chunkIndices))
  | none => .ok (List.replicate chunks none, fun val => arraySplit val chunks)

/-- Only a `DataProto` with padding may be cut unevenly. -/
def checkEqualChunk (autoPadding : Bool) (data : DataProto τ ν μ)
    (chunks : Nat) : Py Unit :=
  if data.isPaddingEnabled autoPadding then .ok ()
  else if chunks = 0 then .error .zeroDivisionError
  else pyAssert (data.length % chunks == 0)
    (s!"only support equal chunk. Got size of DataProto {data.length} " ++
      s!"and chunk {chunks}.")

/-- `non_tensor_lst` -/
def chunkColumn (nonTensorLst : List ν → Py (List (List ν))) (chunks : Nat)
    (val : List ν) : Py (List (List ν)) := do
  let pieces ← nonTensorLst val
  pyAssert (pieces.length == chunks) ""
  return pieces

/-- The `i`-th element of the output. -/
def chunkPart (batchLst : List (Option (TensorDict τ)))
    (nonTensorBatchLst : PyDict (List (List ν))) (metaInfo : PyDict μ)
    (i : Nat) : Py (DataProto τ ν μ) :=
  match batchLst[i]? with
  | none => .error .indexError
  | some batch => init batch
      (nonTensorBatchLst.mapVals fun pieces => pieces.getD i []) metaInfo

/-- `chunk` -/
def chunk (autoPadding : Bool) (data : DataProto τ ν μ) (chunks : Nat) :
    Py (List (DataProto τ ν μ)) := do
  checkEqualChunk autoPadding data chunks
  let (batchLst, nonTensorLst) ← chunkBatch data.batch chunks
  let nonTensorBatchLst ← data.nonTensorBatch.mapEntriesM fun _ val =>
    chunkColumn nonTensorLst chunks val
  (List.range chunks).mapM
    (chunkPart batchLst nonTensorBatchLst data.metaInfo)

end Meta

/-- `slice(start, stop)` -/
def slice (data : DataProto τ ν μ) (start stop : Nat) :
    DataProto τ ν μ where
  batch := data.batch.map fun td => td.slice start stop
  nonTensorBatch := data.nonTensorBatch.mapVals fun val =>
    (val.take stop).drop start
  metaInfo := data.metaInfo
  consistent := by
    intro td htd e he
    obtain ⟨td', htd', rfl⟩ := Option.mem_map.mp htd
    obtain ⟨e', he', rfl⟩ := List.mem_map.mp he
    simp [data.consistent td' htd' e' he', TensorDict.slice]

theorem rowAt_slice (data : DataProto τ ν μ) {start stop i : Nat}
    (hi : start + i < stop) :
    (data.slice start stop).rowAt i = data.rowAt (start + i) := by
  apply Prod.ext _ (data.nonTensorBatch.row_mapVals_slice hi)
  cases hbatch : data.batch with
  | none => simp [rowAt, slice, hbatch]
  | some td => simpa [rowAt, slice, hbatch] using td.rowAt_slice hi

end DataProto

end SelfDistillation
