/-
`chunk_tensordict`, `concat_tensordict` and `index_select_tensor_dict` of
verl/utils/tensordict_utils.py: where the rows of each column go.
-/
import SelfDistillation.NestedTensor
import SelfDistillation.Library.Blocks
import SelfDistillation.Library.Chunks

namespace SelfDistillation.TensorDictRows

section Columns

/-- A column of a TensorDict: the rows of a dense tensor, a nested tensor, a
`NonTensorStack` or one `NonTensorData` for all rows. -/
inductive Column (α ω : Type)
  | dense (rows : List (NdArray α))
  | nested (tensor : NestedTensor α)
  | stack (rows : List ω)
  | data (value : ω)

variable {α ω : Type}

namespace Column

def nested? : Column α ω → Option (NestedTensor α)
  | .nested nt => some nt
  | _ => none

/-- `isinstance(value, torch.Tensor) and value.is_nested` -/
def isNested (column : Column α ω) : Bool := column.nested?.isSome

/-- The leading dimension is the batch dimension, where there is one. -/
def Batched : Option Nat → Column α ω → Prop
  | none, _ => True
  | some n, .dense rows => rows.length = n
  | some n, .nested nt => nt.components.length = n
  | some n, .stack rows => rows.length = n
  | some _, .data _ => True

instance (batchSize : Option Nat) (column : Column α ω) :
    Decidable (column.Batched batchSize) :=
  match batchSize, column with
  | none, _ => isTrue trivial
  | some n, .dense rows => inferInstanceAs (Decidable (rows.length = n))
  | some n, .nested nt =>
      inferInstanceAs (Decidable (nt.components.length = n))
  | some n, .stack rows => inferInstanceAs (Decidable (rows.length = n))
  | some _, .data _ => isTrue trivial

/-- Rows `start` to `start + size` of a column that is not nested. -/
def slice (start size : Nat) : Column α ω → Column α ω
  | .dense rows => .dense ((rows.drop start).take size)
  | .stack rows => .stack ((rows.drop start).take size)
  | column => column

end Column

/-- A TensorDict with one batch dimension, or with none. -/
structure TensorDict (α ω : Type) where
  columns : PyDict (Column α ω)
  batchSize : Option Nat
  batched : ∀ e ∈ columns.entries, e.2.Batched batchSize

namespace TensorDict

/-- `TensorDict(source, batch_size=batch_size)` -/
def make (source : PyDict (Column α ω)) (batchSize : Option Nat) :
    Py (TensorDict α ω) :=
  if h : ∀ e ∈ source.entries, e.2.Batched batchSize then
    .ok ⟨source, batchSize, h⟩
  else .error (.runtimeError "batch dimension mismatch")

/-- `len(td)` -/
def len (td : TensorDict α ω) : Nat := td.batchSize.getD 0

def get? (td : TensorDict α ω) (key : String) : Option (Column α ω) :=
  td.columns.get? key

/-- `td[key] = column` -/
def set (td : TensorDict α ω) (key : String) (column : Column α ω) :
    Py (TensorDict α ω) :=
  make (td.columns.set key column) td.batchSize

/-- The nested columns, in the order of the keys. -/
def nestedItems (td : TensorDict α ω) : List (String × NestedTensor α) :=
  td.columns.entries.filterMap fun e => e.2.nested?.map (Prod.mk e.1)

/-- `{k: v for k, v in td.items() if k not in keys}` -/
def without (td : TensorDict α ω) (keys : List String) : TensorDict α ω where
  columns := ⟨td.columns.entries.filter fun e => decide (e.1 ∉ keys),
    td.columns.nodup.sublist (List.filter_sublist.map _)⟩
  batchSize := td.batchSize
  batched := fun e he => td.batched e (List.mem_of_mem_filter he)

/-- `td.chunk(chunks)` for a length that is a multiple of `chunks`. -/
def chunk (td : TensorDict α ω) (chunks : Nat) : Py (List (TensorDict α ω)) :=
  match td.batchSize with
  | none => .error .indexError
  | some n => (List.range chunks).mapM fun i =>
      make (td.columns.mapVals (Column.slice (i * (n / chunks)) (n / chunks)))
        (some (n / chunks))

end TensorDict

/-- The rows of a column that is not nested, behind those of others. -/
def catColumns : List (Column α ω) → Py (Column α ω)
  | .dense rows :: rest => do
      let more ← rest.mapM fun
        | .dense rows => (.ok rows : Py (List (NdArray α)))
        | _ => .error (.typeError "torch.cat: not a dense tensor")
      return .dense (rows ++ more.flatten)
  | .stack rows :: rest => do
      let more ← rest.mapM fun
        | .stack rows => (.ok rows : Py (List ω))
        | _ => .error (.typeError "torch.cat: not a stack")
      return .stack (rows ++ more.flatten)
  | .data value :: _ => .ok (.data value)
  | .nested _ :: _ => .error (.typeError "torch.cat: nested tensor")
  | [] => .error (.runtimeError "torch.cat: expected a non-empty list")

/-- `TensorDict.cat(tds, dim=0)` -/
def cat : List (TensorDict α ω) → Py (TensorDict α ω)
  | [] => .error (.runtimeError "torch.cat: expected a non-empty list")
  | first :: rest => do
      let columns ← first.columns.mapEntriesM fun key _ => do
        let columns ← (first :: rest).mapM fun td => td.columns.get key
        catColumns columns
      let sizes ← (first :: rest).mapM fun td => match td.batchSize with
        | some n => (.ok n : Py Nat)
        | none => .error .indexError
      TensorDict.make columns (some sizes.sum)

end Columns

section Code

variable {α ω : Type}

/-- The parts of PyTorch and tensordict whose behaviour is not known here:
on which nested tensors `unbind` fails, only ones with more than one inner
dimension, and whether a `NonTensorStack` or `NonTensorData` can be indexed by
the float tensor `torch.tensor([])`. -/
structure Torch (α : Type) where
  unbindRaises : NestedTensor α → Bool
  takesFloatIndex : Bool
  inner_of_unbindRaises : ∀ nt, unbindRaises nt = true →
    ∀ x ∈ nt.components, 2 ≤ x.shape.length

variable (torch : Torch α)

/-- `nt.unbind(dim=0)` -/
def unbind (nt : NestedTensor α) : Py (List (NdArray α)) :=
  if torch.unbindRaises nt then
    .error (.runtimeError "split_with_sizes expects split_sizes to sum exactly")
  else .ok nt.components

/-- `xs[i]` for an index that is not negative. -/
def itemAt {τ : Type} (xs : List τ) (i : Nat) : Py τ :=
  match xs[i]? with
  | some x => .ok x
  | none => .error .indexError

/-- `padded.chunk(chunks, dim=0)` -/
def chunkRows {τ : Type} (rows : List τ) (chunks : Nat) : List (List τ) :=
  Chunks.chunksOf ((rows.length + chunks - 1) / chunks) rows

/-- The components of chunk `i` in the fallback:
`padded_chunks[i][j, :seq_len]`. -/
def paddedRows [Zero α] (nt : NestedTensor α) (chunks chunkSize i : Nat) :
    Py (List (NdArray α)) :=
  let paddedChunks := chunkRows nt.toPaddedTensor chunks
  let chunkLengths := (nt.lengths.drop (i * chunkSize)).take chunkSize
  chunkLengths.zipIdx.mapM fun (seqLen, j) => do
    let chunk ← itemAt paddedChunks i
    let row ← itemAt chunk j
    return row.slice 0 0 seqLen

/-- What chunk `i` gets of a nested column. -/
def chunkNested [Zero α] (nt : NestedTensor α) (chunks chunkSize i : Nat) :
    Py (NestedTensor α) :=
  match unbind torch nt with
  | .ok tensors =>
      asNestedTensor ((tensors.drop (i * chunkSize)).take chunkSize)
  | .error (.runtimeError _) => do
      let chunkTensors ← paddedRows nt chunks chunkSize i
      asNestedTensor chunkTensors
  | .error e => .error e

/-- `chunk_tensordict` -/
def chunkTensordict [Zero α] (td : TensorDict α ω) (chunks : Nat) :
    Py (List (TensorDict α ω)) := do
  let n := td.len
  let rest ← floorMod n chunks
  pyAssert (rest = 0) (s!"expecting td with length divisible by chunks, " ++
    s!"but got {n} and {chunks}")
  let tds ← (td.without (td.nestedItems.map Prod.fst)).chunk chunks
  td.nestedItems.foldlM (fun tds (key, nt) =>
    tds.zipIdx.mapM fun (chunkTd, i) => do
      let piece ← chunkNested torch nt chunks (n / chunks) i
      chunkTd.set key (.nested piece)) tds

/-- `concat_nested_tensors`: a nested tensor has two dimensions at least. -/
def concatNestedTensors (tensors : List (NestedTensor α)) :
    Py (NestedTensor α) := do
  let unbindTensors ← tensors.mapM (unbind torch)
  asNestedTensor unbindTensors.flatten

/-- `concat_tensordict_with_none_bsz` -/
def concatTensordictWithNoneBsz (first : TensorDict α ω)
    (rest : List (TensorDict α ω)) : Py (TensorDict α ω) := do
  forM (first :: rest) fun d => pyAssert (d.batchSize = none) ""
  return first

/-- `td[key]` of a nested column. -/
def getNested (td : TensorDict α ω) (key : String) : Py (NestedTensor α) := do
  let column ← td.columns.get key
  match column with
  | .nested nt => .ok nt
  | _ => .error (.assertionError "")

/-- The check that a TensorDict has the nested columns of the first. -/
def assertSameNested (keys : List String) (td : TensorDict α ω) : Py Unit :=
  let current := td.nestedItems.map Prod.fst
  pyAssert (decide ((∀ key ∈ current, key ∈ keys) ∧
      ∀ key ∈ keys, key ∈ current))
    "All tensordicts must have the same set of nested tensors."

/-- `concat_tensordict` -/
def concatTensordict : List (TensorDict α ω) → Py (TensorDict α ω)
  | [] => .error (.assertionError "Must have at least one tensordict")
  | first :: rest =>
      let keys := first.nestedItems.map Prod.fst
      if keys = [] then
        if first.batchSize = none then concatTensordictWithNoneBsz first rest
        else cat (first :: rest)
      else do
        let regularTds ← (first :: rest).mapM fun td => do
          assertSameNested keys td
          return td.without keys
        let output ← cat regularTds
        first.nestedItems.foldlM (fun output (key, _) => do
          let nested ← (first :: rest).mapM fun td => getNested td key
          let tensor ← concatNestedTensors torch nested
          output.set key (.nested tensor)) output

/-- `indices: torch.Tensor | list[int]`, a tensor being one of integers. -/
inductive Indices
  | list (items : List Int)
  | tensor (items : List Int)
deriving DecidableEq, Repr

namespace Indices

def items : Indices → List Int
  | .list items => items
  | .tensor items => items

/-- `torch.tensor` makes floats of an empty list. -/
def isLong : Indices → Bool
  | .list items => !items.isEmpty
  | .tensor _ => true

end Indices

/-- The row an index in range names. -/
def place (n : Nat) (i : Int) : Nat := if i < 0 then (i + n).toNat else i.toNat

/-- `xs[i]` -/
def rowAt {τ : Type} (xs : List τ) (i : Int) : Py τ :=
  if i < -xs.length then .error .indexError else itemAt xs (place xs.length i)

/-- What becomes of a column when rows are selected. -/
def selectColumn (batchSize : Option Nat) (indices : Indices) :
    Column α ω → Py (Column α ω)
  | .dense rows => do
      if !indices.isLong then throw .indexError
      let rows ← indices.items.mapM (rowAt rows)
      return .dense rows
  | .nested nt => do
      let tensorLst ← unbind torch nt
      let rows ← indices.items.mapM (rowAt tensorLst)
      let tensor ← asNestedTensor rows
      return .nested tensor
  | .stack rows => do
      if !indices.isLong && !torch.takesFloatIndex then throw .indexError
      let rows ← indices.items.mapM (rowAt rows)
      return .stack rows
  | .data value => do
      -- `if tensor.shape`: the shape is the batch size of the TensorDict
      if batchSize.isSome && !indices.isLong && !torch.takesFloatIndex then
        throw .indexError
      return .data value

/-- `index_select_tensor_dict` -/
def indexSelectTensorDict (batch : Option (TensorDict α ω))
    (indices : Indices) : Py (Option (TensorDict α ω)) :=
  match batch with
  | none => .ok none
  | some batch => do
      let dataDict ← batch.columns.mapEntriesM fun _ column =>
        selectColumn torch batch.batchSize indices column
      let selected ← TensorDict.make dataDict (some indices.items.length)
      return some selected

end Code

section Property

variable {α ω τ : Type}

/-- The rows at `places`, in that order. -/
def GatherRows (places : List Nat) (rows rows' : List τ) : Prop :=
  rows'.map some = places.map fun i => rows[i]?

/-- A column with the rows of another at `places`; of nested tensors the
components are compared. -/
def Gathers (places : List Nat) : Column α ω → Column α ω → Prop
  | .dense rows, .dense rows' => GatherRows places rows rows'
  | .nested nt, .nested nt' => GatherRows places nt.components nt'.components
  | .stack rows, .stack rows' => GatherRows places rows rows'
  | .data value, .data value' => value' = value
  | _, _ => False

/-- A TensorDict with the keys of another and its rows at `places`. -/
structure Aligned (td : TensorDict α ω) (places : List Nat)
    (out : TensorDict α ω) : Prop where
  batchSize : out.batchSize = some places.length
  columns : ∀ key, Option.Rel (Gathers places) (td.get? key) (out.get? key)

/-- The rows of chunk `i`. -/
def chunkPlaces (chunkSize i : Nat) : List Nat :=
  List.range' (i * chunkSize) chunkSize

/-- Chunking gives each chunk its rows wherever `unbind` fails, so on the
unbind path as on the fallback; the chunks together are the TensorDict; and
selecting puts row `indices[j]` at position `j`. -/
structure KeepsRows [Zero α] (torch : Torch α) (td : TensorDict α ω)
    (n chunks : Nat) (indices : Indices) : Prop where
  chunked : ∀ torch' : Torch α, ∃ tds,
    chunkTensordict torch' td chunks = .ok tds ∧ tds.length = chunks ∧
      ∀ (i : Nat) (chunk : TensorDict α ω), tds[i]? = some chunk →
        Aligned td (chunkPlaces (n / chunks) i) chunk
  concatenated : ∃ tds out, chunkTensordict torch td chunks = .ok tds ∧
    concatTensordict torch tds = .ok out ∧ Aligned td (List.range n) out
  selected : ∃ out, indexSelectTensorDict torch (some td) indices =
      .ok (some out) ∧ Aligned td (indices.items.map (place n)) out

/-- The runs of rows of a nested column that the chunks get. -/
def chunkComponents (nt : NestedTensor α) (chunkSize i : Nat) :
    List (NdArray α) :=
  (nt.components.drop (i * chunkSize)).take chunkSize

/-- When a column can be indexed: a nested one is unbound, and there is no
nested tensor of no rows; others are not indexed by floats. -/
def Indexable (torch : Torch α) (indices : Indices) : Column α ω → Prop
  | .dense _ => indices.isLong = true
  | .nested nt => torch.unbindRaises nt = false ∧ indices.items ≠ []
  | _ => indices.isLong = true ∨ torch.takesFloatIndex = true

/-- What the columns have to be like. -/
structure Sound (torch : Torch α) (td : TensorDict α ω) (n chunks : Nat)
    (indices : Indices) : Prop where
  cutsBack : ∀ key nt, td.get? key = some (.nested nt) → nt.CutsBack
  unbindsChunks : ∀ key nt, td.get? key = some (.nested nt) →
    ∀ i < chunks, ∀ piece,
      asNestedTensor (chunkComponents nt (n / chunks) i) = .ok piece →
        torch.unbindRaises piece = false
  indexable : ∀ key column, td.get? key = some column →
    Indexable torch indices column

end Property

section Gather

variable {α ω τ : Type}

theorem GatherRows.length {places : List Nat} {rows rows' : List τ}
    (h : GatherRows places rows rows') : rows'.length = places.length := by
  simpa using congrArg List.length h

theorem GatherRows.flatten {rows : List τ} {places : List (List Nat)}
    {parts : List (List τ)}
    (h : List.Forall₂ (fun places part => GatherRows places rows part)
      places parts) : GatherRows places.flatten rows parts.flatten := by
  induction h with
  | nil => rfl
  | cons hfirst _ ih =>
      rw [GatherRows, List.flatten_cons, List.flatten_cons, List.map_append,
        List.map_append, hfirst, ih]

theorem gatherRows_slice {rows : List τ} {start size : Nat}
    (hle : start + size ≤ rows.length) :
    GatherRows (List.range' start size) rows
      ((rows.drop start).take size) := by
  apply List.ext_getElem?
  intro i
  rw [List.getElem?_map, List.getElem?_map, List.getElem?_take]
  split
  · rename_i hlt
    have hi : start + i < rows.length := by omega
    rw [List.getElem?_drop, List.getElem?_range' hlt, Nat.one_mul,
      Option.map_some, List.getElem?_eq_getElem hi, Option.map_some]
  · rename_i hge
    rw [Option.map_none, List.getElem?_eq_none (by simpa using hge),
      Option.map_none]

/-- Rows gathered at the same places are the same. -/
theorem GatherRows.unique {places : List Nat} {rows left right : List τ}
    (hleft : GatherRows places rows left)
    (hright : GatherRows places rows right) : left = right :=
  List.map_injective_iff.mpr (Option.some_injective τ)
    (hleft.trans hright.symm)

theorem flatMap_chunkPlaces (chunks chunkSize : Nat) :
    (List.range chunks).flatMap (chunkPlaces chunkSize) =
      List.range (chunks * chunkSize) := by
  have hgrid := Blocks.map_range_mul chunks chunkSize (fun i => i)
  rw [List.map_id'] at hgrid
  rw [hgrid]
  apply Blocks.blocks_congr
  intro i _
  rw [chunkPlaces, List.range'_eq_map_range]

end Gather

section Chunked

variable {α ω τ : Type} [Zero α] {torch : Torch α} {nt : NestedTensor α}
  {chunks chunkSize i : Nat}

theorem itemAt_eq_ok {xs : List τ} {x : τ} :
    itemAt xs i = .ok x ↔ xs[i]? = some x := by
  rw [itemAt]
  split <;> simp [*]

theorem getElem?_chunkRows {rows : List τ} (hsize : 0 < chunkSize)
    (hlength : rows.length = chunks * chunkSize) (hi : i < chunks) :
    (chunkRows rows chunks)[i]? =
      some ((rows.drop (i * chunkSize)).take chunkSize) := by
  have hchunks : 0 < chunks := Nat.zero_lt_of_lt hi
  have hceil : (rows.length + chunks - 1) / chunks = chunkSize := by
    rw [hlength, Nat.add_sub_assoc hchunks,
      Nat.mul_add_div hchunks, Nat.div_eq_of_lt (by omega), Nat.add_zero]
  rw [chunkRows, hceil]
  apply Chunks.getElem?_chunksOf
  rw [hlength, Nat.mul_comm, Nat.add_sub_assoc hsize, Nat.mul_add_div hsize,
    Nat.div_eq_of_lt (by omega), Nat.add_zero]
  exact hi

/-- The components the fallback gives the chunks. -/
def cutRow (nt : NestedTensor α) (x : NdArray α) : NdArray α :=
  (x.padTo nt.raggedIdx nt.maxLength 0).slice 0 0 (x.size nt.raggedIdx)

theorem paddedRows_eq_ok (hlength : nt.components.length = chunks * chunkSize)
    (hi : i < chunks) :
    paddedRows nt chunks chunkSize i =
      .ok ((chunkComponents nt chunkSize i).map (cutRow nt)) := by
  have hsize : 0 < chunkSize := by
    apply Nat.pos_of_ne_zero
    rintro rfl
    exact nt.nonempty (List.length_eq_zero_iff.mp hlength)
  have hpadded : nt.toPaddedTensor.length = chunks * chunkSize := by
    rw [NestedTensor.toPaddedTensor, List.length_map, hlength]
  have hchunk : itemAt (chunkRows nt.toPaddedTensor chunks) i =
      .ok ((chunkComponents nt chunkSize i).map
        (NdArray.padTo nt.raggedIdx nt.maxLength 0)) := by
    rw [itemAt_eq_ok, getElem?_chunkRows hsize hpadded hi,
      NestedTensor.toPaddedTensor, chunkComponents, List.map_take,
      List.map_drop]
  have hlengths : (nt.lengths.drop (i * chunkSize)).take chunkSize =
      (chunkComponents nt chunkSize i).map (NdArray.size · nt.raggedIdx) := by
    rw [nt.lengths_eq, chunkComponents, List.map_take, List.map_drop]
  rw [paddedRows, hlengths, hchunk, mapM_eq_ok_iff, List.forall₂_iff_get]
  refine ⟨by simp, fun j hj hj' => ?_⟩
  have hj'' : j < (chunkComponents nt chunkSize i).length := by
    simpa using hj'
  have hrow : itemAt ((chunkComponents nt chunkSize i).map
      (NdArray.padTo nt.raggedIdx nt.maxLength 0)) j =
      .ok ((chunkComponents nt chunkSize i)[j].padTo nt.raggedIdx
        nt.maxLength 0) := by
    rw [itemAt_eq_ok, List.getElem?_map, List.getElem?_eq_getElem hj'',
      Option.map_some]
  simp only [List.get_eq_getElem, List.getElem_zipIdx, List.getElem_map,
    Nat.zero_add, ok_bind, hrow]
  rfl

omit [Zero α] in
theorem unbind_eq_ok {rows : List (NdArray α)} :
    unbind torch nt = .ok rows ↔
      torch.unbindRaises nt = false ∧ nt.components = rows := by
  rw [unbind]
  cases torch.unbindRaises nt <;> simp

/-- One path or the other. -/
theorem chunkNested_eq (hlength : nt.components.length = chunks * chunkSize)
    (hi : i < chunks) :
    chunkNested torch nt chunks chunkSize i =
      if torch.unbindRaises nt then
        asNestedTensor ((chunkComponents nt chunkSize i).map (cutRow nt))
      else asNestedTensor (chunkComponents nt chunkSize i) := by
  rw [chunkNested, unbind]
  cases torch.unbindRaises nt with
  | false => rfl
  | true =>
      simp only [if_true, paddedRows_eq_ok hlength hi, ok_bind]

theorem chunkNested_of_cutsBack
    (hlength : nt.components.length = chunks * chunkSize) (hi : i < chunks)
    (hcuts : nt.CutsBack) :
    chunkNested torch nt chunks chunkSize i =
      asNestedTensor (chunkComponents nt chunkSize i) := by
  have hsame : (chunkComponents nt chunkSize i).map (cutRow nt) =
      chunkComponents nt chunkSize i := by
    refine (List.map_congr_left fun x hx => ?_).trans (List.map_id _)
    exact NestedTensor.cutsBack_iff.mp hcuts x
      (List.mem_of_mem_drop (List.mem_of_mem_take hx))
  rw [chunkNested_eq hlength hi, hsame, ite_self]

omit [Zero α] in
theorem length_chunkComponents
    (hlength : nt.components.length = chunks * chunkSize) (hi : i < chunks) :
    (chunkComponents nt chunkSize i).length = chunkSize := by
  have hle : (i + 1) * chunkSize ≤ chunks * chunkSize :=
    Nat.mul_le_mul_right _ hi
  rw [Nat.succ_mul] at hle
  rw [chunkComponents, List.length_take, List.length_drop, hlength]
  omega

omit [Zero α] in
theorem exists_chunkComponents
    (hlength : nt.components.length = chunks * chunkSize) (hi : i < chunks) :
    ∃ piece, asNestedTensor (chunkComponents nt chunkSize i) = .ok piece := by
  have hsub : ∀ x ∈ chunkComponents nt chunkSize i, x ∈ nt.components :=
    fun x hx => List.mem_of_mem_drop (List.mem_of_mem_take hx)
  refine exists_asNestedTensor (d := nt.raggedIdx) ?_ fun x hx y hy =>
    nt.fits x (hsub x hx) y (hsub y hy)
  intro hnil
  have hzero := length_chunkComponents hlength hi
  rw [hnil, List.length_nil] at hzero
  rw [← hzero, Nat.mul_zero] at hlength
  exact nt.nonempty (List.length_eq_zero_iff.mp hlength)

theorem gatherRows_chunk {rows : List τ}
    (hlength : rows.length = chunks * chunkSize) (hi : i < chunks) :
    GatherRows (chunkPlaces chunkSize i) rows
      ((rows.drop (i * chunkSize)).take chunkSize) := by
  have hle : (i + 1) * chunkSize ≤ chunks * chunkSize :=
    Nat.mul_le_mul_right _ hi
  rw [Nat.succ_mul] at hle
  exact gatherRows_slice (by omega)

end Chunked

namespace TensorDict

variable {α ω : Type} {td : TensorDict α ω} {source : PyDict (Column α ω)}
  {batchSize : Option Nat}

theorem make_eq_ok :
    make source batchSize = .ok td ↔
      td.columns = source ∧ td.batchSize = batchSize := by
  rw [make]
  constructor
  · intro h
    split at h
    · cases h
      exact ⟨rfl, rfl⟩
    · cases h
  · rintro ⟨rfl, rfl⟩
    rw [dif_pos td.batched]

theorem exists_make
    (h : ∀ e ∈ source.entries, e.2.Batched batchSize) :
    ∃ td, make source batchSize = .ok td :=
  ⟨⟨source, batchSize, h⟩, dif_pos h⟩

theorem batched_of_get? {key : String} {column : Column α ω}
    (h : td.get? key = some column) : column.Batched td.batchSize :=
  td.batched _ (PyDict.get?_eq_some_iff.mp h)

theorem set_eq_ok {td' : TensorDict α ω} {key : String}
    {column : Column α ω} (h : td.set key column = .ok td') :
    td'.batchSize = td.batchSize ∧ ∀ key', td'.get? key' =
      if key' = key then some column else td.get? key' := by
  obtain ⟨hcolumns, hbatch⟩ := make_eq_ok.mp h
  refine ⟨hbatch, fun key' => ?_⟩
  rw [get?, hcolumns, PyDict.get?_set]
  rfl

theorem exists_set {key : String} {column : Column α ω}
    (h : column.Batched td.batchSize) : ∃ td', td.set key column = .ok td' := by
  apply exists_make
  intro e he
  rcases PyDict.mem_entries_set he with rfl | he
  · exact h
  · exact td.batched e he

theorem mem_nestedItems {item : String × NestedTensor α} :
    item ∈ td.nestedItems ↔ td.get? item.1 = some (.nested item.2) := by
  rw [nestedItems, List.mem_filterMap, get?, PyDict.get?_eq_some_iff]
  constructor
  · rintro ⟨⟨key, column⟩, he, hitem⟩
    obtain ⟨nt, hnt, rfl⟩ := Option.map_eq_some_iff.mp hitem
    cases column with
    | nested nt' =>
        cases hnt
        exact he
    | dense rows => cases hnt
    | stack rows => cases hnt
    | data value => cases hnt
  · exact fun he => ⟨_, he, rfl⟩

theorem mem_nestedKeys {key : String} :
    key ∈ td.nestedItems.map Prod.fst ↔
      ∃ nt, td.get? key = some (.nested nt) := by
  rw [List.mem_map]
  constructor
  · rintro ⟨item, hitem, rfl⟩
    exact ⟨item.2, mem_nestedItems.mp hitem⟩
  · rintro ⟨nt, hnt⟩
    exact ⟨(key, nt), mem_nestedItems.mpr hnt, rfl⟩

theorem nodup_nestedItems (td : TensorDict α ω) :
    (td.nestedItems.map Prod.fst).Nodup := by
  have hsub : ∀ entries : List (String × Column α ω),
      ((entries.filterMap fun e => e.2.nested?.map (Prod.mk e.1)).map
        Prod.fst).Sublist (entries.map Prod.fst) := by
    intro entries
    induction entries with
    | nil => exact .slnil
    | cons e entries ih =>
        rw [List.filterMap_cons]
        cases hnested : e.2.nested? with
        | none => exact ih.cons _
        | some nt => exact ih.cons_cons _
  exact td.columns.nodup.sublist (hsub _)

theorem get?_without (td : TensorDict α ω) (keys : List String)
    (key : String) :
    (td.without keys).get? key =
      if key ∈ keys then none else td.get? key := by
  apply Option.ext
  intro column
  rw [get?, PyDict.get?_eq_some_iff, without, List.mem_filter,
    decide_eq_true_eq]
  split
  · rename_i hmem
    simp [hmem]
  · rename_i hmem
    rw [and_iff_left hmem, get?, PyDict.get?_eq_some_iff]

end TensorDict

section Loops

variable {α ω β σ τ : Type}

theorem foldlM_cons_eq_ok {g : τ → σ → Py τ} {item : σ} {items : List σ}
    {t t' : τ} : (item :: items).foldlM g t = .ok t' ↔
      ∃ next, g t item = .ok next ∧ items.foldlM g next = .ok t' := by
  rw [List.foldlM_cons, bind_eq_ok]

/-- A column computed for each item and written under its key. -/
def write (f : String × β → Py (Column α ω)) (td : TensorDict α ω)
    (item : String × β) : Py (TensorDict α ω) := do
  let column ← f item
  td.set item.1 column

theorem write_eq_ok {f : String × β → Py (Column α ω)}
    {td td' : TensorDict α ω} {item : String × β} :
    write f td item = .ok td' ↔
      ∃ column, f item = .ok column ∧ td.set item.1 column = .ok td' := by
  rw [write, bind_eq_ok]

/-- Writing the columns leaves the others as they are. -/
theorem get?_of_writes {f : String × β → Py (Column α ω)}
    {items : List (String × β)} {td td' : TensorDict α ω}
    (hnodup : (items.map Prod.fst).Nodup)
    (h : items.foldlM (write f) td = .ok td') :
    td'.batchSize = td.batchSize ∧
      (∀ key, key ∉ items.map Prod.fst → td'.get? key = td.get? key) ∧
      ∀ item ∈ items, ∃ column, f item = .ok column ∧
        td'.get? item.1 = some column := by
  induction items generalizing td with
  | nil =>
      cases h
      exact ⟨rfl, fun _ _ => rfl, fun _ h => (List.not_mem_nil h).elim⟩
  | cons item items ih =>
      obtain ⟨next, hnext, hrest⟩ := foldlM_cons_eq_ok.mp h
      obtain ⟨column, hcolumn, hset⟩ := write_eq_ok.mp hnext
      obtain ⟨hbatch, hget⟩ := TensorDict.set_eq_ok hset
      rw [List.map_cons, List.nodup_cons] at hnodup
      obtain ⟨hbatch', hothers, hitems⟩ := ih hnodup.2 hrest
      refine ⟨hbatch'.trans hbatch, fun key hkey => ?_, fun item' hitem' => ?_⟩
      · rw [List.map_cons, List.mem_cons, not_or] at hkey
        rw [hothers key hkey.2, hget key, if_neg hkey.1]
      · rcases List.mem_cons.mp hitem' with rfl | hitem'
        · exact ⟨column, hcolumn, by
            rw [hothers _ hnodup.1, hget, if_pos rfl]⟩
        · exact hitems item' hitem'

theorem exists_writes {f : String × β → Py (Column α ω)}
    {items : List (String × β)} {td : TensorDict α ω}
    (h : ∀ item ∈ items, ∃ column, f item = .ok column ∧
      column.Batched td.batchSize) :
    ∃ td', items.foldlM (write f) td = .ok td' := by
  induction items generalizing td with
  | nil => exact ⟨td, rfl⟩
  | cons item items ih =>
      obtain ⟨⟨column, hcolumn, hbatched⟩, hrest⟩ :=
        List.forall_mem_cons.mp h
      have hset : ∃ next, td.set item.1 column = .ok next :=
        TensorDict.exists_set hbatched
      obtain ⟨next, hnext⟩ := hset
      have hrest' : ∀ item ∈ items, ∃ column, f item = .ok column ∧
          column.Batched next.batchSize := by
        rw [(TensorDict.set_eq_ok hnext).1]
        exact hrest
      obtain ⟨td', htd'⟩ := ih hrest'
      exact ⟨td', foldlM_cons_eq_ok.mpr
        ⟨next, write_eq_ok.mpr ⟨column, hcolumn, hnext⟩, htd'⟩⟩

/-- A pass over all TensorDicts for each item is, for each TensorDict, a pass
over the items. -/
theorem of_foldlM_zipIdx {g : Nat → τ → σ → Py τ} {items : List σ}
    {ts ts' : List τ}
    (h : items.foldlM (fun ts item =>
      ts.zipIdx.mapM fun (t, i) => g i t item) ts = .ok ts') :
    ts'.length = ts.length ∧ ∀ (i : Nat) (t t' : τ), ts[i]? = some t →
      ts'[i]? = some t' → items.foldlM (g i) t = .ok t' := by
  induction items generalizing ts with
  | nil =>
      cases h
      refine ⟨rfl, fun i t t' ht ht' => ?_⟩
      cases ht.symm.trans ht'
      rfl
  | cons item items ih =>
      obtain ⟨next, hnext, hrest⟩ := foldlM_cons_eq_ok.mp h
      have hall := mapM_eq_ok_iff.mp hnext
      obtain ⟨hlength, hitems⟩ := ih hrest
      have hnextLength : next.length = ts.length := by
        rw [← hall.length_eq, List.length_zipIdx]
      refine ⟨hlength.trans hnextLength, fun i t t' ht ht' => ?_⟩
      have hzip : ts.zipIdx[i]? = some (t, i) := by
        rw [List.getElem?_zipIdx, ht, Option.map_some, Nat.zero_add]
      obtain ⟨t₁, ht₁, hstep⟩ := getElem?_of_forall₂ hall hzip
      exact foldlM_cons_eq_ok.mpr ⟨t₁, hstep, hitems i t₁ t' ht₁ ht'⟩

theorem exists_foldlM_zipIdx {g : Nat → τ → σ → Py τ} {items : List σ}
    {ts : List τ} {P : τ → Prop} (hP : ∀ t ∈ ts, P t)
    (hstep : ∀ item ∈ items, ∀ i < ts.length, ∀ t, P t →
      ∃ t', g i t item = .ok t' ∧ P t') :
    ∃ ts', items.foldlM (fun ts item =>
      ts.zipIdx.mapM fun (t, i) => g i t item) ts = .ok ts' := by
  induction items generalizing ts with
  | nil => exact ⟨ts, rfl⟩
  | cons item items ih =>
      obtain ⟨hfirst, hrest⟩ := List.forall_mem_cons.mp hstep
      have hmem : ∀ x ∈ ts.zipIdx, ∃ t', g x.2 x.1 item = .ok t' ∧ P t' := by
        rintro ⟨t, i⟩ hx
        have hget := List.mem_zipIdx_iff_getElem?.mp hx
        exact hfirst i (List.getElem?_eq_some_iff.mp hget).1 t
          (hP t (List.mem_of_getElem? hget))
      obtain ⟨next, hnext⟩ := exists_mapM_eq_ok fun x hx =>
        (hmem x hx).imp fun _ h => h.1
      have hlength : next.length = ts.length := by
        rw [← (mapM_eq_ok_iff.mp hnext).length_eq, List.length_zipIdx]
      have hnextP : ∀ t ∈ next, P t := by
        intro t ht
        obtain ⟨x, hx, hxt⟩ := (mem_iff_of_mapM hnext t).mp ht
        obtain ⟨t', ht', hPt'⟩ := hmem x hx
        cases ht'.symm.trans hxt
        exact hPt'
      obtain ⟨ts', hts'⟩ := ih hnextP (hlength ▸ hrest)
      exact ⟨ts', foldlM_cons_eq_ok.mpr ⟨next, hnext, hts'⟩⟩

end Loops

section Regular

variable {α ω : Type} {td : TensorDict α ω} {n chunks : Nat}

theorem TensorDict.of_chunk {tds : List (TensorDict α ω)}
    (hn : td.batchSize = some n) (h : td.chunk chunks = .ok tds) :
    tds.length = chunks ∧ ∀ (i : Nat) (chunk : TensorDict α ω),
      tds[i]? = some chunk → chunk.batchSize = some (n / chunks) ∧
        ∀ key, chunk.get? key = (td.get? key).map
          (Column.slice (i * (n / chunks)) (n / chunks)) := by
  rw [TensorDict.chunk, hn, mapM_eq_ok_iff] at h
  have hlength : tds.length = chunks := by
    rw [← h.length_eq, List.length_range]
  refine ⟨hlength, fun i chunk hchunk => ?_⟩
  have hi : i < chunks := hlength ▸ (List.getElem?_eq_some_iff.mp hchunk).1
  obtain ⟨chunk', hchunk', hmake⟩ :=
    getElem?_of_forall₂ h (List.getElem?_range hi)
  cases hchunk.symm.trans hchunk'
  obtain ⟨hcolumns, hbatch⟩ := TensorDict.make_eq_ok.mp hmake
  refine ⟨hbatch, fun key => ?_⟩
  rw [TensorDict.get?, hcolumns, PyDict.get?_mapVals]
  rfl

theorem batched_slice {column : Column α ω} {start size : Nat}
    (hnested : column.isNested = false) (hle : start + size ≤ n)
    (hbatched : column.Batched (some n)) :
    (column.slice start size).Batched (some size) := by
  have hslice : ∀ m, m = n → min size (m - start) = size := by omega
  cases column with
  | nested nt => cases hnested
  | data value => trivial
  | dense rows =>
      change ((rows.drop start).take size).length = size
      rw [List.length_take, List.length_drop]
      exact hslice _ hbatched
  | stack rows =>
      change ((rows.drop start).take size).length = size
      rw [List.length_take, List.length_drop]
      exact hslice _ hbatched

theorem isNested_eq_false_of_without {key : String} {column : Column α ω}
    (h : (td.without (td.nestedItems.map Prod.fst)).get? key =
      some column) : td.get? key = some column ∧ column.isNested = false := by
  rw [TensorDict.get?_without] at h
  split at h
  · cases h
  · rename_i hkey
    refine ⟨h, ?_⟩
    cases column with
    | nested nt => exact absurd (TensorDict.mem_nestedKeys.mpr ⟨nt, h⟩) hkey
    | dense rows => rfl
    | stack rows => rfl
    | data value => rfl

theorem exists_chunk_without (hn : td.batchSize = some n)
    (hdvd : chunks ∣ n) :
    ∃ tds, (td.without (td.nestedItems.map Prod.fst)).chunk chunks =
      .ok tds := by
  have hbatch : (td.without (td.nestedItems.map Prod.fst)).batchSize =
      some n := hn
  rw [TensorDict.chunk, hbatch]
  apply exists_mapM_eq_ok
  intro i hi
  have hi : i < chunks := List.mem_range.mp hi
  have hle : (i + 1) * (n / chunks) ≤ chunks * (n / chunks) :=
    Nat.mul_le_mul_right _ hi
  rw [Nat.succ_mul, Nat.mul_div_cancel' hdvd] at hle
  apply TensorDict.exists_make
  intro e he
  obtain ⟨e', he', rfl⟩ := List.mem_map.mp he
  obtain ⟨hget, hnested⟩ := isNested_eq_false_of_without
    (PyDict.get?_eq_some_iff.mpr he')
  exact batched_slice hnested hle (hn ▸ TensorDict.batched_of_get? hget)

end Regular

section ChunkTensordict

variable {α ω : Type} [Zero α] {torch : Torch α} {td : TensorDict α ω}
  {n chunks chunkSize : Nat}

/-- The column chunk `i` gets for a nested one. -/
def chunkColumn (torch : Torch α) (chunks chunkSize i : Nat)
    (item : String × NestedTensor α) : Py (Column α ω) := do
  let piece ← chunkNested torch item.2 chunks chunkSize i
  return .nested piece

theorem chunkColumn_eq_ok {i : Nat} {item : String × NestedTensor α}
    {column : Column α ω} :
    chunkColumn torch chunks chunkSize i item = .ok column ↔
      ∃ piece, chunkNested torch item.2 chunks chunkSize i = .ok piece ∧
        column = .nested piece := by
  rw [chunkColumn, bind_eq_ok]
  refine exists_congr fun piece => and_congr_right fun _ => ?_
  exact ⟨fun h => (Except.ok.inj h).symm, fun h => congrArg Except.ok h.symm⟩

/-- How chunk `i` and the TensorDict it is cut from are related. -/
def IsPiece (torch : Torch α) (chunks chunkSize i : Nat) :
    Column α ω → Column α ω → Prop
  | .nested nt, column => ∃ piece,
      chunkNested torch nt chunks chunkSize i = .ok piece ∧
        column = .nested piece
  | column, column' => column' = column.slice (i * chunkSize) chunkSize

theorem foldlM_chunks (tds : List (TensorDict α ω))
    (items : List (String × NestedTensor α)) :
    items.foldlM (fun tds (key, nt) => tds.zipIdx.mapM fun (chunkTd, i) => do
        let piece ← chunkNested torch nt chunks chunkSize i
        chunkTd.set key (.nested piece)) tds =
      items.foldlM (fun tds item => tds.zipIdx.mapM fun (chunkTd, i) =>
        write (chunkColumn torch chunks chunkSize i) chunkTd item) tds := by
  congr 1
  funext tds item
  obtain ⟨key, nt⟩ := item
  refine congrArg (fun f => tds.zipIdx.mapM f) (funext fun entry => ?_)
  obtain ⟨chunkTd, i⟩ := entry
  simp only [write, chunkColumn, bind_assoc, pure_bind]

theorem chunkTensordict_eq_ok {tds' : List (TensorDict α ω)}
    (hn : td.batchSize = some n) (hchunks : 0 < chunks) (hdvd : chunks ∣ n) :
    chunkTensordict torch td chunks = .ok tds' ↔
      ∃ tds, (td.without (td.nestedItems.map Prod.fst)).chunk chunks =
          .ok tds ∧
        td.nestedItems.foldlM (fun tds item =>
          tds.zipIdx.mapM fun (chunkTd, i) =>
            write (chunkColumn torch chunks (n / chunks) i) chunkTd item)
          tds = .ok tds' := by
  have hlen : td.len = n := by rw [TensorDict.len, hn, Option.getD_some]
  have hmod : floorMod n chunks = .ok 0 := by
    rw [floorMod_eq_ok]
    refine ⟨by omega, ?_⟩
    rw [Int.fmod_eq_zero_of_dvd (Int.natCast_dvd_natCast.mpr hdvd)]
  simp only [chunkTensordict, hlen, hmod, ok_bind, decide_true, pyAssert_true,
    bind_eq_ok, foldlM_chunks]

/-- What a TensorDict that was cut into chunks has in each of them. -/
theorem pieces_of_chunkTensordict {tds' : List (TensorDict α ω)}
    (hn : td.batchSize = some n) (hchunks : 0 < chunks) (hdvd : chunks ∣ n)
    (h : chunkTensordict torch td chunks = .ok tds') :
    tds'.length = chunks ∧ ∀ (i : Nat) (chunk : TensorDict α ω),
      tds'[i]? = some chunk → chunk.batchSize = some (n / chunks) ∧
        ∀ key, Option.Rel (IsPiece torch chunks (n / chunks) i)
          (td.get? key) (chunk.get? key) := by
  obtain ⟨tds, hregular, hloop⟩ :=
    (chunkTensordict_eq_ok hn hchunks hdvd).mp h
  have hbatch : (td.without (td.nestedItems.map Prod.fst)).batchSize =
      some n := hn
  obtain ⟨hlength, hchunk⟩ := TensorDict.of_chunk hbatch hregular
  obtain ⟨hlength', hwrites⟩ := of_foldlM_zipIdx
    (g := fun i => write (chunkColumn torch chunks (n / chunks) i)) hloop
  refine ⟨hlength'.trans hlength, fun i chunk hi => ?_⟩
  have hlt : i < tds.length := by
    rw [← hlength']
    exact (List.getElem?_eq_some_iff.mp hi).1
  have hbase := List.getElem?_eq_getElem hlt
  obtain ⟨hsize, hget⟩ := hchunk i _ hbase
  obtain ⟨hsize', hothers, hitems⟩ := get?_of_writes
    (TensorDict.nodup_nestedItems td) (hwrites i _ chunk hbase hi)
  refine ⟨hsize'.trans hsize, fun key => ?_⟩
  by_cases hkey : key ∈ td.nestedItems.map Prod.fst
  · obtain ⟨nt, hnt⟩ := TensorDict.mem_nestedKeys.mp hkey
    obtain ⟨column, hcolumn, hwritten⟩ :=
      hitems (key, nt) (TensorDict.mem_nestedItems.mpr hnt)
    rw [hnt, hwritten]
    exact .some (chunkColumn_eq_ok.mp hcolumn)
  · rw [hothers key hkey, hget key, TensorDict.get?_without, if_neg hkey]
    cases hcolumn : td.get? key with
    | none => exact .none
    | some column =>
        refine .some ?_
        cases column with
        | nested nt =>
            exact absurd (TensorDict.mem_nestedKeys.mpr ⟨nt, hcolumn⟩) hkey
        | dense rows => rfl
        | stack rows => rfl
        | data value => rfl

theorem exists_chunkTensordict (hn : td.batchSize = some n)
    (hchunks : 0 < chunks) (hdvd : chunks ∣ n)
    (hpieces : ∀ key nt, td.get? key = some (.nested nt) → ∀ i < chunks,
      ∃ piece, chunkNested torch nt chunks (n / chunks) i = .ok piece ∧
        piece.components.length = n / chunks) :
    ∃ tds, chunkTensordict torch td chunks = .ok tds := by
  obtain ⟨tds, htds⟩ := exists_chunk_without hn hdvd
  have hbatch : (td.without (td.nestedItems.map Prod.fst)).batchSize =
      some n := hn
  obtain ⟨hlength, hchunk⟩ := TensorDict.of_chunk hbatch htds
  have hsizes : ∀ t ∈ tds, t.batchSize = some (n / chunks) := by
    intro t ht
    obtain ⟨i, hi⟩ := List.mem_iff_getElem?.mp ht
    exact (hchunk i t hi).1
  have hstep : ∀ item ∈ td.nestedItems, ∀ i < tds.length,
      ∀ t : TensorDict α ω, t.batchSize = some (n / chunks) →
        ∃ t', write (chunkColumn torch chunks (n / chunks) i) t item =
            .ok t' ∧ t'.batchSize = some (n / chunks) := by
    rintro ⟨key, nt⟩ hitem i hi t ht
    obtain ⟨piece, hpiece, hcount⟩ := hpieces key nt
      (TensorDict.mem_nestedItems.mp hitem) i (hlength ▸ hi)
    have hbatched : (Column.nested piece : Column α ω).Batched t.batchSize :=
      ht ▸ hcount
    have hset : ∃ t', t.set key (.nested piece) = .ok t' :=
      TensorDict.exists_set hbatched
    obtain ⟨t', ht'⟩ := hset
    exact ⟨t', write_eq_ok.mpr
      ⟨_, chunkColumn_eq_ok.mpr ⟨piece, hpiece, rfl⟩, ht'⟩,
      (TensorDict.set_eq_ok ht').1.trans ht⟩
  obtain ⟨tds', htds'⟩ := exists_foldlM_zipIdx
    (g := fun i => write (chunkColumn torch chunks (n / chunks) i))
    hsizes hstep
  exact ⟨tds', (chunkTensordict_eq_ok hn hchunks hdvd).mpr
    ⟨tds, htds, htds'⟩⟩

theorem gathers_of_isPiece {column column' : Column α ω} {i : Nat}
    (hpiece : IsPiece torch chunks chunkSize i column column')
    (hbatched : column.Batched (some (chunks * chunkSize))) (hi : i < chunks)
    (hcuts : ∀ nt, column = .nested nt → nt.CutsBack) :
    Gathers (chunkPlaces chunkSize i) column column' := by
  cases column with
  | nested nt =>
      obtain ⟨piece, hchunk, rfl⟩ := hpiece
      rw [chunkNested_of_cutsBack hbatched hi (hcuts nt rfl)] at hchunk
      change GatherRows _ _ piece.components
      rw [components_of_asNestedTensor hchunk]
      exact gatherRows_chunk hbatched hi
  | dense rows =>
      cases hpiece
      exact gatherRows_chunk hbatched hi
  | stack rows =>
      cases hpiece
      exact gatherRows_chunk hbatched hi
  | data value =>
      cases hpiece
      rfl

/-- Where the fallback cuts the rows back, chunking succeeds on both paths and
gives each chunk its rows. -/
theorem chunkTensordict_of_cutsBack (hn : td.batchSize = some n)
    (hchunks : 0 < chunks) (hdvd : chunks ∣ n)
    (hcuts : ∀ key nt, td.get? key = some (.nested nt) → nt.CutsBack) :
    ∃ tds, chunkTensordict torch td chunks = .ok tds ∧
      tds.length = chunks ∧ ∀ (i : Nat) (chunk : TensorDict α ω),
        tds[i]? = some chunk →
          Aligned td (chunkPlaces (n / chunks) i) chunk := by
  have hcount : chunks * (n / chunks) = n := Nat.mul_div_cancel' hdvd
  have hbatched : ∀ {key column}, td.get? key = some column →
      column.Batched (some (chunks * (n / chunks))) := by
    intro key column hcolumn
    rw [hcount, ← hn]
    exact TensorDict.batched_of_get? hcolumn
  have hpieces : ∀ key nt, td.get? key = some (.nested nt) → ∀ i < chunks,
      ∃ piece, chunkNested torch nt chunks (n / chunks) i = .ok piece ∧
        piece.components.length = n / chunks := by
    intro key nt hnt i hi
    obtain ⟨piece, hpiece⟩ := exists_chunkComponents (hbatched hnt) hi
    refine ⟨piece, ?_, ?_⟩
    · rw [chunkNested_of_cutsBack (hbatched hnt) hi (hcuts key nt hnt), hpiece]
    · rw [components_of_asNestedTensor hpiece,
        length_chunkComponents (hbatched hnt) hi]
  obtain ⟨tds, htds⟩ := exists_chunkTensordict hn hchunks hdvd hpieces
  obtain ⟨hlength, hall⟩ := pieces_of_chunkTensordict hn hchunks hdvd htds
  refine ⟨tds, htds, hlength, fun i chunk hchunk => ?_⟩
  have hi : i < chunks := hlength ▸ (List.getElem?_eq_some_iff.mp hchunk).1
  obtain ⟨hsize, hcolumns⟩ := hall i chunk hchunk
  refine ⟨by rw [hsize, chunkPlaces, List.length_range'], fun key => ?_⟩
  have hrel := hcolumns key
  generalize hcolumn : td.get? key = column at hrel ⊢
  generalize chunk.get? key = column' at hrel ⊢
  cases hrel with
  | none => exact .none
  | some hpiece =>
      refine .some (gathers_of_isPiece hpiece (hbatched hcolumn) hi ?_)
      rintro nt rfl
      exact hcuts key nt hcolumn

end ChunkTensordict

section Fallback

variable {α ω : Type} [Zero α] {td : TensorDict α ω} {n chunks : Nat}

/-- `unbind` that fails wherever it may. -/
def failingTorch (α : Type) : Torch α where
  unbindRaises nt := decide (∀ x ∈ nt.components, 2 ≤ x.shape.length)
  takesFloatIndex := true
  inner_of_unbindRaises _ h := of_decide_eq_true h

omit [Zero α] in
theorem exists_mem_chunkComponents {nt : NestedTensor α} {chunkSize : Nat}
    (hlength : nt.components.length = chunks * chunkSize) {x : NdArray α}
    (hx : x ∈ nt.components) :
    ∃ i < chunks, x ∈ chunkComponents nt chunkSize i := by
  obtain ⟨k, hk⟩ := List.mem_iff_getElem?.mp hx
  have hlt := (List.getElem?_eq_some_iff.mp hk).1
  obtain ⟨i, hi, j, hj, rfl⟩ := Blocks.exists_place (hlength ▸ hlt)
  refine ⟨i, hi, List.mem_iff_getElem?.mpr ⟨j, ?_⟩⟩
  rw [chunkComponents, List.getElem?_take_of_lt hj, List.getElem?_drop, hk]

/-- Chunks with the right rows on the fallback path. -/
theorem cutsBack_of_chunkTensordict (hn : td.batchSize = some n)
    (hchunks : 0 < chunks) (hdvd : chunks ∣ n) {tds : List (TensorDict α ω)}
    (htds : chunkTensordict (failingTorch α) td chunks = .ok tds)
    (haligned : ∀ (i : Nat) (chunk : TensorDict α ω), tds[i]? = some chunk →
      Aligned td (chunkPlaces (n / chunks) i) chunk) {key : String}
    {nt : NestedTensor α} (hnt : td.get? key = some (.nested nt)) :
    nt.CutsBack := by
  have hcount : chunks * (n / chunks) = n := Nat.mul_div_cancel' hdvd
  have hlength : nt.components.length = chunks * (n / chunks) := by
    have hbatched := TensorDict.batched_of_get? hnt
    rw [hn] at hbatched
    exact hbatched.trans hcount.symm
  obtain ⟨htdsLength, hpieces⟩ :=
    pieces_of_chunkTensordict hn hchunks hdvd htds
  by_cases hragged : nt.raggedIdx = 0
  · exact .inl hragged
  have hraises : (failingTorch α).unbindRaises nt = true := by
    rw [failingTorch, decide_eq_true_eq]
    intro x hx
    have hd := (nt.fits x hx x hx).1
    omega
  rw [NestedTensor.cutsBack_iff]
  intro x hx
  obtain ⟨i, hi, hmem⟩ := exists_mem_chunkComponents hlength hx
  have hlt : i < tds.length := htdsLength ▸ hi
  have hchunk : tds[i]? = some tds[i] := List.getElem?_eq_getElem hlt
  have hpiece := (hpieces i _ hchunk).2 key
  have hgathers := (haligned i _ hchunk).columns key
  generalize tds[i].get? key = column at hpiece hgathers
  rw [hnt] at hpiece hgathers
  cases hpiece with
  | some hpiece =>
      cases hgathers with
      | some hgathers =>
          obtain ⟨piece, hpiece, rfl⟩ := hpiece
          rw [chunkNested_eq hlength hi, if_pos hraises] at hpiece
          have hcut := components_of_asNestedTensor hpiece
          have hsame := GatherRows.unique hgathers (gatherRows_chunk hlength hi)
          rw [hcut] at hsame
          exact List.map_inj_left.mp (hsame.trans (List.map_id _).symm) x hmem

end Fallback

section Cat

variable {α ω τ : Type} {td : TensorDict α ω}

theorem Gathers.batched {places : List Nat} {column column' : Column α ω}
    (h : Gathers places column column') :
    column'.Batched (some places.length) := by
  cases column <;> cases column' <;>
    first | exact h.elim | exact GatherRows.length h | trivial

theorem exists_rows_of_gathers {column : Column α ω}
    {mk : List τ → Column α ω} {rows : List τ}
    (hmk : ∀ places column', Gathers places column column' →
      ∃ part, mk part = column' ∧ GatherRows places rows part)
    {places : List (List Nat)} {columns : List (Column α ω)}
    (h : List.Forall₂ (fun places column' => Gathers places column column')
      places columns) :
    ∃ parts, parts.map mk = columns ∧
      List.Forall₂ (fun places part => GatherRows places rows part)
        places parts := by
  induction h with
  | nil => exact ⟨[], rfl, .nil⟩
  | cons hfirst _ ih =>
      obtain ⟨part, rfl, hpart⟩ := hmk _ _ hfirst
      obtain ⟨parts, rfl, hparts⟩ := ih
      exact ⟨part :: parts, rfl, .cons hpart hparts⟩

theorem catColumns_dense {parts : List (List (NdArray α))}
    (hne : parts ≠ []) :
    catColumns (parts.map Column.dense : List (Column α ω)) =
      .ok (.dense parts.flatten) := by
  obtain ⟨part, parts, rfl⟩ := List.exists_cons_of_ne_nil hne
  have hmore : (parts.map Column.dense : List (Column α ω)).mapM (fun
      | .dense rows => (.ok rows : Py (List (NdArray α)))
      | _ => .error (.typeError "torch.cat: not a dense tensor")) =
      .ok parts := by
    rw [mapM_eq_ok_iff, List.forall₂_map_left_iff, List.forall₂_same]
    exact fun _ _ => rfl
  rw [List.map_cons, catColumns, hmore]
  rfl

theorem catColumns_stack {parts : List (List ω)} (hne : parts ≠ []) :
    catColumns (parts.map Column.stack : List (Column α ω)) =
      .ok (.stack parts.flatten) := by
  obtain ⟨part, parts, rfl⟩ := List.exists_cons_of_ne_nil hne
  have hmore : (parts.map Column.stack : List (Column α ω)).mapM (fun
      | .stack rows => (.ok rows : Py (List ω))
      | _ => .error (.typeError "torch.cat: not a stack")) = .ok parts := by
    rw [mapM_eq_ok_iff, List.forall₂_map_left_iff, List.forall₂_same]
    exact fun _ _ => rfl
  rw [List.map_cons, catColumns, hmore]
  rfl

/-- Columns with rows of one column, put behind each other. -/
theorem exists_catColumns {column : Column α ω}
    (hnested : column.isNested = false) {places : List (List Nat)}
    {columns : List (Column α ω)} (hne : columns ≠ [])
    (h : List.Forall₂ (fun places column' => Gathers places column column')
      places columns) :
    ∃ out, catColumns columns = .ok out ∧
      Gathers places.flatten column out := by
  cases column with
  | nested nt => cases hnested
  | dense rows =>
      have hmk : ∀ places (column' : Column α ω),
          Gathers places (.dense rows) column' →
            ∃ part, .dense part = column' ∧ GatherRows places rows part := by
        intro places column' hgathers
        cases column' with
        | dense part => exact ⟨part, rfl, hgathers⟩
        | nested nt => exact hgathers.elim
        | stack part => exact hgathers.elim
        | data value => exact hgathers.elim
      obtain ⟨parts, rfl, hparts⟩ := exists_rows_of_gathers hmk h
      exact ⟨_, catColumns_dense (by rintro rfl; exact hne rfl),
        GatherRows.flatten hparts⟩
  | stack rows =>
      have hmk : ∀ places (column' : Column α ω),
          Gathers places (.stack rows) column' →
            ∃ part, .stack part = column' ∧ GatherRows places rows part := by
        intro places column' hgathers
        cases column' with
        | stack part => exact ⟨part, rfl, hgathers⟩
        | nested nt => exact hgathers.elim
        | dense part => exact hgathers.elim
        | data value => exact hgathers.elim
      obtain ⟨parts, rfl, hparts⟩ := exists_rows_of_gathers hmk h
      exact ⟨_, catColumns_stack (by rintro rfl; exact hne rfl),
        GatherRows.flatten hparts⟩
  | data value =>
      cases h with
      | nil => exact absurd rfl hne
      | @cons _ column' _ _ hfirst _ =>
          cases column' with
          | data value' =>
              cases hfirst
              exact ⟨_, rfl, rfl⟩
          | dense rows => exact hfirst.elim
          | stack rows => exact hfirst.elim
          | nested nt => exact hfirst.elim

/-- One column of all TensorDicts. -/
theorem exists_columns {places : List (List Nat)}
    {tds : List (TensorDict α ω)}
    (h : List.Forall₂ (fun places out => Aligned td places out) places tds)
    {key : String} {column : Column α ω}
    (hcolumn : td.get? key = some column) :
    ∃ columns, tds.mapM (fun td => td.columns.get key) = .ok columns ∧
      List.Forall₂ (fun places column' => Gathers places column column')
        places columns := by
  induction h with
  | nil => exact ⟨[], rfl, .nil⟩
  | @cons _ out _ _ hfirst _ ih =>
      obtain ⟨columns, hcolumns, hgathers⟩ := ih
      have hrel := hfirst.columns key
      rw [hcolumn] at hrel
      cases hget : out.get? key with
      | none =>
          rw [hget] at hrel
          cases hrel
      | some column' =>
          rw [hget] at hrel
          cases hrel with
          | some hgather =>
              have hok : out.columns.get key = .ok column' :=
                PyDict.get_eq_ok.mpr (PyDict.get?_eq_some_iff.mp hget)
              refine ⟨column' :: columns, ?_, .cons hgather hgathers⟩
              rw [List.mapM_cons, hok, ok_bind, hcolumns]
              rfl

theorem mapM_batchSize {places : List (List Nat)}
    {tds : List (TensorDict α ω)}
    (h : List.Forall₂ (fun places out => Aligned td places out) places tds) :
    (tds.mapM fun td => match td.batchSize with
      | some n => (.ok n : Py Nat)
      | none => .error .indexError) = .ok (places.map List.length) := by
  rw [mapM_eq_ok_iff, List.forall₂_map_right_iff]
  apply h.flip.imp
  intro out places haligned
  simp only [haligned.batchSize]

/-- TensorDicts without nested columns, put behind each other. -/
theorem exists_cat {places : List (List Nat)} {tds : List (TensorDict α ω)}
    (hne : tds ≠ [])
    (hnested : ∀ key column, td.get? key = some column →
      column.isNested = false)
    (h : List.Forall₂ (fun places out => Aligned td places out) places tds) :
    ∃ out, cat tds = .ok out ∧ Aligned td places.flatten out := by
  obtain ⟨first, rest, rfl⟩ := List.exists_cons_of_ne_nil hne
  obtain ⟨place, _, hfirst, -, -⟩ := List.forall₂_cons_right_iff.mp h
  have hcat : ∀ key column, td.get? key = some column → ∃ out,
      ((first :: rest).mapM (fun td => td.columns.get key) >>= catColumns) =
        .ok out ∧ Gathers places.flatten column out := by
    intro key column hcolumn
    obtain ⟨columns, hcolumns, hgathers⟩ := exists_columns h hcolumn
    have hcolumnsNe : columns ≠ [] := by
      rintro rfl
      rw [List.mapM_cons] at hcolumns
      obtain ⟨_, -, hcolumns⟩ := bind_eq_ok.mp hcolumns
      obtain ⟨_, -, hcolumns⟩ := bind_eq_ok.mp hcolumns
      cases hcolumns
    obtain ⟨out, hout, hgather⟩ := exists_catColumns
      (hnested key column hcolumn) hcolumnsNe hgathers
    exact ⟨out, bind_eq_ok.mpr ⟨columns, hcolumns, hout⟩, hgather⟩
  have hentries : ∀ e ∈ first.columns.entries, ∃ out,
      ((first :: rest).mapM (fun td => td.columns.get e.1) >>= catColumns) =
        .ok out := by
    intro e he
    have hrel := hfirst.columns e.1
    have hget : first.get? e.1 = some e.2 := PyDict.get?_eq_some_iff.mpr he
    rw [hget] at hrel
    generalize hcolumn : td.get? e.1 = column at hrel
    cases hrel with
    | some hgather =>
        obtain ⟨out, hout, -⟩ := hcat e.1 _ hcolumn
        exact ⟨out, hout⟩
  obtain ⟨columns, hcolumns⟩ := PyDict.exists_mapEntriesM
    (f := fun key _ =>
      (first :: rest).mapM (fun td => td.columns.get key) >>= catColumns)
    hentries
  have hrel : ∀ key, Option.Rel (Gathers places.flatten) (td.get? key)
      (columns.get? key) := by
    intro key
    have hfirstRel := hfirst.columns key
    have hmapRel := PyDict.get?_of_mapEntriesM hcolumns key
    rw [← TensorDict.get?] at hmapRel
    generalize hcolumn : td.get? key = column at hfirstRel ⊢
    generalize first.get? key = column₁ at hfirstRel hmapRel
    cases hfirstRel with
    | none =>
        generalize columns.get? key = column₂ at hmapRel ⊢
        cases hmapRel
        exact .none
    | some _ =>
        obtain ⟨out, hout, hgather⟩ := hcat key _ hcolumn
        generalize columns.get? key = column₂ at hmapRel ⊢
        cases hmapRel with
        | some hmap =>
            cases hmap.symm.trans hout
            exact .some hgather
  have hsum : (places.map List.length).sum = places.flatten.length :=
    List.length_flatten.symm
  have hbatched : ∀ e ∈ columns.entries,
      e.2.Batched (some (places.map List.length).sum) := by
    intro e he
    have hgather := hrel e.1
    rw [PyDict.get?_eq_some_iff.mpr he] at hgather
    generalize td.get? e.1 = column at hgather
    cases hgather with
    | some hgather => exact hsum ▸ hgather.batched
  obtain ⟨out, hout⟩ := TensorDict.exists_make hbatched
  obtain ⟨houtColumns, houtBatch⟩ := TensorDict.make_eq_ok.mp hout
  refine ⟨out, ?_, hsum ▸ houtBatch, fun key => ?_⟩
  · simp only [cat, bind_eq_ok]
    exact ⟨columns, hcolumns, _, mapM_batchSize h, hout⟩
  · change Option.Rel _ _ (out.columns.get? key)
    rw [houtColumns]
    exact hrel key

end Cat

section Concat

variable {α ω : Type} {torch : Torch α} {td : TensorDict α ω}

/-- The nested column of the concatenation under a key. -/
def concatColumn (torch : Torch α) (tds : List (TensorDict α ω))
    (item : String × NestedTensor α) : Py (Column α ω) := do
  let nested ← tds.mapM fun td => getNested td item.1
  let tensor ← concatNestedTensors torch nested
  return .nested tensor

theorem foldlM_concat (tds : List (TensorDict α ω)) (output : TensorDict α ω)
    (items : List (String × NestedTensor α)) :
    items.foldlM (fun output (key, _) => do
        let nested ← tds.mapM fun td => getNested td key
        let tensor ← concatNestedTensors torch nested
        output.set key (.nested tensor)) output =
      items.foldlM (write (concatColumn torch tds)) output := by
  congr 1
  funext output item
  simp only [write, concatColumn, bind_assoc, pure_bind]

theorem concatColumn_eq_ok {tds : List (TensorDict α ω)}
    {item : String × NestedTensor α} {column : Column α ω} :
    concatColumn torch tds item = .ok column ↔
      ∃ nested, (tds.mapM fun td => getNested td item.1) = .ok nested ∧
        (∀ nt ∈ nested, torch.unbindRaises nt = false) ∧
        ∃ tensor, asNestedTensor
            (nested.flatMap NestedTensor.components) = .ok tensor ∧
          column = .nested tensor := by
  simp only [concatColumn, concatNestedTensors, bind_eq_ok]
  refine exists_congr fun nested => and_congr_right fun _ => ?_
  constructor
  · rintro ⟨tensor, ⟨rows, hrows, htensor⟩, hcolumn⟩
    have hall := mapM_eq_ok_iff.mp hrows
    have hrows : nested.map NestedTensor.components = rows := by
      rw [← List.forall₂_eq_eq_eq, List.forall₂_map_left_iff]
      exact hall.imp fun _ _ h => (unbind_eq_ok.mp h).2
    refine ⟨fun nt hnt => ?_, tensor, ?_, (Except.ok.inj hcolumn).symm⟩
    · obtain ⟨i, hi⟩ := List.mem_iff_getElem?.mp hnt
      obtain ⟨_, -, hunbind⟩ := getElem?_of_forall₂ hall hi
      exact (unbind_eq_ok.mp hunbind).1
    · rw [List.flatMap_def, hrows]
      exact htensor
  · rintro ⟨hunbinds, tensor, htensor, rfl⟩
    refine ⟨tensor, ⟨nested.map NestedTensor.components, ?_, ?_⟩, rfl⟩
    · exact mapM_eq_ok_of_forall fun nt hnt =>
        unbind_eq_ok.mpr ⟨hunbinds nt hnt, rfl⟩
    · rwa [← List.flatMap_def]

theorem getNested_eq_ok {key : String} {nt : NestedTensor α} :
    getNested td key = .ok nt ↔ td.get? key = some (.nested nt) := by
  rw [getNested, bind_eq_ok, TensorDict.get?]
  simp only [PyDict.get_eq_ok, ← PyDict.get?_eq_some_iff]
  constructor
  · rintro ⟨column, hcolumn, hnt⟩
    cases column with
    | nested nt' =>
        cases hnt
        exact hcolumn
    | dense rows => cases hnt
    | stack rows => cases hnt
    | data value => cases hnt
  · exact fun h => ⟨_, h, rfl⟩

theorem Aligned.nested {places : List Nat} {out : TensorDict α ω}
    (h : Aligned td places out) {key : String} {nt : NestedTensor α}
    (hnt : td.get? key = some (.nested nt)) :
    ∃ nt', out.get? key = some (.nested nt') ∧
      GatherRows places nt.components nt'.components := by
  have hrel := h.columns key
  rw [hnt] at hrel
  generalize out.get? key = column at hrel ⊢
  cases hrel with
  | @some _ column hgather =>
      cases column with
      | nested nt' => exact ⟨nt', rfl, hgather⟩
      | dense rows => exact hgather.elim
      | stack rows => exact hgather.elim
      | data value => exact hgather.elim

theorem Aligned.mem_nestedKeys {places : List Nat} {out : TensorDict α ω}
    (h : Aligned td places out) {key : String} :
    key ∈ out.nestedItems.map Prod.fst ↔
      key ∈ td.nestedItems.map Prod.fst := by
  rw [TensorDict.mem_nestedKeys, TensorDict.mem_nestedKeys]
  constructor
  · rintro ⟨nt', hnt'⟩
    have hrel := h.columns key
    rw [hnt'] at hrel
    generalize td.get? key = column at hrel ⊢
    cases hrel with
    | @some column _ hgather =>
        cases column with
        | nested nt => exact ⟨nt, rfl⟩
        | dense rows => exact hgather.elim
        | stack rows => exact hgather.elim
        | data value => exact hgather.elim
  · rintro ⟨nt, hnt⟩
    obtain ⟨nt', hnt', -⟩ := h.nested hnt
    exact ⟨nt', hnt'⟩

theorem Aligned.without {places : List Nat} {out : TensorDict α ω}
    (h : Aligned td places out) (keys : List String) :
    Aligned (td.without keys) places (out.without keys) := by
  refine ⟨h.batchSize, fun key => ?_⟩
  rw [TensorDict.get?_without, TensorDict.get?_without]
  split
  · exact .none
  · exact h.columns key

/-- The nested columns of all TensorDicts, unbound behind each other. -/
theorem exists_nested {places : List (List Nat)}
    {tds : List (TensorDict α ω)}
    (h : List.Forall₂ (fun places out => Aligned td places out) places tds)
    {key : String} {nt : NestedTensor α}
    (hnt : td.get? key = some (.nested nt)) :
    ∃ nested, (tds.mapM fun td => getNested td key) = .ok nested ∧
      GatherRows places.flatten nt.components
        (nested.flatMap NestedTensor.components) := by
  induction h with
  | nil => exact ⟨[], rfl, rfl⟩
  | cons hfirst _ ih =>
      obtain ⟨nested, hnested, hgathers⟩ := ih
      obtain ⟨nt', hnt', hgather⟩ := hfirst.nested hnt
      refine ⟨nt' :: nested, ?_, ?_⟩
      · rw [List.mapM_cons, getNested_eq_ok.mpr hnt', ok_bind, hnested]
        rfl
      · rw [GatherRows, List.flatMap_cons, List.flatten_cons, List.map_append,
          List.map_append, hgather, hgathers]

theorem mem_of_gatherRows {τ : Type} {places : List Nat} {rows rows' : List τ}
    (h : GatherRows places rows rows') {x : τ} (hx : x ∈ rows') : x ∈ rows := by
  have hmem : some x ∈ rows'.map some := List.mem_map_of_mem hx
  rw [h] at hmem
  obtain ⟨i, -, hi⟩ := List.mem_map.mp hmem
  exact List.mem_of_getElem? hi

/-- The nested column the loop writes under a key. -/
theorem exists_concatColumn {places : List (List Nat)}
    {tds : List (TensorDict α ω)} (hne : tds ≠ [])
    (h : List.Forall₂ (fun places out => Aligned td places out) places tds)
    {key : String} {nt : NestedTensor α} (nt' : NestedTensor α)
    (hnt : td.get? key = some (.nested nt))
    (hunbinds : ∀ out ∈ tds, ∀ nt, out.get? key = some (.nested nt) →
      torch.unbindRaises nt = false) :
    ∃ tensor, concatColumn torch tds (key, nt') = .ok (.nested tensor) ∧
      GatherRows places.flatten nt.components tensor.components := by
  obtain ⟨nested, hnested, hgather⟩ := exists_nested h hnt
  have hrows : nested.flatMap NestedTensor.components ≠ [] := by
    obtain ⟨first, rest, rfl⟩ := List.exists_cons_of_ne_nil hne
    rw [List.mapM_cons] at hnested
    obtain ⟨nt₁, -, hrest⟩ := bind_eq_ok.mp hnested
    obtain ⟨nts, -, hrest⟩ := bind_eq_ok.mp hrest
    cases hrest
    rw [List.flatMap_cons]
    exact List.append_ne_nil_of_left_ne_nil nt₁.nonempty _
  obtain ⟨tensor, htensor⟩ := exists_asNestedTensor (d := nt.raggedIdx) hrows
    fun x hx y hy => nt.fits x (mem_of_gatherRows hgather hx) y
      (mem_of_gatherRows hgather hy)
  refine ⟨tensor, concatColumn_eq_ok.mpr
    ⟨nested, hnested, fun nt₁ hmem => ?_, tensor, htensor, rfl⟩, ?_⟩
  · obtain ⟨out, hout, hget⟩ := (mem_iff_of_mapM hnested nt₁).mp hmem
    exact hunbinds out hout nt₁ (getNested_eq_ok.mp hget)
  · rwa [components_of_asNestedTensor htensor]

/-- Where `unbind` fails on none of the nested columns, the TensorDicts are put
behind each other. -/
theorem exists_concatTensordict {places : List (List Nat)}
    {tds : List (TensorDict α ω)} (hne : tds ≠ [])
    (h : List.Forall₂ (fun places out => Aligned td places out) places tds)
    (hunbinds : ∀ out ∈ tds, ∀ key nt, out.get? key = some (.nested nt) →
      torch.unbindRaises nt = false) :
    ∃ out, concatTensordict torch tds = .ok out ∧
      Aligned td places.flatten out := by
  obtain ⟨first, rest, rfl⟩ := List.exists_cons_of_ne_nil hne
  obtain ⟨place, _, hfirst, -, -⟩ := List.forall₂_cons_right_iff.mp h
  by_cases hkeys : first.nestedItems.map Prod.fst = []
  · have hnested : ∀ key column, td.get? key = some column →
        column.isNested = false := by
      intro key column hcolumn
      cases column with
      | nested nt =>
          have hmem := hfirst.mem_nestedKeys.mpr
            (TensorDict.mem_nestedKeys.mpr ⟨nt, hcolumn⟩)
          rw [hkeys] at hmem
          cases hmem
      | dense rows => rfl
      | stack rows => rfl
      | data value => rfl
    obtain ⟨out, hout, haligned⟩ := exists_cat hne hnested h
    have hbatch : first.batchSize ≠ none := by simp [hfirst.batchSize]
    refine ⟨out, ?_, haligned⟩
    simp only [concatTensordict, if_pos hkeys, if_neg hbatch]
    exact hout
  · have hkeyIff : ∀ key, key ∈ first.nestedItems.map Prod.fst ↔
        ∃ nt, td.get? key = some (.nested nt) := by
      intro key
      rw [hfirst.mem_nestedKeys, TensorDict.mem_nestedKeys]
    generalize hkeysEq : first.nestedItems.map Prod.fst = keys at hkeys hkeyIff
    have hnested : ∀ key column, (td.without keys).get? key = some column →
        column.isNested = false := by
      intro key column hcolumn
      rw [TensorDict.get?_without] at hcolumn
      split at hcolumn
      · cases hcolumn
      · rename_i hkey
        cases column with
        | nested nt => exact absurd ((hkeyIff key).mpr ⟨nt, hcolumn⟩) hkey
        | dense rows => rfl
        | stack rows => rfl
        | data value => rfl
    have hwithout : List.Forall₂
        (fun places out => Aligned (td.without keys) places out) places
        ((first :: rest).map fun td => td.without keys) := by
      rw [List.forall₂_map_right_iff]
      exact h.imp fun _ _ haligned => haligned.without keys
    obtain ⟨output, houtput, hregular⟩ := exists_cat (by simp) hnested hwithout
    have hassert : ((first :: rest).mapM fun td => do
        assertSameNested keys td
        return td.without keys) =
        .ok ((first :: rest).map fun td => td.without keys) := by
      apply mapM_eq_ok_of_forall
      intro out hout
      obtain ⟨_, -, haligned⟩ := exists_of_forall₂_right h hout
      have hsame : ∀ key, key ∈ out.nestedItems.map Prod.fst ↔ key ∈ keys := by
        intro key
        rw [haligned.mem_nestedKeys, TensorDict.mem_nestedKeys, hkeyIff]
      rw [assertSameNested, decide_eq_true
        ⟨fun key hkey => (hsame key).mp hkey,
          fun key hkey => (hsame key).mpr hkey⟩, pyAssert_true]
      rfl
    have hcolumns : ∀ item ∈ first.nestedItems, ∃ column,
        concatColumn torch (first :: rest) item = .ok column ∧
          column.Batched output.batchSize := by
      rintro ⟨key, nt₁⟩ hitem
      obtain ⟨nt, hnt⟩ := (hkeyIff key).mp
        (hkeysEq ▸ List.mem_map_of_mem hitem)
      obtain ⟨tensor, htensor, hgather⟩ := exists_concatColumn hne h nt₁ hnt
        fun out hout nt => hunbinds out hout key nt
      refine ⟨_, htensor, ?_⟩
      rw [hregular.batchSize]
      exact hgather.length
    obtain ⟨out, hout⟩ := exists_writes hcolumns
    obtain ⟨hbatch, hothers, hitems⟩ := get?_of_writes
      (TensorDict.nodup_nestedItems first) hout
    refine ⟨out, ?_, hbatch.trans hregular.batchSize, fun key => ?_⟩
    · simp only [concatTensordict, hkeysEq, if_neg hkeys, hassert, ok_bind,
        houtput, foldlM_concat]
      exact hout
    · by_cases hkey : key ∈ keys
      · obtain ⟨nt, hnt⟩ := (hkeyIff key).mp hkey
        obtain ⟨item, hitem, rfl⟩ := List.mem_map.mp (hkeysEq ▸ hkey)
        obtain ⟨column, hcolumn, hget⟩ := hitems item hitem
        obtain ⟨tensor, htensor, hgather⟩ := exists_concatColumn hne h item.2
          hnt fun out hout nt => hunbinds out hout item.1 nt
        cases hcolumn.symm.trans htensor
        rw [hnt, hget]
        exact .some hgather
      · have hrel := hregular.columns key
        rw [TensorDict.get?_without, if_neg hkey] at hrel
        rw [hothers key (hkeysEq ▸ hkey)]
        exact hrel

/-- A concatenation has unbound all nested columns. -/
theorem unbindRaises_of_concatTensordict {places : List (List Nat)}
    {tds : List (TensorDict α ω)} {out : TensorDict α ω}
    (h : List.Forall₂ (fun places out => Aligned td places out) places tds)
    (hout : concatTensordict torch tds = .ok out) {td' : TensorDict α ω}
    (hmem : td' ∈ tds) {key : String} {nt : NestedTensor α}
    (hnt : td'.get? key = some (.nested nt)) :
    torch.unbindRaises nt = false := by
  cases tds with
  | nil => cases hmem
  | cons first rest =>
      obtain ⟨place, _, hfirst, -, -⟩ := List.forall₂_cons_right_iff.mp h
      obtain ⟨_, -, haligned⟩ := exists_of_forall₂_right h hmem
      have hkey : key ∈ first.nestedItems.map Prod.fst := by
        rw [hfirst.mem_nestedKeys, ← haligned.mem_nestedKeys,
          TensorDict.mem_nestedKeys]
        exact ⟨nt, hnt⟩
      have hkeys : first.nestedItems.map Prod.fst ≠ [] :=
        List.ne_nil_of_mem hkey
      simp only [concatTensordict, if_neg hkeys, foldlM_concat] at hout
      obtain ⟨_, -, hout⟩ := bind_eq_ok.mp hout
      obtain ⟨output, -, hout⟩ := bind_eq_ok.mp hout
      obtain ⟨-, -, hitems⟩ := get?_of_writes
        (TensorDict.nodup_nestedItems first) hout
      obtain ⟨item, hitem, rfl⟩ := List.mem_map.mp hkey
      obtain ⟨column, hcolumn, -⟩ := hitems item hitem
      obtain ⟨nested, hnested, hunbinds, -⟩ := concatColumn_eq_ok.mp hcolumn
      exact hunbinds nt ((mem_iff_of_mapM hnested nt).mpr
        ⟨td', hmem, getNested_eq_ok.mpr hnt⟩)

end Concat

section Select

variable {α ω τ : Type} {torch : Torch α} {td : TensorDict α ω} {n : Nat}
  {indices : Indices}

theorem rowAt_eq_ok {xs : List τ} {i : Int} {x : τ} (hn : xs.length = n)
    (hlow : -(n : Int) ≤ i) :
    rowAt xs i = .ok x ↔ xs[place n i]? = some x := by
  rw [rowAt, hn, if_neg (by omega), itemAt_eq_ok]

theorem rowsAt_eq_ok {xs rows : List τ} {items : List Int}
    (hn : xs.length = n) (hrange : ∀ i ∈ items, -(n : Int) ≤ i) :
    items.mapM (rowAt xs) = .ok rows ↔
      GatherRows (items.map (place n)) xs rows := by
  rw [mapM_eq_ok_iff, GatherRows, List.map_map, ← List.forall₂_eq_eq_eq,
    List.forall₂_map_left_iff, List.forall₂_map_right_iff]
  constructor
  · intro h
    refine (List.forall₂_iff_get.mpr ⟨h.length_eq.symm, fun i hi hi' => ?_⟩)
    have hrow := h.get hi' hi
    rw [rowAt_eq_ok hn (hrange _ (List.get_mem ..))] at hrow
    exact hrow.symm
  · intro h
    refine (List.forall₂_iff_get.mpr ⟨h.length_eq.symm, fun i hi hi' => ?_⟩)
    rw [rowAt_eq_ok hn (hrange _ (List.get_mem ..))]
    exact (h.get hi' hi).symm

theorem exists_rowsAt {xs : List τ} {items : List Int} (hn : xs.length = n)
    (hrange : ∀ i ∈ items, -(n : Int) ≤ i ∧ i < n) :
    ∃ rows, items.mapM (rowAt xs) = .ok rows := by
  apply exists_mapM_eq_ok
  intro i hi
  obtain ⟨hlow, hhigh⟩ := hrange i hi
  have hplace : place n i < xs.length := by
    rw [place]
    split <;> omega
  exact ⟨xs[place n i], (rowAt_eq_ok hn hlow).mpr
    (List.getElem?_eq_getElem hplace)⟩

/-- A column whose rows can be selected, with the rows selected. -/
theorem exists_selectColumn {column : Column α ω}
    (hbatched : column.Batched (some n))
    (hrange : ∀ i ∈ indices.items, -(n : Int) ≤ i ∧ i < n)
    (h : Indexable torch indices column) :
    ∃ out, selectColumn torch (some n) indices column = .ok out ∧
      Gathers (indices.items.map (place n)) column out := by
  have hlow : ∀ i ∈ indices.items, -(n : Int) ≤ i :=
    fun i hi => (hrange i hi).1
  cases column with
  | dense rows =>
      have hlong : indices.isLong = true := h
      obtain ⟨out, hout⟩ := exists_rowsAt hbatched hrange
      refine ⟨.dense out, ?_, (rowsAt_eq_ok hbatched hlow).mp hout⟩
      simp only [selectColumn, hlong, hout]
      rfl
  | nested nt =>
      obtain ⟨hunbind, hne⟩ := h
      obtain ⟨rows, hrows⟩ := exists_rowsAt hbatched hrange
      have hgather := (rowsAt_eq_ok hbatched hlow).mp hrows
      have hrowsNe : rows ≠ [] := by
        rintro rfl
        have hlength := hgather.length
        rw [List.length_nil, List.length_map] at hlength
        exact hne (List.length_eq_zero_iff.mp hlength.symm)
      obtain ⟨tensor, htensor⟩ := exists_asNestedTensor (d := nt.raggedIdx)
        hrowsNe fun x hx y hy => nt.fits x (mem_of_gatherRows hgather hx) y
          (mem_of_gatherRows hgather hy)
      refine ⟨.nested tensor, ?_, ?_⟩
      · simp only [selectColumn, unbind_eq_ok.mpr ⟨hunbind, rfl⟩, ok_bind,
          hrows, htensor]
        rfl
      · change GatherRows _ _ tensor.components
        rwa [components_of_asNestedTensor htensor]
  | stack rows =>
      have hindex : (!indices.isLong && !torch.takesFloatIndex) = false := by
        rcases h with hlong | hfloat
        · rw [hlong]
          rfl
        · rw [hfloat, Bool.not_true, Bool.and_false]
      obtain ⟨out, hout⟩ := exists_rowsAt hbatched hrange
      refine ⟨.stack out, ?_, (rowsAt_eq_ok hbatched hlow).mp hout⟩
      simp only [selectColumn, hindex, hout]
      rfl
  | data value =>
      have hindex : (!indices.isLong && !torch.takesFloatIndex) = false := by
        rcases h with hlong | hfloat
        · rw [hlong]
          rfl
        · rw [hfloat, Bool.not_true, Bool.and_false]
      refine ⟨.data value, ?_, rfl⟩
      simp only [selectColumn, Option.isSome_some, Bool.true_and, hindex]
      rfl

theorem indexable_of_selectColumn {column out : Column α ω}
    (h : selectColumn torch (some n) indices column = .ok out) :
    Indexable torch indices column := by
  cases column with
  | dense rows =>
      cases hlong : indices.isLong with
      | true => exact hlong
      | false =>
          rw [selectColumn, hlong] at h
          cases h
  | nested nt =>
      rw [selectColumn] at h
      obtain ⟨rows, hrows, h⟩ := bind_eq_ok.mp h
      obtain ⟨selected, hselected, h⟩ := bind_eq_ok.mp h
      obtain ⟨tensor, htensor, -⟩ := bind_eq_ok.mp h
      refine ⟨(unbind_eq_ok.mp hrows).1, fun hitems => ?_⟩
      rw [hitems] at hselected
      cases hselected
      cases htensor
  | stack rows =>
      cases hindex : !indices.isLong && !torch.takesFloatIndex with
      | false =>
          rw [Bool.and_eq_false_iff, Bool.not_eq_false', Bool.not_eq_false']
            at hindex
          exact hindex
      | true =>
          rw [selectColumn, hindex] at h
          cases h
  | data value =>
      cases hindex : !indices.isLong && !torch.takesFloatIndex with
      | false =>
          rw [Bool.and_eq_false_iff, Bool.not_eq_false', Bool.not_eq_false']
            at hindex
          exact hindex
      | true =>
          rw [selectColumn, Option.isSome_some, Bool.true_and, hindex] at h
          cases h

theorem exists_indexSelectTensorDict (hn : td.batchSize = some n)
    (hrange : ∀ i ∈ indices.items, -(n : Int) ≤ i ∧ i < n)
    (h : ∀ key column, td.get? key = some column →
      Indexable torch indices column) :
    ∃ out, indexSelectTensorDict torch (some td) indices = .ok (some out) ∧
      Aligned td (indices.items.map (place n)) out := by
  have hselect : ∀ key column, td.get? key = some column → ∃ out,
      selectColumn torch td.batchSize indices column = .ok out ∧
        Gathers (indices.items.map (place n)) column out := by
    intro key column hcolumn
    have hbatched := TensorDict.batched_of_get? hcolumn
    rw [hn] at hbatched ⊢
    exact exists_selectColumn hbatched hrange (h key column hcolumn)
  obtain ⟨columns, hcolumns⟩ := PyDict.exists_mapEntriesM
    (f := fun _ column => selectColumn torch td.batchSize indices column)
    (d := td.columns) fun e he =>
      (hselect e.1 e.2 (PyDict.get?_eq_some_iff.mpr he)).imp fun _ h => h.1
  have hrel : ∀ key, Option.Rel (Gathers (indices.items.map (place n)))
      (td.get? key) (columns.get? key) := by
    intro key
    have hmapRel := PyDict.get?_of_mapEntriesM hcolumns key
    rw [← TensorDict.get?] at hmapRel
    generalize hcolumn : td.get? key = column at hmapRel ⊢
    generalize columns.get? key = column' at hmapRel ⊢
    cases hmapRel with
    | none => exact .none
    | some hmap =>
        obtain ⟨out, hout, hgather⟩ := hselect key _ hcolumn
        cases hmap.symm.trans hout
        exact .some hgather
  have hbatched : ∀ e ∈ columns.entries,
      e.2.Batched (some indices.items.length) := by
    intro e he
    have hgather := hrel e.1
    rw [PyDict.get?_eq_some_iff.mpr he] at hgather
    generalize td.get? e.1 = column at hgather
    cases hgather with
    | some hgather =>
        have hlength := hgather.batched
        rwa [List.length_map] at hlength
  obtain ⟨out, hout⟩ := TensorDict.exists_make hbatched
  obtain ⟨houtColumns, houtBatch⟩ := TensorDict.make_eq_ok.mp hout
  refine ⟨out, ?_, by rw [houtBatch, List.length_map], fun key => ?_⟩
  · simp only [indexSelectTensorDict, hcolumns, ok_bind, hout]
    rfl
  · change Option.Rel _ _ (out.columns.get? key)
    rw [houtColumns]
    exact hrel key

theorem indexable_of_indexSelectTensorDict (hn : td.batchSize = some n)
    {out : TensorDict α ω}
    (h : indexSelectTensorDict torch (some td) indices = .ok (some out))
    {key : String} {column : Column α ω}
    (hcolumn : td.get? key = some column) :
    Indexable torch indices column := by
  obtain ⟨columns, hcolumns, -⟩ := bind_eq_ok.mp h
  have hrel := PyDict.get?_of_mapEntriesM hcolumns key
  rw [← TensorDict.get?, hcolumn, hn] at hrel
  generalize columns.get? key = column' at hrel
  cases hrel with
  | some hselect => exact indexable_of_selectColumn hselect

end Select

section Result

variable {α ω : Type} [Zero α] {torch : Torch α} {td : TensorDict α ω}
  {n chunks : Nat} {indices : Indices}

omit [Zero α] in
/-- Chunks with the rows of the TensorDict, in the order of the chunks. -/
theorem forall₂_chunks {tds : List (TensorDict α ω)} {chunkSize : Nat}
    (hlength : tds.length = chunks)
    (h : ∀ (i : Nat) (chunk : TensorDict α ω), tds[i]? = some chunk →
      Aligned td (chunkPlaces chunkSize i) chunk) :
    List.Forall₂ (fun places out => Aligned td places out)
      ((List.range chunks).map (chunkPlaces chunkSize)) tds := by
  rw [List.forall₂_map_left_iff, List.forall₂_iff_get]
  refine ⟨by rw [List.length_range, hlength], fun i hi hi' => ?_⟩
  rw [List.get_eq_getElem, List.getElem_range]
  exact h i _ (List.getElem?_eq_getElem hi')

/-- What a chunk has of a nested column. -/
theorem nested_of_chunk (hn : td.batchSize = some n) (hchunks : 0 < chunks)
    (hdvd : chunks ∣ n)
    (hcuts : ∀ key nt, td.get? key = some (.nested nt) → nt.CutsBack)
    {tds : List (TensorDict α ω)}
    (htds : chunkTensordict torch td chunks = .ok tds) {i : Nat}
    {chunk : TensorDict α ω} (hchunk : tds[i]? = some chunk) (key : String) :
    Option.Rel (fun column column' => ∀ nt, column = .nested nt →
        ∃ piece, asNestedTensor (chunkComponents nt (n / chunks) i) =
          .ok piece ∧ column' = .nested piece)
      (td.get? key) (chunk.get? key) := by
  obtain ⟨hlength, hpieces⟩ := pieces_of_chunkTensordict hn hchunks hdvd htds
  have hi : i < chunks := hlength ▸ (List.getElem?_eq_some_iff.mp hchunk).1
  have hrel := (hpieces i chunk hchunk).2 key
  generalize hcolumn : td.get? key = column at hrel ⊢
  generalize chunk.get? key = column' at hrel ⊢
  cases hrel with
  | none => exact .none
  | some hpiece =>
      refine .some ?_
      rintro nt rfl
      have hbatched := TensorDict.batched_of_get? hcolumn
      rw [hn, ← Nat.mul_div_cancel' hdvd] at hbatched
      obtain ⟨piece, hpiece, rfl⟩ := hpiece
      rw [chunkNested_of_cutsBack hbatched hi (hcuts key nt hcolumn)] at hpiece
      exact ⟨piece, hpiece, rfl⟩

theorem Sound.keepsRows (hn : td.batchSize = some n) (hchunks : 0 < chunks)
    (hdvd : chunks ∣ n)
    (hrange : ∀ i ∈ indices.items, -(n : Int) ≤ i ∧ i < n)
    (h : Sound torch td n chunks indices) :
    KeepsRows torch td n chunks indices where
  chunked torch' := chunkTensordict_of_cutsBack hn hchunks hdvd h.cutsBack
  concatenated := by
    have hchunked : ∃ tds, chunkTensordict torch td chunks = .ok tds ∧
        tds.length = chunks ∧ ∀ (i : Nat) (chunk : TensorDict α ω),
          tds[i]? = some chunk →
            Aligned td (chunkPlaces (n / chunks) i) chunk :=
      chunkTensordict_of_cutsBack hn hchunks hdvd h.cutsBack
    obtain ⟨tds, htds, hlength, haligned⟩ := hchunked
    have hne : tds ≠ [] := by
      rintro rfl
      rw [List.length_nil] at hlength
      omega
    have hunbinds : ∀ out ∈ tds, ∀ key nt,
        out.get? key = some (.nested nt) → torch.unbindRaises nt = false := by
      intro out hout key nt hnt
      obtain ⟨i, hi⟩ := List.mem_iff_getElem?.mp hout
      have hlt : i < chunks := hlength ▸ (List.getElem?_eq_some_iff.mp hi).1
      obtain ⟨nt₀, hnt₀⟩ := TensorDict.mem_nestedKeys.mp
        ((haligned i out hi).mem_nestedKeys.mp
          (TensorDict.mem_nestedKeys.mpr ⟨nt, hnt⟩))
      have hrel := nested_of_chunk hn hchunks hdvd h.cutsBack htds hi key
      rw [hnt₀, hnt] at hrel
      cases hrel with
      | some hpiece =>
          obtain ⟨piece, hpiece, heq⟩ := hpiece nt₀ rfl
          cases heq
          exact h.unbindsChunks key nt₀ hnt₀ i hlt _ hpiece
    obtain ⟨out, hout, hrows⟩ := exists_concatTensordict hne
      (forall₂_chunks hlength haligned) hunbinds
    rw [← List.flatMap_def, flatMap_chunkPlaces,
      Nat.mul_div_cancel' hdvd] at hrows
    exact ⟨tds, out, htds, hout, hrows⟩
  selected := exists_indexSelectTensorDict hn hrange h.indexable

theorem KeepsRows.sound (hn : td.batchSize = some n) (hchunks : 0 < chunks)
    (hdvd : chunks ∣ n) (h : KeepsRows torch td n chunks indices) :
    Sound torch td n chunks indices := by
  have hcuts : ∀ key nt, td.get? key = some (.nested nt) → nt.CutsBack := by
    intro key nt hnt
    obtain ⟨tds, htds, -, haligned⟩ := h.chunked (failingTorch α)
    exact cutsBack_of_chunkTensordict hn hchunks hdvd htds haligned hnt
  refine ⟨hcuts, fun key nt hnt i hi piece hpiece => ?_,
    fun key column hcolumn => ?_⟩
  · obtain ⟨tds, out, htds, hout, -⟩ := h.concatenated
    obtain ⟨tds', htds', hlength, haligned⟩ := h.chunked torch
    cases htds.symm.trans htds'
    have hlt : i < tds.length := hlength ▸ hi
    have hchunk : tds[i]? = some tds[i] := List.getElem?_eq_getElem hlt
    have hrel := nested_of_chunk hn hchunks hdvd hcuts htds hchunk key
    rw [hnt] at hrel
    generalize hcolumn : tds[i].get? key = column at hrel
    cases hrel with
    | some hchunkPiece =>
        obtain ⟨piece', hpiece', rfl⟩ := hchunkPiece nt rfl
        cases hpiece.symm.trans hpiece'
        exact unbindRaises_of_concatTensordict
          (forall₂_chunks hlength haligned) hout
          (List.mem_of_getElem? hchunk) hcolumn
  · obtain ⟨out, hout, -⟩ := h.selected
    exact indexable_of_indexSelectTensorDict hn hout hcolumn

/-- Rows stay aligned exactly where the columns are sound. -/
theorem keepsRows_iff (hn : td.batchSize = some n) (hchunks : 0 < chunks)
    (hdvd : chunks ∣ n)
    (hrange : ∀ i ∈ indices.items, -(n : Int) ≤ i ∧ i < n) :
    KeepsRows torch td n chunks indices ↔
      Sound torch td n chunks indices :=
  ⟨fun h => h.sound hn hchunks hdvd,
    fun h => h.keepsRows hn hchunks hdvd hrange⟩

end Result

section Mrope

/-- The mRoPE position ids of two rows, of 5 and 6 tokens. -/
def positionIds : NestedTensor Int where
  components := [.full [4, 5] 1, .full [4, 6] 1]
  raggedIdx := 1
  nonempty := by decide
  fits := by decide

def mropeBatch : TensorDict Int String where
  columns := .ofKeys ["position_ids"] (by decide) fun _ => .nested positionIds
  batchSize := some 2
  batched := by decide

/-- `unbind` that never fails. -/
def workingTorch : Torch Int where
  unbindRaises _ := false
  takesFloatIndex := false
  inner_of_unbindRaises _ h := by cases h

theorem keepsRows_iff_mrope :
    KeepsRows workingTorch mropeBatch 2 2 (.list [1, 0, -1]) ↔
      Sound workingTorch mropeBatch 2 2 (.list [1, 0, -1]) :=
  keepsRows_iff rfl (by decide) (by decide) (by decide)

/-- The fallback leaves the first row as long as the second one. -/
theorem not_keepsRows_mrope :
    ¬ KeepsRows workingTorch mropeBatch 2 2 (.list [1, 0, -1]) ∧
      (paddedRows positionIds 2 1 0).map (List.map NdArray.shape) =
        .ok [[4, 6]] := by
  refine ⟨fun h => ?_, by decide +kernel⟩
  have hsound := h.sound rfl (by decide) (by decide)
  have hcuts := hsound.cutsBack "position_ids" positionIds rfl
  revert hcuts
  rw [NestedTensor.CutsBack]
  decide +kernel

end Mrope

end SelfDistillation.TensorDictRows
