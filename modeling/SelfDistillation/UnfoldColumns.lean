/-
`DataProto.unfold_column_chunks` (verl/protocol.py): some columns are cut along
their second axis and unfolded into the batch axis, the others are repeated to
match.
-/
import SelfDistillation.Library.RowMajor
import SelfDistillation.Python

namespace SelfDistillation

namespace UnfoldColumns

open RowMajor

variable {α ν μ : Type}

/-- A `TensorDict` of dense tensors with one batch axis. -/
structure TensorColumns (α : Type) where
  columns : PyDict (Dense α)
  batchSize : Nat
  aligned : ∀ e ∈ columns.entries, e.2.rows = batchSize
deriving DecidableEq

/-- A `DataProto` whose columns keep their axes; `consistent` is what
`check_consistency` asserts. -/
structure ColumnProto (α ν μ : Type) where
  batch : Option (TensorColumns α)
  nonTensorBatch : PyDict (Dense ν)
  metaInfo : PyDict μ
  consistent : ∀ td, batch = some td →
    ∀ e ∈ nonTensorBatch.entries, e.2.rows = td.batchSize

/-- `TensorDict(source=columns, batch_size=(batch_size,))` -/
def TensorColumns.init (columns : PyDict (Dense α)) (batchSize : Nat) :
    Py (TensorColumns α) :=
  if h : ∀ e ∈ columns.entries, e.2.rows = batchSize then
    .ok ⟨columns, batchSize, h⟩
  else .error (.runtimeError "batch dimension mismatch")

/-- `DataProto(batch=batch, non_tensor_batch=..., meta_info=...)` -/
def ColumnProto.init (batch : Option (TensorColumns α))
    (nonTensorBatch : PyDict (Dense ν)) (metaInfo : PyDict μ) :
    Py (ColumnProto α ν μ) :=
  match batch with
  | none => .ok ⟨none, nonTensorBatch, metaInfo, by simp⟩
  | some td =>
      if h : ∀ e ∈ nonTensorBatch.entries, e.2.rows = td.batchSize then
        .ok ⟨some td, nonTensorBatch, metaInfo, by
          rintro _ ⟨⟩
          exact h⟩
      else .error (.assertionError "length is not equal to batch size")

/-- `val.reshape(*shape)` with the batch axis `n_split` times as long and the
second axis divided by it; `mismatch` is what the array library raises. -/
def splitColumn (mismatch : PyErr) (nSplit : Nat) (val : Dense α) :
    Py (Dense α) :=
  match val.rowShape with
  -- `shape[1]`
  | [] => .error .indexError
  | second :: rest =>
      if nSplit = 0 then .error .zeroDivisionError
      else
        match val.reshape? (val.rows * nSplit) (second / nSplit :: rest) with
        | some unfolded => .ok unfolded
        | none => .error mismatch

/-- `key in split_keys if split_keys is not None else False` -/
def inSplitKeys (splitKeys : Option (List String)) (key : String) : Bool :=
  match splitKeys with
  | none => false
  | some keys => decide (key ∈ keys)

/-- The body of the loop over the tensors. -/
def unfoldTensor (nSplit : Nat) (splitKeys : Option (List String))
    (key : String) (val : Dense α) : Py (Dense α) :=
  if inSplitKeys splitKeys key then
    splitColumn (.runtimeError "shape is invalid for input of size") nSplit val
  else .ok (val.repeatRows nSplit)

/-- The body of the loop over the other columns, which asks for `key in
split_keys` without a look at `None`. -/
def unfoldNonTensor (nSplit : Nat) (splitKeys : Option (List String))
    (key : String) (val : Dense ν) : Py (Dense ν) :=
  match splitKeys with
  | none => .error (.typeError "argument of type 'NoneType' is not iterable")
  | some keys =>
      if key ∈ keys then
        splitColumn (.valueError "cannot reshape array") nSplit val
      else .ok (val.repeatRows nSplit)

/-- `unfolded_batch` -/
def unfoldBatch (nSplit : Nat) (splitKeys : Option (List String)) :
    Option (TensorColumns α) → Py (Option (TensorColumns α))
  | none => .ok none
  | some td => do
      let columns ← td.columns.mapEntriesM (unfoldTensor nSplit splitKeys)
      let unfolded ← TensorColumns.init columns (td.batchSize * nSplit)
      return some unfolded

/-- `unfold_column_chunks` -/
def unfoldColumnChunks (data : ColumnProto α ν μ) (nSplit : Nat)
    (splitKeys : Option (List String)) : Py (ColumnProto α ν μ) := do
  let unfoldedBatch ← unfoldBatch nSplit splitKeys data.batch
  let repeatedNonTensorBatch ←
    data.nonTensorBatch.mapEntriesM (unfoldNonTensor nSplit splitKeys)
  ColumnProto.init unfoldedBatch repeatedNonTensorBatch data.metaInfo

/-- Row `i * n_split + j` of the result is the `j`-th chunk of row `i` of a
split column, and row `i` of any other. -/
structure Unfolds (nSplit : Nat) (split : Bool) (val unfolded : Dense α) :
    Prop where
  rows : unfolded.rows = val.rows * nSplit
  rowShape : unfolded.rowShape =
    if split then val.rowShape.modifyHead (· / nSplit) else val.rowShape
  row : ∀ i < val.rows, ∀ j < nSplit, unfolded.row (i * nSplit + j) =
    if split then val.chunk unfolded.stride i j else val.row i

/-- The law for the columns under their keys. -/
def ColumnsUnfold (nSplit : Nat) (splitKeys : Option (List String))
    (d d' : PyDict (Dense α)) : Prop :=
  List.Forall₂ (fun x y => x.1 = y.1 ∧
    Unfolds nSplit (inSplitKeys splitKeys x.1) x.2 y.2) d.entries d'.entries

/-- One law for all columns. -/
structure FollowsLaw (nSplit : Nat) (splitKeys : Option (List String))
    (data result : ColumnProto α ν μ) : Prop where
  batch : Option.Rel (fun td td' : TensorColumns α =>
    td'.batchSize = td.batchSize * nSplit ∧
      ColumnsUnfold nSplit splitKeys td.columns td'.columns)
    data.batch result.batch
  nonTensorBatch : ColumnsUnfold nSplit splitKeys data.nonTensorBatch
    result.nonTensorBatch
  metaInfo : result.metaInfo = data.metaInfo

/-- A second axis of `n_split` equal parts, or no entries at all. -/
def Splittable (nSplit : Nat) (val : Dense α) : Prop :=
  ∃ second rest, val.rowShape = second :: rest ∧
    (nSplit ∣ second ∨ val.data = [])

/-- The split columns have chunks. -/
def ColumnsSplittable (nSplit : Nat) (splitKeys : Option (List String))
    (d : PyDict (Dense α)) : Prop :=
  ∀ e ∈ d.entries, inSplitKeys splitKeys e.1 = true → Splittable nSplit e.2

/-- The keys are given or there is no column but tensors, and the split
columns have chunks. -/
structure Admitted (nSplit : Nat) (splitKeys : Option (List String))
    (data : ColumnProto α ν μ) : Prop where
  batch : ∀ td ∈ data.batch, ColumnsSplittable nSplit splitKeys td.columns
  given : splitKeys = none → data.nonTensorBatch.entries = []
  nonTensorBatch : ColumnsSplittable nSplit splitKeys data.nonTensorBatch

section Columns

variable {nSplit : Nat} {val unfolded : Dense α} {mismatch : PyErr}

theorem unfolds_repeatRows (nSplit : Nat) (val : Dense α) :
    Unfolds nSplit false val (val.repeatRows nSplit) where
  rows := rfl
  rowShape := rfl
  row _ hi _ hj := Dense.row_repeatRows hi hj

/-- Nothing but an equal number of entries is asked of a reshape. -/
theorem splitColumn_eq_ok (hn : 1 ≤ nSplit) :
    splitColumn mismatch nSplit val = .ok unfolded ↔
      ∃ second rest, val.rowShape = second :: rest ∧
        val.reshape? (val.rows * nSplit) (second / nSplit :: rest) =
          some unfolded := by
  rw [splitColumn]
  cases val.rowShape with
  | nil => simp
  | cons second rest =>
      have hne : nSplit ≠ 0 := by omega
      cases hreshape : val.reshape? (val.rows * nSplit)
          (second / nSplit :: rest) with
      | none => simp [hne, hreshape]
      | some y => simp [hne, hreshape]

/-- A reshaped column follows the law. -/
theorem unfolds_of_splitColumn (hn : 1 ≤ nSplit)
    (h : splitColumn mismatch nSplit val = .ok unfolded) :
    Unfolds nSplit true val unfolded := by
  obtain ⟨second, rest, hshape, hreshape⟩ := (splitColumn_eq_ok hn).mp h
  obtain ⟨hrows, hrowShape, hdata⟩ := Dense.reshape?_eq_some.mp hreshape
  refine ⟨hrows, ?_, ?_⟩
  · rw [hrowShape, hshape]
    rfl
  · intro i hi j hj
    by_cases hnil : val.data = []
    · rw [if_pos rfl, Dense.chunk,
        Dense.row_of_data_eq_nil (hdata.trans hnil),
        Dense.row_of_data_eq_nil hnil]
      simp
    · have hsize : val.rows * nSplit * unfolded.stride =
          val.rows * val.stride := by
        have hlength := unfolded.length_data
        rw [hdata, val.length_data, hrows] at hlength
        exact hlength.symm
      rw [Nat.mul_assoc] at hsize
      exact Dense.row_of_reshape hdata
        (Nat.eq_of_mul_eq_mul_left (Nat.zero_lt_of_lt hi) hsize) hj

theorem div_mul_eq_iff {n m : Nat} : n * (m / n) = m ↔ n ∣ m :=
  ⟨fun h => ⟨m / n, h.symm⟩, Nat.mul_div_cancel'⟩

/-- The shapes hold equally many entries exactly for a column with chunks. -/
theorem exists_splitColumn_iff (hn : 1 ≤ nSplit) :
    (∃ unfolded, splitColumn mismatch nSplit val = .ok unfolded) ↔
      Splittable nSplit val := by
  simp only [splitColumn_eq_ok hn, Splittable]
  rw [exists_comm]
  apply exists_congr
  intro second
  rw [exists_comm]
  apply exists_congr
  intro rest
  rw [exists_and_left]
  apply and_congr_right
  intro hshape
  rw [← Option.isSome_iff_exists, Dense.isSome_reshape?, Dense.stride, hshape,
    List.prod_cons, List.prod_cons, ← List.length_eq_zero_iff,
    val.length_data, hshape, List.prod_cons]
  constructor
  · intro heq
    by_cases hzero : val.rows * (second * rest.prod) = 0
    · exact .inr hzero
    · left
      simp only [mul_eq_zero, not_or] at hzero
      have hcancel : val.rows * rest.prod * second =
          val.rows * rest.prod * (nSplit * (second / nSplit)) := by
        calc val.rows * rest.prod * second
            = val.rows * (second * rest.prod) := by ring
          _ = val.rows * nSplit * (second / nSplit * rest.prod) := heq
          _ = val.rows * rest.prod * (nSplit * (second / nSplit)) := by ring
      have hpos : 0 < val.rows * rest.prod :=
        Nat.mul_pos (Nat.pos_of_ne_zero hzero.1) (Nat.pos_of_ne_zero hzero.2.2)
      exact div_mul_eq_iff.mp (Nat.eq_of_mul_eq_mul_left hpos hcancel).symm
  · rintro (hdvd | hzero)
    · calc val.rows * (second * rest.prod)
          = val.rows * (nSplit * (second / nSplit) * rest.prod) := by
            rw [div_mul_eq_iff.mpr hdvd]
        _ = val.rows * nSplit * (second / nSplit * rest.prod) := by ring
    · have hle : val.rows * nSplit * (second / nSplit * rest.prod) ≤
          val.rows * (second * rest.prod) := by
        calc val.rows * nSplit * (second / nSplit * rest.prod)
            = val.rows * (nSplit * (second / nSplit) * rest.prod) := by ring
          _ ≤ val.rows * (second * rest.prod) :=
            Nat.mul_le_mul_left _ (Nat.mul_le_mul_right _
              (Nat.mul_div_le second nSplit))
      omega

end Columns

section Batches

variable {nSplit : Nat} {splitKeys : Option (List String)}

/-- What a loop body that follows the law does to all columns. -/
theorem columnsUnfold_of_mapEntriesM
    {body : String → Dense α → Py (Dense α)} {d d' : PyDict (Dense α)}
    (hbody : ∀ key val unfolded, body key val = .ok unfolded →
      Unfolds nSplit (inSplitKeys splitKeys key) val unfolded)
    (h : d.mapEntriesM body = .ok d') :
    ColumnsUnfold nSplit splitKeys d d' :=
  (PyDict.mapEntriesM_eq_ok.mp h).imp fun x y hxy =>
    ⟨hxy.1, hbody x.1 x.2 y.2 hxy.2⟩

theorem rows_of_columnsUnfold {d d' : PyDict (Dense α)} {batchSize : Nat}
    (h : ColumnsUnfold nSplit splitKeys d d')
    (haligned : ∀ e ∈ d.entries, e.2.rows = batchSize) :
    ∀ e ∈ d'.entries, e.2.rows = batchSize * nSplit := by
  intro e he
  obtain ⟨x, hx, -, hunfolds⟩ := exists_of_forall₂_right h he
  rw [hunfolds.rows, haligned x hx]

theorem unfolds_of_unfoldTensor (hn : 1 ≤ nSplit) (key : String)
    (val unfolded : Dense α)
    (h : unfoldTensor nSplit splitKeys key val = .ok unfolded) :
    Unfolds nSplit (inSplitKeys splitKeys key) val unfolded := by
  rw [unfoldTensor] at h
  by_cases hsplit : inSplitKeys splitKeys key = true
  · rw [if_pos hsplit] at h
    rw [hsplit]
    exact unfolds_of_splitColumn hn h
  · rw [if_neg hsplit] at h
    cases h
    rw [Bool.not_eq_true] at hsplit
    rw [hsplit]
    exact unfolds_repeatRows nSplit val

/-- With keys the two bodies differ in the exception alone. -/
theorem unfolds_of_unfoldNonTensor (hn : 1 ≤ nSplit) (key : String)
    (val unfolded : Dense ν)
    (h : unfoldNonTensor nSplit splitKeys key val = .ok unfolded) :
    Unfolds nSplit (inSplitKeys splitKeys key) val unfolded := by
  cases splitKeys with
  | none => cases h
  | some keys =>
      by_cases hsplit : key ∈ keys
      · have hin : inSplitKeys (some keys) key = true := by
          simpa [inSplitKeys] using hsplit
        rw [unfoldNonTensor, if_pos hsplit] at h
        rw [hin]
        exact unfolds_of_splitColumn hn h
      · have hin : inSplitKeys (some keys) key = false := by
          simpa [inSplitKeys] using hsplit
        rw [unfoldNonTensor, if_neg hsplit] at h
        cases h
        rw [hin]
        exact unfolds_repeatRows nSplit val

theorem exists_unfoldTensor_iff (hn : 1 ≤ nSplit) {key : String}
    {val : Dense α} :
    (∃ unfolded, unfoldTensor nSplit splitKeys key val = .ok unfolded) ↔
      (inSplitKeys splitKeys key = true → Splittable nSplit val) := by
  by_cases hsplit : inSplitKeys splitKeys key = true
  · simp only [unfoldTensor, hsplit, if_true, exists_splitColumn_iff hn,
      true_imp_iff]
  · simp [unfoldTensor, hsplit]

theorem exists_unfoldNonTensor_iff (hn : 1 ≤ nSplit) {key : String}
    {val : Dense ν} :
    (∃ unfolded, unfoldNonTensor nSplit splitKeys key val = .ok unfolded) ↔
      splitKeys ≠ none ∧
        (inSplitKeys splitKeys key = true → Splittable nSplit val) := by
  cases splitKeys with
  | none => simp [unfoldNonTensor]
  | some keys =>
      by_cases hsplit : key ∈ keys
      · simp only [unfoldNonTensor, if_pos hsplit, exists_splitColumn_iff hn]
        simp [inSplitKeys, hsplit]
      · simp [unfoldNonTensor, inSplitKeys, hsplit]

/-- A loop over all columns ends if its body does for each. -/
theorem exists_mapEntriesM_iff {body : String → Dense α → Py (Dense α)}
    {d : PyDict (Dense α)} :
    (∃ d', d.mapEntriesM body = .ok d') ↔
      ∀ e ∈ d.entries, ∃ unfolded, body e.1 e.2 = .ok unfolded := by
  constructor
  · rintro ⟨d', h⟩ e he
    obtain ⟨i, hi, rfl⟩ := List.mem_iff_getElem.mp he
    have hall := PyDict.mapEntriesM_eq_ok.mp h
    exact ⟨_, (hall.get hi (hall.length_eq ▸ hi)).2⟩
  · exact PyDict.exists_mapEntriesM

theorem TensorColumns.init_of_aligned {columns : PyDict (Dense α)}
    {batchSize : Nat} (h : ∀ e ∈ columns.entries, e.2.rows = batchSize) :
    TensorColumns.init columns batchSize = .ok ⟨columns, batchSize, h⟩ := by
  rw [TensorColumns.init, dif_pos h]

/-- The tensors are unfolded exactly if the split ones have chunks. -/
theorem exists_unfoldBatch_iff (hn : 1 ≤ nSplit)
    {batch : Option (TensorColumns α)} :
    (∃ unfolded, unfoldBatch nSplit splitKeys batch = .ok unfolded) ↔
      ∀ td ∈ batch, ColumnsSplittable nSplit splitKeys td.columns := by
  cases batch with
  | none => simp [unfoldBatch]
  | some td =>
      have hloop : (∃ columns, td.columns.mapEntriesM
          (unfoldTensor nSplit splitKeys) = .ok columns) ↔
            ColumnsSplittable nSplit splitKeys td.columns := by
        rw [exists_mapEntriesM_iff]
        simp only [exists_unfoldTensor_iff hn, ColumnsSplittable]
      simp only [Option.mem_some_iff, forall_eq', ← hloop]
      constructor
      · rintro ⟨unfolded, h⟩
        obtain ⟨columns, hcolumns, -⟩ := bind_eq_ok.mp h
        exact ⟨columns, hcolumns⟩
      · rintro ⟨columns, hcolumns⟩
        have haligned := rows_of_columnsUnfold (columnsUnfold_of_mapEntriesM
          (unfolds_of_unfoldTensor hn) hcolumns) td.aligned
        exact ⟨_, bind_eq_ok.mpr ⟨columns, hcolumns,
          bind_eq_ok.mpr ⟨_, TensorColumns.init_of_aligned haligned, rfl⟩⟩⟩

theorem rel_unfoldBatch (hn : 1 ≤ nSplit)
    {batch unfolded : Option (TensorColumns α)}
    (h : unfoldBatch nSplit splitKeys batch = .ok unfolded) :
    Option.Rel (fun td td' : TensorColumns α =>
      td'.batchSize = td.batchSize * nSplit ∧
        ColumnsUnfold nSplit splitKeys td.columns td'.columns)
      batch unfolded := by
  cases batch with
  | none =>
      cases h
      exact .none
  | some td =>
      obtain ⟨columns, hcolumns, h⟩ := bind_eq_ok.mp h
      obtain ⟨td', htd', h⟩ := bind_eq_ok.mp h
      cases h
      rw [TensorColumns.init] at htd'
      split at htd'
      · cases htd'
        exact .some ⟨rfl, columnsUnfold_of_mapEntriesM
          (unfolds_of_unfoldTensor hn) hcolumns⟩
      · cases htd'

end Batches

section Unfold

variable {nSplit : Nat} {splitKeys : Option (List String)}
  {data result : ColumnProto α ν μ}

theorem ColumnProto.init_eq_ok {batch : Option (TensorColumns α)}
    {nonTensorBatch : PyDict (Dense ν)} {metaInfo : PyDict μ} :
    ColumnProto.init batch nonTensorBatch metaInfo = .ok result ↔
      result.batch = batch ∧ result.nonTensorBatch = nonTensorBatch ∧
        result.metaInfo = metaInfo := by
  obtain ⟨batch', nonTensorBatch', metaInfo', hconsistent⟩ := result
  cases batch with
  | none => simp [ColumnProto.init, eq_comm]
  | some td =>
      rw [ColumnProto.init]
      constructor
      · intro h
        split at h
        · cases h
          exact ⟨rfl, rfl, rfl⟩
        · cases h
      · rintro ⟨rfl, rfl, rfl⟩
        rw [dif_pos (hconsistent td rfl)]

/-- Whatever is returned follows the law. -/
theorem followsLaw_of_eq_ok (hn : 1 ≤ nSplit)
    (h : unfoldColumnChunks data nSplit splitKeys = .ok result) :
    FollowsLaw nSplit splitKeys data result := by
  obtain ⟨batch, hbatch, h⟩ := bind_eq_ok.mp h
  obtain ⟨nonTensorBatch, hnonTensor, h⟩ := bind_eq_ok.mp h
  obtain ⟨rfl, rfl, hmeta⟩ := ColumnProto.init_eq_ok.mp h
  exact ⟨rel_unfoldBatch hn hbatch, columnsUnfold_of_mapEntriesM
    (unfolds_of_unfoldNonTensor hn) hnonTensor, hmeta⟩

theorem exists_unfoldNonTensorBatch_iff (hn : 1 ≤ nSplit)
    {d : PyDict (Dense ν)} :
    (∃ d', d.mapEntriesM (unfoldNonTensor nSplit splitKeys) = .ok d') ↔
      (splitKeys = none → d.entries = []) ∧
        ColumnsSplittable nSplit splitKeys d := by
  rw [exists_mapEntriesM_iff]
  simp only [exists_unfoldNonTensor_iff hn, ColumnsSplittable]
  constructor
  · intro h
    refine ⟨fun hnone => ?_, fun e he => (h e he).2⟩
    exact List.eq_nil_iff_forall_not_mem.mpr fun e he => (h e he).1 hnone
  · rintro ⟨hgiven, hsplittable⟩ e he
    refine ⟨fun hnone => ?_, hsplittable e he⟩
    rw [hgiven hnone] at he
    exact absurd he List.not_mem_nil

/-- The columns of a result have one number of rows. -/
theorem exists_unfoldColumnChunks (hn : 1 ≤ nSplit)
    (hadmitted : Admitted nSplit splitKeys data) :
    ∃ result, unfoldColumnChunks data nSplit splitKeys = .ok result := by
  obtain ⟨batch, hbatch⟩ :=
    (exists_unfoldBatch_iff hn).mpr hadmitted.batch
  obtain ⟨nonTensorBatch, hnonTensor⟩ :=
    (exists_unfoldNonTensorBatch_iff hn).mpr
      ⟨hadmitted.given, hadmitted.nonTensorBatch⟩
  have hcolumns := columnsUnfold_of_mapEntriesM
    (unfolds_of_unfoldNonTensor hn) hnonTensor
  have hrel := rel_unfoldBatch hn hbatch
  have hconsistent : ∀ td', batch = some td' →
      ∀ e ∈ nonTensorBatch.entries, e.2.rows = td'.batchSize := by
    rintro td' rfl
    generalize hdata : data.batch = batch at hrel
    cases hrel with
    | some h =>
        rw [h.1]
        exact rows_of_columnsUnfold hcolumns (data.consistent _ hdata)
  refine ⟨⟨batch, nonTensorBatch, data.metaInfo, hconsistent⟩, ?_⟩
  exact bind_eq_ok.mpr ⟨batch, hbatch, bind_eq_ok.mpr ⟨nonTensorBatch,
    hnonTensor, ColumnProto.init_eq_ok.mpr ⟨rfl, rfl, rfl⟩⟩⟩

theorem admitted_of_eq_ok (hn : 1 ≤ nSplit)
    (h : unfoldColumnChunks data nSplit splitKeys = .ok result) :
    Admitted nSplit splitKeys data := by
  obtain ⟨batch, hbatch, h⟩ := bind_eq_ok.mp h
  obtain ⟨nonTensorBatch, hnonTensor, -⟩ := bind_eq_ok.mp h
  have htensors := (exists_unfoldBatch_iff hn).mp ⟨batch, hbatch⟩
  have hothers :=
    (exists_unfoldNonTensorBatch_iff hn).mp ⟨nonTensorBatch, hnonTensor⟩
  exact ⟨htensors, hothers.1, hothers.2⟩

/-- The call returns what the law says exactly for the admitted keys. -/
theorem unfoldColumnChunks_iff (hn : 1 ≤ nSplit) :
    (∃ result, unfoldColumnChunks data nSplit splitKeys = .ok result ∧
        FollowsLaw nSplit splitKeys data result) ↔
      Admitted nSplit splitKeys data := by
  constructor
  · rintro ⟨result, h, -⟩
    exact admitted_of_eq_ok hn h
  · intro hadmitted
    obtain ⟨result, h⟩ := exists_unfoldColumnChunks hn hadmitted
    exact ⟨result, h, followsLaw_of_eq_ok hn h⟩

/-- Two rows of two entries, and an id for each. -/
def twoRows : ColumnProto Nat Nat Nat where
  batch := some ⟨⟨[("input_ids", ⟨2, [2], [1, 2, 3, 4], rfl⟩)],
    List.nodup_singleton _⟩, 2, by decide⟩
  nonTensorBatch := ⟨[("uid", ⟨2, [], [7, 8], rfl⟩)], List.nodup_singleton _⟩
  metaInfo := .empty
  consistent := by
    rintro td ⟨⟩
    decide

theorem unfoldColumnChunks_iff_twoRows :
    ∃ result, unfoldColumnChunks twoRows 2 (some ["input_ids"]) = .ok result ∧
      FollowsLaw 2 (some ["input_ids"]) twoRows result := by
  apply (unfoldColumnChunks_iff (by decide)).mpr
  refine ⟨?_, by simp, ?_⟩
  · rintro td ⟨⟩ e he -
    rw [List.mem_singleton.mp he]
    exact ⟨2, [], rfl, .inl (by decide)⟩
  · intro e he hsplit
    rw [List.mem_singleton.mp he] at hsplit
    exact absurd hsplit (by decide)

/-- Without keys the column of ids ends the call. -/
theorem unfoldColumnChunks_twoRows_none :
    unfoldColumnChunks twoRows 2 none =
        .error (.typeError "argument of type 'NoneType' is not iterable") ∧
      ¬ ∃ result, unfoldColumnChunks twoRows 2 none = .ok result ∧
        FollowsLaw 2 none twoRows result := by
  have hraises : unfoldColumnChunks twoRows 2 none =
      .error (.typeError "argument of type 'NoneType' is not iterable") := rfl
  refine ⟨hraises, ?_⟩
  rintro ⟨result, hok, -⟩
  rw [hraises] at hok
  cases hok

end Unfold

end UnfoldColumns

end SelfDistillation
