/-
Operations that change a `DataProto` in place (verl/protocol.py): union with
another one, popping keys, setting a column and reordering the rows.
-/
import SelfDistillation.DataProto

namespace SelfDistillation

open Gather

variable {α τ ν μ : Type}

namespace PyDict

/-- `del d[key]` -/
def erase (d : PyDict α) (key : String) : PyDict α where
  entries := d.entries.filter fun e => e.1 != key
  nodup := (List.filter_sublist.map Prod.fst).nodup d.nodup

theorem get?_erase (d : PyDict α) (key key' : String) :
    (d.erase key).get? key' = if key' = key then none else d.get? key' := by
  apply Option.ext
  intro a
  rw [get?_eq_some_iff, erase, List.mem_filter]
  by_cases hkey : key' = key
  · simp [hkey]
  · simp [hkey, get?_eq_some_iff]

theorem mem_keys_iff {d : PyDict α} {key : String} :
    key ∈ d.keys ↔ ∃ a, d.get? key = some a := by
  rw [← not_iff_not, ← get?_eq_none_iff, Option.eq_none_iff_forall_ne_some,
    not_exists]

theorem contains_eq_true {d : PyDict α} {key : String} :
    d.contains key = true ↔ key ∈ d.keys := decide_eq_true_iff

/-- `assert key in d; popped[key] = d.pop(key)` -/
def popKey (state : PyDict α × PyDict α) (key : String) :
    Py (PyDict α × PyDict α) := do
  pyAssert (state.2.contains key) ""
  let a ← state.2.get key
  return (state.1.set key a, state.2.erase key)

theorem popKey_eq_ok {popped rest : PyDict α} {key : String} {a : α}
    (h : rest.get? key = some a) :
    popKey (popped, rest) key = .ok (popped.set key a, rest.erase key) := by
  have hcontains : rest.contains key = true :=
    decide_eq_true (mem_keys_iff.mpr ⟨a, h⟩)
  rw [popKey, hcontains, get, h]
  rfl

/-- The popped entries and the rest. -/
def popKeys (keys : List String) (d : PyDict α) :
    Py (PyDict α × PyDict α) :=
  keys.foldlM popKey (empty, d)

/-- Distinct keys that are there can be popped, and nothing else goes. -/
theorem popKeys_eq_ok {keys : List String} {d : PyDict α}
    (hnodup : keys.Nodup) (hmem : ∀ key ∈ keys, key ∈ d.keys) :
    ∃ popped rest, popKeys keys d = .ok (popped, rest) ∧
      (∀ key a, popped.get? key = some a → d.get? key = some a) ∧
      ∀ key, rest.get? key = if key ∈ keys then none else d.get? key := by
  suffices h : ∀ popped rest : PyDict α,
      (∀ key a, popped.get? key = some a → d.get? key = some a) →
      (∀ key ∈ keys, rest.get? key = d.get? key) →
      ∃ popped' rest', keys.foldlM popKey (popped, rest) =
          .ok (popped', rest') ∧
        (∀ key a, popped'.get? key = some a → d.get? key = some a) ∧
        ∀ key, rest'.get? key =
          if key ∈ keys then none else rest.get? key by
    refine h empty d (fun key a h => ?_) fun _ _ => rfl
    simp [empty, get?] at h
  induction keys with
  | nil => exact fun popped rest hpopped _ =>
      ⟨popped, rest, rfl, hpopped, by simp⟩
  | cons key keys ih =>
      intro popped rest hpopped hsame
      obtain ⟨hnew, hnodup⟩ := List.nodup_cons.mp hnodup
      obtain ⟨a, ha⟩ := mem_keys_iff.mp (hmem key List.mem_cons_self)
      have hat := (hsame key List.mem_cons_self).trans ha
      have hpopped' : ∀ k b, (popped.set key a).get? k = some b →
          d.get? k = some b := by
        intro k b hb
        rw [get?_set] at hb
        split at hb
        · rename_i heq
          rw [heq, ha, ← Option.some.inj hb]
        · exact hpopped k b hb
      have hsame' : ∀ k ∈ keys, (rest.erase key).get? k = d.get? k := by
        intro k hk
        have hne : k ≠ key := fun h => hnew (h ▸ hk)
        rw [get?_erase, if_neg hne]
        exact hsame k (List.mem_cons_of_mem _ hk)
      obtain ⟨popped', rest', hfold, hfrom, hrest'⟩ :=
        ih hnodup (fun k hk => hmem k (List.mem_cons_of_mem _ hk))
          _ _ hpopped' hsame'
      refine ⟨popped', rest', ?_, hfrom, fun k => ?_⟩
      · rw [List.foldlM_cons, popKey_eq_ok hat, ok_bind]
        exact hfold
      · rw [hrest' k, get?_erase]
        by_cases hk : k = key <;> simp [hk]

section Union

/-- One key of the second dictionary: one that the first has too must hold
the same value there. -/
def unionEntry (same : α → α → Bool) (message : String → String)
    (keep : α → α → α) (d : PyDict α) (e : String × α) : Py (PyDict α) :=
  match d.get? e.1 with
  | none => .ok (d.set e.1 e.2)
  | some a => do
      pyAssert (same a e.2) (message e.1)
      return d.set e.1 (keep a e.2)

/-- The loop of the unions. -/
def unionDict (same : α → α → Bool) (message : String → String)
    (keep : α → α → α) (d1 d2 : PyDict α) : Py (PyDict α) :=
  d2.entries.foldlM (unionEntry same message keep) d1

/-- The values of common keys are the same. -/
def Agree (same : α → α → Bool) (d1 d2 : PyDict α) : Prop :=
  ∀ key a b, d1.get? key = some a → d2.get? key = some b → same a b = true

/-- The value of a key in the union. -/
def joined (keep : α → α → α) : Option α → Option α → Option α
  | some a, some b => some (keep a b)
  | some a, none => some a
  | none, b => b

theorem joined_eq_none {keep : α → α → α} {x y : Option α} :
    joined keep x y = none ↔ x = none ∧ y = none := by
  cases x <;> cases y <;> simp [joined]

variable {same : α → α → Bool} {message : String → String}
  {keep : α → α → α}

theorem unionEntry_eq_ok {d r : PyDict α} {e : String × α} :
    unionEntry same message keep d e = .ok r ↔
      (∀ a, d.get? e.1 = some a → same a e.2 = true) ∧
        r = d.set e.1 ((d.get? e.1).elim e.2 fun a => keep a e.2) := by
  unfold unionEntry
  cases hget : d.get? e.1 with
  | none =>
      exact ⟨fun h => ⟨by simp, (Except.ok.inj h).symm⟩,
        fun h => congrArg Except.ok h.2.symm⟩
  | some a =>
      cases hsame : same a e.2 with
      | false => simp [hsame, pyAssert, bind, Except.bind]
      | true =>
          simp only [hsame, pyAssert_true, ok_bind]
          exact ⟨fun h => ⟨fun _ ha => Option.some.inj ha ▸ hsame,
              (Except.ok.inj h).symm⟩,
            fun h => congrArg Except.ok h.2.symm⟩

theorem get?_unionEntry {d r : PyDict α} {e : String × α}
    (h : unionEntry same message keep d e = .ok r) (key : String) :
    r.get? key =
      if key = e.1 then joined keep (d.get? key) (some e.2)
      else d.get? key := by
  rw [(unionEntry_eq_ok.mp h).2, get?_set]
  split
  · rename_i hkey
    rw [hkey]
    cases d.get? e.1 <;> rfl
  · rfl

private theorem foldlM_unionEntry {entries : List (String × α)}
    (hnodup : (entries.map Prod.fst).Nodup) (d : PyDict α) :
    ((∃ r, entries.foldlM (unionEntry same message keep) d = .ok r) ↔
      ∀ e ∈ entries, ∀ a, d.get? e.1 = some a → same a e.2 = true) ∧
    ∀ r, entries.foldlM (unionEntry same message keep) d = .ok r →
      ∀ key, r.get? key = joined keep (d.get? key) (entries.lookup key) := by
  induction entries generalizing d with
  | nil =>
      refine ⟨by simp [pure, Except.pure], fun r h key => ?_⟩
      cases h
      cases hget : d.get? key <;> simp [joined]
  | cons e entries ih =>
      obtain ⟨hnew, hnodup⟩ := List.nodup_cons.mp hnodup
      have hother : ∀ e' ∈ entries, e'.1 ≠ e.1 := fun e' he' h =>
        hnew (List.mem_map.mpr ⟨e', he', h⟩)
      have hlookup : entries.lookup e.1 = none :=
        List.lookup_eq_none_iff.mpr fun e' he' => by
          simpa using (hother e' he').symm
      simp only [List.foldlM_cons, bind_eq_ok]
      constructor
      · rw [List.forall_mem_cons]
        constructor
        · rintro ⟨r, d', hentry, hr⟩
          refine ⟨(unionEntry_eq_ok.mp hentry).1, fun e' he' a ha => ?_⟩
          refine ((ih hnodup d').1.mp ⟨r, hr⟩) e' he' a ?_
          rw [get?_unionEntry hentry, if_neg (hother e' he'), ha]
        · rintro ⟨hsame, hrest⟩
          have hentry : unionEntry same message keep d e = .ok _ :=
            unionEntry_eq_ok.mpr ⟨hsame, rfl⟩
          obtain ⟨r, hr⟩ := (ih hnodup _).1.mpr fun e' he' a ha => by
            rw [get?_unionEntry hentry, if_neg (hother e' he')] at ha
            exact hrest e' he' a ha
          exact ⟨r, _, hentry, hr⟩
      · rintro r ⟨d', hentry, hr⟩ key
        rw [(ih hnodup d').2 r hr, get?_unionEntry hentry, List.lookup_cons]
        by_cases hkey : key = e.1
        · subst hkey
          cases d.get? e.1 <;> simp [hlookup, joined]
        · have hne : (key == e.1) = false := by simpa using hkey
          rw [if_neg hkey, hne]

theorem exists_unionDict_iff {d1 d2 : PyDict α} :
    (∃ d, unionDict same message keep d1 d2 = .ok d) ↔
      Agree same d1 d2 := by
  rw [unionDict, (foldlM_unionEntry d2.nodup d1).1]
  exact ⟨fun h key a b ha hb => h (key, b) (get?_eq_some_iff.mp hb) a ha,
    fun h e he a ha => h e.1 a e.2 ha (get?_eq_some_iff.mpr he)⟩

theorem get?_unionDict {d1 d2 d : PyDict α}
    (h : unionDict same message keep d1 d2 = .ok d) (key : String) :
    d.get? key = joined keep (d1.get? key) (d2.get? key) :=
  (foldlM_unionEntry d2.nodup d1).2 d h key

end Union

end PyDict

/-- `tensor_dict1` with the new keys of `tensor_dict2`. -/
def unionTensorDict [BEq (Column τ)] (tensorDict1 tensorDict2 : TensorDict τ) :
    Py (TensorDict τ) := do
  pyAssert (tensorDict1.batchSize == tensorDict2.batchSize)
    (s!"Two tensor dict must have identical batch size. Got " ++
      s!"torch.Size([{tensorDict1.batchSize}]) and " ++
      s!"torch.Size([{tensorDict2.batchSize}])")
  let columns ← PyDict.unionDict (fun a b => a == b)
    (fun key =>
      s!"{key} in tensor_dict1 and tensor_dict2 are not the same object")
    (fun a _ => a) tensorDict1.columns tensorDict2.columns
  TensorDict.init columns tensorDict1.batchSize

def unionNumpyDict [BEq (List ν)] (tensorDict1 tensorDict2 : PyDict (List ν)) :
    Py (PyDict (List ν)) :=
  PyDict.unionDict (fun a b => a == b)
    (fun key => "`" ++ key ++
      "` in tensor_dict1 and tensor_dict2 are not the same object.")
    (fun _ b => b) tensorDict1 tensorDict2

def unionTwoDict [BEq μ] (dict1 dict2 : PyDict μ) : Py (PyDict μ) :=
  PyDict.unionDict (fun a b => b == a)
    (fun key => s!"{key} in meta_dict1 and meta_dict2 are not the same object")
    (fun _ b => b) dict1 dict2

theorem TensorDict.get?_length {td : TensorDict τ} {key : String}
    {column : Column τ} (h : td.columns.get? key = some column) :
    column.rows.length = td.batchSize :=
  td.aligned (key, column) (PyDict.get?_eq_some_iff.mp h)

/-- Columns of one length form a `TensorDict`. -/
theorem TensorDict.init_of_get? (columns : PyDict (Column τ)) (batchSize : Nat)
    (h : ∀ key column, columns.get? key = some column →
      column.rows.length = batchSize) :
    ∃ td, init columns batchSize = .ok td ∧ td.columns = columns ∧
      td.batchSize = batchSize := by
  refine ⟨⟨columns, batchSize, fun e he => ?_⟩, ?_, rfl, rfl⟩
  · exact h e.1 e.2 (PyDict.get?_eq_some_iff.mpr he)
  · exact init_eq_ok.mpr ⟨rfl, rfl⟩

/-- `td[key] = column` -/
def TensorDict.set (td : TensorDict τ) (key : String) (column : Column τ) :
    Py (TensorDict τ) :=
  if column.rows.length = td.batchSize then
    init (td.columns.set key column) td.batchSize
  else .error (.runtimeError "batch dimension mismatch")

theorem TensorDict.set_eq_ok {td : TensorDict τ} (key : String)
    {column : Column τ} (h : column.rows.length = td.batchSize) :
    ∃ td', td.set key column = .ok td' ∧
      td'.columns = td.columns.set key column ∧
      td'.batchSize = td.batchSize := by
  rw [set, if_pos h]
  refine init_of_get? _ _ fun key' column' hget => ?_
  rw [PyDict.get?_set] at hget
  split at hget
  · rwa [← Option.some.inj hget]
  · exact get?_length hget

namespace DataProto

/-- The tensor columns. -/
def tensors (data : DataProto τ ν μ) : PyDict (Column τ) :=
  match data.batch with
  | some td => td.columns
  | none => PyDict.empty

/-- `data.batch`, where a missing batch has no such attributes. -/
def expectBatch (data : DataProto τ ν μ) : Py (TensorDict τ) :=
  match data.batch with
  | some td => .ok td
  | none => .error .attributeError

theorem expectBatch_eq_ok {data : DataProto τ ν μ} {td : TensorDict τ} :
    data.expectBatch = .ok td ↔ data.batch = some td := by
  unfold expectBatch
  cases data.batch <;> simp

theorem tensors_of_batch {data : DataProto τ ν μ} {td : TensorDict τ}
    (h : data.batch = some td) : data.tensors = td.columns := by
  rw [tensors, h]

/-- `union` -/
def union [BEq (Column τ)] [BEq (List ν)] [BEq μ]
    (data other : DataProto τ ν μ) : Py (DataProto τ ν μ) := do
  let tensorDict1 ← data.expectBatch
  let tensorDict2 ← other.expectBatch
  let batch ← unionTensorDict tensorDict1 tensorDict2
  let nonTensorBatch ← unionNumpyDict data.nonTensorBatch other.nonTensorBatch
  let metaInfo ← unionTwoDict data.metaInfo other.metaInfo
  init (some batch) nonTensorBatch metaInfo

/-- `pop` with `batch_keys`: what is popped, and what is left. -/
def pop (data : DataProto τ ν μ) (batchKeys : List String) :
    Py (DataProto τ ν μ × DataProto τ ν μ) := do
  let td ← data.expectBatch
  let (tensors, rest) ← PyDict.popKeys batchKeys td.columns
  let popped ← fromDict tensors PyDict.empty PyDict.empty
  let batch ← TensorDict.init rest td.batchSize
  let data ← init (some batch) data.nonTensorBatch data.metaInfo
  return (popped, data)

/-- `data.batch[key] = column` -/
def setTensor (data : DataProto τ ν μ) (key : String) (column : Column τ) :
    Py (DataProto τ ν μ) := do
  let td ← data.expectBatch
  let batch ← td.set key column
  init (some batch) data.nonTensorBatch data.metaInfo

/-- `reorder` -/
def reorder (data : DataProto τ ν μ) (indices : List Nat) :
    Py (DataProto τ ν μ) := do
  let td ← data.expectBatch
  let batch ← td.indexSelect indices
  let nonTensorBatch ←
    data.nonTensorBatch.mapEntriesM fun _ val => pyIndex val indices
  init (some batch) nonTensorBatch data.metaInfo

/-- An object column has as many entries as the batch has rows. -/
theorem length_of_nonTensor {data : DataProto τ ν μ} {td : TensorDict τ}
    (hbatch : data.batch = some td) {key : String} {val : List ν}
    (h : data.nonTensorBatch.get? key = some val) :
    val.length = td.batchSize :=
  data.consistent td hbatch (key, val) (PyDict.get?_eq_some_iff.mp h)

/-- The checks of `__post_init__` pass when all columns have the rows of the
batch. -/
theorem init_of_get? (td : TensorDict τ) (nonTensorBatch : PyDict (List ν))
    (metaInfo : PyDict μ)
    (h : ∀ key val, nonTensorBatch.get? key = some val →
      val.length = td.batchSize) :
    ∃ data, init (some td) nonTensorBatch metaInfo = .ok data := by
  refine ⟨⟨some td, nonTensorBatch, metaInfo, ?_⟩,
    init_eq_ok.mpr ⟨rfl, rfl, rfl⟩⟩
  intro td' htd' e he
  obtain rfl := Option.some.inj htd'
  exact h e.1 e.2 (PyDict.get?_eq_some_iff.mpr he)

theorem exists_repeatData {td : TensorDict τ} {batch : DataProto τ ν μ}
    (hbatch : batch.batch = some td)
    (n : Nat) :
    ∃ repeated td', batch.repeatData n true = .ok repeated ∧
      repeated.batch = some td' ∧ td'.batchSize = td.batchSize * n ∧
      repeated.metaInfo = batch.metaInfo := by
  obtain ⟨td', htd', hcolumns, hsize⟩ := TensorDict.init_of_get?
    (td.columns.mapVals fun column =>
      { column with rows := repeatRows true n column.rows })
    (td.batchSize * n) fun key column hget => by
      rw [PyDict.get?_mapVals] at hget
      obtain ⟨column', hget', rfl⟩ := Option.map_eq_some_iff.mp hget
      rw [length_repeatRows, TensorDict.get?_length hget']
  obtain ⟨repeated, hrepeated⟩ := init_of_get? td'
    (batch.nonTensorBatch.mapVals (repeatRows true n)) batch.metaInfo
    fun key val hget => by
      rw [PyDict.get?_mapVals] at hget
      obtain ⟨val', hget', rfl⟩ := Option.map_eq_some_iff.mp hget
      rw [length_repeatRows, hsize,
        length_of_nonTensor hbatch hget']
  obtain ⟨hbatch', -, hmeta⟩ := init_eq_ok.mp hrepeated
  refine ⟨repeated, td', ?_, hbatch', hsize, hmeta⟩
  rw [repeatData, hbatch, bind_eq_ok]
  exact ⟨some td', by simp [TensorDict.repeatTensors, htd', Functor.map,
    Except.map], hrepeated⟩

theorem keys_of_repeatData {batch batch' : DataProto τ ν μ} {n : Nat}
    (h : batch.repeatData n true = .ok batch') :
    batch'.tensors.keys = batch.tensors.keys := by
  obtain ⟨repeatedBatch, hrepeat, hinit⟩ := bind_eq_ok.mp h
  obtain ⟨hbatch, -, -⟩ := init_eq_ok.mp hinit
  cases htd : batch.batch with
  | none =>
      rw [htd] at hrepeat
      cases hrepeat
      rw [tensors, tensors, hbatch, htd]
  | some td =>
      rw [htd, Option.mapM_some, map_eq_ok] at hrepeat
      obtain ⟨td', htd', rfl⟩ := hrepeat
      rw [tensors_of_batch hbatch, tensors_of_batch htd,
        (TensorDict.init_eq_ok.mp htd').1, PyDict.mapVals_keys]

/-- A batch can be reordered by indices of its rows. -/
theorem exists_reorder {data : DataProto τ ν μ} {td : TensorDict τ}
    (hbatch : data.batch = some td) {indices : List Nat}
    (h : ∀ i ∈ indices, i < td.batchSize) :
    ∃ data', data.reorder indices = .ok data' := by
  obtain ⟨columns, hcolumns⟩ := PyDict.exists_mapEntriesM (d := td.columns)
    (f := fun _ column => column.select indices) fun e he => by
      obtain ⟨rows, hrows⟩ := exists_gather fun i hi =>
        (h i hi).trans_eq (td.aligned e he).symm
      exact ⟨⟨e.2.lastDim, rows⟩, Column.select_eq_ok.mpr ⟨rfl, hrows⟩⟩
  have hlen : ∀ e ∈ columns.entries, e.2.rows.length = indices.length := by
    intro e he
    obtain ⟨x, -, -, hx⟩ := exists_of_forall₂_right
      (PyDict.mapEntriesM_eq_ok.mp hcolumns) he
    exact length_of_gather (Column.select_eq_ok.mp hx).2
  obtain ⟨td', htd', -, hsize⟩ := TensorDict.init_of_get? columns
    indices.length fun key column hget =>
      hlen (key, column) (PyDict.get?_eq_some_iff.mp hget)
  obtain ⟨nonTensorBatch, hnon⟩ := PyDict.exists_mapEntriesM
    (d := data.nonTensorBatch) (f := fun _ val => pyIndex val indices)
    fun e he => by
      obtain ⟨ys, hys⟩ := exists_gather fun i hi =>
        (h i hi).trans_eq (data.consistent td hbatch e he).symm
      exact ⟨ys, pyIndex_eq_ok.mpr hys⟩
  obtain ⟨data', hdata'⟩ := init_of_get? td' nonTensorBatch data.metaInfo
    fun key val hget => by
      obtain ⟨x, -, -, hx⟩ := exists_of_forall₂_right
        (PyDict.mapEntriesM_eq_ok.mp hnon) (PyDict.get?_eq_some_iff.mp hget)
      rw [hsize]
      exact length_of_gather (pyIndex_eq_ok.mp hx)
  refine ⟨data', ?_⟩
  simp only [reorder, bind_eq_ok, expectBatch_eq_ok, TensorDict.indexSelect]
  exact ⟨td, hbatch, td', ⟨columns, hcolumns, htd'⟩, nonTensorBatch, hnon,
    hdata'⟩

section Union

variable [BEq (Column τ)] [BEq (List ν)] [BEq μ]
  {data other merged : DataProto τ ν μ}

/-- What `union` asks of its arguments. -/
structure Mergeable (data other : DataProto τ ν μ) : Prop where
  batches : ∃ td td', data.batch = some td ∧ other.batch = some td' ∧
    td.batchSize = td'.batchSize
  tensors : PyDict.Agree (· == ·) data.tensors other.tensors
  nonTensors :
    PyDict.Agree (· == ·) data.nonTensorBatch other.nonTensorBatch
  metaInfos : PyDict.Agree (fun a b => b == a) data.metaInfo other.metaInfo

/-- The columns of a union. -/
structure IsUnion (data other merged : DataProto τ ν μ) : Prop where
  batch : ∃ td td', data.batch = some td ∧ merged.batch = some td' ∧
    td'.batchSize = td.batchSize
  tensors : ∀ key, merged.tensors.get? key =
    PyDict.joined (fun a _ => a) (data.tensors.get? key)
      (other.tensors.get? key)
  nonTensors : ∀ key, merged.nonTensorBatch.get? key =
    PyDict.joined (fun _ b => b) (data.nonTensorBatch.get? key)
      (other.nonTensorBatch.get? key)

theorem union_of_eq_ok (h : data.union other = .ok merged) :
    Mergeable data other ∧ IsUnion data other merged := by
  simp only [union, unionTensorDict, bind_eq_ok, expectBatch_eq_ok,
    TensorDict.init_eq_ok, init_eq_ok] at h
  obtain ⟨td1, h1, td2, h2, td, ⟨_, hsize, columns, hcolumns, htd, hsize'⟩,
    nonTensorBatch, hnon, metaInfo, hmeta, hbatch, hnon', -⟩ := h
  have hsize : td1.batchSize = td2.batchSize := by
    by_contra hne
    simp [hne, pyAssert] at hsize
  have htensors := tensors_of_batch hbatch
  constructor
  · refine ⟨⟨td1, td2, h1, h2, hsize⟩, ?_, ?_, ?_⟩
    · rw [tensors_of_batch h1, tensors_of_batch h2]
      exact PyDict.exists_unionDict_iff.mp ⟨_, hcolumns⟩
    · exact PyDict.exists_unionDict_iff.mp ⟨_, hnon⟩
    · exact PyDict.exists_unionDict_iff.mp ⟨_, hmeta⟩
  · refine ⟨⟨td1, td, h1, hbatch, hsize'⟩, fun key => ?_, fun key => ?_⟩
    · rw [htensors, htd, tensors_of_batch h1, tensors_of_batch h2]
      exact PyDict.get?_unionDict hcolumns key
    · rw [hnon']
      exact PyDict.get?_unionDict hnon key

theorem exists_union (h : Mergeable data other) :
    ∃ merged, data.union other = .ok merged := by
  obtain ⟨td1, td2, h1, h2, hsize⟩ := h.batches
  have htensors := h.tensors
  rw [tensors_of_batch h1, tensors_of_batch h2] at htensors
  obtain ⟨columns, hcolumns⟩ := PyDict.exists_unionDict_iff.mpr htensors
  obtain ⟨nonTensorBatch, hnon⟩ := PyDict.exists_unionDict_iff.mpr h.nonTensors
  obtain ⟨metaInfo, hmeta⟩ := PyDict.exists_unionDict_iff.mpr h.metaInfos
  obtain ⟨td, htd, -, hsize'⟩ := TensorDict.init_of_get? columns td1.batchSize
    fun key column hget => by
      rw [PyDict.get?_unionDict hcolumns] at hget
      cases hkey1 : td1.columns.get? key with
      | some column1 =>
          have hlen := TensorDict.get?_length hkey1
          rw [hkey1] at hget
          cases hkey2 : td2.columns.get? key <;> rw [hkey2] at hget <;>
            exact Option.some.inj hget ▸ hlen
      | none =>
          rw [hkey1] at hget
          exact hsize ▸ TensorDict.get?_length hget
  obtain ⟨merged, hmerged⟩ := init_of_get? td nonTensorBatch metaInfo
    fun key val hget => by
      rw [PyDict.get?_unionDict hnon] at hget
      rw [hsize']
      cases hkey2 : other.nonTensorBatch.get? key with
      | some val2 =>
          have hlen := hsize ▸ length_of_nonTensor h2 hkey2
          rw [hkey2] at hget
          cases hkey1 : data.nonTensorBatch.get? key <;> rw [hkey1] at hget <;>
            exact Option.some.inj hget ▸ hlen
      | none =>
          rw [hkey2] at hget
          cases hkey1 : data.nonTensorBatch.get? key with
          | none => simp [hkey1, PyDict.joined] at hget
          | some val1 =>
              rw [hkey1] at hget
              exact Option.some.inj hget ▸ length_of_nonTensor h1 hkey1
  refine ⟨merged, ?_⟩
  simp only [union, unionTensorDict, bind_eq_ok, expectBatch_eq_ok]
  exact ⟨td1, h1, td2, h2, td, ⟨(), by simp [hsize], columns, hcolumns, htd⟩,
    nonTensorBatch, hnon, metaInfo, hmeta, hmerged⟩

end Union

/-- Tensors with as many rows each form a `DataProto` of their own. -/
theorem exists_fromDict {tensors : PyDict (Column τ)} {size : Nat}
    (h : ∀ e ∈ tensors.entries, e.2.rows.length = size) :
    ∃ data : DataProto τ ν μ,
      fromDict tensors PyDict.empty PyDict.empty = .ok data := by
  unfold fromDict
  split
  · exact ⟨⟨none, _, _, by simp [Consistent]⟩,
      init_eq_ok.mpr ⟨rfl, rfl, rfl⟩⟩
  · rename_i key pivot others hentries
    have hpivot : pivot.rows.length = size :=
      h (key, pivot) (hentries ▸ List.mem_cons_self)
    obtain ⟨td, htd, -⟩ := TensorDict.init_of_get? tensors
      pivot.rows.length fun key column hget =>
        (h (key, column) (PyDict.get?_eq_some_iff.mp hget)).trans hpivot.symm
    obtain ⟨data, hdata⟩ := init_of_get? td (PyDict.empty : PyDict (List ν))
      (PyDict.empty : PyDict μ) fun key val hget => by
        simp [PyDict.empty, PyDict.get?] at hget
    refine ⟨data, ?_⟩
    simp only [bind_eq_ok]
    refine ⟨(), forM_pyAssert_eq_ok.mpr fun e he => ?_, td, htd, hdata⟩
    simp [h e he, hpivot]

/-- Distinct tensor keys of the batch can be popped, and nothing else
goes. -/
theorem pop_eq_ok {data : DataProto τ ν μ} {td : TensorDict τ}
    (hbatch : data.batch = some td) {batchKeys : List String}
    (hnodup : batchKeys.Nodup)
    (hmem : ∀ key ∈ batchKeys, key ∈ data.tensors.keys) :
    ∃ popped rest td', data.pop batchKeys = .ok (popped, rest) ∧
      rest.batch = some td' ∧ td'.batchSize = td.batchSize ∧
      (∀ key, rest.tensors.get? key =
        if key ∈ batchKeys then none else data.tensors.get? key) ∧
      rest.nonTensorBatch = data.nonTensorBatch ∧
      rest.metaInfo = data.metaInfo := by
  rw [tensors_of_batch hbatch] at hmem ⊢
  obtain ⟨tensors, columns, hpop, hfrom, hcolumns⟩ :=
    PyDict.popKeys_eq_ok hnodup hmem
  obtain ⟨popped, hpopped⟩ := exists_fromDict (ν := ν) (μ := μ) fun e he =>
    TensorDict.get?_length (hfrom e.1 e.2 (PyDict.get?_eq_some_iff.mpr he))
  obtain ⟨td', htd', hcols, hsize⟩ := TensorDict.init_of_get? columns
    td.batchSize fun key column hget => by
      rw [hcolumns] at hget
      split at hget
      · cases hget
      · exact TensorDict.get?_length hget
  obtain ⟨rest, hrest⟩ := init_of_get? td' data.nonTensorBatch data.metaInfo
    fun key val hget => hsize ▸ length_of_nonTensor hbatch hget
  obtain ⟨hrestBatch, hrestNon, hrestMeta⟩ := init_eq_ok.mp hrest
  refine ⟨popped, rest, td', ?_, hrestBatch, hsize, ?_, hrestNon, hrestMeta⟩
  · simp only [pop, bind_eq_ok, expectBatch_eq_ok]
    exact ⟨td, hbatch, _, hpop, popped, hpopped, td', htd', rest, hrest, rfl⟩
  · rw [tensors_of_batch hrestBatch, hcols]
    exact hcolumns

/-- A column of as many rows as the batch has can be set. -/
theorem setTensor_eq_ok {data : DataProto τ ν μ} {td : TensorDict τ}
    (hbatch : data.batch = some td) (key : String) {column : Column τ}
    (h : column.rows.length = td.batchSize) :
    ∃ data' td', data.setTensor key column = .ok data' ∧
      data'.batch = some td' ∧ td'.batchSize = td.batchSize ∧
      data'.tensors = data.tensors.set key column ∧
      data'.nonTensorBatch = data.nonTensorBatch ∧
      data'.metaInfo = data.metaInfo := by
  obtain ⟨td', htd', hcolumns, hsize⟩ := TensorDict.set_eq_ok key h
  obtain ⟨data', hdata'⟩ := init_of_get? td' data.nonTensorBatch data.metaInfo
    fun key val hget => hsize ▸ length_of_nonTensor hbatch hget
  obtain ⟨hbatch', hnon, hmeta⟩ := init_eq_ok.mp hdata'
  refine ⟨data', td', ?_, hbatch', hsize, ?_, hnon, hmeta⟩
  · simp only [setTensor, bind_eq_ok, expectBatch_eq_ok]
    exact ⟨td, hbatch, td', htd', hdata'⟩
  · rw [tensors_of_batch hbatch', tensors_of_batch hbatch, hcolumns]

theorem tensors_of_setTensor {data data' : DataProto τ ν μ} {key : String}
    {column : Column τ} (h : data.setTensor key column = .ok data') :
    data'.tensors = data.tensors.set key column := by
  simp only [setTensor, bind_eq_ok, expectBatch_eq_ok] at h
  obtain ⟨td, htd, td', hset, hinit⟩ := h
  obtain ⟨hbatch, -, -⟩ := init_eq_ok.mp hinit
  unfold TensorDict.set at hset
  split at hset
  · rw [tensors_of_batch hbatch, tensors_of_batch htd]
    exact (TensorDict.init_eq_ok.mp hset).1
  · cases hset

theorem get?_of_reorder {data data' : DataProto τ ν μ} {indices : List Nat}
    (h : data.reorder indices = .ok data') {key : String}
    {column : Column τ} (hget : data.tensors.get? key = some column) :
    ∃ column', column.select indices = .ok column' ∧
      data'.tensors.get? key = some column' := by
  simp only [reorder, bind_eq_ok, expectBatch_eq_ok] at h
  obtain ⟨td, htd, td', hselect, _, -, hinit⟩ := h
  obtain ⟨hbatch, -, -⟩ := init_eq_ok.mp hinit
  rw [tensors_of_batch htd] at hget
  rw [tensors_of_batch hbatch]
  obtain ⟨column', hcolumn', hdim, hrows⟩ :=
    TensorDict.get_indexSelect hselect
      (PyDict.get_eq_ok.mpr (PyDict.get?_eq_some_iff.mp hget))
  exact ⟨column', Column.select_eq_ok.mpr ⟨hdim, hrows⟩,
    PyDict.get?_eq_some_iff.mpr (PyDict.get_eq_ok.mp hcolumn')⟩

theorem keys_of_reorder {data data' : DataProto τ ν μ} {indices : List Nat}
    (h : data.reorder indices = .ok data') :
    data'.tensors.keys = data.tensors.keys := by
  simp only [reorder, bind_eq_ok, expectBatch_eq_ok] at h
  obtain ⟨td, htd, td', hselect, _, -, hinit⟩ := h
  obtain ⟨hbatch, -, -⟩ := init_eq_ok.mp hinit
  rw [tensors_of_batch hbatch, tensors_of_batch htd, PyDict.keys, PyDict.keys]
  have hall := (TensorDict.indexSelect_eq_ok.mp hselect).2
  generalize td.columns.entries = xs at hall
  generalize td'.columns.entries = ys at hall
  induction hall with
  | nil => rfl
  | cons hxy _ ih => rw [List.map_cons, List.map_cons, hxy.1, ih]

end DataProto

end SelfDistillation
