/-
A `DataProto` as a schema read over a list: what selecting, repeating,
concatenating, padding and cutting it do to the list.
-/
import SelfDistillation.DataProto

namespace SelfDistillation

open Gather

variable {α β X τ ν μ : Type}

section Dictionaries

theorem PyDict.mapVals_mapVals {γ : Type} (f : α → β) (g : β → γ)
    (d : PyDict α) : (d.mapVals f).mapVals g = d.mapVals fun a => g (f a) := by
  apply PyDict.ext
  simp

/-- A dictionary whose values are all in the range of a function. -/
theorem PyDict.exists_eq_mapVals {g : β → α} {d : PyDict α}
    (h : ∀ e ∈ d.entries, ∃ b, g b = e.2) :
    ∃ d' : PyDict β, d = d'.mapVals g := by
  have hrange : d.entries ∈
      Set.range (List.map fun e : String × β => (e.1, g e.2)) := by
    rw [Set.range_list_map]
    intro e he
    obtain ⟨b, hb⟩ := h e he
    exact ⟨(e.1, b), Prod.ext rfl hb⟩
  obtain ⟨entries, hentries⟩ := hrange
  have hnodup : (entries.map Prod.fst).Nodup := by
    have hkeys := d.nodup
    rw [← hentries, List.map_map] at hkeys
    exact hkeys
  exact ⟨⟨entries, hnodup⟩, PyDict.ext hentries.symm⟩

/-- Dictionaries with the same keys become the dictionary of the lists of
their values. -/
theorem listOfDictToDictOfList_mapVals (d : PyDict α) {fs : List (α → β)}
    (hne : fs ≠ []) :
    listOfDictToDictOfList (fs.map d.mapVals) =
      .ok (d.mapVals fun a => fs.map fun f => f a) := by
  obtain ⟨f, fs, rfl⟩ := List.exists_cons_of_ne_nil hne
  have hchecks : (forM ((f :: fs).map d.mapVals) fun data : PyDict β =>
      forM data.keys fun key =>
        pyAssert ((d.mapVals f).contains key)
          s!"Key '{key}' is not present in the keys of the first dictionary in the list.") =
      (.ok () : Py Unit) := by
    apply forM_eq_ok_iff.mpr
    intro data hdata
    obtain ⟨g, -, rfl⟩ := List.mem_map.mp hdata
    rw [forM_pyAssert_eq_ok]
    intro key hkey
    simpa [PyDict.contains] using hkey
  have hvalues : PyDict.ofKeys (d.mapVals f).keys (d.mapVals f).nodup
      (fun key => ((f :: fs).map d.mapVals).filterMap fun data =>
        data.get? key) = d.mapVals fun a => (f :: fs).map fun f => f a := by
    apply PyDict.ext
    simp only [PyDict.ofKeys, PyDict.keys, PyDict.mapVals_entries,
      List.map_map]
    apply List.map_congr_left
    intro e he
    have hget : d.get? e.1 = some e.2 := PyDict.get?_eq_some_iff.mpr he
    simp only [Function.comp_def, List.filterMap_map, PyDict.get?_mapVals, hget,
      Option.map_some, List.filterMap_eq_map']
  rw [listOfDictToDictOfList.eq_def]
  simp only [List.map_cons] at hchecks hvalues ⊢
  rw [hchecks, ok_bind, hvalues]
  rfl

end Dictionaries

/-- The columns of a `DataProto` as functions of what a row is made from; the
trailing dimension comes with a tensor. -/
structure Schema (X τ ν μ : Type) where
  tensors : Option (PyDict (Option Nat × (X → τ)))
  objects : PyDict (X → ν)
  metaInfo : PyDict μ

namespace Schema

def column (xs : List X) (tensor : Option Nat × (X → τ)) : Column τ :=
  ⟨tensor.1, xs.map tensor.2⟩

def tensorDict (tensors : PyDict (Option Nat × (X → τ))) (xs : List X) :
    TensorDict τ where
  columns := tensors.mapVals (column xs)
  batchSize := xs.length
  aligned := by
    intro e he
    obtain ⟨e', -, rfl⟩ := List.mem_map.mp he
    simp [column]

/-- The `DataProto` with a row for every element. -/
def build (schema : Schema X τ ν μ) (xs : List X) : DataProto τ ν μ where
  batch := schema.tensors.map fun tensors => tensorDict tensors xs
  nonTensorBatch := schema.objects.mapVals fun f => xs.map f
  metaInfo := schema.metaInfo
  consistent := by
    intro td htd e he
    obtain ⟨tensors, -, rfl⟩ := Option.mem_map.mp htd
    obtain ⟨e', -, rfl⟩ := List.mem_map.mp he
    simp [tensorDict]

theorem batch_build_eq_none_iff {schema : Schema X τ ν μ} {xs : List X} :
    (schema.build xs).batch = none ↔ schema.tensors = none :=
  Option.map_eq_none_iff

/-- The row an element becomes. -/
def row (schema : Schema X τ ν μ) (x : X) : DataProto.Row τ ν :=
  (match schema.tensors with
    | some tensors => tensors.entries.map fun e => (e.1, e.2.2 x)
    | none => [],
    schema.objects.entries.map fun e => (e.1, e.2 x))

/-- Without a column there are no rows. -/
def HasColumn (schema : Schema X τ ν μ) : Prop :=
  schema.tensors ≠ none ∨ schema.objects.entries ≠ []

variable {schema : Schema X τ ν μ} {xs : List X}

@[simp] theorem length_build (h : schema.HasColumn) (xs : List X) :
    (schema.build xs).length = xs.length := by
  obtain ⟨tensors, objects, metaInfo⟩ := schema
  cases tensors with
  | some tensors => rfl
  | none =>
      obtain ⟨entries, nodup⟩ := objects
      cases entries with
      | nil => simp [HasColumn] at h
      | cons e entries => simp [build, DataProto.length]

theorem rowAt_build {i : Nat} {x : X} (hx : xs[i]? = some x) :
    (schema.build xs).rowAt i = schema.row x := by
  obtain ⟨tensors, objects, metaInfo⟩ := schema
  cases tensors <;>
    simp [build, row, DataProto.rowAt, TensorDict.rowAt, tensorDict,
      PyDict.row, column, Function.comp_def, hx, List.filterMap_map]

theorem rows_build (h : schema.HasColumn) (xs : List X) :
    (schema.build xs).rows = xs.map schema.row := by
  apply List.ext_getElem (by simp [h])
  intro i hi hi'
  have hlt : i < xs.length := by simpa using hi'
  simp only [DataProto.rows, List.getElem_map, List.getElem_range]
  exact rowAt_build (List.getElem?_eq_getElem hlt)

section Operations

theorem selectIdxs_build {idxs : List Nat} {ys : List X}
    (h : gather xs idxs = some ys) :
    (schema.build xs).selectIdxs idxs = .ok (schema.build ys) := by
  have hobjects : (schema.build xs).nonTensorBatch.mapEntriesM
      (fun _ val => pyIndex val idxs) =
        .ok (schema.build ys).nonTensorBatch := by
    rw [PyDict.mapEntriesM_eq_ok]
    simp only [build, PyDict.mapVals_entries, List.forall₂_map_left_iff,
      List.forall₂_map_right_iff, List.forall₂_same, true_and]
    intro e _
    exact pyIndex_eq_ok.mpr (by rw [gather_map, h]; rfl)
  have htensors : ∀ tensors : PyDict (Option Nat × (X → τ)),
      (tensorDict tensors xs).indexSelect idxs =
        .ok (tensorDict tensors ys) := by
    intro tensors
    rw [TensorDict.indexSelect_eq_ok]
    refine ⟨length_of_gather h, ?_⟩
    simp only [tensorDict, PyDict.mapVals_entries, List.forall₂_map_left_iff,
      List.forall₂_map_right_iff, List.forall₂_same, column, true_and]
    intro e _
    rw [gather_map, h]
    rfl
  rw [DataProto.selectIdxs, bind_eq_ok]
  refine ⟨(schema.build ys).batch, ?_, ?_⟩
  · cases hschema : schema.tensors with
    | none => simp [build, hschema, pure, Except.pure]
    | some tensors =>
        simp [build, hschema, htensors, Functor.map, Except.map]
  · rw [hobjects, ok_bind, DataProto.init_eq_ok]
    exact ⟨rfl, rfl, rfl⟩

theorem repeatRows_map (f : α → β) (interleave : Bool) (k : Nat)
    (xs : List α) :
    repeatRows interleave k (xs.map f) = (repeatRows interleave k xs).map f := by
  cases interleave <;>
    simp [repeatRows, List.map_flatMap, List.flatMap_map, List.map_flatten]

theorem repeatData_build (k : Nat) (interleave : Bool) :
    (schema.build xs).repeatData k interleave =
      .ok (schema.build (repeatRows interleave k xs)) := by
  have htensors : ∀ tensors : PyDict (Option Nat × (X → τ)),
      (tensorDict tensors xs).repeatTensors interleave k =
        .ok (tensorDict tensors (repeatRows interleave k xs)) := by
    intro tensors
    rw [TensorDict.repeatTensors, TensorDict.init_eq_ok]
    refine ⟨?_, length_repeatRows interleave k xs⟩
    simp only [tensorDict, PyDict.mapVals_mapVals, column, repeatRows_map]
    rfl
  rw [DataProto.repeatData, bind_eq_ok]
  refine ⟨(schema.build (repeatRows interleave k xs)).batch, ?_, ?_⟩
  · cases hschema : schema.tensors with
    | none => simp [build, hschema, pure, Except.pure]
    | some tensors =>
        simp [build, hschema, htensors, Functor.map, Except.map]
  · rw [DataProto.init_eq_ok]
    refine ⟨rfl, ?_, rfl⟩
    simp only [build, PyDict.mapVals_mapVals, repeatRows_map]

theorem cat_column (tensor : Option Nat × (X → τ)) {xss : List (List X)}
    (hne : xss ≠ []) :
    Column.cat (xss.map fun xs => column xs tensor) =
      .ok (column xss.flatten tensor) := by
  obtain ⟨xs, xss, rfl⟩ := List.exists_cons_of_ne_nil hne
  simp only [Column.cat, List.map_cons]
  rw [if_pos (by simp [column])]
  simp only [column, List.flatMap_def, List.map_map, List.flatten_cons,
    List.map_append, List.map_flatten, List.map_cons]
  rfl

theorem get_tensorDict {tensors : PyDict (Option Nat × (X → τ))}
    {e : String × (Option Nat × (X → τ))} (he : e ∈ tensors.entries)
    (xs : List X) : (tensorDict tensors xs).get e.1 = .ok (column xs e.2) :=
  PyDict.get_eq_ok.mpr (List.mem_map.mpr ⟨e, he, rfl⟩)

theorem cat_tensorDict (tensors : PyDict (Option Nat × (X → τ)))
    {xss : List (List X)} (hne : xss ≠ []) :
    TensorDict.cat (xss.map (tensorDict tensors)) =
      .ok (tensorDict tensors xss.flatten) := by
  have hkeys : ∀ xs : List X,
      (tensorDict tensors xs).columns.keys = tensors.keys := by
    intro xs
    simp [tensorDict]
  have hchecks : ∀ first : List X, (forM (xss.map (tensorDict tensors))
      fun td : TensorDict τ =>
        if td.columns.keys.all (tensorDict tensors first).columns.contains &&
          td.columns.keys.length ==
            (tensorDict tensors first).columns.keys.length then .ok ()
        else .error (.keyError "the sets of keys do not match")) =
      (.ok () : Py Unit) := by
    intro first
    apply forM_eq_ok_iff.mpr
    intro td htd
    obtain ⟨xs, -, rfl⟩ := List.mem_map.mp htd
    simp [PyDict.contains, hkeys]
  have hcolumns : ∀ first : List X,
      (tensorDict tensors first).columns.mapEntriesM (fun key _ => do
        let parts ← (xss.map (tensorDict tensors)).mapM fun td => td.get key
        Column.cat parts) =
      .ok (tensorDict tensors xss.flatten).columns := by
    intro first
    rw [PyDict.mapEntriesM_eq_ok]
    simp only [tensorDict, PyDict.mapVals_entries, List.forall₂_map_left_iff,
      List.forall₂_map_right_iff, List.forall₂_same, true_and]
    intro e he
    have hparts : (xss.map (tensorDict tensors)).mapM
        (fun td => td.get e.1) =
          .ok (xss.map fun xs => column xs e.2) := by
      rw [mapM_eq_ok_iff, List.forall₂_map_left_iff,
        List.forall₂_map_right_iff, List.forall₂_same]
      exact fun xs _ => get_tensorDict he xs
    exact bind_eq_ok.mpr ⟨_, hparts, cat_column e.2 hne⟩
  obtain ⟨first, rest, hxss⟩ := List.exists_cons_of_ne_nil hne
  have hsum : ((xss.map (tensorDict tensors)).map
      TensorDict.batchSize).sum = xss.flatten.length := by
    rw [List.map_map, List.length_flatten]
    rfl
  have hcat := hchecks first
  have hmap := hcolumns first
  rw [hxss, List.map_cons] at hcat hmap hsum ⊢
  simp only [TensorDict.cat]
  rw [hcat, ok_bind, hmap, ok_bind, hsum, TensorDict.init_eq_ok]
  exact ⟨rfl, rfl⟩

theorem concatBatches_build {xss : List (List X)} (hne : xss ≠ []) :
    DataProto.concatBatches ((xss.map schema.build).map DataProto.batch) =
      .ok (schema.build xss.flatten).batch := by
  obtain ⟨tensors, objects, metaInfo⟩ := schema
  cases tensors with
  | none =>
      obtain ⟨xs, xss, rfl⟩ := List.exists_cons_of_ne_nil hne
      rfl
  | some tensors =>
      have hbatches :
          (xss.map fun xs => some (tensorDict tensors xs)).mapM
            DataProto.expectTensor = .ok (xss.map (tensorDict tensors)) := by
        rw [mapM_eq_ok_iff, List.forall₂_map_left_iff,
          List.forall₂_map_right_iff, List.forall₂_same]
        exact fun _ _ => rfl
      have hcat := cat_tensorDict tensors hne
      obtain ⟨xs, xss, rfl⟩ := List.exists_cons_of_ne_nil hne
      simp only [List.map_cons] at hbatches hcat
      simp only [DataProto.concatBatches, build, List.map_map, List.map_cons,
        Option.map_some, Function.comp_def]
      rw [hbatches, ok_bind, hcat]
      rfl

section Meta

variable [DecidableEq μ] [MetaValue μ]

/-- Concatenating appends the lists; the merged `meta_info` is that of equal
dictionaries. -/
theorem concat_build_eq_ok {xss : List (List X)} (hne : xss ≠ [])
    {data : DataProto τ ν μ} :
    DataProto.concat (xss.map schema.build) = .ok data ↔
      ∃ metaInfo, DataProto.mergeMetaInfo
          (List.replicate xss.length schema.metaInfo) = .ok metaInfo ∧
        data = { schema with metaInfo }.build xss.flatten := by
  have hobjects : listOfDictToDictOfList
      ((xss.map schema.build).map DataProto.nonTensorBatch) =
        .ok (schema.objects.mapVals fun f => xss.map fun xs => xs.map f) := by
    have hfs : (xss.map fun xs (f : X → ν) => xs.map f) ≠ [] := by
      simpa using hne
    have hdicts := listOfDictToDictOfList_mapVals schema.objects hfs
    simp only [List.map_map] at hdicts ⊢
    exact hdicts
  have hmeta : (xss.map schema.build).map DataProto.metaInfo =
      List.replicate xss.length schema.metaInfo := by
    rw [List.map_map]
    exact List.map_const' ..
  have hflat : (schema.objects.mapVals fun f =>
      xss.map fun xs => xs.map f).mapVals List.flatten =
        (schema.build xss.flatten).nonTensorBatch := by
    rw [PyDict.mapVals_mapVals]
    simp only [build, List.map_flatten]
  rw [DataProto.concat, concatBatches_build hne, ok_bind, hobjects, ok_bind,
    hmeta, bind_eq_ok, hflat]
  refine exists_congr fun metaInfo => and_congr_right fun _ => ?_
  rw [DataProto.init_eq_ok]
  constructor
  · rintro ⟨hbatch, hobjects, hmetaInfo⟩
    cases data
    cases hbatch
    cases hobjects
    cases hmetaInfo
    rfl
  · rintro rfl
    exact ⟨rfl, rfl, rfl⟩

/-- Padding appends copies of the last element, if the `meta_info` can be
merged with itself. -/
theorem padding_build_eq_ok (hcolumn : schema.HasColumn) {x : X}
    (hlast : xs.getLast? = some x) {k : Nat} (hk : k ≠ 0)
    {data : DataProto τ ν μ} :
    (schema.build xs).padding k = .ok data ↔
      (∃ metaInfo, DataProto.mergeMetaInfo
        [schema.metaInfo, schema.metaInfo] = .ok metaInfo) ∧
      data = schema.build (xs ++ List.replicate k x) := by
  have hgather : gather xs [xs.length - 1] = some [x] := by
    rw [gather_cons, gather_nil, ← List.getLast?_eq_getElem?, hlast]
    rfl
  have hrepeat : repeatRows true k [x] = List.replicate k x := by
    simp [repeatRows]
  have hne : [xs, List.replicate k x] ≠ [] := List.cons_ne_nil _ _
  have hconcat : ∀ padded : DataProto τ ν μ,
      DataProto.concat [schema.build xs, schema.build (List.replicate k x)] =
        .ok padded ↔ ∃ metaInfo, DataProto.mergeMetaInfo
          [schema.metaInfo, schema.metaInfo] = .ok metaInfo ∧
        padded = { schema with metaInfo }.build
          [xs, List.replicate k x].flatten :=
    fun padded => concat_build_eq_ok hne
  rw [DataProto.padding, if_neg hk, length_build hcolumn,
    if_neg (by decide), selectIdxs_build hgather, ok_bind, repeatData_build,
    ok_bind, hrepeat, bind_eq_ok]
  constructor
  · rintro ⟨padded, hpadded, hdata⟩
    obtain ⟨metaInfo, hmeta, rfl⟩ := (hconcat padded).mp hpadded
    refine ⟨⟨metaInfo, hmeta⟩, ?_⟩
    cases hdata
    simp [build]
  · rintro ⟨⟨metaInfo, hmeta⟩, rfl⟩
    refine ⟨_, (hconcat _).mpr ⟨metaInfo, hmeta, rfl⟩, ?_⟩
    simp [build, pure, Except.pure]

end Meta

/-- The `i`-th piece of `size` elements. -/
def piece (size : Nat) (xs : List α) (i : Nat) : List α :=
  (xs.take ((i + 1) * size)).drop (i * size)

theorem slice_tensorDict (tensors : PyDict (Option Nat × (X → τ)))
    (xs : List X) (size i : Nat) :
    (tensorDict tensors xs).slice (i * size) ((i + 1) * size) =
      tensorDict tensors (piece size xs i) := by
  simp only [TensorDict.slice, tensorDict, PyDict.mapVals_mapVals, column,
    piece, ← List.map_take, ← List.map_drop, TensorDict.mk.injEq,
    List.length_drop, List.length_take, and_true]
  rfl

theorem slice_build (schema : Schema X τ ν μ) (xs : List X) (size i : Nat) :
    (schema.build xs).slice (i * size) ((i + 1) * size) =
      schema.build (piece size xs i) := by
  obtain ⟨tensors, objects, metaInfo⟩ := schema
  simp only [DataProto.slice, build, Option.map_map, PyDict.mapVals_mapVals,
    Function.comp_def, slice_tensorDict, piece, List.map_take, List.map_drop]

theorem ceilDiv_mul {size chunks : Nat} (hchunks : 0 < chunks) :
    (chunks * size + chunks - 1) / chunks = size := by
  apply Nat.div_eq_of_lt_le
  · rw [Nat.mul_comm]
    omega
  · rw [Nat.add_mul, Nat.mul_comm]
    omega

theorem length_piece {xs : List α} {size chunks i : Nat}
    (hlen : xs.length = chunks * size) (hi : i < chunks) :
    (piece size xs i).length = size := by
  have hle : (i + 1) * size ≤ chunks * size := Nat.mul_le_mul_right size hi
  rw [Nat.succ_mul] at hle
  rw [piece, List.length_drop, List.length_take, hlen, Nat.succ_mul]
  omega

/-- The first pieces are the beginning of the list. -/
theorem flatten_pieces (size k : Nat) (xs : List α) :
    ((List.range k).map (piece size xs)).flatten = xs.take (k * size) := by
  induction k with
  | zero => simp
  | succ k ih =>
      have hle : k * size ≤ (k + 1) * size :=
        Nat.mul_le_mul_right size (Nat.le_succ k)
      have htake : xs.take (k * size) =
          (xs.take ((k + 1) * size)).take (k * size) := by
        rw [List.take_take, Nat.min_eq_left hle]
      rw [List.range_succ, List.map_append, List.flatten_append, ih, htake]
      simp only [List.map_cons, List.map_nil, List.flatten_cons,
        List.flatten_nil, List.append_nil, piece]
      exact List.take_append_drop _ _

theorem length_arraySplitAt (val : List α) (bounds : List Nat) :
    (arraySplitAt val bounds).length = bounds.length + 1 := by
  simp [arraySplitAt]

theorem arraySplitAt_map (f : α → β) (val : List α) (bounds : List Nat) :
    arraySplitAt (val.map f) bounds =
      (arraySplitAt val bounds).map (List.map f) := by
  simp [arraySplitAt, List.map_zipWith, List.map_take, List.map_drop]

/-- Splitting at the multiples of the size gives the pieces. -/
theorem arraySplitAt_multiples {val : List α} {size chunks : Nat}
    (hlen : val.length ≤ chunks * size) (hchunks : 0 < chunks) :
    arraySplitAt val ((List.range (chunks - 1)).map fun j => (j + 1) * size) =
      (List.range chunks).map (piece size val) := by
  obtain ⟨last, rfl⟩ := Nat.exists_eq_succ_of_ne_zero hchunks.ne'
  have hstarts : 0 :: ((List.range last).map fun j => (j + 1) * size) =
      ((List.range last).map fun j => j * size) ++ [last * size] := by
    have hrange : (List.range (last + 1)).map (fun j => j * size) =
        0 :: (List.range last).map fun j => (j + 1) * size := by
      simp [List.range_succ_eq_map, Function.comp_def]
    rw [← hrange, List.range_succ, List.map_append]
    rfl
  -- the last piece ends with the list
  have hlast : (val.take val.length).drop (last * size) =
      piece size val last := by
    rw [piece, List.take_length, List.take_of_length_le hlen]
  rw [arraySplitAt, Nat.succ_eq_add_one, Nat.add_sub_cancel, hstarts,
    List.zipWith_append (by simp), List.zipWith_map, List.zipWith_self,
    List.zipWith_cons_cons, List.zipWith_nil_left, hlast, List.range_succ,
    List.map_append]
  rfl

/-- The size of the pieces of `TensorDict.chunk`. -/
def pieceSize (n chunks : Nat) : Nat := (n + chunks - 1) / chunks

/-- How many there are. -/
def pieceCount (n chunks : Nat) : Nat :=
  max 1 ((n + pieceSize n chunks - 1) / pieceSize n chunks)

theorem pieceCount_pos (n chunks : Nat) : 0 < pieceCount n chunks :=
  Nat.lt_of_lt_of_le Nat.one_pos (Nat.le_max_left 1 _)

theorem pieceSize_pos {n chunks : Nat} (hn : 0 < n) (hchunks : 0 < chunks) :
    0 < pieceSize n chunks :=
  Nat.div_pos (by omega) hchunks

/-- The pieces cover the list, and the last one starts within it. -/
theorem pieceCount_spec {n chunks : Nat} (hn : 0 < n)
    (hchunks : 0 < chunks) :
    n ≤ pieceCount n chunks * pieceSize n chunks ∧
      (pieceCount n chunks - 1) * pieceSize n chunks < n := by
  have hsize := pieceSize_pos hn hchunks
  have hcount : pieceCount n chunks =
      (n + pieceSize n chunks - 1) / pieceSize n chunks :=
    Nat.max_eq_right (Nat.div_pos (by omega) hsize)
  have hpos := pieceCount_pos n chunks
  have hle := Nat.div_mul_le_self (n + pieceSize n chunks - 1)
    (pieceSize n chunks)
  have hlt := Nat.lt_div_mul_add (a := n + pieceSize n chunks - 1) hsize
  rw [← hcount] at hle hlt
  rw [Nat.sub_mul, Nat.one_mul]
  omega

theorem pieceCount_zero (chunks : Nat) : pieceCount 0 chunks = 1 := by
  have hsize : pieceSize 0 chunks = 0 := by
    rcases Nat.eq_zero_or_pos chunks with rfl | hchunks
    · rfl
    · exact Nat.div_eq_of_lt (by omega)
  rw [pieceCount, hsize]
  rfl

theorem pieceCount_le (n : Nat) {chunks : Nat} (hchunks : 0 < chunks) :
    pieceCount n chunks ≤ chunks := by
  rcases Nat.eq_zero_or_pos n with rfl | hn
  · rw [pieceCount_zero]
    exact hchunks
  · have hroom : n ≤ chunks * pieceSize n chunks := by
      have hlt := Nat.lt_div_mul_add (a := n + chunks - 1) hchunks
      rw [Nat.mul_comm chunks]
      change n ≤ (n + chunks - 1) / chunks * chunks
      omega
    have hmul : (pieceCount n chunks - 1) * pieceSize n chunks <
        chunks * pieceSize n chunks :=
      Nat.lt_of_lt_of_le (pieceCount_spec hn hchunks).2 hroom
    have hlt := Nat.lt_of_mul_lt_mul_right hmul
    omega

/-- There are as many as asked for exactly if the last one has a row. -/
theorem pieceCount_eq_iff {n chunks : Nat} (hchunks : 0 < chunks) :
    pieceCount n chunks = chunks ↔
      chunks = 1 ∨ (chunks - 1) * pieceSize n chunks < n := by
  have hle := pieceCount_le n hchunks
  have hpos := pieceCount_pos n chunks
  rcases Nat.eq_zero_or_pos n with rfl | hn
  · rw [pieceCount_zero]
    omega
  · obtain ⟨hcover, hlast⟩ := pieceCount_spec hn hchunks
    constructor
    · intro heq
      rw [heq] at hlast
      exact .inr hlast
    · rintro (rfl | hlt)
      · omega
      · have hmul : (chunks - 1) * pieceSize n chunks <
            pieceCount n chunks * pieceSize n chunks :=
          Nat.lt_of_lt_of_le hlt hcover
        have hlt' := Nat.lt_of_mul_lt_mul_right hmul
        omega

theorem chunk_tensorDict (tensors : PyDict (Option Nat × (X → τ)))
    (xs : List X) {chunks : Nat} (hchunks : 0 < chunks) :
    (tensorDict tensors xs).chunk chunks =
      .ok ((List.range (pieceCount xs.length chunks)).map fun i =>
        tensorDict tensors (piece (pieceSize xs.length chunks) xs i)) := by
  simp only [TensorDict.chunk, if_neg hchunks.ne', slice_tensorDict]
  rfl

/-- Where `chunk` cuts an object of `n` rows. -/
def bounds (schema : Schema X τ ν μ) (n chunks : Nat) : List Nat :=
  match schema.tensors with
  | some _ => (List.range (pieceCount n chunks - 1)).map fun j =>
      (j + 1) * pieceSize n chunks
  | none => (List.range (chunks - 1)).map fun j =>
      (j + 1) * (n / chunks) + min (j + 1) (n % chunks)

/-- The indices between the pieces, from their sizes. -/
theorem cumulated_pieces {n chunks : Nat} (hlen : xs.length = n)
    (hchunks : 0 < chunks) :
    ((List.range (pieceCount n chunks)).map fun j =>
      (((List.range (pieceCount n chunks)).map fun i =>
        (piece (pieceSize n chunks) xs i).length).take (j + 1)).sum).dropLast =
      (List.range (pieceCount n chunks - 1)).map fun j =>
        (j + 1) * pieceSize n chunks := by
  rw [← List.map_dropLast, List.dropLast_eq_take, List.length_range,
    List.take_range, Nat.min_eq_left (Nat.sub_le _ 1)]
  apply List.map_congr_left
  intro j hj
  have hlt := List.mem_range.mp hj
  have hsum : ((List.range (j + 1)).map fun i =>
      (piece (pieceSize n chunks) xs i).length).sum =
        min ((j + 1) * pieceSize n chunks) n := by
    have hflatten := congrArg List.length
      (flatten_pieces (pieceSize n chunks) (j + 1) xs)
    rw [List.length_flatten, List.map_map, List.length_take, hlen] at hflatten
    exact hflatten
  have hle : (j + 1) * pieceSize n chunks ≤ n := by
    have hn : 0 < n := by
      rcases Nat.eq_zero_or_pos n with rfl | hn
      · rw [pieceCount_zero] at hlt
        omega
      · exact hn
    have hmul := Nat.mul_le_mul_right (pieceSize n chunks)
      (Nat.succ_le_of_lt hlt)
    exact Nat.le_of_lt (Nat.lt_of_le_of_lt hmul (pieceCount_spec hn hchunks).2)
  rw [← List.map_take, List.take_range, Nat.min_eq_left (by omega), hsum,
    Nat.min_eq_left hle]

/-- The pieces of the batch, and the same pieces of every object column. -/
theorem chunkBatch_build (schema : Schema X τ ν μ) (xs : List X)
    {chunks : Nat} (hchunks : 0 < chunks) :
    ∃ split : List ν → Py (List (List ν)),
      DataProto.chunkBatch (schema.build xs).batch chunks =
        .ok ((arraySplitAt xs (schema.bounds xs.length chunks)).map fun ys =>
          (schema.build ys).batch, split) ∧
      ∀ val : List ν, val.length = xs.length →
        split val = .ok (arraySplitAt val (schema.bounds xs.length chunks)) := by
  obtain ⟨tensors, objects, metaInfo⟩ := schema
  cases tensors with
  | none =>
      refine ⟨fun val => arraySplit val chunks, ?_, ?_⟩
      · have hnone : (arraySplitAt xs (bounds
            (⟨none, objects, metaInfo⟩ : Schema X τ ν μ) xs.length
              chunks)).map (fun _ => (none : Option (TensorDict τ))) =
            List.replicate chunks none := by
          rw [List.map_const', length_arraySplitAt, bounds, List.length_map,
            List.length_range, Nat.sub_add_cancel hchunks]
        simp only [DataProto.chunkBatch, build, Option.map_none]
        rw [hnone]
      · intro val hval
        change arraySplit val chunks = _
        rw [arraySplit, if_neg hchunks.ne', hval]
        rfl
  | some tensors =>
      have hcover : xs.length ≤ pieceCount xs.length chunks *
          pieceSize xs.length chunks := by
        rcases Nat.eq_zero_or_pos xs.length with hzero | hn
        · rw [hzero]
          exact Nat.zero_le _
        · exact (pieceCount_spec hn hchunks).1
      have hsizes : ((List.range (pieceCount xs.length chunks)).map fun i =>
          tensorDict tensors (piece (pieceSize xs.length chunks) xs i)).map
            TensorDict.batchSize =
          (List.range (pieceCount xs.length chunks)).map fun i =>
            (piece (pieceSize xs.length chunks) xs i).length := by
        rw [List.map_map]
        rfl
      refine ⟨fun val => .ok (arraySplitAt val
        ((List.range (pieceCount xs.length chunks - 1)).map fun j =>
          (j + 1) * pieceSize xs.length chunks)), ?_, fun val _ => rfl⟩
      simp only [DataProto.chunkBatch, build, Option.map_some, bounds]
      rw [chunk_tensorDict tensors xs hchunks, ok_bind, hsizes]
      simp only [List.length_map, List.length_range]
      rw [cumulated_pieces rfl hchunks, arraySplitAt_multiples hcover
        (pieceCount_pos _ _), List.map_map, List.map_map]
      rfl

/-- A length that the number of parts divides is cut into equal parts; of no
rows `TensorDict.chunk` makes one part only. -/
theorem bounds_of_dvd (schema : Schema X τ ν μ) {size chunks : Nat}
    (hchunks : 0 < chunks)
    (hfits : 0 < size ∨ chunks = 1 ∨ schema.tensors = none) :
    schema.bounds (chunks * size) chunks =
      (List.range (chunks - 1)).map fun j => (j + 1) * size := by
  have hpieceSize : pieceSize (chunks * size) chunks = size :=
    ceilDiv_mul hchunks
  obtain ⟨tensors, objects, metaInfo⟩ := schema
  cases tensors with
  | none => simp [bounds, Nat.mul_div_cancel_left size hchunks]
  | some tensors =>
      have hpieceCount : pieceCount (chunks * size) chunks = chunks := by
        rw [pieceCount_eq_iff hchunks, hpieceSize, Nat.sub_mul, Nat.one_mul]
        rcases hfits with hsize | hone | hnone
        · have hpos := Nat.mul_pos hchunks hsize
          omega
        · exact .inl hone
        · cases hnone
      rw [bounds, hpieceCount, hpieceSize]

section Meta

variable [MetaValue μ]

/-- Cutting into as many parts as asked for cuts the list. -/
theorem chunk_build_eq_ok {autoPadding : Bool} {chunks : Nat}
    (hchunks : 0 < chunks)
    (hcheck : DataProto.checkEqualChunk autoPadding (schema.build xs) chunks =
      .ok ())
    (hcount : (schema.bounds xs.length chunks).length + 1 = chunks) :
    (schema.build xs).chunk autoPadding chunks =
      .ok ((arraySplitAt xs (schema.bounds xs.length chunks)).map
        schema.build) := by
  obtain ⟨split, hbatch, hsplit⟩ := chunkBatch_build schema xs hchunks
  generalize hcuts : schema.bounds xs.length chunks = cuts at *
  have hobjects : (schema.build xs).nonTensorBatch.mapEntriesM
      (fun _ val => DataProto.chunkColumn split chunks val) =
        .ok (schema.objects.mapVals fun f =>
          arraySplitAt (xs.map f) cuts) := by
    rw [PyDict.mapEntriesM_eq_ok]
    simp only [build, PyDict.mapVals_entries, List.forall₂_map_left_iff,
      List.forall₂_map_right_iff, List.forall₂_same, true_and]
    intro e _
    rw [DataProto.chunkColumn, hsplit _ (List.length_map _), ok_bind,
      length_arraySplitAt, hcount, beq_self_eq_true, pyAssert_true, ok_bind]
    rfl
  have hparts : ∀ i, ∀ hi : i < (arraySplitAt xs cuts).length,
      DataProto.chunkPart ((arraySplitAt xs cuts).map fun ys =>
          (schema.build ys).batch)
        (schema.objects.mapVals fun f => arraySplitAt (xs.map f) cuts)
        schema.metaInfo i =
          .ok (schema.build ((arraySplitAt xs cuts).get ⟨i, hi⟩)) := by
    intro i hi
    have hget : (arraySplitAt xs cuts)[i]? =
        some ((arraySplitAt xs cuts).get ⟨i, hi⟩) :=
      List.getElem?_eq_getElem hi
    rw [DataProto.chunkPart, List.getElem?_map, hget]
    simp only [Option.map_some]
    rw [DataProto.init_eq_ok]
    refine ⟨rfl, ?_, rfl⟩
    rw [PyDict.mapVals_mapVals]
    simp only [build, List.getD_eq_getElem?_getD, arraySplitAt_map,
      List.getElem?_map, hget, Option.map_some, Option.getD_some]
  rw [DataProto.chunk, hcheck, ok_bind, hbatch, ok_bind]
  simp only [hobjects, ok_bind]
  rw [mapM_eq_ok_iff, List.forall₂_iff_get]
  refine ⟨?_, fun i hi hi' => ?_⟩
  · rw [List.length_range, List.length_map, length_arraySplitAt, hcount]
  · rw [List.length_map] at hi'
    simp only [List.get_eq_getElem, List.getElem_range, List.getElem_map]
    exact hparts i hi'

/-- With fewer pieces cutting raises. -/
theorem le_of_chunk_build {autoPadding : Bool} {chunks : Nat}
    (hchunks : 0 < chunks) {pieces : List (DataProto τ ν μ)}
    (h : (schema.build xs).chunk autoPadding chunks = .ok pieces) :
    chunks ≤ (schema.bounds xs.length chunks).length + 1 := by
  obtain ⟨split, hbatch, -⟩ := chunkBatch_build schema xs hchunks
  rw [DataProto.chunk, bind_eq_ok] at h
  obtain ⟨_, -, h⟩ := h
  rw [hbatch, ok_bind, bind_eq_ok] at h
  obtain ⟨columns, -, h⟩ := h
  have hall := mapM_eq_ok_iff.mp h
  obtain ⟨piece, -, hpiece⟩ := exists_of_forall₂_right hall.flip
    (List.mem_range.mpr (Nat.sub_lt hchunks Nat.one_pos))
  by_contra hlt
  have hnone : ((arraySplitAt xs (schema.bounds xs.length chunks)).map
      fun ys => (schema.build ys).batch)[chunks - 1]? = none := by
    rw [List.getElem?_eq_none_iff, List.length_map, length_arraySplitAt]
    omega
  simp only [DataProto.chunkPart, hnone] at hpiece
  cases hpiece

/-- Chunking into equal parts cuts the list. -/
theorem chunk_build (hcolumn : schema.HasColumn) (autoPadding : Bool)
    {size chunks : Nat} (hlen : xs.length = chunks * size)
    (hchunks : 0 < chunks)
    (hfits : 0 < size ∨ chunks = 1 ∨ schema.tensors = none) :
    (schema.build xs).chunk autoPadding chunks =
      .ok ((List.range chunks).map fun i =>
        schema.build (piece size xs i)) := by
  have hbounds : schema.bounds xs.length chunks =
      (List.range (chunks - 1)).map fun j => (j + 1) * size := by
    rw [hlen, bounds_of_dvd schema hchunks hfits]
  have hcheck : DataProto.checkEqualChunk autoPadding (schema.build xs)
      chunks = .ok () := by
    unfold DataProto.checkEqualChunk
    split
    · rfl
    · rw [if_neg hchunks.ne', length_build hcolumn, hlen, Nat.mul_mod_right,
        pyAssert_eq_ok]
      rfl
  have hcount : (schema.bounds xs.length chunks).length + 1 = chunks := by
    rw [hbounds, List.length_map, List.length_range,
      Nat.sub_add_cancel hchunks]
  rw [chunk_build_eq_ok hchunks hcheck hcount, hbounds,
    arraySplitAt_multiples hlen.le hchunks, List.map_map]
  rfl

end Meta

end Operations

end Schema

namespace DataProto

/-- Every column has `n` entries, and there is a column. -/
structure HasRows (data : DataProto τ ν μ) (n : Nat) : Prop where
  batchSize : ∀ td ∈ data.batch, td.batchSize = n
  objects : ∀ e ∈ data.nonTensorBatch.entries, e.2.length = n
  column : data.batch ≠ none ∨ data.nonTensorBatch.entries ≠ []

theorem exists_map_finRange {n : Nat} {xs : List α} (h : xs.length = n) :
    ∃ f : Fin n → α, (List.finRange n).map f = xs := by
  subst h
  exact ⟨xs.get, List.map_get_finRange xs⟩

/-- Such a `DataProto` is a schema read over its row indices. -/
theorem exists_build {data : DataProto τ ν μ} {n : Nat}
    (h : data.HasRows n) :
    ∃ schema : Schema (Fin n) τ ν μ, schema.HasColumn ∧
      schema.metaInfo = data.metaInfo ∧
      data = schema.build (List.finRange n) := by
  obtain ⟨objects, hobjects⟩ : ∃ objects : PyDict (Fin n → ν),
      data.nonTensorBatch =
        objects.mapVals fun f => (List.finRange n).map f :=
    PyDict.exists_eq_mapVals fun e he => exists_map_finRange (h.objects e he)
  obtain ⟨tensors, htensors⟩ :
      ∃ tensors : Option (PyDict (Option Nat × (Fin n → τ))),
        data.batch = tensors.map fun tensors =>
          Schema.tensorDict tensors (List.finRange n) := by
    cases hbatch : data.batch with
    | none => exact ⟨none, rfl⟩
    | some td =>
        have hsize : td.batchSize = n := h.batchSize td hbatch
        obtain ⟨tensors, htensors⟩ :
            ∃ tensors : PyDict (Option Nat × (Fin n → τ)),
              td.columns = tensors.mapVals
                (Schema.column (List.finRange n)) := by
          refine PyDict.exists_eq_mapVals fun e he => ?_
          obtain ⟨f, hf⟩ :=
            exists_map_finRange ((td.aligned e he).trans hsize)
          refine ⟨(e.2.lastDim, f), ?_⟩
          rw [Schema.column, hf]
        refine ⟨some tensors, congrArg some ?_⟩
        obtain ⟨columns, batchSize, aligned⟩ := td
        simp only at hsize htensors
        subst hsize htensors
        simp [Schema.tensorDict]
  refine ⟨⟨tensors, objects, data.metaInfo⟩, ?_, rfl, ?_⟩
  · rcases h.column with hbatch | hne
    · refine .inl fun hnone => hbatch ?_
      simp only at hnone
      rw [htensors, hnone]
      rfl
    · refine .inr fun hnil => hne ?_
      simp only at hnil
      rw [hobjects, PyDict.mapVals_entries, hnil]
      rfl
  · obtain ⟨batch, nonTensorBatch, metaInfo, consistent⟩ := data
    simp only at hobjects htensors
    subst hobjects htensors
    rfl

theorem hasRows_build {schema : Schema X τ ν μ} (hcolumn : schema.HasColumn)
    (xs : List X) : (schema.build xs).HasRows xs.length := by
  refine ⟨?_, ?_, ?_⟩
  · intro td htd
    obtain ⟨tensors, -, rfl⟩ := Option.mem_map.mp htd
    rfl
  · intro e he
    obtain ⟨f, -, rfl⟩ := List.mem_map.mp he
    simp
  · simpa [Schema.HasColumn, Schema.build] using hcolumn

/-- Cutting into equal parts gives slices. -/
theorem chunk_eq_slices [MetaValue μ] {data : DataProto τ ν μ} {size chunks : Nat}
    (h : data.HasRows (chunks * size)) (hchunks : 0 < chunks)
    (hfits : 0 < size ∨ chunks = 1 ∨ data.batch = none)
    (autoPadding : Bool) :
    data.chunk autoPadding chunks =
      .ok ((List.range chunks).map fun i =>
        data.slice (i * size) ((i + 1) * size)) := by
  obtain ⟨schema, hcolumn, -, hdata⟩ := exists_build h
  have hslice : ∀ i, data.slice (i * size) ((i + 1) * size) =
      schema.build (Schema.piece size (List.finRange (chunks * size)) i) := by
    intro i
    rw [hdata]
    exact Schema.slice_build schema _ size i
  have hfits' : 0 < size ∨ chunks = 1 ∨ schema.tensors = none := by
    rw [hdata, Schema.batch_build_eq_none_iff] at hfits
    exact hfits
  simp only [hslice]
  rw [hdata, Schema.chunk_build hcolumn autoPadding (List.length_finRange)
    hchunks hfits']

theorem length_of_hasRows {data : DataProto τ ν μ} {n : Nat}
    (h : data.HasRows n) : data.length = n := by
  obtain ⟨schema, hcolumn, -, hdata⟩ := exists_build h
  rw [hdata, Schema.length_build hcolumn, List.length_finRange]

section Meta

variable [DecidableEq μ] [MetaValue μ]

/-- `meta_info` can be merged with itself. -/
def MetaMergeable (data : DataProto τ ν μ) : Prop :=
  ∃ metaInfo, mergeMetaInfo [data.metaInfo, data.metaInfo] = .ok metaInfo

/-- What padding does to a `DataProto` with a row: if the `meta_info` merges
it appends copies of the last row. -/
theorem padding_spec {data : DataProto τ ν μ} {n k : Nat}
    (h : data.HasRows n) (hn : 0 < n) (hk : k ≠ 0) :
    ∃ padded : DataProto τ ν μ, padded.HasRows (n + k) ∧
      padded.metaInfo = data.metaInfo ∧
      padded.rows = data.rows ++ List.replicate k (data.rowAt (n - 1)) ∧
      ∀ result, data.padding k = .ok result ↔
        data.MetaMergeable ∧ result = padded := by
  obtain ⟨schema, hcolumn, hmeta, hdata⟩ := exists_build h
  obtain ⟨m, rfl⟩ := Nat.exists_eq_succ_of_ne_zero hn.ne'
  have hlast : (List.finRange (m + 1)).getLast? = some (Fin.last m) := by
    rw [List.finRange_succ_last, List.getLast?_concat]
  have hindex : (List.finRange (m + 1))[m + 1 - 1]? = some (Fin.last m) := by
    rw [List.getLast?_eq_getElem?, List.length_finRange] at hlast
    exact hlast
  refine ⟨schema.build (List.finRange (m + 1) ++
    List.replicate k (Fin.last m)), ?_, hmeta, ?_, ?_⟩
  · have hrows := hasRows_build hcolumn
      (List.finRange (m + 1) ++ List.replicate k (Fin.last m))
    rw [List.length_append, List.length_finRange,
      List.length_replicate] at hrows
    exact hrows
  · rw [Schema.rows_build hcolumn, hdata, Schema.rows_build hcolumn,
      List.map_append, List.map_replicate, Schema.rowAt_build hindex]
  · intro result
    rw [MetaMergeable, ← hmeta, hdata]
    exact Schema.padding_build_eq_ok hcolumn hlast hk

/-- Entries that are there already are checked and leave everything as it
is. -/
theorem foldlM_mergeMetaEntry_of_mem {merged : PyDict μ}
    {allMetrics : List (PyDict μ)} {entries : List (String × μ)}
    (hmetrics : "metrics" ∉ merged.keys)
    (hmem : ∀ e ∈ entries, e ∈ merged.entries) :
    entries.foldlM mergeMetaEntry (merged, allMetrics) =
      .ok (merged, allMetrics) := by
  induction entries with
  | nil => rfl
  | cons e entries ih =>
      have he := hmem e List.mem_cons_self
      have hkey : e.1 ≠ "metrics" := by
        rintro heq
        exact hmetrics (heq ▸ List.mem_map.mpr ⟨e, he, rfl⟩)
      have hget : merged.get? e.1 = some e.2 :=
        PyDict.get?_eq_some_iff.mpr he
      have hstep : mergeMetaEntry (merged, allMetrics) e =
          .ok (merged, allMetrics) := by
        rw [mergeMetaEntry, if_neg hkey, hget]
        simp [pyAssert, Functor.map, Except.map]
      rw [List.foldlM_cons, hstep, ok_bind]
      exact ih fun e' he' => hmem e' (List.mem_cons_of_mem e he')

/-- New entries are added in their order. -/
theorem foldlM_mergeMetaEntry_of_new {allMetrics : List (PyDict μ)}
    {entries : List (String × μ)} {merged : PyDict μ}
    (hmetrics : "metrics" ∉ entries.map Prod.fst)
    (hnodup : ((merged.entries ++ entries).map Prod.fst).Nodup) :
    ∃ merged' : PyDict μ, merged'.entries = merged.entries ++ entries ∧
      entries.foldlM mergeMetaEntry (merged, allMetrics) =
        .ok (merged', allMetrics) := by
  induction entries generalizing merged with
  | nil => exact ⟨merged, by simp, rfl⟩
  | cons e entries ih =>
      simp only [List.map_cons, List.mem_cons, not_or] at hmetrics
      have hnew : e.1 ∉ merged.keys := by
        rw [List.map_append, List.nodup_append'] at hnodup
        intro hmem
        exact hnodup.2.2 hmem (by simp)
      have hget : merged.get? e.1 = none := by
        by_contra hsome
        obtain ⟨v, hv⟩ := Option.ne_none_iff_exists'.mp hsome
        exact hnew (List.mem_map.mpr ⟨_, PyDict.get?_eq_some_iff.mp hv, rfl⟩)
      have hset : (merged.set e.1 e.2).entries = merged.entries ++ [e] := by
        rw [PyDict.set, dif_neg hnew]
        rfl
      have hstep : mergeMetaEntry (merged, allMetrics) e =
          .ok (merged.set e.1 e.2, allMetrics) := by
        rw [mergeMetaEntry, if_neg (Ne.symm hmetrics.1), hget]
      have hnodup' : (((merged.set e.1 e.2).entries ++
          entries).map Prod.fst).Nodup := by
        rw [hset, List.append_assoc]
        exact hnodup
      obtain ⟨merged', hentries, hfold⟩ := ih hmetrics.2 hnodup'
      refine ⟨merged', ?_, ?_⟩
      · rw [hentries, hset, List.append_assoc]
        rfl
      · rw [List.foldlM_cons, hstep, ok_bind, hfold]

/-- Equal dictionaries without metrics merge to that dictionary. -/
theorem mergeMetaInfo_replicate {metaInfo : PyDict μ} {k : Nat}
    (hk : 0 < k) (hmetrics : "metrics" ∉ metaInfo.keys) :
    mergeMetaInfo (List.replicate k metaInfo) = .ok metaInfo := by
  obtain ⟨k, rfl⟩ := Nat.exists_eq_succ_of_ne_zero hk.ne'
  obtain ⟨merged, hentries, hfirst⟩ : ∃ merged : PyDict μ,
      merged.entries = PyDict.empty.entries ++ metaInfo.entries ∧
      metaInfo.entries.foldlM mergeMetaEntry (PyDict.empty, []) =
        .ok (merged, []) :=
    foldlM_mergeMetaEntry_of_new hmetrics metaInfo.nodup
  have hmerged : merged = metaInfo := PyDict.ext hentries
  subst hmerged
  have hrest : ((List.replicate k merged).flatMap
      PyDict.entries).foldlM mergeMetaEntry (merged, []) =
        .ok (merged, []) := by
    refine foldlM_mergeMetaEntry_of_mem hmetrics fun e he => ?_
    obtain ⟨d, hd, he⟩ := List.mem_flatMap.mp he
    rw [List.eq_of_mem_replicate hd] at he
    exact he
  rw [mergeMetaInfo, List.replicate_succ, List.flatMap_cons,
    List.foldlM_append, hfirst, ok_bind, hrest]
  rfl

end Meta

end DataProto

end SelfDistillation
