/-
When `DataProto.concat` returns: which `meta_info` merges and to what, and
whether the rows of the columns stay together.
-/
import SelfDistillation.DataProtoSchema

namespace SelfDistillation

variable {α τ ν μ : Type}

namespace DataProto

section Meta

variable [MetaValue μ]

/-- `all_metrics`: the dictionaries of the `metrics` entries. -/
def allMetrics (entries : List (String × μ)) : Py (List (PyDict μ)) :=
  List.flatten <$> (entries.filter fun e => e.1 = "metrics").mapM fun e =>
    MetaValue.metricDicts e.2

/-- The values under one key are equal, except the metrics, which are
dictionaries with keys of the first. -/
structure MetaCompatible (metaInfos : List (PyDict μ)) : Prop where
  values : ∀ e ∈ metaInfos.flatMap PyDict.entries,
    ∀ e' ∈ metaInfos.flatMap PyDict.entries,
      e.1 ≠ "metrics" → e.1 = e'.1 → e.2 = e'.2
  metrics : ∃ dicts, allMetrics (metaInfos.flatMap PyDict.entries) = .ok dicts ∧
    ∀ first ∈ dicts.head?, ∀ d ∈ dicts, ∀ key ∈ d.keys, key ∈ first.keys

/-- What one entry does: metrics are collected, another key is added or holds
the same value already. -/
inductive MergedEntry (entry : String × μ) :
    PyDict μ × List (PyDict μ) → PyDict μ × List (PyDict μ) → Prop
  | metrics {merged : PyDict μ} {metrics dicts : List (PyDict μ)}
      (hkey : entry.1 = "metrics")
      (hdicts : MetaValue.metricDicts entry.2 = .ok dicts) :
      MergedEntry entry (merged, metrics) (merged, metrics ++ dicts)
  | same {merged : PyDict μ} {metrics : List (PyDict μ)}
      (hkey : entry.1 ≠ "metrics")
      (hget : merged.get? entry.1 = some entry.2) :
      MergedEntry entry (merged, metrics) (merged, metrics)
  | added {merged : PyDict μ} {metrics : List (PyDict μ)}
      (hkey : entry.1 ≠ "metrics") (hget : merged.get? entry.1 = none) :
      MergedEntry entry (merged, metrics)
        (merged.set entry.1 entry.2, metrics)

/-- An entry leaves the values of the other keys as they are. -/
theorem MergedEntry.get?_of_ne {entry : String × μ}
    {state state' : PyDict μ × List (PyDict μ)}
    (h : MergedEntry entry state state') {key : String}
    (hne : entry.1 ≠ "metrics" → key ≠ entry.1) :
    state'.1.get? key = state.1.get? key := by
  cases h with
  | metrics => rfl
  | same => rfl
  | added hkey hget => rw [PyDict.get?_set, if_neg (hne hkey)]

/-- Values found once stay. -/
theorem MergedEntry.get?_of_some {entry : String × μ}
    {state state' : PyDict μ × List (PyDict μ)}
    (h : MergedEntry entry state state') {key : String} {v : μ}
    (hv : state.1.get? key = some v) : state'.1.get? key = some v := by
  cases h with
  | metrics => exact hv
  | same => exact hv
  | added hkey hget =>
      rw [PyDict.get?_set, if_neg, hv]
      rintro rfl
      rw [hget] at hv
      cases hv

theorem MergedEntry.get?_self {entry : String × μ}
    {state state' : PyDict μ × List (PyDict μ)}
    (h : MergedEntry entry state state') (hkey : entry.1 ≠ "metrics") :
    state'.1.get? entry.1 = some entry.2 := by
  cases h with
  | metrics heq => exact absurd heq hkey
  | same hkey hget => exact hget
  | added hkey hget => rw [PyDict.get?_set, if_pos rfl]

theorem MergedEntry.exists_of_compatible {entry : String × μ}
    {state : PyDict μ × List (PyDict μ)} {dicts : List (PyDict μ)}
    (hmetrics : entry.1 = "metrics" →
      MetaValue.metricDicts entry.2 = .ok dicts)
    (hvalue : entry.1 ≠ "metrics" →
      ∀ v, state.1.get? entry.1 = some v → v = entry.2) :
    ∃ state', MergedEntry entry state state' := by
  obtain ⟨merged, metrics⟩ := state
  by_cases hkey : entry.1 = "metrics"
  · exact ⟨_, .metrics hkey (hmetrics hkey)⟩
  · cases hget : merged.get? entry.1 with
    | some v =>
        have hv := hvalue hkey v hget
        subst hv
        exact ⟨_, .same hkey hget⟩
    | none => exact ⟨_, .added hkey hget⟩

theorem allMetrics_cons_eq_ok {e : String × μ} {es : List (String × μ)}
    {dicts : List (PyDict μ)} :
    allMetrics (e :: es) = .ok dicts ↔
      (e.1 = "metrics" ∧ ∃ first rest, MetaValue.metricDicts e.2 = .ok first ∧
        allMetrics es = .ok rest ∧ dicts = first ++ rest) ∨
      (e.1 ≠ "metrics" ∧ allMetrics es = .ok dicts) := by
  by_cases hkey : e.1 = "metrics"
  · have hfilter : (e :: es).filter (fun e => e.1 = "metrics") =
        e :: es.filter fun e => e.1 = "metrics" :=
      List.filter_cons_of_pos (by simpa using hkey)
    simp only [allMetrics, hfilter, map_eq_ok, mapM_eq_ok_iff,
      List.forall₂_cons_left_iff, hkey, true_and, ne_eq, not_true_eq_false,
      false_and, or_false]
    constructor
    · rintro ⟨-, ⟨first, rest, hfirst, hrest, rfl⟩, rfl⟩
      exact ⟨first, _, hfirst, ⟨rest, hrest, rfl⟩, rfl⟩
    · rintro ⟨first, -, hfirst, ⟨rest, hrest, rfl⟩, rfl⟩
      exact ⟨_, ⟨first, rest, hfirst, hrest, rfl⟩, rfl⟩
  · have hfilter : (e :: es).filter (fun e => e.1 = "metrics") =
        es.filter fun e => e.1 = "metrics" :=
      List.filter_cons_of_neg (by simpa using hkey)
    simp only [allMetrics, hfilter, hkey, false_and, false_or, ne_eq,
      not_false_eq_true, true_and]

variable [DecidableEq μ]

theorem mergeMetaEntry_eq_ok {entry : String × μ}
    {state state' : PyDict μ × List (PyDict μ)} :
    mergeMetaEntry state entry = .ok state' ↔
      MergedEntry entry state state' := by
  obtain ⟨merged, metrics⟩ := state
  unfold mergeMetaEntry
  split
  · rename_i hkey
    rw [map_eq_ok]
    constructor
    · rintro ⟨dicts, hdicts, rfl⟩
      exact .metrics hkey hdicts
    · rintro (⟨-, hdicts⟩ | ⟨hne, -⟩ | ⟨hne, -⟩)
      · exact ⟨_, hdicts, rfl⟩
      · exact absurd hkey hne
      · exact absurd hkey hne
  · rename_i hkey
    cases hget : merged.get? entry.1 with
    | some v =>
        simp only [map_eq_ok, pyAssert_eq_ok, beq_iff_eq]
        constructor
        · rintro ⟨_, rfl, rfl⟩
          exact .same hkey hget
        · rintro (⟨heq, -⟩ | ⟨-, hsome⟩ | ⟨-, hnone⟩)
          · exact absurd heq hkey
          · rw [hget] at hsome
            exact ⟨(), Option.some.inj hsome, rfl⟩
          · rw [hget] at hnone
            cases hnone
    | none =>
        simp only [Except.ok.injEq]
        constructor
        · rintro rfl
          exact .added hkey hget
        · rintro (⟨heq, -⟩ | ⟨-, hsome⟩ | ⟨-, -⟩)
          · exact absurd heq hkey
          · rw [hget] at hsome
            cases hsome
          · rfl

/-- What the loop over the entries does. -/
theorem foldlM_mergeMetaEntry_spec {es : List (String × μ)}
    {state state' : PyDict μ × List (PyDict μ)}
    (h : es.foldlM mergeMetaEntry state = .ok state') :
    (∃ dicts, allMetrics es = .ok dicts ∧ state'.2 = state.2 ++ dicts) ∧
      (∀ e ∈ es, e.1 ≠ "metrics" → state'.1.get? e.1 = some e.2) ∧
      (∀ key, (∀ e ∈ es, e.1 ≠ "metrics" → key ≠ e.1) →
        state'.1.get? key = state.1.get? key) ∧
      ∀ key v, state.1.get? key = some v → state'.1.get? key = some v := by
  induction es generalizing state with
  | nil =>
      cases h
      exact ⟨⟨[], rfl, by simp⟩, by simp, fun _ _ => rfl, fun _ _ hv => hv⟩
  | cons e es ih =>
      rw [List.foldlM_cons, bind_eq_ok] at h
      obtain ⟨middle, hstep, hrest⟩ := h
      have hentry := mergeMetaEntry_eq_ok.mp hstep
      obtain ⟨⟨rest, hall, hmetrics⟩, hvalues, hother, hstay⟩ := ih hrest
      refine ⟨?_, ?_, ?_, ?_⟩
      · cases hentry with
        | metrics hkey hdicts =>
            refine ⟨_, allMetrics_cons_eq_ok.mpr
              (.inl ⟨hkey, _, rest, hdicts, hall, rfl⟩), ?_⟩
            rw [hmetrics, List.append_assoc]
        | same hkey =>
            exact ⟨rest, allMetrics_cons_eq_ok.mpr (.inr ⟨hkey, hall⟩),
              hmetrics⟩
        | added hkey =>
            exact ⟨rest, allMetrics_cons_eq_ok.mpr (.inr ⟨hkey, hall⟩),
              hmetrics⟩
      · rw [List.forall_mem_cons]
        exact ⟨fun hkey => hstay _ _ (hentry.get?_self hkey), hvalues⟩
      · intro key hkey
        rw [List.forall_mem_cons] at hkey
        rw [hother key hkey.2, hentry.get?_of_ne hkey.1]
      · exact fun key v hv => hstay key v (hentry.get?_of_some hv)

theorem exists_foldlM_mergeMetaEntry {es : List (String × μ)}
    (state : PyDict μ × List (PyDict μ)) {dicts : List (PyDict μ)}
    (hmetrics : allMetrics es = .ok dicts)
    (hstate : ∀ e ∈ es, e.1 ≠ "metrics" →
      ∀ v, state.1.get? e.1 = some v → v = e.2)
    (hvalues : ∀ e ∈ es, ∀ e' ∈ es, e.1 ≠ "metrics" → e.1 = e'.1 →
      e.2 = e'.2) :
    ∃ state', es.foldlM mergeMetaEntry state = .ok state' := by
  induction es generalizing state dicts with
  | nil => exact ⟨state, rfl⟩
  | cons e es ih =>
      rw [List.forall_mem_cons] at hstate
      obtain ⟨first, rest, hfirst, hrest⟩ : ∃ first rest,
          (e.1 = "metrics" → MetaValue.metricDicts e.2 = .ok first) ∧
            allMetrics es = .ok rest := by
        rcases allMetrics_cons_eq_ok.mp hmetrics with
          ⟨-, first, rest, hfirst, hrest, -⟩ | ⟨hkey, hrest⟩
        · exact ⟨first, rest, fun _ => hfirst, hrest⟩
        · exact ⟨[], dicts, fun heq => absurd heq hkey, hrest⟩
      obtain ⟨middle, hentry⟩ :=
        MergedEntry.exists_of_compatible hfirst hstate.1
      obtain ⟨state', hfold⟩ := ih middle hrest
        (fun e' he' hkey v hv => by
          by_cases heq : e'.1 = e.1
          · have hself := hentry.get?_self (heq ▸ hkey)
            rw [heq, hself] at hv
            rw [← Option.some.inj hv]
            exact hvalues e List.mem_cons_self e'
              (List.mem_cons_of_mem e he') (heq ▸ hkey) heq.symm
          · rw [hentry.get?_of_ne fun _ => heq] at hv
            exact hstate.2 e' he' hkey v hv)
        (fun e₁ he₁ e₂ he₂ => hvalues e₁ (List.mem_cons_of_mem e he₁) e₂
          (List.mem_cons_of_mem e he₂))
      refine ⟨state', ?_⟩
      rw [List.foldlM_cons, mergeMetaEntry_eq_ok.mpr hentry, ok_bind, hfold]

/-- What `meta_info` becomes: the values of the entries, and the metrics as
one dictionary of lists. -/
theorem mergeMetaInfo_spec {metaInfos : List (PyDict μ)} {merged : PyDict μ}
    (h : mergeMetaInfo metaInfos = .ok merged) :
    ∃ dicts, allMetrics (metaInfos.flatMap PyDict.entries) = .ok dicts ∧
      (∀ e ∈ metaInfos.flatMap PyDict.entries, e.1 ≠ "metrics" →
        merged.get? e.1 = some e.2) ∧
      (∀ key ≠ "metrics", (∀ e ∈ metaInfos.flatMap PyDict.entries,
        key ≠ e.1) → merged.get? key = none) ∧
      (dicts = [] ∧ merged.get? "metrics" = none ∨
        dicts ≠ [] ∧ ∃ metrics, listOfDictToDictOfList dicts = .ok metrics ∧
          merged.get? "metrics" = some (MetaValue.ofDictOfList metrics)) := by
  rw [mergeMetaInfo, bind_eq_ok] at h
  obtain ⟨⟨values, dicts'⟩, hfold, hfinal⟩ := h
  obtain ⟨⟨dicts, hall, hdicts⟩, hvalues, hother, -⟩ :=
    foldlM_mergeMetaEntry_spec hfold
  simp only [List.nil_append] at hdicts
  subst hdicts
  have hnone : values.get? "metrics" = none :=
    hother "metrics" fun e _ hne heq => hne heq.symm
  cases hcase : dicts' with
  | nil =>
      simp only [hcase] at hfinal hall
      cases hfinal
      exact ⟨[], hall, hvalues,
        fun key _ hkey => hother key fun e he _ => hkey e he,
        .inl ⟨rfl, hnone⟩⟩
  | cons first rest =>
      simp only [hcase, bind_eq_ok] at hfinal hall
      obtain ⟨metrics, hmetrics, hmerged⟩ := hfinal
      cases hmerged
      refine ⟨first :: rest, hall, ?_, ?_, .inr
        ⟨List.cons_ne_nil _ _, metrics, hmetrics, ?_⟩⟩
      · intro e he hkey
        rw [PyDict.get?_set, if_neg hkey]
        exact hvalues e he hkey
      · intro key hne hkey
        rw [PyDict.get?_set, if_neg hne]
        exact hother key fun e he _ => hkey e he
      · rw [PyDict.get?_set, if_pos rfl]

/-- Which `meta_info` merges. -/
theorem exists_mergeMetaInfo_iff {metaInfos : List (PyDict μ)} :
    (∃ merged, mergeMetaInfo metaInfos = .ok merged) ↔
      MetaCompatible metaInfos := by
  constructor
  · rintro ⟨merged, h⟩
    obtain ⟨dicts, hall, hvalues, -, hmetrics⟩ := mergeMetaInfo_spec h
    refine ⟨?_, dicts, hall, ?_⟩
    · intro e he e' he' hkey heq
      have hv := hvalues e he hkey
      rw [heq, hvalues e' he' (heq ▸ hkey)] at hv
      exact (Option.some.inj hv).symm
    · intro first hfirst
      rcases hmetrics with ⟨rfl, -⟩ | ⟨-, metrics, hmetrics, -⟩
      · cases hfirst
      · obtain ⟨rest, rfl⟩ := List.head?_eq_some_iff.mp hfirst
        exact (listOfDictToDictOfList_cons_eq_ok.mp hmetrics).1
  · rintro ⟨hvalues, dicts, hall, hkeys⟩
    obtain ⟨⟨values, dicts'⟩, hfold⟩ := exists_foldlM_mergeMetaEntry
      (PyDict.empty, []) hall
      (fun _ _ _ _ hv => by cases hv) hvalues
    obtain ⟨⟨_, hall', hdicts⟩, -⟩ := foldlM_mergeMetaEntry_spec hfold
    rw [hall] at hall'
    cases hall'
    simp only [List.nil_append] at hdicts
    subst hdicts
    rw [mergeMetaInfo, hfold, ok_bind]
    cases dicts' with
    | nil => exact ⟨values, rfl⟩
    | cons first rest =>
        have hmetrics := listOfDictToDictOfList_cons_eq_ok.mpr
          ⟨hkeys first rfl, rfl⟩
        exact ⟨_, bind_eq_ok.mpr ⟨_, hmetrics, rfl⟩⟩

end Meta

section Alignment

/-- Every column has an entry for every row. -/
def Aligned (data : DataProto τ ν μ) : Prop :=
  ∀ e ∈ data.nonTensorBatch.entries, e.2.length = data.length

def tensorColumn (key : String) (data : DataProto τ ν μ) : Option (List τ) :=
  data.batch.bind fun td => (td.columns.get? key).map Column.rows

def objectColumn (key : String) (data : DataProto τ ν μ) : Option (List ν) :=
  data.nonTensorBatch.get? key

/-- The rows of all inputs in their order, each by its input and its index. -/
def sources (data : List (DataProto τ ν μ)) : List (DataProto τ ν μ × Nat) :=
  data.flatMap fun d => (List.range d.length).map fun i => (d, i)

/-- The entries of a column come from the rows of the inputs, one from each,
in their order. -/
def FromSources (column : DataProto τ ν μ → Option (List α))
    (data : List (DataProto τ ν μ)) (entries : List α) : Prop :=
  List.Forall₂ (fun source a =>
    (column source.1).bind (fun xs => xs[source.2]?) = some a)
    (sources data) entries

/-- Every column of `out` has as many rows as the inputs together, and its
`j`-th entry is from the `j`-th row of the inputs. -/
structure RowsAligned (data : List (DataProto τ ν μ))
    (out : DataProto τ ν μ) : Prop where
  tensors : ∀ td ∈ out.batch, ∀ e ∈ td.columns.entries,
    FromSources (tensorColumn e.1) data e.2.rows
  objects : ∀ e ∈ out.nonTensorBatch.entries,
    FromSources (objectColumn e.1) data e.2

theorem length_sources (data : List (DataProto τ ν μ)) :
    (sources data).length = (data.map length).sum := by
  simp [sources, List.length_flatMap]

variable {column : DataProto τ ν μ → Option (List α)}
    {data : List (DataProto τ ν μ)}

/-- The columns of all inputs, as far as they are there, one after the
other. -/
theorem length_flatten_filterMap_le
    (hlength : ∀ d ∈ data, ∀ xs, column d = some xs → xs.length = d.length) :
    (data.filterMap column).flatten.length ≤ (data.map length).sum := by
  induction data with
  | nil => simp
  | cons d data ih =>
      rw [List.forall_mem_cons] at hlength
      have hrest := ih hlength.2
      cases hcolumn : column d with
      | none =>
          rw [List.filterMap_cons_none hcolumn, List.map_cons, List.sum_cons]
          omega
      | some xs =>
          have hxs := hlength.1 xs hcolumn
          rw [List.filterMap_cons_some hcolumn, List.flatten_cons,
            List.length_append, List.map_cons, List.sum_cons]
          omega

/-- They have all the rows only if no column is missing where there is a
row. -/
theorem present_of_length_flatten_filterMap
    (hlength : ∀ d ∈ data, ∀ xs, column d = some xs → xs.length = d.length)
    (htotal : (data.filterMap column).flatten.length =
      (data.map length).sum) :
    ∀ d ∈ data, column d ≠ none ∨ d.length = 0 := by
  induction data with
  | nil => simp
  | cons d data ih =>
      rw [List.forall_mem_cons] at hlength ⊢
      have hle := length_flatten_filterMap_le hlength.2
      rw [List.map_cons, List.sum_cons] at htotal
      cases hcolumn : column d with
      | none =>
          rw [List.filterMap_cons_none hcolumn] at htotal
          exact ⟨.inr (by omega), ih hlength.2 (by omega)⟩
      | some xs =>
          have hxs := hlength.1 xs hcolumn
          rw [List.filterMap_cons_some hcolumn, List.flatten_cons,
            List.length_append] at htotal
          exact ⟨.inl (Option.some_ne_none xs), ih hlength.2 (by omega)⟩

theorem fromSources_of_present
    (hlength : ∀ d ∈ data, ∀ xs, column d = some xs → xs.length = d.length)
    (hpresent : ∀ d ∈ data, column d ≠ none ∨ d.length = 0) :
    FromSources column data (data.filterMap column).flatten := by
  induction data with
  | nil => exact .nil
  | cons d data ih =>
      rw [List.forall_mem_cons] at hlength hpresent
      have hrest := ih hlength.2 hpresent.2
      cases hcolumn : column d with
      | none =>
          have hzero : d.length = 0 :=
            hpresent.1.resolve_left (not_not.mpr hcolumn)
          rw [List.filterMap_cons_none hcolumn, FromSources, sources,
            List.flatMap_cons, hzero]
          exact hrest
      | some xs =>
          have hxs := hlength.1 xs hcolumn
          have hhead : List.Forall₂ (fun source a =>
              (column source.1).bind (fun xs => xs[source.2]?) = some a)
              ((List.range d.length).map fun i => (d, i)) xs := by
            rw [List.forall₂_map_left_iff, List.forall₂_iff_get]
            refine ⟨by rw [List.length_range, hxs], fun i hi hi' => ?_⟩
            simp [hcolumn]
          rw [List.filterMap_cons_some hcolumn, List.flatten_cons]
          exact List.rel_append hhead hrest

/-- The concatenated column is from the rows of the inputs exactly if it is
there in every input with a row. -/
theorem fromSources_iff
    (hlength : ∀ d ∈ data, ∀ xs, column d = some xs → xs.length = d.length) :
    FromSources column data (data.filterMap column).flatten ↔
      ∀ d ∈ data, column d ≠ none ∨ d.length = 0 := by
  refine ⟨fun h => ?_, fromSources_of_present hlength⟩
  have htotal := h.length_eq
  rw [length_sources] at htotal
  exact present_of_length_flatten_filterMap hlength htotal.symm

theorem filterMap_of_forall₂ {β : Type} {f : β → List α}
    {data : List (DataProto τ ν μ)} {parts : List β}
    (h : List.Forall₂ (fun d part => column d = some (f part)) data parts) :
    data.filterMap column = parts.map f := by
  induction h with
  | nil => rfl
  | cons hd _ ih => rw [List.filterMap_cons_some hd, ih, List.map_cons]

/-- A column of concatenated tensors is there in every tensor. -/
theorem cat_eq_ok {first td : TensorDict τ} {rest : List (TensorDict τ)}
    (h : TensorDict.cat (first :: rest) = .ok td) :
    td.batchSize = ((first :: rest).map TensorDict.batchSize).sum ∧
      ∀ e ∈ td.columns.entries, ∃ parts : List (Column τ),
        List.Forall₂ (fun td part => td.columns.get? e.1 = some part)
          (first :: rest) parts ∧
        e.2.rows = (parts.map Column.rows).flatten := by
  simp only [TensorDict.cat, bind_eq_ok, TensorDict.init_eq_ok] at h
  obtain ⟨_, -, columns, hcolumns, rfl, hsize⟩ := h
  refine ⟨hsize, fun e he => ?_⟩
  have hall := PyDict.mapEntriesM_eq_ok.mp hcolumns
  obtain ⟨e', -, hkey, hcolumn⟩ := exists_of_forall₂_right hall he
  obtain ⟨parts, hparts, hcat⟩ := bind_eq_ok.mp hcolumn
  refine ⟨parts, ?_, ?_⟩
  · refine (mapM_eq_ok_iff.mp hparts).imp fun td part hpart => ?_
    rw [← hkey, PyDict.get?_eq_some_iff]
    exact PyDict.get_eq_ok.mp hpart
  · cases parts with
    | nil => cases hcat
    | cons part parts =>
        simp only [Column.cat] at hcat
        split at hcat
        · rw [← Except.ok.inj hcat, List.flatMap_def]
        · cases hcat

theorem concatBatches_eq_ok {first : DataProto τ ν μ}
    {rest : List (DataProto τ ν μ)} {td : TensorDict τ}
    (h : concatBatches ((first :: rest).map batch) = .ok (some td)) :
    ∃ tds, List.Forall₂ (fun d td => d.batch = some td) (first :: rest) tds ∧
      TensorDict.cat tds = .ok td := by
  cases hbatch : first.batch with
  | none => simp [concatBatches, hbatch] at h
  | some td' =>
      simp only [concatBatches, List.map_cons, hbatch, bind_eq_ok,
        map_eq_ok] at h
      obtain ⟨tds, htds, td, hcat, heq⟩ := h
      cases heq
      refine ⟨tds, ?_, hcat⟩
      rw [← hbatch, ← List.map_cons, mapM_eq_ok_iff,
        List.forall₂_map_left_iff] at htds
      refine htds.imp fun d td hd => ?_
      cases hd' : d.batch with
      | none =>
          rw [hd'] at hd
          cases hd
      | some td' =>
          rw [hd'] at hd
          cases hd
          rfl

theorem concat_eq_ok [DecidableEq μ] [MetaValue μ]
    {first out : DataProto τ ν μ} {rest : List (DataProto τ ν μ)} :
    concat (first :: rest) = .ok out ↔
      concatBatches ((first :: rest).map batch) = .ok out.batch ∧
      (∀ d ∈ first :: rest, ∀ key ∈ d.nonTensorBatch.keys,
        key ∈ first.nonTensorBatch.keys) ∧
      out.nonTensorBatch = PyDict.ofKeys first.nonTensorBatch.keys
        first.nonTensorBatch.nodup (fun key =>
          ((first :: rest).filterMap (objectColumn key)).flatten) ∧
      mergeMetaInfo ((first :: rest).map metaInfo) = .ok out.metaInfo := by
  have hflatten : ∀ f : String → List (List ν),
      (PyDict.ofKeys first.nonTensorBatch.keys first.nonTensorBatch.nodup
        f).mapVals List.flatten = PyDict.ofKeys first.nonTensorBatch.keys
          first.nonTensorBatch.nodup fun key => (f key).flatten := by
    intro f
    apply PyDict.ext
    simp [PyDict.ofKeys]
  have hcolumns : ∀ key,
      (((first :: rest).map nonTensorBatch).filterMap fun d => d.get? key) =
        (first :: rest).filterMap (objectColumn key) := by
    intro key
    rw [List.filterMap_map]
    rfl
  have hobjects := @listOfDictToDictOfList_cons_eq_ok _
    first.nonTensorBatch (rest.map nonTensorBatch)
  simp only [← List.map_cons, List.forall_mem_map, hcolumns] at hobjects
  simp only [concat, bind_eq_ok, init_eq_ok, hobjects]
  constructor
  · rintro ⟨newBatch, hbatch, _, ⟨hkeys, rfl⟩, metaInfo, hmeta, rfl, hout,
      rfl⟩
    exact ⟨hbatch, hkeys, hout.trans (hflatten _), hmeta⟩
  · rintro ⟨hbatch, hkeys, hout, hmeta⟩
    exact ⟨_, hbatch, _, ⟨hkeys, rfl⟩, _, hmeta, rfl,
      hout.trans (hflatten _).symm, rfl⟩

/-- Every object column of an input is there in the first. -/
def ColumnsKnown (data : List (DataProto τ ν μ)) : Prop :=
  ∀ first ∈ data.head?, ∀ d ∈ data, ∀ key ∈ d.nonTensorBatch.keys,
    key ∈ first.nonTensorBatch.keys

/-- Every object column of the first input is there in every input with a
row. -/
def ColumnsComplete (data : List (DataProto τ ν μ)) : Prop :=
  ∀ first ∈ data.head?, ∀ key ∈ first.nonTensorBatch.keys, ∀ d ∈ data,
    key ∈ d.nonTensorBatch.keys ∨ d.length = 0

theorem objectColumn_ne_none {key : String} {d : DataProto τ ν μ} :
    objectColumn key d ≠ none ↔ key ∈ d.nonTensorBatch.keys := by
  rw [objectColumn, ne_eq, PyDict.get?_eq_none_iff, not_not]

theorem length_of_objectColumn (key : String) (haligned : ∀ d ∈ data,
    d.Aligned) : ∀ d ∈ data, ∀ xs, objectColumn key d = some xs →
      xs.length = d.length :=
  fun d hd _ hxs => haligned d hd _ (PyDict.get?_eq_some_iff.mp hxs)

theorem length_of_tensorColumn (key : String) : ∀ d ∈ data, ∀ xs,
    tensorColumn key d = some xs → xs.length = d.length := by
  intro d _ xs hxs
  cases hbatch : d.batch with
  | none =>
      rw [tensorColumn, hbatch] at hxs
      cases hxs
  | some td =>
      simp only [tensorColumn, hbatch, Option.bind_some,
        Option.map_eq_some_iff, PyDict.get?_eq_some_iff] at hxs
      obtain ⟨part, hpart, rfl⟩ := hxs
      rw [td.aligned _ hpart, length, hbatch]

theorem forall₂_trans {β γ : Type} {R : α → β → Prop} {S : β → γ → Prop}
    {T : α → γ → Prop} (h : ∀ a b c, R a b → S b c → T a c) {xs : List α}
    {ys : List β} {zs : List γ} (hR : List.Forall₂ R xs ys)
    (hS : List.Forall₂ S ys zs) : List.Forall₂ T xs zs := by
  induction hR generalizing zs with
  | nil =>
      cases hS
      exact .nil
  | cons hab _ ih =>
      cases hS with
      | cons hbc hrest => exact .cons (h _ _ _ hab hbc) (ih hrest)

/-- The rows of the tensor columns stay together. -/
theorem fromSources_of_concatBatches {first : DataProto τ ν μ}
    {rest : List (DataProto τ ν μ)} {td : TensorDict τ}
    (h : concatBatches ((first :: rest).map batch) = .ok (some td)) :
    td.batchSize = ((first :: rest).map length).sum ∧
      ∀ e ∈ td.columns.entries,
        FromSources (tensorColumn e.1) (first :: rest) e.2.rows := by
  obtain ⟨tds, htds, hcat⟩ := concatBatches_eq_ok h
  obtain ⟨td₁, tds, rfl⟩ : ∃ td₁ tds', tds = td₁ :: tds' := by
    cases htds
    exact ⟨_, _, rfl⟩
  obtain ⟨hsize, hcolumns⟩ := cat_eq_ok hcat
  have hlengths : (first :: rest).map length =
      (td₁ :: tds).map TensorDict.batchSize := by
    rw [← List.forall₂_eq_eq_eq, List.forall₂_map_left_iff,
      List.forall₂_map_right_iff]
    exact htds.imp fun d td hd => by rw [length, hd]
  refine ⟨by rw [hsize, hlengths], fun e he => ?_⟩
  obtain ⟨parts, hparts, hrows⟩ := hcolumns e he
  have hpresent : List.Forall₂
      (fun d part => tensorColumn e.1 d = some (Column.rows part))
      (first :: rest) parts := by
    refine forall₂_trans (fun d td part hd hpart => ?_) htds hparts
    rw [tensorColumn, hd, Option.bind_some, hpart, Option.map_some]
  rw [hrows, ← filterMap_of_forall₂ hpresent]
  refine fromSources_of_present (length_of_tensorColumn e.1) fun d hd => ?_
  obtain ⟨part, -, hpart⟩ := exists_of_forall₂_right hpresent.flip hd
  exact .inl (hpart ▸ Option.some_ne_none _)

section Meta

variable [DecidableEq μ] [MetaValue μ]

/-- `concat` raises, or keeps the rows of all columns together. -/
def ConcatAligns (data : List (DataProto τ ν μ)) : Prop :=
  ∀ out, concat data = .ok out → RowsAligned data out

/-- With a tensor batch in the first input the check of the result makes
every column complete. -/
theorem rowsAligned_of_batch {first out : DataProto τ ν μ}
    {rest : List (DataProto τ ν μ)}
    (haligned : ∀ d ∈ first :: rest, d.Aligned)
    (hbatch : first.batch ≠ none) (hout : concat (first :: rest) = .ok out) :
    RowsAligned (first :: rest) out := by
  obtain ⟨hbatches, -, hobjects, -⟩ := concat_eq_ok.mp hout
  obtain ⟨td, htd⟩ : ∃ td, out.batch = some td := by
    cases hcase : first.batch with
    | none => exact absurd hcase hbatch
    | some td =>
        simp only [concatBatches, List.map_cons, hcase, bind_eq_ok,
          map_eq_ok] at hbatches
        obtain ⟨_, _, td', _, htd'⟩ := hbatches
        exact ⟨td', htd'.symm⟩
  rw [htd] at hbatches
  obtain ⟨hsize, htensors⟩ := fromSources_of_concatBatches hbatches
  refine ⟨fun td' htd' => ?_, fun e he => ?_⟩
  · rw [htd] at htd'
    cases htd'
    exact htensors
  · have htotal := out.consistent td htd e he
    rw [hobjects] at he
    obtain ⟨key, -, rfl⟩ := List.mem_map.mp he
    have hlength := length_of_objectColumn key haligned
    exact (fromSources_iff hlength).mpr
      (present_of_length_flatten_filterMap hlength (htotal.trans hsize))

/-- Without one, exactly the complete columns keep their rows. -/
theorem rowsAligned_iff_of_none {first out : DataProto τ ν μ}
    {rest : List (DataProto τ ν μ)}
    (haligned : ∀ d ∈ first :: rest, d.Aligned)
    (hbatch : first.batch = none) (hout : concat (first :: rest) = .ok out) :
    RowsAligned (first :: rest) out ↔ ColumnsComplete (first :: rest) := by
  obtain ⟨hbatches, -, hobjects, -⟩ := concat_eq_ok.mp hout
  simp only [concatBatches, List.map_cons, hbatch, Except.ok.injEq] at hbatches
  have hcolumn : ∀ key, FromSources (objectColumn key) (first :: rest)
      ((first :: rest).filterMap (objectColumn key)).flatten ↔
        ∀ d ∈ first :: rest, key ∈ d.nonTensorBatch.keys ∨ d.length = 0 := by
    intro key
    rw [fromSources_iff (length_of_objectColumn _ haligned)]
    simp only [objectColumn_ne_none]
  constructor
  · rintro ⟨-, hall⟩ first' hfirst key hkey
    cases hfirst
    refine (hcolumn key).mp (hall (key, _) ?_)
    rw [hobjects]
    exact List.mem_map.mpr ⟨key, hkey, rfl⟩
  · intro hcomplete
    refine ⟨fun td htd => ?_, fun e he => ?_⟩
    · rw [← hbatches] at htd
      cases htd
    · rw [hobjects] at he
      obtain ⟨key, hkey, rfl⟩ := List.mem_map.mp he
      exact (hcolumn key).mpr (hcomplete first rfl key hkey)

/-- Without a tensor batch nothing else than unknown columns and
`meta_info` in conflict makes `concat` raise. -/
theorem exists_concat_of_none {first : DataProto τ ν μ}
    {rest : List (DataProto τ ν μ)} (hbatch : first.batch = none)
    (hknown : ColumnsKnown (first :: rest))
    (hmeta : MetaCompatible ((first :: rest).map metaInfo)) :
    ∃ out, concat (first :: rest) = .ok out := by
  obtain ⟨merged, hmerged⟩ := exists_mergeMetaInfo_iff.mpr hmeta
  refine ⟨⟨none, _, merged, fun _ htd => by cases htd⟩, concat_eq_ok.mpr
    ⟨?_, hknown first rfl, rfl, hmerged⟩⟩
  simp only [concatBatches, List.map_cons, hbatch]

/-- For inputs whose columns have all their rows, `concat` keeps the rows
together or raises exactly if the first has a tensor batch, a column is
unknown to it, the `meta_info` is in conflict, or no column is missing. -/
theorem concatAligns_iff (data : List (DataProto τ ν μ))
    (haligned : ∀ d ∈ data, d.Aligned) :
    ConcatAligns data ↔
      (∃ first ∈ data.head?, first.batch ≠ none) ∨ ¬ ColumnsKnown data ∨
        ¬ MetaCompatible (data.map metaInfo) ∨ ColumnsComplete data := by
  cases data with
  | nil =>
      refine ⟨fun _ => .inr (.inr (.inr ?_)), fun _ out hout => ?_⟩
      · rintro first ⟨⟩
      · cases hout
  | cons first rest =>
      by_cases hbatch : first.batch = none
      · constructor
        · intro halign
          by_contra hnot
          simp only [not_or, not_not] at hnot
          obtain ⟨-, hknown, hmeta, hincomplete⟩ := hnot
          obtain ⟨out, hout⟩ := exists_concat_of_none hbatch hknown hmeta
          exact hincomplete ((rowsAligned_iff_of_none haligned hbatch
            hout).mp (halign out hout))
        · intro hcases out hout
          obtain ⟨-, hknown, -, hmerged⟩ := concat_eq_ok.mp hout
          rcases hcases with ⟨_, ⟨⟩, hne⟩ | hunknown | hconflict | hcomplete
          · exact absurd hbatch hne
          · refine absurd (fun first' hfirst => ?_) hunknown
            cases hfirst
            exact hknown
          · exact absurd (exists_mergeMetaInfo_iff.mp ⟨_, hmerged⟩) hconflict
          · exact (rowsAligned_iff_of_none haligned hbatch hout).mpr hcomplete
      · exact ⟨fun _ => .inl ⟨first, rfl, hbatch⟩,
          fun _ out hout => rowsAligned_of_batch haligned hbatch hout⟩

end Meta

section Examples

/-- A row without tensors, with the objects of the given names. -/
def objectRow (keys : List String) (hkeys : keys.Nodup) (value : ℕ) :
    DataProto ℕ ℕ Bool where
  batch := none
  nonTensorBatch := PyDict.ofKeys keys hkeys fun _ => [value]
  metaInfo := PyDict.empty
  consistent := by simp [Consistent]

theorem aligned_objectRow {keys : List String} (hkeys : keys.Nodup)
    (value : ℕ) : (objectRow keys hkeys value).Aligned := by
  intro e he
  obtain ⟨key, hkey, rfl⟩ := List.mem_map.mp he
  cases keys with
  | nil => cases hkey
  | cons => rfl

/-- The second row has no score. -/
def scoredRows : List (DataProto ℕ ℕ Bool) :=
  [objectRow ["uid", "score"] (by decide) 4, objectRow ["uid"] (by decide) 5,
    objectRow ["uid", "score"] (by decide) 6]

theorem concatAligns_iff_scoredRows :
    ConcatAligns scoredRows ↔
      (∃ first ∈ scoredRows.head?, first.batch ≠ none) ∨
        ¬ ColumnsKnown scoredRows ∨
        ¬ MetaCompatible (scoredRows.map metaInfo) ∨
        ColumnsComplete scoredRows :=
  concatAligns_iff scoredRows fun d hd => by
    simp only [scoredRows, List.mem_cons, List.not_mem_nil, or_false] at hd
    rcases hd with rfl | rfl | rfl <;> exact aligned_objectRow _ _

/-- The scores become a column of two entries beside three rows. -/
theorem concatAligns_fails : ¬ ConcatAligns scoredRows := by
  intro h
  have hscores := (h _ rfl).objects ("score", [4, 6]) (by decide)
  exact absurd hscores.length_eq (by decide)

end Examples

end Alignment

end DataProto

end SelfDistillation
