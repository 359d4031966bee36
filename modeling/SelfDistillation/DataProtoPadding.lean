/-
Nothing is lost by cutting a `DataProto` and putting it together again, or by
padding it to a divisor and taking the padding away (verl/protocol.py,
`chunk`, `pad_dataproto_to_divisor` and `unpad_dataproto`): where this holds
and where it does not.
-/
import SelfDistillation.DataProtoConcat

namespace SelfDistillation

variable {α X τ ν μ : Type}

section Cutting

/-- Pieces cut at increasing indices are the list from the first index on. -/
theorem flatten_zipWith_slices {val : List α} {start : Nat}
    {bounds : List Nat} (hsorted : (start :: bounds).Pairwise (· ≤ ·))
    (hle : ∀ b ∈ start :: bounds, b ≤ val.length) :
    (List.zipWith (fun start stop => (val.take stop).drop start)
      (start :: bounds) (bounds ++ [val.length])).flatten =
        val.drop start := by
  induction bounds generalizing start with
  | nil => simp
  | cons b bounds ih =>
      rw [List.pairwise_cons] at hsorted
      have hstart : start ≤ b := hsorted.1 b List.mem_cons_self
      have hb : b ≤ val.length :=
        hle b (List.mem_cons_of_mem _ List.mem_cons_self)
      have hrest := ih hsorted.2 fun b' hb' =>
        hle b' (List.mem_cons_of_mem _ hb')
      rw [List.cons_append, List.zipWith_cons_cons, List.flatten_cons, hrest]
      calc (val.take b).drop start ++ val.drop b
          = (val.take b ++ val.drop b).drop start := by
            rw [List.drop_append_of_le_length]
            rw [List.length_take]
            omega
        _ = val.drop start := by rw [List.take_append_drop]

theorem flatten_arraySplitAt {val : List α} {bounds : List Nat}
    (hsorted : bounds.Pairwise (· ≤ ·)) (hle : ∀ b ∈ bounds, b ≤ val.length) :
    (arraySplitAt val bounds).flatten = val := by
  have hzero : (0 :: bounds).Pairwise (· ≤ ·) :=
    List.pairwise_cons.mpr ⟨fun b _ => Nat.zero_le b, hsorted⟩
  rw [arraySplitAt, flatten_zipWith_slices hzero, List.drop_zero]
  rw [List.forall_mem_cons]
  exact ⟨Nat.zero_le _, hle⟩

namespace Schema

variable (schema : Schema X τ ν μ)

/-- The cuts of `chunk` go up and stay within the object. -/
theorem bounds_sorted (n : Nat) {chunks : Nat} (hchunks : 0 < chunks) :
    (schema.bounds n chunks).Pairwise (· ≤ ·) ∧
      ∀ b ∈ schema.bounds n chunks, b ≤ n := by
  obtain ⟨tensors, objects, metaInfo⟩ := schema
  have hsorted : ∀ (k : Nat) (f : Nat → Nat), Monotone f →
      ((List.range k).map f).Pairwise (· ≤ ·) := by
    intro k f hf
    rw [List.pairwise_map]
    exact List.pairwise_lt_range.imp fun hlt => hf hlt.le
  cases tensors with
  | none =>
      refine ⟨hsorted _ _ fun i j hij => ?_, fun b hb => ?_⟩
      · have hmul := Nat.mul_le_mul_right (n / chunks) (Nat.succ_le_succ hij)
        simp only [Nat.succ_eq_add_one] at hmul
        omega
      · obtain ⟨j, hj, rfl⟩ := List.mem_map.mp hb
        have hlt := List.mem_range.mp hj
        have hmul := Nat.mul_le_mul_right (n / chunks)
          (show j + 1 ≤ chunks by omega)
        have hdiv := Nat.div_add_mod n chunks
        omega
  | some tensors =>
      refine ⟨hsorted _ _ fun i j hij =>
        Nat.mul_le_mul_right _ (Nat.succ_le_succ hij), fun b hb => ?_⟩
      obtain ⟨j, hj, rfl⟩ := List.mem_map.mp hb
      have hlt := List.mem_range.mp hj
      rcases Nat.eq_zero_or_pos n with rfl | hn
      · rw [pieceCount_zero] at hlt
        omega
      · exact (Nat.lt_of_le_of_lt (Nat.mul_le_mul_right _
          (Nat.succ_le_of_lt hlt)) (pieceCount_spec hn hchunks).2).le

/-- There are as many pieces as asked for, unless tensors run out. -/
theorem length_bounds_eq_iff (n : Nat) {chunks : Nat}
    (hchunks : 0 < chunks) :
    (schema.bounds n chunks).length + 1 = chunks ↔
      schema.tensors = none ∨ chunks = 1 ∨
        (chunks - 1) * pieceSize n chunks < n := by
  obtain ⟨tensors, objects, metaInfo⟩ := schema
  cases tensors with
  | none => simp [bounds, Nat.sub_add_cancel hchunks]
  | some tensors =>
      simp only [bounds, List.length_map, List.length_range,
        Nat.sub_add_cancel (pieceCount_pos n chunks), reduceCtorEq, false_or]
      exact pieceCount_eq_iff hchunks

theorem length_bounds_le (n : Nat) {chunks : Nat} (hchunks : 0 < chunks) :
    (schema.bounds n chunks).length + 1 ≤ chunks := by
  obtain ⟨tensors, objects, metaInfo⟩ := schema
  cases tensors with
  | none => simp [bounds, Nat.sub_add_cancel hchunks]
  | some tensors =>
      simp only [bounds, List.length_map, List.length_range,
        Nat.sub_add_cancel (pieceCount_pos n chunks)]
      exact pieceCount_le n hchunks

end Schema

end Cutting

namespace DataProto

/-- `data[:-size]` -/
def dropEnd (data : DataProto τ ν μ) (size : Nat) : DataProto τ ν μ where
  batch := data.batch.map fun td => td.slice 0 (td.batchSize - size)
  nonTensorBatch := data.nonTensorBatch.mapVals fun val =>
    val.take (val.length - size)
  metaInfo := data.metaInfo
  consistent := by
    intro td htd e he
    obtain ⟨td', htd', rfl⟩ := Option.mem_map.mp htd
    obtain ⟨e', he', rfl⟩ := List.mem_map.mp he
    simp [data.consistent td' htd' e' he', TensorDict.slice]

/-- `padding_protos`: the loop takes the first rows again and again. -/
def paddingProtos (data : DataProto τ ν μ) (hlength : 0 < data.length)
    (remainingPad : Nat) : List (DataProto τ ν μ) :=
  if 0 < remainingPad then
    let takeSize := min remainingPad data.length
    data.slice 0 takeSize ::
      paddingProtos data hlength (remainingPad - takeSize)
  else []
termination_by remainingPad
decreasing_by omega

/-- `pad_dataproto_to_divisor` -/
def padDataprotoToDivisor [DecidableEq μ] [MetaValue μ]
    (data : DataProto τ ν μ) (sizeDivisor : Nat) :
    Py (DataProto τ ν μ × Nat) :=
  if sizeDivisor = 0 then .error .zeroDivisionError
  else if h : data.length % sizeDivisor ≠ 0 then
    let padSize := sizeDivisor - data.length % sizeDivisor
    let paddingProtos := data.paddingProtos
      (Nat.pos_of_ne_zero fun hzero => h (by rw [hzero, Nat.zero_mod]))
      padSize
    (fun dataPadded => (dataPadded, padSize)) <$>
      concat (data :: paddingProtos)
  else .ok (data, 0)

/-- `unpad_dataproto` -/
def unpadDataproto (data : DataProto τ ν μ) (padSize : Nat) :
    DataProto τ ν μ :=
  if padSize ≠ 0 then data.dropEnd padSize else data

end DataProto

namespace Schema

variable {schema : Schema X τ ν μ} {xs : List X}

/-- Cutting off as many rows as were appended. -/
theorem dropEnd_build (ys : List X) :
    (schema.build (xs ++ ys)).dropEnd ys.length = schema.build xs := by
  obtain ⟨tensors, objects, metaInfo⟩ := schema
  have hlength : (xs ++ ys).length - ys.length = xs.length := by
    rw [List.length_append, Nat.add_sub_cancel]
  have htensors : ∀ tensors : PyDict (Option Nat × (X → τ)),
      (tensorDict tensors (xs ++ ys)).slice 0
        ((tensorDict tensors (xs ++ ys)).batchSize - ys.length) =
        tensorDict tensors xs := by
    intro tensors
    have hslice := slice_tensorDict tensors (xs ++ ys) xs.length 0
    simp only [Nat.zero_mul, Nat.zero_add, Nat.one_mul, piece,
      List.drop_zero, List.take_left'] at hslice
    change (tensorDict tensors (xs ++ ys)).slice 0
      ((xs ++ ys).length - ys.length) = _
    rw [hlength, hslice]
  simp only [DataProto.dropEnd, build, Option.map_map,
    PyDict.mapVals_mapVals, Function.comp_def, htensors, List.length_map,
    hlength, ← List.map_take, List.take_left']

theorem slice_zero_build (k : Nat) :
    (schema.build xs).slice 0 k = schema.build (xs.take k) := by
  have hslice := slice_build schema xs k 0
  simp only [Nat.zero_mul, Nat.zero_add, Nat.one_mul, piece,
    List.drop_zero] at hslice
  exact hslice

/-- The padding is cut from the same columns and has the rows asked for. -/
theorem paddingProtos_build (hcolumn : schema.HasColumn)
    (hlength : 0 < (schema.build xs).length) (remainingPad : Nat) :
    ∃ yss : List (List X),
      (schema.build xs).paddingProtos hlength remainingPad =
        yss.map schema.build ∧
      yss.flatten.length = remainingPad ∧
      yss.length = (remainingPad + xs.length - 1) / xs.length := by
  induction remainingPad using Nat.strong_induction_on with
  | h remainingPad ih =>
      have hpos : 0 < xs.length := by
        rw [length_build hcolumn] at hlength
        exact hlength
      rw [DataProto.paddingProtos]
      split
      · rename_i hremaining
        obtain ⟨yss, hprotos, hflatten, hcount⟩ := ih
          (remainingPad - min remainingPad (schema.build xs).length)
          (by rw [length_build hcolumn]; omega)
        refine ⟨xs.take (min remainingPad xs.length) :: yss, ?_, ?_, ?_⟩
        · simp only [length_build hcolumn] at hprotos ⊢
          rw [List.map_cons, hprotos, slice_zero_build]
        · rw [List.flatten_cons, List.length_append, List.length_take,
            hflatten, length_build hcolumn]
          omega
        · rw [List.length_cons, hcount, length_build hcolumn]
          rcases Nat.le_total remainingPad xs.length with hle | hle
          · rw [Nat.min_eq_left hle, Nat.sub_self, Nat.zero_add,
              Nat.div_eq_of_lt (by omega)]
            symm
            apply Nat.div_eq_of_lt_le <;> omega
          · rw [Nat.min_eq_right hle]
            have hsplit : remainingPad + xs.length - 1 =
                remainingPad - xs.length + xs.length - 1 + xs.length := by
              omega
            rw [hsplit, Nat.add_div_right _ hpos]
      · rename_i hdone
        obtain rfl : remainingPad = 0 := Nat.eq_zero_of_not_pos hdone
        refine ⟨[], rfl, rfl, ?_⟩
        rw [List.length_nil, Nat.zero_add, Nat.div_eq_of_lt (by omega)]

end Schema

namespace DataProto

section Meta

/-- The entries of a dictionary under one key. -/
theorem filter_key (d : PyDict α) (key : String) :
    (d.entries.filter fun e => e.1 = key) =
      (d.get? key).toList.map fun a => (key, a) := by
  obtain ⟨entries, nodup⟩ := d
  simp only [PyDict.get?]
  induction entries with
  | nil => rfl
  | cons e entries ih =>
      rw [List.map_cons, List.nodup_cons] at nodup
      have hrest := ih nodup.2
      by_cases hkey : key = e.1
      · subst hkey
        have hnil : (entries.filter fun e' => e'.1 = e.1) = [] := by
          rw [List.filter_eq_nil_iff]
          intro e' he' heq
          refine nodup.1 (List.mem_map.mpr ⟨e', he', ?_⟩)
          simpa using heq
        rw [List.filter_cons_of_pos (by simp), hnil, List.lookup_cons,
          beq_self_eq_true]
        rfl
      · have hbeq : (key == e.1) = false := beq_eq_false_iff_ne.mpr hkey
        have hne : ¬ e.1 = key := Ne.symm hkey
        rw [List.filter_cons_of_neg (by simpa using hne), hrest,
          List.lookup_cons, hbeq]

variable [MetaValue μ]

/-- The metrics of equal dictionaries. -/
theorem allMetrics_replicate_of_none {metaInfo : PyDict μ} (k : Nat)
    (hnone : metaInfo.get? "metrics" = none) :
    allMetrics ((List.replicate k metaInfo).flatMap PyDict.entries) =
      .ok [] := by
  have hfilter : ((List.replicate k metaInfo).flatMap PyDict.entries).filter
      (fun e => e.1 = "metrics") = [] := by
    rw [List.filter_flatMap, List.flatMap_eq_nil_iff]
    intro d hd
    rw [List.eq_of_mem_replicate hd, filter_key, hnone]
    rfl
  rw [allMetrics, hfilter]
  rfl

theorem allMetrics_replicate_of_some {metaInfo : PyDict μ} {k : Nat}
    (hk : 0 < k) {v : μ} (hv : metaInfo.get? "metrics" = some v)
    {dicts : List (PyDict μ)} :
    allMetrics ((List.replicate k metaInfo).flatMap PyDict.entries) =
        .ok dicts ↔
      ∃ part, MetaValue.metricDicts v = .ok part ∧
        dicts = (List.replicate k part).flatten := by
  have hfilter : ((List.replicate k metaInfo).flatMap PyDict.entries).filter
      (fun e => e.1 = "metrics") = List.replicate k ("metrics", v) := by
    rw [List.filter_flatMap, List.flatMap_replicate, filter_key, hv]
    exact List.flatten_replicate_singleton
  rw [allMetrics, hfilter, map_eq_ok]
  simp only [mapM_eq_ok_iff]
  constructor
  · rintro ⟨parts, hparts, rfl⟩
    obtain ⟨k, rfl⟩ := Nat.exists_eq_succ_of_ne_zero hk.ne'
    obtain ⟨part, rest, hpart, -, rfl⟩ :=
      List.forall₂_cons_left_iff.mp hparts
    refine ⟨part, hpart, congrArg List.flatten ?_⟩
    rw [List.eq_replicate_iff]
    refine ⟨by simpa using hparts.length_eq.symm, fun other hother => ?_⟩
    obtain ⟨e, he, hother⟩ := exists_of_forall₂_right hparts hother
    rw [List.eq_of_mem_replicate he] at hother
    rw [hpart] at hother
    exact (Except.ok.inj hother).symm
  · rintro ⟨part, hpart, rfl⟩
    refine ⟨List.replicate k part, ?_, rfl⟩
    rw [List.forall₂_iff_get]
    refine ⟨by simp, fun i hi hi' => ?_⟩
    simpa using hpart

/-- The metrics entry `v` of `copies` objects aggregates to `v` again. -/
def MetricsStable (copies : Nat) (v : μ) : Prop :=
  ∃ dicts metrics, MetaValue.metricDicts v = .ok dicts ∧ dicts ≠ [] ∧
    listOfDictToDictOfList (List.replicate copies dicts).flatten =
      .ok metrics ∧
    MetaValue.ofDictOfList metrics = v

variable [DecidableEq μ]

/-- Merging equal dictionaries gives their values, if it gives those of the
metrics. -/
theorem exists_mergeMetaInfo_replicate_iff {metaInfo : PyDict μ} {k : Nat}
    (hk : 0 < k) :
    (∃ merged, mergeMetaInfo (List.replicate k metaInfo) = .ok merged ∧
        ∀ key, merged.get? key = metaInfo.get? key) ↔
      ∀ v, metaInfo.get? "metrics" = some v → MetricsStable k v := by
  have hentries : ∀ e, e ∈ (List.replicate k metaInfo).flatMap
      PyDict.entries ↔ metaInfo.get? e.1 = some e.2 := by
    intro e
    rw [PyDict.get?_eq_some_iff, List.mem_flatMap]
    constructor
    · rintro ⟨d, hd, he⟩
      rw [List.eq_of_mem_replicate hd] at he
      exact he
    · intro he
      exact ⟨metaInfo, List.mem_replicate.mpr ⟨hk.ne', rfl⟩, he⟩
  constructor
  · rintro ⟨merged, hmerged, hsame⟩ v hv
    obtain ⟨dicts, hall, -, -, hmetrics⟩ := mergeMetaInfo_spec hmerged
    obtain ⟨part, hpart, rfl⟩ :=
      (allMetrics_replicate_of_some hk hv).mp hall
    rw [hsame, hv] at hmetrics
    rcases hmetrics with ⟨-, hnone⟩ | ⟨hne, metrics, hmetrics, hvalue⟩
    · cases hnone
    · refine ⟨part, metrics, hpart, ?_, hmetrics,
        (Option.some.inj hvalue).symm⟩
      rintro rfl
      exact hne (by simp)
  · intro hstable
    have hcompatible : MetaCompatible (List.replicate k metaInfo) := by
      refine ⟨fun e he e' he' _ heq => ?_, ?_⟩
      · rw [hentries] at he he'
        rw [heq, he'] at he
        exact (Option.some.inj he).symm
      · cases hv : metaInfo.get? "metrics" with
        | none =>
            exact ⟨[], allMetrics_replicate_of_none k hv, by simp⟩
        | some v =>
            obtain ⟨part, metrics, hpart, -, hmetrics, -⟩ := hstable v hv
            refine ⟨_, (allMetrics_replicate_of_some hk hv).mpr
              ⟨part, hpart, rfl⟩, fun first hfirst => ?_⟩
            obtain ⟨rest, hrest⟩ := List.head?_eq_some_iff.mp hfirst
            rw [hrest] at hmetrics ⊢
            exact (listOfDictToDictOfList_cons_eq_ok.mp hmetrics).1
    obtain ⟨merged, hmerged⟩ := exists_mergeMetaInfo_iff.mpr hcompatible
    refine ⟨merged, hmerged, fun key => ?_⟩
    obtain ⟨dicts, hall, hvalues, hnone, hmetrics⟩ :=
      mergeMetaInfo_spec hmerged
    by_cases hkey : key = "metrics"
    · subst hkey
      cases hv : metaInfo.get? "metrics" with
      | none =>
          rw [allMetrics_replicate_of_none k hv] at hall
          cases hall
          rcases hmetrics with ⟨-, hget⟩ | ⟨hne, -⟩
          · exact hget
          · exact absurd rfl hne
      | some v =>
          obtain ⟨part, metrics, hpart, hne, haggregated, hvalue⟩ :=
            hstable v hv
          obtain ⟨part', hpart', rfl⟩ :=
            (allMetrics_replicate_of_some hk hv).mp hall
          rw [hpart] at hpart'
          cases hpart'
          rcases hmetrics with ⟨hnil, -⟩ | ⟨-, metrics', hmetrics', hget⟩
          · rw [List.flatten_eq_nil_iff] at hnil
            exact absurd (hnil part (List.mem_replicate.mpr ⟨hk.ne', rfl⟩))
              hne
          · rw [haggregated] at hmetrics'
            cases hmetrics'
            rw [hget, hvalue]
    · cases hv : metaInfo.get? key with
      | none =>
          refine hnone key hkey fun e he heq => ?_
          rw [hentries, ← heq, hv] at he
          cases he
      | some v => exact hvalues (key, v) ((hentries (key, v)).mpr hv) hkey

end Meta

end DataProto

section Lossless

variable [DecidableEq μ] [MetaValue μ]

namespace DataProto

/-- Equal columns, and the same values under the keys of `meta_info`. -/
structure Same (data data' : DataProto τ ν μ) : Prop where
  batch : data.batch = data'.batch
  nonTensorBatch : data.nonTensorBatch = data'.nonTensorBatch
  metaInfo : ∀ key, data.metaInfo.get? key = data'.metaInfo.get? key

/-- The number of parts divides the length, or padding is enabled on the
object. -/
def ChunkAdmitted (autoPadding : Bool) (data : DataProto τ ν μ)
    (chunks : Nat) : Prop :=
  chunks ∣ data.length ∨
    data.isPaddingEnabled autoPadding = true ∧ 1 ≤ data.length

/-- `chunk` gives as many pieces as asked for, and `concat` puts all columns
together again. -/
def LosslessChunk (autoPadding : Bool) (data : DataProto τ ν μ)
    (chunks : Nat) : Prop :=
  ∃ pieces whole, data.chunk autoPadding chunks = .ok pieces ∧
    pieces.length = chunks ∧ concat pieces = .ok whole ∧
    whole.batch = data.batch ∧ whole.nonTensorBatch = data.nonTensorBatch

/-- Padding goes to the next multiple of the divisor, and taking it away
gives the object back. -/
def LosslessPadding (data : DataProto τ ν μ) (sizeDivisor : Nat) : Prop :=
  ∃ padded padSize,
    data.padDataprotoToDivisor sizeDivisor = .ok (padded, padSize) ∧
    IsLeast {m | sizeDivisor ∣ m ∧ data.length ≤ m} padded.length ∧
    (padded.unpadDataproto padSize).Same data

omit [DecidableEq μ] in
theorem checkEqualChunk_of_admitted {autoPadding : Bool}
    {data : DataProto τ ν μ} {chunks : Nat} (hchunks : 0 < chunks)
    (h : ChunkAdmitted autoPadding data chunks) :
    checkEqualChunk autoPadding data chunks = .ok () := by
  unfold checkEqualChunk
  split
  · rfl
  · rename_i hdisabled
    rcases h with hdvd | ⟨henabled, -⟩
    · rw [if_neg hchunks.ne', Nat.mod_eq_zero_of_dvd hdvd, pyAssert_eq_ok]
      rfl
    · exact absurd henabled hdisabled

end DataProto

namespace Schema

open DataProto

variable {schema : Schema X τ ν μ} {xs : List X}

theorem losslessChunk_build_iff {autoPadding : Bool} {chunks : Nat}
    (hchunks : 0 < chunks)
    (hcheck : checkEqualChunk autoPadding (schema.build xs) chunks = .ok ()) :
    LosslessChunk autoPadding (schema.build xs) chunks ↔
      (schema.tensors = none ∨ chunks = 1 ∨
        (chunks - 1) * pieceSize xs.length chunks < xs.length) ∧
      MetaCompatible (List.replicate chunks schema.metaInfo) := by
  rw [← length_bounds_eq_iff schema xs.length hchunks,
    ← exists_mergeMetaInfo_iff]
  have hne : arraySplitAt xs (schema.bounds xs.length chunks) ≠ [] := by
    rw [← List.length_pos_iff, length_arraySplitAt]
    exact Nat.succ_pos _
  obtain ⟨hsorted, hwithin⟩ := schema.bounds_sorted xs.length hchunks
  have hflatten := flatten_arraySplitAt hsorted hwithin
  constructor
  · rintro ⟨pieces, whole, hpieces, -, hwhole, -⟩
    have hcount : (schema.bounds xs.length chunks).length + 1 = chunks :=
      Nat.le_antisymm (schema.length_bounds_le xs.length hchunks)
        (le_of_chunk_build hchunks hpieces)
    rw [chunk_build_eq_ok hchunks hcheck hcount] at hpieces
    cases hpieces
    obtain ⟨merged, hmerged, -⟩ := (concat_build_eq_ok hne).mp hwhole
    rw [length_arraySplitAt, hcount] at hmerged
    exact ⟨hcount, merged, hmerged⟩
  · rintro ⟨hcount, merged, hmerged⟩
    refine ⟨_, _, chunk_build_eq_ok hchunks hcheck hcount, ?_,
      (concat_build_eq_ok hne).mpr ⟨merged, ?_, rfl⟩, ?_, ?_⟩
    · rw [List.length_map, length_arraySplitAt, hcount]
    · rw [length_arraySplitAt, hcount, hmerged]
    · rw [hflatten]
      rfl
    · rw [hflatten]
      rfl

/-- The next multiple of the divisor. -/
theorem isLeast_padded {n d : Nat} (hd : 0 < d) (hn : n % d ≠ 0) :
    IsLeast {m | d ∣ m ∧ n ≤ m} (n + (d - n % d)) := by
  have hmod := Nat.mod_lt n hd
  have hdiv := Nat.div_add_mod n d
  constructor
  · refine ⟨⟨n / d + 1, ?_⟩, Nat.le_add_right n _⟩
    rw [Nat.mul_succ]
    omega
  · rintro m ⟨⟨q, rfl⟩, hle⟩
    have hlt : n / d < q := by
      by_contra hge
      have hmul := Nat.mul_le_mul_left d (Nat.not_lt.mp hge)
      omega
    have hmul := Nat.mul_le_mul_left d (Nat.succ_le_of_lt hlt)
    rw [Nat.mul_succ] at hmul
    omega

theorem losslessPadding_build_iff (xs : List X)
    (hcolumn : schema.HasColumn) {d : Nat} (hd : 0 < d) :
    LosslessPadding (schema.build xs) d ↔ d ∣ xs.length ∨
      ∀ v, schema.metaInfo.get? "metrics" = some v → MetricsStable
        (1 + (d - xs.length % d + xs.length - 1) / xs.length) v := by
  by_cases hdvd : d ∣ xs.length
  · refine ⟨fun _ => .inl hdvd, fun _ => ?_⟩
    have hmod : (schema.build xs).length % d = 0 := by
      rw [length_build hcolumn, Nat.mod_eq_zero_of_dvd hdvd]
    have hpadded : (schema.build xs).padDataprotoToDivisor d =
        .ok (schema.build xs, 0) := by
      rw [padDataprotoToDivisor, if_neg hd.ne', dif_neg (not_not.mpr hmod)]
    refine ⟨_, _, hpadded, ⟨⟨?_, le_refl _⟩, fun m hm => hm.2⟩, rfl, rfl,
      fun _ => rfl⟩
    rw [length_build hcolumn]
    exact hdvd
  · have hmod : xs.length % d ≠ 0 := fun hzero =>
      hdvd (Nat.dvd_of_mod_eq_zero hzero)
    have hmod' : (schema.build xs).length % d ≠ 0 := by
      rw [length_build hcolumn]
      exact hmod
    have hlength : 0 < (schema.build xs).length :=
      Nat.pos_of_ne_zero fun hzero => hmod' (by rw [hzero, Nat.zero_mod])
    obtain ⟨yss, hprotos, hflatten, hcount⟩ :=
      paddingProtos_build hcolumn hlength (d - xs.length % d)
    have hconcat : ∀ whole, concat (schema.build xs ::
        (schema.build xs).paddingProtos hlength (d - xs.length % d)) =
          .ok whole ↔ ∃ merged,
            mergeMetaInfo (List.replicate (1 + yss.length)
              schema.metaInfo) = .ok merged ∧
            whole = { schema with metaInfo := merged }.build
              (xs ++ yss.flatten) := by
      intro whole
      rw [hprotos, ← List.map_cons,
        concat_build_eq_ok (List.cons_ne_nil xs yss), List.length_cons,
        Nat.add_comm]
      rfl
    have hpadded : (schema.build xs).padDataprotoToDivisor d =
        (fun dataPadded => (dataPadded, d - xs.length % d)) <$>
          concat (schema.build xs ::
            (schema.build xs).paddingProtos hlength (d - xs.length % d)) := by
      rw [padDataprotoToDivisor, if_neg hd.ne', dif_pos hmod']
      simp only [length_build hcolumn]
    have hsize : d - xs.length % d ≠ 0 :=
      (Nat.sub_pos_of_lt (Nat.mod_lt _ hd)).ne'
    have hdrop : ∀ merged : PyDict μ,
        ({ schema with metaInfo := merged }.build
          (xs ++ yss.flatten)).unpadDataproto (d - xs.length % d) =
        { schema with metaInfo := merged }.build xs := by
      intro merged
      rw [unpadDataproto, if_pos hsize, ← hflatten, dropEnd_build]
    rw [← hcount, ← exists_mergeMetaInfo_replicate_iff (by omega),
      LosslessPadding]
    simp only [hpadded, map_eq_ok, hconcat, Prod.mk.injEq]
    constructor
    · rintro ⟨_, _, ⟨_, ⟨merged, hmerged, rfl⟩, rfl, rfl⟩, -, hsame⟩
      rw [hdrop] at hsame
      exact .inr ⟨merged, hmerged, hsame.metaInfo⟩
    · rintro (hdvd' | ⟨merged, hmerged, hsame⟩)
      · exact absurd hdvd' hdvd
      · refine ⟨_, _, ⟨_, ⟨merged, hmerged, rfl⟩, rfl, rfl⟩, ?_, ?_⟩
        · have hcolumn' : ({ schema with metaInfo := merged } :
              Schema X τ ν μ).HasColumn := hcolumn
          rw [length_build hcolumn', length_build hcolumn,
            List.length_append, hflatten]
          exact isLeast_padded hd hmod
        · rw [hdrop]
          exact ⟨rfl, rfl, hsame⟩

end Schema

namespace DataProto

end DataProto

end Lossless

section Examples

/-- A tensor and an object column, with padding enabled on the object. -/
def labelledSchema : Schema ℕ ℕ ℕ Bool where
  tensors := some (PyDict.ofKeys ["input_ids"] (List.nodup_singleton _)
    fun _ => (some 1, id))
  objects := PyDict.ofKeys ["uid"] (List.nodup_singleton _) fun _ => id
  metaInfo := PyDict.ofKeys ["_verl_auto_padding"] (List.nodup_singleton _)
    fun _ => true

def labelledRows (n : Nat) : DataProto ℕ ℕ Bool :=
  labelledSchema.build (List.range n)

theorem hasRows_labelledRows (n : Nat) : (labelledRows n).HasRows n := by
  have hrows : (labelledRows n).HasRows (List.range n).length :=
    DataProto.hasRows_build (.inl (by simp [labelledSchema])) _
  rw [List.length_range] at hrows
  exact hrows

end Examples

end SelfDistillation
