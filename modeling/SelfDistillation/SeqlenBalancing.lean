/-
Dynamic batching (verl/utils/seqlen_balancing.py): rows are cut into
micro-batches of balanced workload, processed, and put back in order.
-/
import SelfDistillation.DataProto
import SelfDistillation.KarmarkarKarp
import SelfDistillation.Library.Stride

namespace SelfDistillation

open Chunks Gather Stride

variable {α τ ν μ ω : Type}

/-- What the length computations read off a row: its number of entries
(`offsets().diff()`) and their sum (`.sum(dim=1)`). -/
class TensorRow (τ : Type) where
  size : τ → Nat
  total : τ → Int

instance : TensorRow (List Int) := ⟨List.length, List.sum⟩

/-- `calculate_workload` -/
def calculateWorkload (seqlenList : List Int) : List Int :=
  seqlenList.map fun seqlen => 24576 * seqlen + seqlen ^ 2

/-- `ceildiv`: `-(a // -b)` -/
def ceildiv (a b : Int) : Py Int :=
  (fun q => -q) <$> floorDiv a (-b)

/-- `roundup_divisible`: `((a + b - 1) // b) * b` -/
def roundupDivisible (a b : Int) : Py Int :=
  (fun q => q * b) <$> floorDiv (a + b - 1) b

/-- The parameters of `rearrange_micro_batches` after `batch`.  `dpGroup`
holds the counts the other ranks bring into the `all_reduce`. -/
structure RearrangeOptions where
  maxTokenLen : Int
  dpGroup : Option (List Int) := none
  distIsInitialized : Bool := false
  numBatchesDividedBy : Option Int := none
  sameMicroNumInDp : Bool := true
  minNumMicroBatch : Option Int := none
  useDynamicBszBalance : Bool := true
  forceGroupSize : Int := 1

/-- `max_seq_len`, as it is compared and as it is printed, and
`seq_len_effective`. -/
structure EffectiveLengths where
  maxSeqLen : Int
  maxSeqLenRepr : String
  seqLens : List Int

/-- `input_ids.offsets().diff()` and `max(...)` of it -/
def nestedLengths [TensorRow τ] (inputIds : Column τ) : Py EffectiveLengths :=
  match inputIds.rows.map fun row => (TensorRow.size row : Int) with
  | [] => .error (.valueError "max() arg is an empty sequence")
  | l :: ls =>
      let maxSeqLen := ls.foldl max l
      .ok ⟨maxSeqLen, s!"tensor({maxSeqLen})", l :: ls⟩

/-- `attention_mask.shape[-1]` and `attention_mask.sum(dim=1)` -/
def maskLengths [TensorRow τ] (attentionMask : Column τ) :
    Py EffectiveLengths :=
  match attentionMask.lastDim with
  | none => .error .attributeError
  | some maxSeqLen => .ok ⟨maxSeqLen, s!"{maxSeqLen}",
      attentionMask.rows.map TensorRow.total⟩

/-- The lengths of nested rows are their offsets' differences, those of dense
rows the sums of the attention mask. -/
def effectiveLengths [TensorRow τ] (batch : TensorDict τ) :
    Py EffectiveLengths := do
  let inputIds ← batch.get "input_ids"
  if inputIds.isNested then nestedLengths inputIds
  else maskLengths (← batch.get "attention_mask")

/-- `if min_num_micro_batch is not None` -/
def atLeastMinNum (options : RearrangeOptions) (count : Int) : Int :=
  match options.minNumMicroBatch with
  | none => count
  | some minNum => max minNum count

/-- `dist.all_reduce(num_micro_batches, op=MAX, group=dp_group)` -/
def maxOverRanks (options : RearrangeOptions) (count : Int) : Int :=
  match options.dpGroup with
  | none => count
  | some counts =>
      if options.distIsInitialized && options.sameMicroNumInDp then
        counts.foldl max count
      else count

/-- `if num_batches_divided_by is not None` -/
def roundedUp (options : RearrangeOptions) (count : Int) : Py Int :=
  match options.numBatchesDividedBy with
  | none => .ok count
  | some divisor => roundupDivisible count divisor

/-- The number of micro-batches before it is compared with the number of
groups. -/
def numMicroBatches (options : RearrangeOptions)
    (numGroups totalSeqlen : Int) : Py Int := do
  let needed ← ceildiv totalSeqlen options.maxTokenLen
  let count := atLeastMinNum options (min numGroups needed)
  roundedUp options (maxOverRanks options count)

/-- The rows of the groups of a partition. -/
def expandGroups (groupSize : Nat) (partition : List Nat) : List Nat :=
  partition.flatMap fun groupIdx =>
    List.range' (groupIdx * groupSize) groupSize

/-- The workloads that are partitioned: those of the rows, or of the groups
when `force_group_size > 1`. -/
def partitionWorkloads (groupSize : Int) (seqLens : List Int) : List Int :=
  if groupSize > 1 then
    (chunksOf groupSize.toNat (calculateWorkload seqLens)).map List.sum
  else calculateWorkload seqLens

/-- The lists of row indices before they are reordered. -/
def partitionRows (groupSize : Int) (workloads : List Int) (count : Int) :
    Py (List (List Nat)) := do
  let partitions ← getSeqlenBalancedPartitions workloads count false
  if groupSize > 1 then
    return partitions.map (expandGroups groupSize.toNat)
  else return partitions

/-- The sort key of a micro-batch: its workload and its first row. -/
def workloadKey (workloads : List Int) (groupSize : Int)
    (partition : List Nat) : Py (Int × Nat) := do
  let picked ← if groupSize > 1 then
      pyIndex workloads ((stride groupSize.toNat partition).map
        (· / groupSize.toNat))
    else pyIndex workloads partition
  return (picked.sum, partition.headD 0)

def workloadKeyLt (left right : (Int × Nat) × List Nat) : Bool :=
  left.1.1 < right.1.1 ∨ left.1.1 = right.1.1 ∧ left.1.2 < right.1.2

/-- `micro_bsz_idx.sort(key=..., reverse=True)` -/
def sortByWorkload (workloads : List Int) (groupSize : Int)
    (microBszIdx : List (List Nat)) : Py (List (List Nat)) := do
  let keyed ← microBszIdx.mapM fun partition =>
    (fun key => (key, partition)) <$>
      workloadKey workloads groupSize partition
  return (sortedReverse workloadKeyLt keyed).map Prod.snd

/-- `xs[::2][::-1] + xs[1::2]`: the small micro-batches go to both ends. -/
def smallAtBothEnds (xs : List α) : List α :=
  (stride 2 xs).reverse ++ stride 2 xs.tail

/-- The index lists of `rearrange_micro_batches`. -/
def microBatchIndices (options : RearrangeOptions)
    (lengths : EffectiveLengths) : Py (List (List Nat)) := do
  pyAssert (decide (lengths.maxSeqLen ≤ options.maxTokenLen))
    (s!"max_token_len must be greater than the sequence length. Got " ++
      s!"max_token_len={options.maxTokenLen} and max_seq_len={lengths.maxSeqLenRepr}")
  let batchSize := lengths.seqLens.length
  let remainder ← floorMod batchSize options.forceGroupSize
  pyAssert (remainder == 0)
    s!"Batch size {batchSize} must be divisible by force_group_size {options.forceGroupSize}"
  let numGroups ← floorDiv batchSize options.forceGroupSize
  let count ← numMicroBatches options numGroups lengths.seqLens.sum
  pyAssert (decide (count ≤ numGroups)) ""
  let workloads := partitionWorkloads options.forceGroupSize lengths.seqLens
  let microBszIdx ← partitionRows options.forceGroupSize workloads count
  if options.useDynamicBszBalance then
    return smallAtBothEnds
      (← sortByWorkload workloads options.forceGroupSize microBszIdx)
  else return microBszIdx

/-- `rearrange_micro_batches` -/
def rearrangeMicroBatches [TensorRow τ] (batch : TensorDict τ)
    (options : RearrangeOptions) :
    Py (List (TensorDict τ) × List (List Nat)) := do
  let lengths ← effectiveLengths batch
  let microBszIdx ← microBatchIndices options lengths
  let microBatches ← microBszIdx.mapM batch.indexSelect
  return (microBatches, microBszIdx)

/-- `get_reverse_idx` -/
def getReverseIdx (idxMap : List Nat) : Py (List Nat) :=
  if ∀ idx ∈ idxMap, idx < idxMap.length then
    .ok (scatter idxMap idxMap.zipIdx)
  else .error .indexError

/-- The loop body of `prepare_dynamic_batch`. -/
def preparedMicroBatch (data : DataProto τ ν μ) (tensors : TensorDict τ)
    (batchIdx : List Nat) : Py (DataProto τ ν μ) := do
  let nonTensors ← data.nonTensorBatch.mapEntriesM fun _ value =>
    pyIndex value batchIdx
  DataProto.fromDict tensors.columns nonTensors data.metaInfo

/-- `prepare_dynamic_batch` -/
def prepareDynamicBatch [TensorRow τ] (data : DataProto τ ν μ)
    (options : RearrangeOptions) :
    Py (List (DataProto τ ν μ) × List (List Nat)) :=
  match data.batch with
  | none => .error (.typeError "'NoneType' object is not subscriptable")
  | some tensors => do
      -- `force_group_size` is not passed on and keeps its default
      let (batch, batchIdxList) ←
        rearrangeMicroBatches tensors { options with forceGroupSize := 1 }
      let microBatches ← (batch.zip batchIdxList).mapM fun e =>
        preparedMicroBatch data e.1 e.2
      return (microBatches, batchIdxList)

/-- `restore_dynamic_batch` -/
def restoreDynamicBatch (data : List ω) (batchIdxList : List (List Nat)) :
    Py (List ω) := do
  let indices := batchIdxList.flatten
  pyAssert (indices.length == data.length)
    s!"{indices.length} vs. {data.length}"
  let revertIndices ← getReverseIdx indices
  pyIndex data revertIndices

theorem le_foldl_max (a : Int) (xs : List Int) : a ≤ xs.foldl max a := by
  induction xs generalizing a with
  | nil => exact le_rfl
  | cons x xs ih => exact (le_max_left a x).trans (ih (max a x))

section Indices

theorem smallAtBothEnds_perm (xs : List α) : (smallAtBothEnds xs).Perm xs :=
  ((stride 2 xs).reverse_perm.append_right _).trans (stride_two_append_perm xs)

theorem sortByWorkload_perm {workloads : List Int} {groupSize : Int}
    {microBszIdx sortedIdx : List (List Nat)}
    (h : sortByWorkload workloads groupSize microBszIdx = .ok sortedIdx) :
    sortedIdx.Perm microBszIdx := by
  obtain ⟨keyed, hkeyed, hsorted⟩ := bind_eq_ok.mp h
  have hsnd : keyed.map Prod.snd = microBszIdx := by
    have hall := mapM_eq_ok_iff.mp hkeyed
    clear h hkeyed hsorted
    induction hall with
    | nil => rfl
    | cons hx _ ih =>
        obtain ⟨key, _, rfl⟩ := map_eq_ok.mp hx
        rw [List.map_cons, ih]
  cases hsorted
  calc (sortedReverse workloadKeyLt keyed).map Prod.snd
      |>.Perm (keyed.map Prod.snd) := (sortedReverse_perm _ keyed).map _
    _ = microBszIdx := hsnd

theorem expandGroups_one (partition : List Nat) :
    expandGroups 1 partition = partition := by
  simp [expandGroups, List.range'_one]

theorem length_expandGroups (groupSize : Nat) (partition : List Nat) :
    (expandGroups groupSize partition).length =
      partition.length * groupSize := by
  simp [expandGroups, List.length_flatMap]

theorem expandGroups_range (groupSize m : Nat) :
    expandGroups groupSize (List.range m) = List.range (m * groupSize) := by
  induction m with
  | zero => simp [expandGroups]
  | succ m ih =>
      rw [expandGroups, List.range_succ, List.flatMap_append,
        ← expandGroups, ih, Nat.add_mul, Nat.one_mul, List.range_add]
      simp [List.range'_eq_map_range]

theorem expandGroups_flatten (groupSize : Nat)
    (partitions : List (List Nat)) :
    (partitions.map (expandGroups groupSize)).flatten =
      expandGroups groupSize partitions.flatten := by
  induction partitions with
  | nil => rfl
  | cons p partitions ih =>
      rw [List.map_cons, List.flatten_cons, List.flatten_cons, ih,
        expandGroups, expandGroups, expandGroups, List.flatMap_append]

/-- A group stays whole and in order in the expansion of its partition. -/
theorem range'_infix_expandGroups {groupSize b : Nat}
    {partition : List Nat} (hb : b ∈ partition) :
    List.range' (b * groupSize) groupSize <:+:
      expandGroups groupSize partition := by
  obtain ⟨before, after, rfl⟩ := List.append_of_mem hb
  refine ⟨expandGroups groupSize before, expandGroups groupSize after, ?_⟩
  simp [expandGroups]

/-- What `rearrange_micro_batches` has decided when its index lists are
complete. -/
structure IndexPlan (options : RearrangeOptions) (lengths : EffectiveLengths)
    (idxLists : List (List Nat)) where
  numGroups : Nat
  count : Int
  partitions : List (List Nat)
  groupSize_pos : 0 < options.forceGroupSize
  length_eq :
    lengths.seqLens.length = numGroups * options.forceGroupSize.toNat
  maxSeqLen_le : lengths.maxSeqLen ≤ options.maxTokenLen
  count_eq : numMicroBatches options numGroups lengths.seqLens.sum = .ok count
  count_le : count ≤ numGroups
  partitions_eq : getSeqlenBalancedPartitions
    (partitionWorkloads options.forceGroupSize lengths.seqLens) count false =
      .ok partitions
  perm : idxLists.Perm
    (partitions.map (expandGroups options.forceGroupSize.toNat))

theorem partitionRows_eq_ok {groupSize count : Int} {workloads : List Int}
    {idxLists : List (List Nat)} (hpos : 0 < groupSize)
    (h : partitionRows groupSize workloads count = .ok idxLists) :
    ∃ partitions, getSeqlenBalancedPartitions workloads count false =
        .ok partitions ∧
      idxLists = partitions.map (expandGroups groupSize.toNat) := by
  obtain ⟨partitions, hpartitions, hreturn⟩ := bind_eq_ok.mp h
  refine ⟨partitions, hpartitions, ?_⟩
  by_cases hone : groupSize > 1
  · rw [if_pos hone] at hreturn
    exact (Except.ok.inj hreturn).symm
  · rw [if_neg hone] at hreturn
    have hnat : groupSize.toNat = 1 := by omega
    have hid : expandGroups groupSize.toNat = id := by
      rw [hnat]
      exact funext expandGroups_one
    rw [hid, List.map_id]
    exact (Except.ok.inj hreturn).symm

theorem count_pos_of_partitions {workloads : List Int} {count : Int}
    {partitions : List (List Nat)}
    (h : getSeqlenBalancedPartitions workloads count false = .ok partitions) :
    0 < count := by
  obtain ⟨run, _⟩ := getSeqlenBalancedPartitions_eq_ok h
  have := run.k_pos
  omega

theorem microBatchIndices_eq_ok {options : RearrangeOptions}
    {lengths : EffectiveLengths} {idxLists : List (List Nat)}
    (h : microBatchIndices options lengths = .ok idxLists) :
    Nonempty (IndexPlan options lengths idxLists) := by
  simp only [microBatchIndices, bind_eq_ok, pyAssert_eq_ok, floorMod_eq_ok,
    floorDiv_eq_ok, decide_eq_true_eq, beq_iff_eq] at h
  obtain ⟨_, hmax, remainder, ⟨hne, hmod⟩, _, hzero, numGroups, ⟨_, hdiv⟩,
    count, hcount, _, hle, microBszIdx, hrows, h⟩ := h
  subst hzero
  have hexact : numGroups * options.forceGroupSize =
      lengths.seqLens.length := by
    rw [← hdiv]
    exact Int.fdiv_mul_cancel_of_fmod_eq_zero hmod
  have hcountpos : 0 < count := by
    obtain ⟨partitions, hpartitions, _⟩ := bind_eq_ok.mp hrows
    exact count_pos_of_partitions hpartitions
  have hpos : 0 < options.forceGroupSize := by
    by_contra hneg
    have : numGroups * options.forceGroupSize < 0 :=
      mul_neg_of_pos_of_neg (by omega) (by omega)
    omega
  obtain ⟨partitions, hpartitions, rfl⟩ := partitionRows_eq_ok hpos hrows
  have hperm : idxLists.Perm (partitions.map
      (expandGroups options.forceGroupSize.toNat)) := by
    split at h
    · obtain ⟨sortedIdx, hsorted, h⟩ := bind_eq_ok.mp h
      cases h
      exact (smallAtBothEnds_perm _).trans (sortByWorkload_perm hsorted)
    · cases h
      exact .refl _
  have hgroups : ((numGroups.toNat : Nat) : Int) = numGroups := by omega
  refine ⟨⟨numGroups.toNat, count, partitions, hpos, ?_, hmax, ?_, ?_,
    hpartitions, hperm⟩⟩
  · have hsize : ((options.forceGroupSize.toNat : Nat) : Int) =
        options.forceGroupSize := by omega
    zify
    rw [hgroups, hsize, hexact]
  · rwa [hgroups]
  · rwa [hgroups]

namespace IndexPlan

variable {options : RearrangeOptions} {lengths : EffectiveLengths}
  {idxLists : List (List Nat)}

theorem length_workloads (plan : IndexPlan options lengths idxLists) :
    (partitionWorkloads options.forceGroupSize lengths.seqLens).length =
      plan.numGroups := by
  have hpos := plan.groupSize_pos
  have hlen := plan.length_eq
  unfold partitionWorkloads
  split
  · have hnat : 0 < options.forceGroupSize.toNat := by omega
    have hcalc : (calculateWorkload lengths.seqLens).length =
        plan.numGroups * options.forceGroupSize.toNat := by
      simpa [calculateWorkload] using hlen
    rw [List.length_map,
      length_chunksOf_of_dvd hnat (hcalc ▸ Nat.dvd_mul_left _ _), hcalc,
      Nat.mul_div_cancel _ hnat]
  · have hone : options.forceGroupSize.toNat = 1 := by omega
    simpa [calculateWorkload, hone] using hlen

theorem flatten_partitions (plan : IndexPlan options lengths idxLists) :
    plan.partitions.flatten.Perm (List.range plan.numGroups) := by
  obtain ⟨_, _, _, _, hperm⟩ :=
    getSeqlenBalancedPartitions_eq_ok plan.partitions_eq
  rwa [plan.length_workloads] at hperm

/-- Every row is in exactly one micro-batch, once. -/
theorem flatten_perm (plan : IndexPlan options lengths idxLists) :
    idxLists.flatten.Perm (List.range lengths.seqLens.length) := by
  refine plan.perm.flatten.trans ?_
  rw [expandGroups_flatten, plan.length_eq, ← expandGroups_range]
  exact plan.flatten_partitions.flatMap_right _

theorem exists_infix (plan : IndexPlan options lengths idxLists) {b : Nat}
    (hb : b < plan.numGroups) :
    ∃ p ∈ idxLists, List.range' (b * options.forceGroupSize.toNat)
      options.forceGroupSize.toNat <:+: p := by
  have hmem : b ∈ plan.partitions.flatten :=
    plan.flatten_partitions.mem_iff.mpr (List.mem_range.mpr hb)
  obtain ⟨p, hp, hbp⟩ := List.mem_flatten.mp hmem
  exact ⟨_, plan.perm.mem_iff.mpr (List.mem_map.mpr ⟨p, hp, rfl⟩),
    range'_infix_expandGroups hbp⟩

end IndexPlan

end Indices

section Rows

variable [TensorRow τ]

theorem nestedLengths_eq_ok {inputIds : Column τ}
    {lengths : EffectiveLengths} (h : nestedLengths inputIds = .ok lengths) :
    lengths.seqLens = inputIds.rows.map (fun row => (TensorRow.size row : Int)) ∧
      0 ≤ lengths.maxSeqLen := by
  unfold nestedLengths at h
  split at h
  · cases h
  · rename_i l ls hsizes
    cases h
    refine ⟨hsizes.symm, ?_⟩
    have hmem : l ∈ inputIds.rows.map fun row => (TensorRow.size row : Int) := by
      simp [hsizes]
    obtain ⟨row, _, rfl⟩ := List.mem_map.mp hmem
    exact (Int.natCast_nonneg _).trans (le_foldl_max _ _)

theorem exists_nestedLengths_eq_ok {inputIds : Column τ}
    (hne : inputIds.rows ≠ []) :
    ∃ lengths, nestedLengths inputIds = .ok lengths := by
  unfold nestedLengths
  cases hrows : inputIds.rows with
  | nil => exact absurd hrows hne
  | cons row rows => exact ⟨_, rfl⟩

theorem maskLengths_eq_ok {attentionMask : Column τ}
    {lengths : EffectiveLengths} (h : maskLengths attentionMask = .ok lengths) :
    ∃ width, attentionMask.lastDim = some width ∧
      lengths.seqLens = attentionMask.rows.map TensorRow.total ∧
      0 ≤ lengths.maxSeqLen := by
  unfold maskLengths at h
  split at h
  · cases h
  · rename_i width hwidth
    cases h
    exact ⟨width, hwidth, rfl, Int.natCast_nonneg _⟩

/-- The column the effective lengths are read from. -/
theorem effectiveLengths_eq_ok {batch : TensorDict τ}
    {lengths : EffectiveLengths} (h : effectiveLengths batch = .ok lengths) :
    lengths.seqLens.length = batch.batchSize ∧
      batch.columns.entries ≠ [] ∧ 0 ≤ lengths.maxSeqLen := by
  obtain ⟨inputIds, hids, h⟩ := bind_eq_ok.mp h
  have hmem := PyDict.get_eq_ok.mp hids
  have hlen : inputIds.rows.length = batch.batchSize := batch.aligned _ hmem
  split at h
  · obtain ⟨hseq, hmax⟩ := nestedLengths_eq_ok h
    exact ⟨by rw [hseq, List.length_map, hlen], List.ne_nil_of_mem hmem, hmax⟩
  · obtain ⟨attentionMask, hmask, h⟩ := bind_eq_ok.mp h
    obtain ⟨_, _, hseq, hmax⟩ := maskLengths_eq_ok h
    have hlen' : attentionMask.rows.length = batch.batchSize :=
      batch.aligned _ (PyDict.get_eq_ok.mp hmask)
    exact ⟨by rw [hseq, List.length_map, hlen'], List.ne_nil_of_mem hmem, hmax⟩

/-- A micro-batch has the effective lengths of its rows. -/
theorem effectiveLengths_indexSelect {batch mb : TensorDict τ}
    {lengths : EffectiveLengths} {idx : List Nat} (hne : idx ≠ [])
    (h : effectiveLengths batch = .ok lengths)
    (hselect : batch.indexSelect idx = .ok mb) :
    ∃ lengths', effectiveLengths mb = .ok lengths' ∧
      gather lengths.seqLens idx = some lengths'.seqLens := by
  obtain ⟨inputIds, hids, h⟩ := bind_eq_ok.mp h
  obtain ⟨inputIds', hids', hdim, hrows⟩ :=
    TensorDict.get_indexSelect hselect hids
  have hnested : inputIds'.isNested = inputIds.isNested := by
    rw [Column.isNested, Column.isNested, hdim]
  split at h
  · rename_i htrue
    have hne' : inputIds'.rows ≠ [] := by
      have hlen := length_of_gather hrows
      rw [← List.length_pos_iff] at hne ⊢
      omega
    obtain ⟨lengths', hlengths'⟩ := exists_nestedLengths_eq_ok hne'
    refine ⟨lengths', bind_eq_ok.mpr ⟨inputIds', hids', ?_⟩, ?_⟩
    · rw [hnested, if_pos htrue]
      exact hlengths'
    · rw [(nestedLengths_eq_ok h).1, (nestedLengths_eq_ok hlengths').1,
        gather_map, hrows]
      rfl
  · rename_i hfalse
    obtain ⟨mask, hmask, h⟩ := bind_eq_ok.mp h
    obtain ⟨mask', hmask', hmdim, hmrows⟩ :=
      TensorDict.get_indexSelect hselect hmask
    obtain ⟨width, hwidth, hseq, _⟩ := maskLengths_eq_ok h
    have hlengths' : maskLengths mask' = .ok ⟨width, s!"{width}",
        mask'.rows.map TensorRow.total⟩ := by
      rw [maskLengths, hmdim, hwidth]
    refine ⟨⟨width, s!"{width}", mask'.rows.map TensorRow.total⟩,
      bind_eq_ok.mpr ⟨inputIds', hids', ?_⟩, ?_⟩
    · rw [hnested, if_neg hfalse, hmask']
      exact hlengths'
    · rw [hseq, gather_map, hmrows]
      rfl

/-- The parts of a call of `rearrange_micro_batches` that returns. -/
theorem rearrangeMicroBatches_eq_ok {batch : TensorDict τ}
    {options : RearrangeOptions} {microBatches : List (TensorDict τ)}
    {idxLists : List (List Nat)}
    (h : rearrangeMicroBatches batch options = .ok (microBatches, idxLists)) :
    ∃ lengths, effectiveLengths batch = .ok lengths ∧
      Nonempty (IndexPlan options lengths idxLists) ∧
      List.Forall₂ (fun idx mb => batch.indexSelect idx = .ok mb) idxLists
        microBatches := by
  obtain ⟨lengths, hlengths, h⟩ := bind_eq_ok.mp h
  obtain ⟨idxLists', hidx, h⟩ := bind_eq_ok.mp h
  obtain ⟨microBatches', hselect, h⟩ := bind_eq_ok.mp h
  cases h
  exact ⟨lengths, hlengths, microBatchIndices_eq_ok hidx,
    mapM_eq_ok_iff.mp hselect⟩

theorem getReverseIdx_eq_ok {idxMap : List Nat}
    (hperm : idxMap.Perm (List.range idxMap.length)) :
    ∃ reverse, getReverseIdx idxMap = .ok reverse ∧
      IsInverse idxMap reverse := by
  have hlt : ∀ idx ∈ idxMap, idx < idxMap.length :=
    fun idx hidx => List.mem_range.mp (hperm.mem_iff.mp hidx)
  exact ⟨_, if_pos hlt, isInverse_scatter hperm rfl⟩

/-- Whatever was read at a permutation of the positions is put back. -/
theorem restoreDynamicBatch_of_gather {xs ys : List ω}
    {idxLists : List (List Nat)}
    (hperm : idxLists.flatten.Perm (List.range xs.length))
    (hys : gather xs idxLists.flatten = some ys) :
    restoreDynamicBatch ys idxLists = .ok xs := by
  have hlen : idxLists.flatten.length = xs.length := by
    simpa using hperm.length_eq
  have hself : idxLists.flatten.Perm (List.range idxLists.flatten.length) := by
    rwa [hlen]
  obtain ⟨reverse, hreverse, hinverse⟩ := getReverseIdx_eq_ok hself
  refine bind_eq_ok.mpr ⟨(), ?_, bind_eq_ok.mpr ⟨reverse, hreverse, ?_⟩⟩
  · simpa using (length_of_gather hys).symm
  · exact pyIndex_eq_ok.mpr (gather_inverse hperm hinverse hys)

/-- Row-wise results of micro-batches that hold the rows of their index lists
come back in the order of the rows. -/
theorem restoreDynamicBatch_flatMap {ρ : Type} {rows : List ρ}
    {idxLists : List (List Nat)} {pieces : List (List ρ)} (f : ρ → ω)
    (hperm : idxLists.flatten.Perm (List.range rows.length))
    (hpieces : List.Forall₂ (fun idx piece => gather rows idx = some piece)
      idxLists pieces) :
    restoreDynamicBatch (pieces.flatMap (List.map f)) idxLists =
      .ok (rows.map f) := by
  apply restoreDynamicBatch_of_gather (by rwa [List.length_map])
  rw [gather_map, gather_flatten hpieces, Option.map_some, List.map_flatten,
    List.flatMap_def]

omit [TensorRow τ] in
theorem gather_rows_of_select {batch : TensorDict τ}
    {idxLists : List (List Nat)} {microBatches : List (TensorDict τ)}
    (hperm : idxLists.flatten.Perm (List.range batch.batchSize))
    (hselect : List.Forall₂ (fun idx mb => batch.indexSelect idx = .ok mb)
      idxLists microBatches) :
    List.Forall₂ (fun idx rows => gather batch.rows idx = some rows)
      idxLists (microBatches.map TensorDict.rows) := by
  have hlt : ∀ idx ∈ idxLists, ∀ i ∈ idx, i < batch.batchSize :=
    fun idx hidx i hi => List.mem_range.mp
      (hperm.mem_iff.mp (List.mem_flatten.mpr ⟨idx, hidx, hi⟩))
  clear hperm
  induction hselect with
  | nil => exact .nil
  | cons hmb _ ih =>
      exact .cons (TensorDict.gather_rows hmb (hlt _ List.mem_cons_self))
        (ih fun idx hidx => hlt idx (List.mem_cons_of_mem _ hidx))

/-- A micro-batch of `prepare_dynamic_batch`: the tensors and the object
entries of one index list. -/
structure PreparedFrom (data : DataProto τ ν μ) (batch : TensorDict τ)
    (idx : List Nat) (microBatch : DataProto τ ν μ) : Prop where
  tensors : ∃ td, microBatch.batch = some td ∧ batch.indexSelect idx = .ok td
  objects :
    PyDict.SelectedAt idx data.nonTensorBatch microBatch.nonTensorBatch
  metaInfo_eq : microBatch.metaInfo = data.metaInfo

omit [TensorRow τ] in
theorem preparedMicroBatch_eq_ok {data microBatch : DataProto τ ν μ}
    {batch td : TensorDict τ} {idx : List Nat}
    (hne : batch.columns.entries ≠ [])
    (hselect : batch.indexSelect idx = .ok td)
    (h : preparedMicroBatch data td idx = .ok microBatch) :
    PreparedFrom data batch idx microBatch := by
  obtain ⟨nonTensors, hobjects, hdict⟩ := bind_eq_ok.mp h
  obtain ⟨hcolumns, hnon, hmeta⟩ := DataProto.fromDict_eq_ok hdict
  have htdne := TensorDict.columns_ne_nil_of_indexSelect hselect hne
  refine ⟨?_, ?_, hmeta⟩
  · rcases hcolumns with ⟨_, hnil⟩ | ⟨td', htd', hcols⟩
    · exact absurd hnil htdne
    · rw [TensorDict.eq_of_columns hcols (hcols ▸ htdne)] at htd'
      exact ⟨td, htd', hselect⟩
  · rw [hnon]
    exact (PyDict.mapEntriesM_eq_ok.mp hobjects).imp
      fun _ _ hxy => ⟨hxy.1, pyIndex_eq_ok.mp hxy.2⟩

/-- `prepare_dynamic_batch` cuts the objects at the same indices as
`rearrange_micro_batches` cuts the tensors. -/
theorem prepareDynamicBatch_eq_ok {data : DataProto τ ν μ}
    {options : RearrangeOptions} {microBatches : List (DataProto τ ν μ)}
    {idxLists : List (List Nat)}
    (h : prepareDynamicBatch data options = .ok (microBatches, idxLists)) :
    ∃ batch tds, data.batch = some batch ∧
      rearrangeMicroBatches batch { options with forceGroupSize := 1 } =
        .ok (tds, idxLists) ∧
      List.Forall₂ (PreparedFrom data batch) idxLists microBatches := by
  unfold prepareDynamicBatch at h
  split at h
  · cases h
  rename_i batch hbatch
  obtain ⟨⟨tds, idxLists'⟩, hrearrange, hrest⟩ := bind_eq_ok.mp h
  obtain ⟨microBatches', hmapM, hreturn⟩ := bind_eq_ok.mp hrest
  cases hreturn
  refine ⟨batch, tds, hbatch, hrearrange, ?_⟩
  obtain ⟨lengths, hlengths, hplan, hselect⟩ :=
    rearrangeMicroBatches_eq_ok hrearrange
  have hne := (effectiveLengths_eq_ok hlengths).2.1
  have hprepared := mapM_eq_ok_iff.mp hmapM
  clear h hrest hmapM hrearrange hlengths hplan
  induction hselect generalizing microBatches with
  | nil =>
      cases hprepared
      exact .nil
  | cons htd _ ih =>
      obtain ⟨mb, mbs, hmb, hmbs, rfl⟩ :=
        List.forall₂_cons_left_iff.mp hprepared
      exact .cons (preparedMicroBatch_eq_ok hne htd hmb) (ih hmbs)

omit [TensorRow τ] in
theorem PreparedFrom.gather_rows {data microBatch : DataProto τ ν μ}
    {batch : TensorDict τ} {idx : List Nat}
    (h : PreparedFrom data batch idx microBatch)
    (hbatch : data.batch = some batch)
    (hlt : ∀ i ∈ idx, i < batch.batchSize) :
    gather data.rows idx = some microBatch.rows := by
  obtain ⟨⟨td, htd, hselect⟩, hobjects, _⟩ := h
  have hsize : microBatch.length = idx.length := by
    simp only [DataProto.length, htd]
    exact (TensorDict.indexSelect_eq_ok.mp hselect).1
  rw [gather_eq_some_iff, List.forall₂_iff_get]
  refine ⟨by simp [hsize], ?_⟩
  intro j hj hj'
  have hget : idx[j]? = some idx[j] := List.getElem?_eq_getElem hj
  have hi : idx[j] < data.length := by
    simp only [DataProto.length, hbatch]
    exact hlt _ (List.getElem_mem hj)
  have hrow : microBatch.rowAt j = data.rowAt idx[j] := by
    simp only [DataProto.rowAt, htd, hbatch,
      TensorDict.rowAt_indexSelect hselect hget, hobjects.row_eq hget]
  simp only [DataProto.rows, List.get_eq_getElem, List.getElem_map,
    List.getElem_range, List.getElem?_map, hrow]
  rw [List.getElem?_range hi, Option.map_some]

/-- The rows are blocks of `groupSize` consecutive rows, and every block lies
whole and in order inside one of the index lists. -/
def GroupsKept (groupSize : Int) (batchSize : Nat)
    (idxLists : List (List Nat)) : Prop :=
  0 < groupSize ∧ groupSize ∣ batchSize ∧
    ∀ b, (b + 1) * groupSize.toNat ≤ batchSize → ∃ p ∈ idxLists,
      List.range' (b * groupSize.toNat) groupSize.toNat <:+: p

theorem groupsKept_of_rearrange {batch : TensorDict τ}
    {options : RearrangeOptions} {microBatches : List (TensorDict τ)}
    {idxLists : List (List Nat)}
    (h : rearrangeMicroBatches batch options = .ok (microBatches, idxLists)) :
    GroupsKept options.forceGroupSize batch.batchSize idxLists := by
  obtain ⟨lengths, hlengths, ⟨plan⟩, _⟩ := rearrangeMicroBatches_eq_ok h
  have hpos := plan.groupSize_pos
  have hsize := plan.length_eq
  rw [(effectiveLengths_eq_ok hlengths).1] at hsize
  refine ⟨hpos, ⟨plan.numGroups, ?_⟩, ?_⟩
  · have hnat : ((options.forceGroupSize.toNat : Nat) : Int) =
        options.forceGroupSize := by omega
    rw [hsize, ← hnat, Nat.cast_mul, mul_comm]
    simp
  intro b hb
  rw [hsize] at hb
  have hlt : b + 1 ≤ plan.numGroups :=
    Nat.le_of_mul_le_mul_right hb (by omega)
  exact plan.exists_infix hlt

theorem flatten_perm_of_rearrange {batch : TensorDict τ}
    {options : RearrangeOptions} {microBatches : List (TensorDict τ)}
    {idxLists : List (List Nat)}
    (h : rearrangeMicroBatches batch options = .ok (microBatches, idxLists)) :
    idxLists.flatten.Perm (List.range batch.batchSize) := by
  obtain ⟨lengths, hlengths, ⟨plan⟩, _⟩ := rearrangeMicroBatches_eq_ok h
  rw [← (effectiveLengths_eq_ok hlengths).1]
  exact plan.flatten_perm

/-- Results computed row by row on the micro-batches come back as those of
the rows of the batch, in their order. -/
theorem restore_rearranged {batch : TensorDict τ}
    {options : RearrangeOptions} {microBatches : List (TensorDict τ)}
    {idxLists : List (List Nat)}
    (h : rearrangeMicroBatches batch options = .ok (microBatches, idxLists))
    (f : List (String × τ) → ω) :
    restoreDynamicBatch (microBatches.flatMap fun mb => mb.rows.map f)
      idxLists = .ok (batch.rows.map f) := by
  have hperm := flatten_perm_of_rearrange h
  obtain ⟨_, _, _, hselect⟩ := rearrangeMicroBatches_eq_ok h
  have hrows : idxLists.flatten.Perm (List.range batch.rows.length) := by
    simpa [TensorDict.rows] using hperm
  have hpieces := gather_rows_of_select hperm hselect
  have hrestore := restoreDynamicBatch_flatMap f hrows hpieces
  rwa [List.flatMap_map] at hrestore

theorem restore_prepared {data : DataProto τ ν μ}
    {options : RearrangeOptions} {microBatches : List (DataProto τ ν μ)}
    {idxLists : List (List Nat)}
    (h : prepareDynamicBatch data options = .ok (microBatches, idxLists))
    (f : DataProto.Row τ ν → ω) :
    restoreDynamicBatch (microBatches.flatMap fun mb => mb.rows.map f)
      idxLists = .ok (data.rows.map f) := by
  obtain ⟨batch, tds, hbatch, hrearrange, hprepared⟩ :=
    prepareDynamicBatch_eq_ok h
  have hperm := flatten_perm_of_rearrange hrearrange
  have hrows : idxLists.flatten.Perm (List.range data.rows.length) := by
    simpa [DataProto.length, hbatch] using hperm
  have hlt : ∀ idx ∈ idxLists, ∀ i ∈ idx, i < batch.batchSize :=
    fun idx hidx i hi => List.mem_range.mp
      (hperm.mem_iff.mp (List.mem_flatten.mpr ⟨idx, hidx, hi⟩))
  have hpieces : List.Forall₂ (fun idx rows => gather data.rows idx = some rows)
      idxLists (microBatches.map DataProto.rows) := by
    clear h hperm hrows hrearrange
    induction hprepared with
    | nil => exact .nil
    | cons hmb _ ih =>
        exact .cons (hmb.gather_rows hbatch (hlt _ List.mem_cons_self))
          (ih fun idx hidx => hlt idx (List.mem_cons_of_mem _ hidx))
  have hrestore := restoreDynamicBatch_flatMap f hrows hpieces
  rwa [List.flatMap_map] at hrestore

/-- Dynamic batching loses, duplicates and misaligns nothing. -/
theorem dynamicBatching_lossless (options : RearrangeOptions) :
    (∀ (batch : TensorDict τ) (microBatches : List (TensorDict τ))
        (idxLists : List (List Nat)),
      rearrangeMicroBatches batch options = .ok (microBatches, idxLists) →
        idxLists.flatten.Perm (List.range batch.batchSize) ∧
        GroupsKept options.forceGroupSize batch.batchSize idxLists ∧
        ∀ (ω : Type) (f : List (String × τ) → ω),
          restoreDynamicBatch
            (microBatches.flatMap fun mb => mb.rows.map f) idxLists =
              .ok (batch.rows.map f)) ∧
    ∀ (data : DataProto τ ν μ) (microBatches : List (DataProto τ ν μ))
        (idxLists : List (List Nat)),
      prepareDynamicBatch data options = .ok (microBatches, idxLists) →
        idxLists.flatten.Perm (List.range data.length) ∧
        List.Forall₂ (fun idx mb =>
          PyDict.SelectedAt idx data.nonTensorBatch mb.nonTensorBatch)
          idxLists microBatches ∧
        ∀ (ω : Type) (f : DataProto.Row τ ν → ω),
          restoreDynamicBatch
            (microBatches.flatMap fun mb => mb.rows.map f) idxLists =
              .ok (data.rows.map f) := by
  refine ⟨?_, ?_⟩
  · intro batch microBatches idxLists h
    exact ⟨flatten_perm_of_rearrange h, groupsKept_of_rearrange h,
      fun _ f => restore_rearranged h f⟩
  · intro data microBatches idxLists h
    obtain ⟨batch, _, hbatch, hrearrange, hprepared⟩ :=
      prepareDynamicBatch_eq_ok h
    refine ⟨?_, hprepared.imp fun _ _ hmb => hmb.objects,
      fun _ f => restore_prepared h f⟩
    simpa [DataProto.length, hbatch] using
      flatten_perm_of_rearrange hrearrange

end Rows

/-- Dense rows of the given effective lengths. -/
def maskedRows (width : Nat) (lens : List Nat) : TensorDict (List Int) where
  columns := ⟨[
    ("input_ids", ⟨some width, lens.map fun _ => List.replicate width 0⟩),
    ("attention_mask", ⟨some width, lens.map fun len =>
      List.replicate len 1 ++ List.replicate (width - len) 0⟩)], by simp⟩
  batchSize := lens.length
  aligned := by simp

/-- `maskedRows` with one object for each row. -/
def maskedRowsWithUids (width : Nat) (lens : List Nat) :
    DataProto (List Int) Nat Nat where
  batch := some (maskedRows width lens)
  nonTensorBatch := ⟨[("uid", List.range lens.length)], by simp⟩
  metaInfo := PyDict.empty
  consistent := by simp [Consistent, maskedRows]

theorem dynamicBatching_lossless_four_rows :
    (∃ microBatches idxLists,
      rearrangeMicroBatches (maskedRows 3 [3, 2, 1, 2])
        { maxTokenLen := 4, forceGroupSize := 2 } =
          .ok (microBatches, idxLists) ∧
      idxLists.flatten.Perm (List.range 4) ∧ GroupsKept 2 4 idxLists ∧
      ∀ (ω : Type) (f : List (String × List Int) → ω),
        restoreDynamicBatch
          (microBatches.flatMap fun mb => mb.rows.map f) idxLists =
            .ok ((maskedRows 3 [3, 2, 1, 2]).rows.map f)) ∧
    ∃ microBatches idxLists,
      prepareDynamicBatch (maskedRowsWithUids 3 [3, 2, 1, 2])
        { maxTokenLen := 4, forceGroupSize := 2 } =
          .ok (microBatches, idxLists) ∧
      List.Forall₂ (fun idx mb => PyDict.SelectedAt idx
        (maskedRowsWithUids 3 [3, 2, 1, 2]).nonTensorBatch mb.nonTensorBatch)
        idxLists microBatches := by
  refine ⟨?_, ?_⟩
  · obtain ⟨⟨microBatches, idxLists⟩, h⟩ : ∃ r,
        rearrangeMicroBatches (maskedRows 3 [3, 2, 1, 2])
          { maxTokenLen := 4, forceGroupSize := 2 } = .ok r :=
      exists_of_isOk (by decide)
    exact ⟨microBatches, idxLists, h,
      (dynamicBatching_lossless (τ := List Int) (ν := Nat) (μ := Nat) _).1
        _ _ _ h⟩
  · obtain ⟨⟨microBatches, idxLists⟩, h⟩ : ∃ r,
        prepareDynamicBatch (maskedRowsWithUids 3 [3, 2, 1, 2])
          { maxTokenLen := 4, forceGroupSize := 2 } = .ok r :=
      exists_of_isOk (by decide)
    exact ⟨microBatches, idxLists, h,
      ((dynamicBatching_lossless _).2 _ _ _ h).2.1⟩

end SelfDistillation
