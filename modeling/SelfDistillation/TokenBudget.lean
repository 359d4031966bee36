/-
What `max_token_len` bounds in `rearrange_micro_batches`
(verl/utils/seqlen_balancing.py): the number of micro-batches is chosen so
that their mean total length is within it, and the differencing of workloads
keeps each of them near the mean.
-/
import SelfDistillation.SeqlenBalancing

namespace SelfDistillation

open Chunks Gather

variable {τ : Type}

section Totals

/-- The sum of the values at the indices of a partition. -/
def totalAt (values : List Int) (partition : List Nat) : Int :=
  (partition.map fun i => values.getD i 0).sum

theorem totalAt_append (values : List Int) (p q : List Nat) :
    totalAt values (p ++ q) = totalAt values p + totalAt values q := by
  simp [totalAt]

theorem totalAt_perm (values : List Int) {p q : List Nat} (h : p.Perm q) :
    totalAt values p = totalAt values q :=
  (h.map _).sum_eq

theorem totalAt_flatten (values : List Int) (partitions : List (List Nat)) :
    totalAt values partitions.flatten =
      (partitions.map (totalAt values)).sum := by
  induction partitions with
  | nil => rfl
  | cons p partitions ih =>
      rw [List.flatten_cons, totalAt_append, ih, List.map_cons, List.sum_cons]

theorem totalAt_of_gather {values picked : List Int} {idx : List Nat}
    (h : gather values idx = some picked) : picked.sum = totalAt values idx := by
  have hall := gather_eq_some_iff.mp h
  clear h
  induction hall with
  | nil => rfl
  | cons hx _ ih =>
      rw [List.sum_cons, ih]
      simp [totalAt, List.getD_eq_getElem?_getD, hx]

/-- Pointwise bounds between two lists of values pass to partitions. -/
theorem totalAt_le_of_forall₂ {a b : Int} {xs ys : List Int}
    (h : List.Forall₂ (fun x y => a * x ≤ b * y) xs ys)
    (partition : List Nat) :
    a * totalAt xs partition ≤ b * totalAt ys partition := by
  have hpoint : ∀ i, a * xs.getD i 0 ≤ b * ys.getD i 0 := by
    intro i
    rcases Nat.lt_or_ge i xs.length with hi | hi
    · have hi' : i < ys.length := h.length_eq ▸ hi
      have hget := h.get hi hi'
      rw [List.getD_eq_getElem _ _ hi, List.getD_eq_getElem _ _ hi']
      exact hget
    · have hi' : ys.length ≤ i := h.length_eq ▸ hi
      rw [List.getD_eq_default _ _ hi, List.getD_eq_default _ _ hi']
      simp
  induction partition with
  | nil => simp [totalAt]
  | cons i partition ih =>
      have hi := hpoint i
      simp only [totalAt, List.map_cons, List.sum_cons, mul_add] at ih ⊢
      exact add_le_add hi ih

/-- One of several parts is no larger than their mean. -/
theorem exists_totalAt_le {values : List Int} {partitions : List (List Nat)}
    {cap : Int} (hne : partitions ≠ [])
    (hsum : (partitions.map (totalAt values)).sum ≤ partitions.length * cap) :
    ∃ p ∈ partitions, totalAt values p ≤ cap := by
  by_contra hnone
  push Not at hnone
  have hlow := List.card_nsmul_le_sum (partitions.map (totalAt values))
    (cap + 1) (by
      intro x hx
      obtain ⟨p, hp, rfl⟩ := List.mem_map.mp hx
      exact hnone p hp)
  have hpos : 0 < partitions.length := List.length_pos_iff.mpr hne
  simp only [List.length_map, nsmul_eq_mul, mul_add, mul_one] at hlow
  omega

theorem length_eq_one_of_flatten {partitions : List (List Nat)}
    (hne : ∀ p ∈ partitions, p ≠ [])
    (hlen : partitions.flatten.length ≤ partitions.length) :
    ∀ p ∈ partitions, p.length = 1 := by
  induction partitions with
  | nil => simp
  | cons p partitions ih =>
      have hp : 0 < p.length := List.length_pos_iff.mpr (hne p (by simp))
      have hrest : ∀ q ∈ partitions, q ≠ [] :=
        fun q hq => hne q (List.mem_cons_of_mem p hq)
      have hmany : partitions.length ≤ partitions.flatten.length := by
        clear ih hne hlen
        induction partitions with
        | nil => simp
        | cons q partitions ih =>
            have hq : 0 < q.length :=
              List.length_pos_iff.mpr (hrest q (by simp))
            have := ih fun q hq => hrest q (List.mem_cons_of_mem _ hq)
            simp only [List.flatten_cons, List.length_append, List.length_cons]
            omega
      simp only [List.flatten_cons, List.length_append,
        List.length_cons] at hlen
      intro q hq
      rcases List.mem_cons.mp hq with rfl | hq
      · omega
      · exact ih hrest (by omega) q hq

end Totals

section Count

theorem ceildiv_eq_ok {a b r : Int} (hb : 0 < b) (h : ceildiv a b = .ok r) :
    a ≤ r * b := by
  obtain ⟨q, hq, rfl⟩ := map_eq_ok.mp h
  obtain ⟨_, hq⟩ := floorDiv_eq_ok.mp hq
  have hneg : a.fdiv (-b) = (-a) / b := by
    rw [← neg_neg a, Int.neg_fdiv_neg, neg_neg,
      Int.fdiv_eq_ediv_of_nonneg _ hb.le]
  have hle := Int.ediv_mul_le (-a) hb.ne'
  rw [← hq, hneg, neg_mul]
  omega

theorem le_of_roundupDivisible {a b r : Int} (hb : 0 < b)
    (h : roundupDivisible a b = .ok r) : a ≤ r := by
  obtain ⟨q, hq, rfl⟩ := map_eq_ok.mp h
  obtain ⟨_, hq⟩ := floorDiv_eq_ok.mp hq
  have hmod := Int.fmod_lt_of_pos (a + b - 1) hb
  rw [← hq, Int.fdiv_mul_self]
  omega

variable {options : RearrangeOptions}

theorem le_atLeastMinNum (count : Int) : count ≤ atLeastMinNum options count := by
  unfold atLeastMinNum
  split
  · exact le_rfl
  · exact le_max_right _ _

theorem le_maxOverRanks (count : Int) : count ≤ maxOverRanks options count := by
  unfold maxOverRanks
  split
  · exact le_rfl
  · split
    · exact le_foldl_max _ _
    · exact le_rfl

theorem le_of_roundedUp {count rounded : Int}
    (hdivisor : ∀ d ∈ options.numBatchesDividedBy, 0 < d)
    (h : roundedUp options count = .ok rounded) : count ≤ rounded := by
  unfold roundedUp at h
  split at h
  · exact (Except.ok.inj h).le
  · rename_i divisor hby
    exact le_of_roundupDivisible (hdivisor divisor hby) h

/-- There are enough micro-batches to hold all tokens, or one for every
group. -/
theorem le_numMicroBatches {numGroups total count : Int}
    (hmax : 0 < options.maxTokenLen)
    (hdivisor : ∀ d ∈ options.numBatchesDividedBy, 0 < d)
    (h : numMicroBatches options numGroups total = .ok count) :
    total ≤ count * options.maxTokenLen ∨ numGroups ≤ count := by
  obtain ⟨needed, hneeded, hcount⟩ := bind_eq_ok.mp h
  have hcover := ceildiv_eq_ok hmax hneeded
  have hle : min numGroups needed ≤ count :=
    (le_atLeastMinNum _).trans
      ((le_maxOverRanks _).trans (le_of_roundedUp hdivisor hcount))
  rcases min_le_iff.mp hle with hgroups | hneed
  · exact .inr hgroups
  · exact .inl (hcover.trans (mul_le_mul_of_nonneg_right hneed hmax.le))

end Count

section Workloads

/-- The total length of every group of `force_group_size` rows. -/
def groupTotals (groupSize : Int) (seqLens : List Int) : List Int :=
  (chunksOf groupSize.toNat seqLens).map List.sum

theorem partitionWorkloads_eq {groupSize : Int} (hpos : 0 < groupSize)
    (seqLens : List Int) :
    partitionWorkloads groupSize seqLens =
      (chunksOf groupSize.toNat seqLens).map
        fun block => (calculateWorkload block).sum := by
  unfold partitionWorkloads
  split
  · rw [calculateWorkload, map_chunksOf, List.map_map]
    rfl
  · have hone : groupSize.toNat = 1 := by omega
    rw [hone, chunksOf_one, List.map_map]
    simp [calculateWorkload]

theorem calculateWorkload_sum_bounds {longest : Int} {block : List Int}
    (hrange : ∀ l ∈ block, 0 ≤ l ∧ l ≤ longest) :
    24576 * block.sum ≤ (calculateWorkload block).sum ∧
      (calculateWorkload block).sum ≤ (24576 + longest) * block.sum := by
  induction block with
  | nil => simp [calculateWorkload]
  | cons l block ih =>
      obtain ⟨hlow, hhigh⟩ := ih fun l' hl' => hrange l' (by simp [hl'])
      obtain ⟨hnonneg, hle⟩ := hrange l (by simp)
      have hsq : l ^ 2 ≤ longest * l := by nlinarith
      have hpos : 0 ≤ l ^ 2 := sq_nonneg l
      rw [calculateWorkload] at hlow hhigh ⊢
      simp only [List.map_cons, List.sum_cons]
      constructor <;> linarith

variable {groupSize longest : Int} {seqLens : List Int}

theorem mem_of_mem_chunksOf {size : Nat} (hsize : 0 < size)
    {block : List Int} (hblock : block ∈ chunksOf size seqLens) {l : Int}
    (hl : l ∈ block) : l ∈ seqLens := by
  rw [← flatten_chunksOf hsize seqLens]
  exact List.mem_flatten.mpr ⟨block, hblock, hl⟩

theorem le_totalAt_workloads (hpos : 0 < groupSize)
    (hrange : ∀ l ∈ seqLens, 0 ≤ l ∧ l ≤ longest) (partition : List Nat) :
    24576 * totalAt (groupTotals groupSize seqLens) partition ≤
      totalAt (partitionWorkloads groupSize seqLens) partition := by
  have hnat : 0 < groupSize.toNat := by omega
  have hall : List.Forall₂ (fun x y : Int => 24576 * x ≤ 1 * y)
      (groupTotals groupSize seqLens)
      (partitionWorkloads groupSize seqLens) := by
    rw [partitionWorkloads_eq hpos, groupTotals, List.forall₂_map_left_iff,
      List.forall₂_map_right_iff, List.forall₂_same]
    intro block hblock
    rw [one_mul]
    exact (calculateWorkload_sum_bounds fun l hl =>
      hrange l (mem_of_mem_chunksOf hnat hblock hl)).1
  simpa using totalAt_le_of_forall₂ hall partition

theorem totalAt_workloads_le (hpos : 0 < groupSize)
    (hrange : ∀ l ∈ seqLens, 0 ≤ l ∧ l ≤ longest) (partition : List Nat) :
    totalAt (partitionWorkloads groupSize seqLens) partition ≤
      (24576 + longest) *
        totalAt (groupTotals groupSize seqLens) partition := by
  have hnat : 0 < groupSize.toNat := by omega
  have hall : List.Forall₂
      (fun x y : Int => 1 * x ≤ (24576 + longest) * y)
      (partitionWorkloads groupSize seqLens)
      (groupTotals groupSize seqLens) := by
    rw [partitionWorkloads_eq hpos, groupTotals, List.forall₂_map_left_iff,
      List.forall₂_map_right_iff, List.forall₂_same]
    intro block hblock
    rw [one_mul]
    exact (calculateWorkload_sum_bounds fun l hl =>
      hrange l (mem_of_mem_chunksOf hnat hblock hl)).2
  simpa using totalAt_le_of_forall₂ hall partition

/-- The values from `start` on, read one by one. -/
theorem totalAt_range' (values : List Int) (start size : Nat) :
    totalAt values (List.range' start size) =
      ((values.drop start).take size).sum := by
  induction size generalizing start with
  | zero => simp [totalAt]
  | succ size ih =>
      have hstep : totalAt values (List.range' start (size + 1)) =
          values.getD start 0 +
            totalAt values (List.range' (start + 1) size) := by
        simp [totalAt, List.range'_succ]
      rw [hstep, ih]
      rcases Nat.lt_or_ge start values.length with hlt | hge
      · rw [List.drop_eq_getElem_cons hlt, List.take_succ_cons, List.sum_cons,
          List.getD_eq_getElem _ _ hlt]
      · rw [List.drop_of_length_le hge, List.getD_eq_default _ _ hge,
          List.drop_of_length_le (by omega)]
        simp

theorem totalAt_range (values : List Int) :
    totalAt values (List.range values.length) = values.sum := by
  rw [List.range_eq_range', totalAt_range', List.drop_zero, List.take_length]

/-- The rows of a partition of groups have the total of its groups. -/
theorem totalAt_expandGroups (hpos : 0 < groupSize) (partition : List Nat) :
    totalAt seqLens (expandGroups groupSize.toNat partition) =
      totalAt (groupTotals groupSize seqLens) partition := by
  have hnat : 0 < groupSize.toNat := by omega
  have hgroup : ∀ b, (groupTotals groupSize seqLens).getD b 0 =
      ((seqLens.drop (b * groupSize.toNat)).take groupSize.toNat).sum := by
    intro b
    rw [groupTotals, List.getD_eq_getElem?_getD, List.getElem?_map]
    rcases Nat.lt_or_ge b ((seqLens.length + groupSize.toNat - 1) /
      groupSize.toNat) with hlt | hge
    · rw [getElem?_chunksOf hlt]
      rfl
    · have hover : seqLens.length ≤ b * groupSize.toNat := by
        have := Nat.div_le_iff_le_mul_add_pred hnat |>.mp hge
        rw [Nat.mul_comm] at this
        omega
      rw [List.getElem?_eq_none (by simpa using hge),
        List.drop_of_length_le hover]
      simp
  induction partition with
  | nil => rfl
  | cons b partition ih =>
      have hcons : expandGroups groupSize.toNat (b :: partition) =
          List.range' (b * groupSize.toNat) groupSize.toNat ++
            expandGroups groupSize.toNat partition := rfl
      rw [hcons, totalAt_append, ih, totalAt_range', ← hgroup]
      simp [totalAt]

end Workloads

section Spread

variable {seqlenList : List Int} {k : Nat} {equalSize : Bool}

/-- The weight the differencing works with is the total of the values. -/
theorem KKRun.totalAt_eq_sum (run : KKRun seqlenList k equalSize)
    {set : KKSet} (hset : set ∈ run.finalState.sets) :
    totalAt seqlenList (set.items.map Prod.fst) = set.sum := by
  have hitem : ∀ item ∈ set.items, seqlenList[item.1]? = some item.2 := by
    intro item hitem
    have hmem : item ∈ run.finalState.contents :=
      KKState.mem_contents.mpr ⟨set, hset, hitem⟩
    rwa [run.contents_final, Multiset.mem_coe, mem_indexedItems] at hmem
  rw [set.sum_eq, totalAt, List.map_map]
  congr 1
  apply List.map_congr_left
  intro item hmem
  simp [List.getD_eq_getElem?_getD, hitem item hmem]

/-- Two parts of a balanced partition differ by at most the largest value. -/
theorem totalAt_sub_le {partitions : List (List Nat)} {count bound : Int}
    (h : getSeqlenBalancedPartitions seqlenList count equalSize =
      .ok partitions)
    (hrange : ∀ l ∈ seqlenList, 0 ≤ l ∧ l ≤ bound) (hbound : 0 ≤ bound)
    {p q : List Nat} (hp : p ∈ partitions) (hq : q ∈ partitions) :
    totalAt seqlenList p ≤ totalAt seqlenList q + bound := by
  obtain ⟨run, rfl, _⟩ := getSeqlenBalancedPartitions_eq_ok h
  have hsets : ∀ r ∈ run.finalState.getPartitions.map sortedPartition,
      ∃ set ∈ run.finalState.sets, totalAt seqlenList r = set.sum := by
    intro r hr
    obtain ⟨r', hr', rfl⟩ := List.mem_map.mp hr
    obtain ⟨set, hset, rfl⟩ := List.mem_map.mp hr'
    exact ⟨set, hset, (totalAt_perm _ (sortedPartition_perm _)).trans
      (run.totalAt_eq_sum hset)⟩
  obtain ⟨x, hx, hpx⟩ := hsets p hp
  obtain ⟨y, hy, hqy⟩ := hsets q hq
  have hspread := run.balanced_final hrange hbound x hx y hy
  omega

end Spread

namespace IndexPlan

variable {options : RearrangeOptions} {lengths : EffectiveLengths}
  {idxLists : List (List Nat)}

theorem length_partitions (plan : IndexPlan options lengths idxLists) :
    (plan.partitions.length : Int) = plan.count := by
  obtain ⟨_, _, _, hlen, _⟩ :=
    getSeqlenBalancedPartitions_eq_ok plan.partitions_eq
  exact hlen

theorem length_idxLists (plan : IndexPlan options lengths idxLists) :
    (idxLists.length : Int) = plan.count := by
  rw [plan.perm.length_eq, List.length_map, plan.length_partitions]

theorem length_groupTotals (plan : IndexPlan options lengths idxLists) :
    (groupTotals options.forceGroupSize lengths.seqLens).length =
      plan.numGroups := by
  have hlen := plan.length_workloads
  rw [partitionWorkloads_eq plan.groupSize_pos] at hlen
  simpa [groupTotals] using hlen

theorem sum_groupTotals (plan : IndexPlan options lengths idxLists) :
    (groupTotals options.forceGroupSize lengths.seqLens).sum =
      lengths.seqLens.sum := by
  have hpos := plan.groupSize_pos
  rw [groupTotals, ← List.sum_flatten, flatten_chunksOf (by omega)]

/-- The budget holds on average, or every micro-batch is one group. -/
theorem covered_or_single (plan : IndexPlan options lengths idxLists)
    (hmax : 0 < options.maxTokenLen)
    (hdivisor : ∀ d ∈ options.numBatchesDividedBy, 0 < d) :
    lengths.seqLens.sum ≤ plan.count * options.maxTokenLen ∨
      ∀ p ∈ plan.partitions, p.length = 1 := by
  rcases le_numMicroBatches hmax hdivisor plan.count_eq with hcover | hmany
  · exact .inl hcover
  · right
    obtain ⟨_, _, hne, hlen, _⟩ :=
      getSeqlenBalancedPartitions_eq_ok plan.partitions_eq
    apply length_eq_one_of_flatten hne
    have hflat := plan.flatten_partitions.length_eq
    rw [List.length_range] at hflat
    omega

variable {longest groupLen : Int}

/-- A part of the partition that is within the budget. -/
theorem exists_within (plan : IndexPlan options lengths idxLists)
    (hcover : lengths.seqLens.sum ≤ plan.count * options.maxTokenLen) :
    ∃ q ∈ plan.partitions,
      totalAt (groupTotals options.forceGroupSize lengths.seqLens) q ≤
        options.maxTokenLen := by
  apply exists_totalAt_le
  · have hcount := count_pos_of_partitions plan.partitions_eq
    have hlen := plan.length_partitions
    rw [← List.length_pos_iff]
    omega
  · rw [← totalAt_flatten, totalAt_perm _ plan.flatten_partitions,
      ← plan.length_groupTotals, totalAt_range, plan.sum_groupTotals,
      plan.length_partitions]
    exact hcover

/-- A group's workload is at most that of its tokens in one long row. -/
theorem workload_range (plan : IndexPlan options lengths idxLists)
    (hrange : ∀ l ∈ lengths.seqLens, 0 ≤ l ∧ l ≤ longest)
    (hgroups : ∀ total ∈ groupTotals options.forceGroupSize lengths.seqLens,
      0 ≤ total ∧ total ≤ groupLen) (hlongest : 0 ≤ longest) :
    ∀ w ∈ partitionWorkloads options.forceGroupSize lengths.seqLens,
      0 ≤ w ∧ w ≤ (24576 + longest) * groupLen := by
  have hpos := plan.groupSize_pos
  intro w hw
  rw [partitionWorkloads_eq hpos] at hw
  obtain ⟨block, hblock, rfl⟩ := List.mem_map.mp hw
  obtain ⟨hlow, hhigh⟩ := calculateWorkload_sum_bounds fun l hl =>
    hrange l (mem_of_mem_chunksOf (by omega) hblock hl)
  obtain ⟨hnonneg, hle⟩ := hgroups _ (List.mem_map.mpr ⟨block, hblock, rfl⟩)
  refine ⟨le_trans (by omega) hlow, hhigh.trans ?_⟩
  exact mul_le_mul_of_nonneg_left hle (by omega)

theorem groupTotals_nonneg (plan : IndexPlan options lengths idxLists)
    (hrange : ∀ l ∈ lengths.seqLens, 0 ≤ l ∧ l ≤ longest) {total : Int}
    (htotal : total ∈ groupTotals options.forceGroupSize lengths.seqLens) :
    0 ≤ total := by
  have hpos := plan.groupSize_pos
  obtain ⟨block, hblock, rfl⟩ := List.mem_map.mp htotal
  exact List.sum_nonneg fun l hl =>
    (hrange l (mem_of_mem_chunksOf (by omega) hblock hl)).1

theorem numGroups_pos (plan : IndexPlan options lengths idxLists) :
    0 < plan.numGroups := by
  have hcount := count_pos_of_partitions plan.partitions_eq
  have hle := plan.count_le
  omega

theorem maxTokenLen_pos (plan : IndexPlan options lengths idxLists)
    (hmaxSeqLen : 0 ≤ lengths.maxSeqLen) : 0 < options.maxTokenLen := by
  have hle := plan.maxSeqLen_le
  have hne : options.maxTokenLen ≠ 0 := by
    intro hzero
    obtain ⟨needed, hneeded, _⟩ := bind_eq_ok.mp plan.count_eq
    obtain ⟨q, hq, _⟩ := map_eq_ok.mp hneeded
    exact (floorDiv_eq_ok.mp hq).1 (by omega)
  omega

theorem ne_nil (plan : IndexPlan options lengths idxLists) {idx : List Nat}
    (hidx : idx ∈ idxLists) : idx ≠ [] := by
  have hpos := plan.groupSize_pos
  obtain ⟨p, hp, rfl⟩ := List.mem_map.mp (plan.perm.mem_iff.mp hidx)
  obtain ⟨_, _, hne, _, _⟩ :=
    getSeqlenBalancedPartitions_eq_ok plan.partitions_eq
  have hlen : 0 < p.length := List.length_pos_iff.mpr (hne p hp)
  rw [← List.length_pos_iff, length_expandGroups]
  exact Nat.mul_pos hlen (by omega)

theorem longest_nonneg (plan : IndexPlan options lengths idxLists)
    (hrange : ∀ l ∈ lengths.seqLens, 0 ≤ l ∧ l ≤ longest) : 0 ≤ longest := by
  have hpos := plan.groupSize_pos
  have hlen : 0 < lengths.seqLens.length := by
    rw [plan.length_eq]
    exact Nat.mul_pos plan.numGroups_pos (by omega)
  obtain ⟨hlow, hhigh⟩ := hrange _ (List.getElem_mem hlen)
  omega

theorem getD_mem_groupTotals (plan : IndexPlan options lengths idxLists)
    {b : Nat} (hb : b < plan.numGroups) :
    (groupTotals options.forceGroupSize lengths.seqLens).getD b 0 ∈
      groupTotals options.forceGroupSize lengths.seqLens := by
  rw [← plan.length_groupTotals] at hb
  rw [List.getD_eq_getElem _ _ hb]
  exact List.getElem_mem hb

/-- No micro-batch is far above the budget: the heaviest part exceeds one
that is within it by at most the workload of one group. -/
theorem total_le (plan : IndexPlan options lengths idxLists)
    (hmax : 0 < options.maxTokenLen)
    (hdivisor : ∀ d ∈ options.numBatchesDividedBy, 0 < d)
    (hrange : ∀ l ∈ lengths.seqLens, 0 ≤ l ∧ l ≤ longest)
    (hgroups : ∀ total ∈ groupTotals options.forceGroupSize lengths.seqLens,
      total ≤ groupLen) {idx : List Nat} (hidx : idx ∈ idxLists) :
    24576 * totalAt lengths.seqLens idx ≤
      (24576 + longest) * (options.maxTokenLen + groupLen) := by
  have hpos := plan.groupSize_pos
  obtain ⟨p, hp, rfl⟩ := List.mem_map.mp (plan.perm.mem_iff.mp hidx)
  rw [totalAt_expandGroups hpos]
  have hgroupRange : ∀ total ∈
      groupTotals options.forceGroupSize lengths.seqLens,
      0 ≤ total ∧ total ≤ groupLen :=
    fun total htotal =>
      ⟨plan.groupTotals_nonneg hrange htotal, hgroups total htotal⟩
  have hlongest := plan.longest_nonneg hrange
  have hfactor : 0 ≤ 24576 + longest := by omega
  have hgroupLen : 0 ≤ groupLen := by
    have := hgroupRange _ (plan.getD_mem_groupTotals plan.numGroups_pos)
    omega
  rcases plan.covered_or_single hmax hdivisor with hcover | hsingle
  · obtain ⟨q, hq, hwithin⟩ := plan.exists_within hcover
    have hlow := le_totalAt_workloads hpos hrange p
    have hspread := totalAt_sub_le plan.partitions_eq
      (plan.workload_range hrange hgroupRange hlongest)
      (mul_nonneg hfactor hgroupLen) hp hq
    have hhigh := totalAt_workloads_le hpos hrange q
    have hscaled := mul_le_mul_of_nonneg_left hwithin hfactor
    rw [mul_add]
    exact hlow.trans (hspread.trans
      (add_le_add_left (hhigh.trans hscaled) _))
  · obtain ⟨c, rfl⟩ := List.length_eq_one_iff.mp (hsingle p hp)
    have hc : c < plan.numGroups := List.mem_range.mp
      (plan.flatten_partitions.mem_iff.mp
        (List.mem_flatten.mpr ⟨[c], hp, by simp⟩))
    have hone : totalAt (groupTotals options.forceGroupSize lengths.seqLens)
        [c] ≤ groupLen := by
      simpa [totalAt] using
        (hgroupRange _ (plan.getD_mem_groupTotals hc)).2
    have hbudget : groupLen ≤ options.maxTokenLen + groupLen := by omega
    calc 24576 * totalAt
          (groupTotals options.forceGroupSize lengths.seqLens) [c]
        ≤ 24576 * groupLen := by omega
      _ ≤ (24576 + longest) * groupLen :=
          mul_le_mul_of_nonneg_right (by omega) hgroupLen
      _ ≤ (24576 + longest) * (options.maxTokenLen + groupLen) :=
          mul_le_mul_of_nonneg_left hbudget hfactor

end IndexPlan

section MicroBatches

variable [TensorRow τ]

/-- The sum of the attention mask of a micro-batch, or of the lengths of its
nested rows. -/
def totalEffectiveLength (microBatch : TensorDict τ) : Py Int :=
  (fun lengths => lengths.seqLens.sum) <$> effectiveLengths microBatch

end MicroBatches

end SelfDistillation
