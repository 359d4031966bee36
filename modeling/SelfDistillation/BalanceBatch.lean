/-
`_balance_batch` (verl/trainer/ppo/ray_trainer.py): the rows of a batch are
reordered so that the data-parallel ranks get similar workloads, within each
mini-batch when `keep_minibatch` is set.
-/
import SelfDistillation.DataProtoUnion
import SelfDistillation.Library.SortedRank
import SelfDistillation.SeqlenBalancing

namespace SelfDistillation

open Gather Stride

variable {τ ν μ : Type}

/-- What `_balance_batch` reads off the trainer; `dp_size` is one more than a
rank. -/
structure BalanceTrainer where
  dpSize : Nat
  dpSize_pos : 0 < dpSize
  usePrefixGrouper : Bool
  ppoMiniBatchSize : Option Int

/-- The statistics `log_seqlen_unbalance` returns. -/
structure SeqlenStats where
  min : Int
  max : Int
  minmaxDiff : Int
  balancedMin : Int
  balancedMax : Int
  mean : Rat
deriving DecidableEq

/-- `min` and `max` of a list that is not empty. -/
def minMax : List Int → Py (Int × Int)
  | [] => .error (.valueError "min() arg is an empty sequence")
  | x :: xs => .ok (xs.foldl min x, xs.foldl max x)

/-- `log_seqlen_unbalance` -/
def logSeqlenUnbalance (seqlenList : List Int) (partitions : List (List Nat)) :
    Py SeqlenStats := do
  let batchSize ← floorDiv seqlenList.length partitions.length
  if batchSize = 0 then
    .error (.valueError "range() arg 3 must not be zero")
  else do
    let sums := (Chunks.chunksOf batchSize.toNat seqlenList).map List.sum
    let (minSum, maxSum) ← minMax sums
    let balanced ← partitions.mapM fun partition =>
      List.sum <$> pyIndex seqlenList partition
    let (balancedMin, balancedMax) ← minMax balanced
    return ⟨minSum, maxSum, maxSum - minSum, balancedMin, balancedMax,
      (sums.sum : Rat) / partitions.length⟩

/-- The rows of the same uid that follow one another. -/
def uidGroups [DecidableEq ν] (uidList : List ν) : List (List Nat) :=
  (uidList.zipIdx.splitBy fun a b => a.1 == b.1).map (·.map Prod.snd)

/-- `get_group_balanced_partitions` -/
def getGroupBalancedPartitions [DecidableEq ν] (seqlenList : List Int)
    (uidList : List ν) (kPartitions : Nat) : Py (List (List Nat)) := do
  pyAssert (seqlenList.length == uidList.length)
    "seqlen_list and uid_list must have same length"
  let groups := uidGroups uidList
  pyAssert (groups.length ≥ kPartitions)
    (s!"Number of uid groups ({groups.length}) must be >= k_partitions " ++
      s!"({kPartitions}). Consider reducing world_size or increasing " ++
      s!"batch_size.")
  let groupWorkloads := groups.map fun indices =>
    (indices.map fun i => (calculateWorkload [seqlenList.getD i 0]).sum).sum
  let groupPartitions ←
    getSeqlenBalancedPartitions groupWorkloads kPartitions true
  return groupPartitions.map fun groupPartition =>
    sortedPartition (groupPartition.flatMap fun group => groups.getD group [])

/-- The workloads of a mini-batch. -/
def minibatchSlice (workloads : List Int) (minibatchSize i : Nat) :
    List Int :=
  (workloads.take ((i + 1) * minibatchSize)).drop (i * minibatchSize)

/-- The loop over the mini-batches: the partitions of each one extend those
of the ranks. -/
def keepMinibatchPartitions (workloads : List Int) (minibatchSize dpSize : Nat)
    (minibatchNum : Nat) : Py (List (List Nat)) :=
  (List.range minibatchNum).foldlM (fun globalPartitionLst i => do
    let parts ← getSeqlenBalancedPartitions
      (minibatchSlice workloads minibatchSize i) dpSize true
    return List.zipWith (fun partition part =>
      partition ++ part.map (· + minibatchSize * i)) globalPartitionLst parts)
    (List.replicate dpSize [])

/-- The order of the sort key `(workload_lst[x], x)`. -/
def lighter (workloads : List Int) (x y : Nat) : Bool :=
  workloads.getD x 0 < workloads.getD y 0 ∨
    workloads.getD x 0 = workloads.getD y 0 ∧ x < y

/-- `partition[::2] + partition[1::2][::-1]` of the sorted partition -/
def orderedPartition (workloads : List Int) (partition : List Nat) :
    List Nat :=
  foldToEnds (sorted (lighter workloads) partition)

/-- `global_seqlen_lst` -/
def globalSeqlenLst [TensorRow τ] (batch : DataProto τ ν μ) :
    Py (List Int) := do
  let attentionMask ← batch.tensors.get "attention_mask"
  return attentionMask.rows.map TensorRow.total

namespace BalanceTrainer

variable [DecidableEq ν]

/-- The partitions by uid. -/
def prefixPartitions (trainer : BalanceTrainer) (lens : List Int)
    (uidList : List ν) : Py (List (List Nat)) := do
  let numGroups := uidList.dedup.length
  if numGroups % trainer.dpSize ≠ 0 then
    .error (.valueError
      (s!"PrefixGrouper with balance_batch requires num_uid_groups " ++
        s!"({numGroups}) % dp_size ({trainer.dpSize}) == 0. This ensures " ++
        s!"each rank gets equal number of groups. Current " ++
        s!"batch_size={lens.length}, adjust batch_size to be a multiple of " ++
        s!"dp_size * rollout.n."))
  else getGroupBalancedPartitions lens uidList trainer.dpSize

/-- `global_partition_lst` before its partitions are ordered. -/
def rankPartitions (trainer : BalanceTrainer) (batch : DataProto τ ν μ)
    (lens : List Int) (keepMinibatch : Bool) : Py (List (List Nat)) :=
  let workloads := calculateWorkload lens
  if trainer.usePrefixGrouper && batch.nonTensorBatch.contains "uid" then do
    let uidList ← batch.nonTensorBatch.get "uid"
    trainer.prefixPartitions lens uidList
  else if keepMinibatch then
    match trainer.ppoMiniBatchSize with
    | none => .error (.typeError
        "unsupported operand type(s) for //: 'int' and 'NoneType'")
    | some minibatchSize => do
        let minibatchNum ← floorDiv workloads.length minibatchSize
        keepMinibatchPartitions workloads minibatchSize.toNat trainer.dpSize
          minibatchNum.toNat
  else getSeqlenBalancedPartitions workloads trainer.dpSize true

/-- `global_partition_lst` -/
def globalPartitionLst (trainer : BalanceTrainer) (batch : DataProto τ ν μ)
    (lens : List Int) (keepMinibatch : Bool) : Py (List (List Nat)) := do
  let partitions ← trainer.rankPartitions batch lens keepMinibatch
  if trainer.usePrefixGrouper then return partitions
  else return partitions.map (orderedPartition (calculateWorkload lens))

/-- `_balance_batch`: the reordered batch and the statistics. -/
def balanceBatch [TensorRow τ] (trainer : BalanceTrainer)
    (batch : DataProto τ ν μ) (keepMinibatch : Bool) :
    Py (DataProto τ ν μ × SeqlenStats) := do
  let lens ← globalSeqlenLst batch
  let partitions ← trainer.globalPartitionLst batch lens keepMinibatch
  -- `torch.tensor([])` holds floats and is no index
  if partitions.flatten.isEmpty then .error .indexError
  else do
    let balanced ← batch.reorder partitions.flatten
    let stats ← logSeqlenUnbalance lens partitions
    return (balanced, stats)

end BalanceTrainer

/-- The partitions of mini-batch `i`, one for each rank. -/
def minibatchParts (workloads : List Int) (minibatchSize dpSize i : Nat) :
    List (List Nat) :=
  match getSeqlenBalancedPartitions
      (minibatchSlice workloads minibatchSize i) dpSize true with
  | .ok parts => parts
  | .error _ => []

/-- The rows rank `j` gets of the first mini-batches. -/
def rankRows (workloads : List Int) (minibatchSize dpSize minibatchNum : Nat)
    (j : Nat) : List Nat :=
  (List.range minibatchNum).flatMap fun i =>
    ((minibatchParts workloads minibatchSize dpSize i).getD j []).map
      (· + minibatchSize * i)

/-- The rank `get_seqlen_balanced_partitions` gives a row in its
mini-batch. -/
def rankOf (workloads : List Int) (minibatchSize dpSize x : Nat) : Nat :=
  (minibatchParts workloads minibatchSize dpSize
    (x / minibatchSize)).findIdx fun part =>
      decide (x % minibatchSize ∈ part)

/-- How many of `n` rows are on the rank of a row and lighter. -/
def lighterOnRank (workloads : List Int) (minibatchSize dpSize n x : Nat) :
    Nat :=
  (List.range n).countP fun y =>
    decide (rankOf workloads minibatchSize dpSize y =
      rankOf workloads minibatchSize dpSize x) && lighter workloads y x

section Minibatches

variable {workloads : List Int} {minibatchSize dpSize minibatchNum : Nat}

theorem rankRows_succ (k j : Nat) :
    rankRows workloads minibatchSize dpSize (k + 1) j =
      rankRows workloads minibatchSize dpSize k j ++
        ((minibatchParts workloads minibatchSize dpSize k).getD j []).map
          (· + minibatchSize * k) := by
  rw [rankRows, List.range_succ, List.flatMap_append, List.flatMap_singleton]
  rfl

theorem length_minibatchSlice {i : Nat}
    (hle : (i + 1) * minibatchSize ≤ workloads.length) :
    (minibatchSlice workloads minibatchSize i).length = minibatchSize := by
  rw [minibatchSlice, List.length_drop, List.length_take,
    Nat.min_eq_left hle, Nat.succ_mul]
  omega

/-- The mini-batches are whole and can be cut evenly. -/
structure Divides (workloads : List Int)
    (minibatchSize dpSize minibatchNum : Nat) : Prop where
  dp_pos : 0 < dpSize
  size_pos : 0 < minibatchSize
  dvd : dpSize ∣ minibatchSize
  le : minibatchNum * minibatchSize ≤ workloads.length

namespace Divides

variable (h : Divides workloads minibatchSize dpSize minibatchNum)
include h

theorem parts {i : Nat} (hi : i < minibatchNum) :
    getSeqlenBalancedPartitions (minibatchSlice workloads minibatchSize i)
        dpSize true = .ok (minibatchParts workloads minibatchSize dpSize i) ∧
      (minibatchParts workloads minibatchSize dpSize i).length = dpSize ∧
      (∀ p ∈ minibatchParts workloads minibatchSize dpSize i,
        p.length = minibatchSize / dpSize) ∧
      (minibatchParts workloads minibatchSize dpSize i).flatten.Perm
        (List.range minibatchSize) := by
  have hlen : (minibatchSlice workloads minibatchSize i).length =
      minibatchSize :=
    length_minibatchSlice ((Nat.mul_le_mul_right _ hi).trans h.le)
  obtain ⟨parts, hparts, hcount, hsizes, hperm⟩ := exists_equalPartitions
    h.dp_pos ((Nat.le_of_dvd h.size_pos h.dvd).trans hlen.ge)
    (h.dvd.trans hlen.symm.dvd)
  have heq : minibatchParts workloads minibatchSize dpSize i = parts := by
    rw [minibatchParts, hparts]
  rw [hlen] at hsizes hperm
  rw [heq]
  refine ⟨hparts, hcount, fun p hp => ?_, hperm⟩
  rw [← hsizes p hp, Nat.mul_div_cancel _ h.dp_pos]

theorem mono {k : Nat} (hk : k ≤ minibatchNum) :
    Divides workloads minibatchSize dpSize k :=
  { h with le := (Nat.mul_le_mul_right _ hk).trans h.le }

/-- The loop gives every rank its rows, mini-batch after mini-batch. -/
theorem keepMinibatchPartitions_eq :
    keepMinibatchPartitions workloads minibatchSize dpSize minibatchNum =
      .ok ((List.range dpSize).map
        (rankRows workloads minibatchSize dpSize minibatchNum)) := by
  unfold keepMinibatchPartitions
  induction minibatchNum with
  | zero =>
      refine congrArg Except.ok (List.ext_getElem (by simp) fun j hj hj' => ?_)
      simp [rankRows]
  | succ k ih =>
      obtain ⟨hparts, hcount, -, -⟩ := h.parts (Nat.lt_succ_self k)
      rw [List.range_succ, List.foldlM_append, ih (h.mono (Nat.le_succ k)),
        ok_bind, List.foldlM_cons, hparts, ok_bind]
      refine congrArg Except.ok (List.ext_getElem ?_ fun j hj hj' => ?_)
      · simp [hcount]
      · rw [List.length_map, List.length_range] at hj'
        have hlt : j < (minibatchParts workloads minibatchSize dpSize k).length
            := hcount.symm ▸ hj'
        simp only [List.getElem_zipWith, List.getElem_map,
          List.getElem_range, rankRows_succ]
        rw [List.getD_eq_getElem _ _ hlt]

theorem part_getD {i j : Nat} (hi : i < minibatchNum) (hj : j < dpSize) :
    (minibatchParts workloads minibatchSize dpSize i).getD j [] ∈
      minibatchParts workloads minibatchSize dpSize i := by
  have hlt : j < (minibatchParts workloads minibatchSize dpSize i).length :=
    (h.parts hi).2.1.symm ▸ hj
  rw [List.getD_eq_getElem _ _ hlt]
  exact List.getElem_mem hlt

theorem lt_of_mem_part {i j y : Nat} (hi : i < minibatchNum) (hj : j < dpSize)
    (hy : y ∈ (minibatchParts workloads minibatchSize dpSize i).getD j []) :
    y < minibatchSize := by
  rw [← List.mem_range, ← (h.parts hi).2.2.2.mem_iff]
  exact List.mem_flatten.mpr ⟨_, h.part_getD hi hj, hy⟩

theorem length_rankRows {j : Nat} (hj : j < dpSize) :
    (rankRows workloads minibatchSize dpSize minibatchNum j).length =
      minibatchNum * (minibatchSize / dpSize) := by
  induction minibatchNum with
  | zero => simp [rankRows]
  | succ k ih =>
      have hlen := (h.parts (Nat.lt_succ_self k)).2.2.1 _
        (h.part_getD (Nat.lt_succ_self k) hj)
      rw [rankRows_succ, List.length_append, ih (h.mono (Nat.le_succ k)),
        List.length_map, hlen, Nat.succ_mul]

/-- Before they are ordered, the rows of a rank are grouped by
mini-batch. -/
theorem minibatch_of_getElem? {j i x : Nat} (hj : j < dpSize)
    (hx : (rankRows workloads minibatchSize dpSize minibatchNum j)[i]? =
      some x) : x / minibatchSize = i / (minibatchSize / dpSize) := by
  induction minibatchNum with
  | zero => simp [rankRows] at hx
  | succ k ih =>
      have hk := Nat.lt_succ_self k
      have hlen := (h.mono hk.le).length_rankRows hj
      have hblock := (h.parts hk).2.2.1 _ (h.part_getD hk hj)
      rw [rankRows_succ] at hx
      by_cases hi : i < k * (minibatchSize / dpSize)
      · rw [List.getElem?_append_left (hlen.symm ▸ hi)] at hx
        exact ih (h.mono hk.le) hx
      · rw [not_lt] at hi
        rw [List.getElem?_append_right (hlen.le.trans hi), hlen,
          List.getElem?_map, Option.map_eq_some_iff] at hx
        obtain ⟨y, hy, rfl⟩ := hx
        have hlt := h.lt_of_mem_part hk hj (List.mem_of_getElem? hy)
        obtain ⟨hin, -⟩ := List.getElem?_eq_some_iff.mp hy
        rw [hblock] at hin
        rw [Nat.add_mul_div_left _ _ h.size_pos, Nat.div_eq_of_lt hlt,
          Nat.zero_add]
        refine (Nat.div_eq_of_lt_le hi ?_).symm
        rw [Nat.succ_mul]
        omega

theorem mem_rankRows {j x : Nat} (hj : j < dpSize) :
    x ∈ rankRows workloads minibatchSize dpSize minibatchNum j ↔
      x < minibatchNum * minibatchSize ∧ x % minibatchSize ∈
        (minibatchParts workloads minibatchSize dpSize
          (x / minibatchSize)).getD j [] := by
  simp only [rankRows, List.mem_flatMap, List.mem_range, List.mem_map]
  constructor
  · rintro ⟨i, hi, y, hy, rfl⟩
    have hlt := h.lt_of_mem_part hi hj hy
    rw [Nat.add_mul_div_left _ _ h.size_pos, Nat.div_eq_of_lt hlt,
      Nat.zero_add, Nat.add_mul_mod_self_left, Nat.mod_eq_of_lt hlt]
    refine ⟨?_, hy⟩
    calc y + minibatchSize * i < minibatchSize + minibatchSize * i := by omega
      _ = (i + 1) * minibatchSize := by ring
      _ ≤ minibatchNum * minibatchSize := Nat.mul_le_mul_right _ hi
  · rintro ⟨hx, hmem⟩
    exact ⟨x / minibatchSize, (Nat.div_lt_iff_lt_mul h.size_pos).mpr hx,
      x % minibatchSize, hmem, Nat.mod_add_div x minibatchSize⟩

/-- A row is on exactly one rank. -/
theorem mem_rankRows_iff {j x : Nat} (hj : j < dpSize)
    (hx : x < minibatchNum * minibatchSize) :
    x ∈ rankRows workloads minibatchSize dpSize minibatchNum j ↔
      rankOf workloads minibatchSize dpSize x = j := by
  have hi : x / minibatchSize < minibatchNum :=
    (Nat.div_lt_iff_lt_mul h.size_pos).mpr hx
  obtain ⟨-, hcount, -, hperm⟩ := h.parts hi
  rw [h.mem_rankRows hj, rankOf]
  generalize minibatchParts workloads minibatchSize dpSize
    (x / minibatchSize) = parts at hcount hperm ⊢
  have hlt : j < parts.length := hcount.symm ▸ hj
  have hdisjoint := (List.nodup_flatten.mp
    (hperm.nodup_iff.mpr List.nodup_range)).2
  rw [List.getD_eq_getElem _ _ hlt, List.findIdx_eq hlt]
  simp only [decide_eq_true_eq, decide_eq_false_iff_not]
  constructor
  · rintro ⟨-, hmem⟩
    exact ⟨hmem, fun k hk hmem' => List.pairwise_iff_getElem.mp hdisjoint k j
      (hk.trans hlt) hlt hk hmem' hmem⟩
  · rintro ⟨hmem, -⟩
    exact ⟨hx, hmem⟩

theorem rankOf_lt {x : Nat} (hx : x < minibatchNum * minibatchSize) :
    rankOf workloads minibatchSize dpSize x < dpSize := by
  have hi : x / minibatchSize < minibatchNum :=
    (Nat.div_lt_iff_lt_mul h.size_pos).mpr hx
  obtain ⟨-, hcount, -, hperm⟩ := h.parts hi
  have hmem : x % minibatchSize ∈
      (minibatchParts workloads minibatchSize dpSize
        (x / minibatchSize)).flatten :=
    hperm.mem_iff.mpr (List.mem_range.mpr (Nat.mod_lt _ h.size_pos))
  obtain ⟨part, hpart, hin⟩ := List.mem_flatten.mp hmem
  rw [rankOf]
  refine (List.findIdx_lt_length_of_exists ⟨part, hpart, ?_⟩).trans_eq hcount
  exact decide_eq_true hin

/-- The ranks have all rows of the mini-batches, each once. -/
theorem flatten_rankRows_perm :
    ((List.range dpSize).map
      (rankRows workloads minibatchSize dpSize minibatchNum)).flatten.Perm
        (List.range (minibatchNum * minibatchSize)) := by
  refine ((List.subperm_of_subset List.nodup_range fun x hx => ?_
    ).perm_of_length_le ?_).symm
  · rw [List.mem_range] at hx
    have hrank := h.rankOf_lt hx
    refine List.mem_flatten.mpr ⟨_, List.mem_map.mpr
      ⟨_, List.mem_range.mpr hrank, rfl⟩, ?_⟩
    exact (h.mem_rankRows_iff hrank hx).mpr rfl
  · have hlens : ((List.range dpSize).map
        (rankRows workloads minibatchSize dpSize minibatchNum)).map
          List.length =
        List.replicate dpSize (minibatchNum * (minibatchSize / dpSize)) := by
      rw [List.map_map, List.eq_replicate_iff]
      refine ⟨by simp, fun l hl => ?_⟩
      obtain ⟨j, hj, rfl⟩ := List.mem_map.mp hl
      exact h.length_rankRows (List.mem_range.mp hj)
    rw [List.length_flatten, hlens, List.sum_replicate, List.length_range,
      smul_eq_mul, Nat.mul_left_comm, Nat.mul_div_cancel' h.dvd]

/-- The number of lighter rows of a rank, counted over all rows. -/
theorem countP_rankRows {j x : Nat} (hj : j < dpSize)
    (hx : x ∈ rankRows workloads minibatchSize dpSize minibatchNum j) :
    (rankRows workloads minibatchSize dpSize minibatchNum j).countP
        (fun y => lighter workloads y x) =
      lighterOnRank workloads minibatchSize dpSize
        (minibatchNum * minibatchSize) x := by
  have hrank : rankOf workloads minibatchSize dpSize x = j :=
    (h.mem_rankRows_iff hj ((h.mem_rankRows hj).mp hx).1).mp hx
  have hnodup := (List.nodup_flatten.mp
    (h.flatten_rankRows_perm.nodup_iff.mpr List.nodup_range)).1 _
      (List.mem_map.mpr ⟨j, List.mem_range.mpr hj, rfl⟩)
  have hperm : (rankRows workloads minibatchSize dpSize minibatchNum j).Perm
      ((List.range (minibatchNum * minibatchSize)).filter fun y =>
        decide (rankOf workloads minibatchSize dpSize y = j)) := by
    refine (List.perm_ext_iff_of_nodup hnodup
      (List.nodup_range.filter _)).mpr fun y => ?_
    rw [List.mem_filter, List.mem_range, decide_eq_true_eq]
    constructor
    · intro hy
      have hlt := ((h.mem_rankRows hj).mp hy).1
      exact ⟨hlt, (h.mem_rankRows_iff hj hlt).mp hy⟩
    · rintro ⟨hlt, hy⟩
      exact (h.mem_rankRows_iff hj hlt).mpr hy
  rw [hperm.countP_eq, List.countP_filter, lighterOnRank, hrank]
  congr 1
  funext y
  exact Bool.and_comm _ _

end Divides

end Minibatches

section Ordered

variable {workloads : List Int}

theorem lighter_iff (x y : Nat) : lighter workloads x y = true ↔
    toLex (workloads.getD x 0, x) < toLex (workloads.getD y 0, y) := by
  rw [Prod.Lex.toLex_lt_toLex, lighter, decide_eq_true_eq]

theorem orderedPartition_perm (workloads : List Int) (partition : List Nat) :
    (orderedPartition workloads partition).Perm partition :=
  (foldToEnds_perm _).trans (sorted_perm _ _)

/-- The place of a row among the ordered rows of its rank depends on how many
of them are lighter. -/
theorem getElem?_orderedPartition (workloads : List Int)
    {partition : List Nat} (hnodup : partition.Nodup) {i x : Nat} :
    (orderedPartition workloads partition)[i]? = some x ↔
      x ∈ partition ∧ i = foldPosition partition.length
        (partition.countP fun y => lighter workloads y x) := by
  have hperm := sorted_perm (lighter workloads) partition
  have hfold := orderedPartition_perm workloads partition
  have hstrict : (sorted (lighter workloads) partition).Pairwise fun x y =>
      toLex (workloads.getD x 0, x) < toLex (workloads.getD y 0, y) := by
    refine ((sorted_pairwise lighter_iff partition).and
      (hperm.nodup_iff.mpr hnodup)).imp fun {x y} hxy => ?_
    have hle := hxy.1
    rw [← Bool.not_eq_true, lighter_iff, not_lt] at hle
    refine lt_of_le_of_ne hle fun heq => hxy.2 ?_
    exact (Prod.ext_iff.mp (toLex.injective heq)).2
  have hplace : ∀ x ∈ partition,
      (orderedPartition workloads partition)[foldPosition partition.length
        (partition.countP fun y => lighter workloads y x)]? = some x := by
    intro x hx
    have hcount : (partition.countP fun y => lighter workloads y x) =
        (sorted (lighter workloads) partition).countP fun y => decide
          (toLex (workloads.getD y 0, y) < toLex (workloads.getD x 0, x)) := by
      rw [← hperm.countP_eq]
      congr 1
      funext y
      rw [Bool.eq_iff_iff, lighter_iff, decide_eq_true_eq]
    have hat := (SortedRank.getElem?_eq_some_iff hstrict).mpr
      ⟨hperm.mem_iff.mpr hx, hcount⟩
    obtain ⟨hlt, -⟩ := List.getElem?_eq_some_iff.mp hat
    rw [orderedPartition, ← hperm.length_eq, getElem?_foldToEnds hlt, hat]
  constructor
  · intro hi
    have hx := hfold.mem_iff.mp (List.mem_of_getElem? hi)
    refine ⟨hx, ?_⟩
    obtain ⟨hlt, -⟩ := List.getElem?_eq_some_iff.mp hi
    exact (List.getElem?_inj hlt (hfold.nodup_iff.mpr hnodup)).mp
      (hi.trans (hplace x hx).symm)
  · rintro ⟨hx, rfl⟩
    exact hplace x hx

end Ordered

theorem exists_minMax (xs : List Int) (h : xs ≠ []) :
    ∃ r, minMax xs = .ok r := by
  obtain ⟨x, xs, rfl⟩ := List.exists_cons_of_ne_nil h
  exact ⟨_, rfl⟩

/-- The statistics exist when there are at least as many rows as ranks. -/
theorem exists_logSeqlenUnbalance (seqlenList : List Int)
    (partitions : List (List Nat)) (hpos : 0 < partitions.length)
    (hle : partitions.length ≤ seqlenList.length)
    (hlt : ∀ p ∈ partitions, ∀ i ∈ p, i < seqlenList.length) :
    ∃ stats, logSeqlenUnbalance seqlenList partitions = .ok stats := by
  have hdiv : floorDiv seqlenList.length partitions.length =
      .ok ((seqlenList.length / partitions.length : Nat) : Int) :=
    floorDiv_eq_ok.mpr ⟨by omega, by
      rw [Int.fdiv_eq_ediv_of_nonneg _ (by omega)]
      norm_cast⟩
  have hsize : 0 < seqlenList.length / partitions.length :=
    Nat.div_pos hle hpos
  obtain ⟨sums, hsums⟩ := exists_minMax
    ((Chunks.chunksOf (seqlenList.length / partitions.length)
      seqlenList).map List.sum) (by
      have hne : seqlenList ≠ [] := List.length_pos_iff.mp (hpos.trans_le hle)
      obtain ⟨x, xs, rfl⟩ := List.exists_cons_of_ne_nil hne
      rw [Chunks.chunksOf_eq_cons hsize (by simp)]
      simp)
  have hparts : partitions.mapM (fun partition =>
      List.sum <$> pyIndex seqlenList partition) =
        .ok (partitions.map fun partition =>
          ((gather seqlenList partition).getD []).sum) := by
    refine mapM_eq_ok_of_forall fun p hp => ?_
    obtain ⟨ys, hys⟩ := exists_gather (hlt p hp)
    rw [pyIndex_eq_ok.mpr hys, hys]
    rfl
  obtain ⟨balanced, hbalanced⟩ := exists_minMax
    (partitions.map fun partition =>
      ((gather seqlenList partition).getD []).sum)
    (by simpa using List.length_pos_iff.mp hpos)
  rw [logSeqlenUnbalance, hdiv, ok_bind, if_neg (by omega)]
  simp only [Int.toNat_natCast, hsums, hparts, hbalanced, ok_bind]
  exact ⟨_, rfl⟩

/-- What `keep_minibatch` promises: all rows in a new order, as many for each
rank, and each mini-batch slice of a rank from the mini-batch of that
number. -/
def KeepsMinibatches [DecidableEq ν] [TensorRow τ] (trainer : BalanceTrainer)
    (batch : DataProto τ ν μ) : Prop :=
  ∃ (minibatchSize : Nat) (lens : List Int) (partitions : List (List Nat))
    (balanced : DataProto τ ν μ) (stats : SeqlenStats),
    trainer.ppoMiniBatchSize = some (minibatchSize : Int) ∧
    globalSeqlenLst batch = .ok lens ∧
    trainer.globalPartitionLst batch lens true = .ok partitions ∧
    trainer.balanceBatch batch true = .ok (balanced, stats) ∧
    batch.reorder partitions.flatten = .ok balanced ∧
    partitions.flatten.Perm (List.range batch.length) ∧
    partitions.length = trainer.dpSize ∧
    (∀ p ∈ partitions, p.length * trainer.dpSize = batch.length) ∧
    ∀ p ∈ partitions, ∀ i x, p[i]? = some x →
      x / minibatchSize = i / (minibatchSize / trainer.dpSize)

/-- The batch consists of whole mini-batches that the ranks divide, and the
rows of a rank are not ordered, or each row stays in its mini-batch: with `k`
lighter rows on its rank it goes to place `k / 2` from the front for even
`k`, from the back for odd `k`. -/
structure MinibatchesAlign [TensorRow τ] (trainer : BalanceTrainer)
    (batch : DataProto τ ν μ) (minibatchSize : Nat) (lens : List Int) :
    Prop where
  setting : trainer.ppoMiniBatchSize = some (minibatchSize : Int)
  masked : globalSeqlenLst batch = .ok lens
  rows_pos : 0 < lens.length
  rows : minibatchSize ∣ lens.length
  ranks : trainer.dpSize ∣ minibatchSize
  order : trainer.usePrefixGrouper = true ∨ ∀ x < lens.length,
    foldPosition (lens.length / trainer.dpSize)
        (lighterOnRank (calculateWorkload lens) minibatchSize trainer.dpSize
          lens.length x) / (minibatchSize / trainer.dpSize) =
      x / minibatchSize

section Balance

variable [DecidableEq ν] [TensorRow τ] {trainer : BalanceTrainer}
  {batch : DataProto τ ν μ} {minibatchSize : Nat} {lens : List Int}

theorem length_calculateWorkload (lens : List Int) :
    (calculateWorkload lens).length = lens.length := by
  simp [calculateWorkload]

omit [DecidableEq ν] in
theorem batch_of_globalSeqlenLst (h : globalSeqlenLst batch = .ok lens) :
    ∃ td, batch.batch = some td ∧ td.batchSize = lens.length ∧
      batch.length = lens.length := by
  obtain ⟨mask, hmask, hlens⟩ := bind_eq_ok.mp h
  obtain rfl := Except.ok.inj hlens
  have hget := PyDict.get?_eq_some_iff.mpr (PyDict.get_eq_ok.mp hmask)
  cases htd : batch.batch with
  | none => simp [DataProto.tensors, htd, PyDict.empty, PyDict.get?] at hget
  | some td =>
      rw [DataProto.tensors_of_batch htd] at hget
      have hrows := TensorDict.get?_length hget
      exact ⟨td, rfl, by simp [hrows], by simp [DataProto.length, htd, hrows]⟩

omit [TensorRow τ] in
/-- Without prefix grouping the loop over the mini-batches decides. -/
theorem rankPartitions_eq
    (hfront : trainer.usePrefixGrouper = true →
      "uid" ∉ batch.nonTensorBatch.keys)
    (hsetting : trainer.ppoMiniBatchSize = some (minibatchSize : Int)) :
    trainer.rankPartitions batch lens true =
      if minibatchSize = 0 then .error .zeroDivisionError
      else keepMinibatchPartitions (calculateWorkload lens) minibatchSize
        trainer.dpSize (lens.length / minibatchSize) := by
  have hbranch : ¬ (trainer.usePrefixGrouper &&
      batch.nonTensorBatch.contains "uid") = true := by
    rw [Bool.and_eq_true, PyDict.contains_eq_true]
    exact fun h => hfront h.1 h.2
  rw [BalanceTrainer.rankPartitions, if_neg hbranch, if_pos rfl, hsetting]
  by_cases hzero : minibatchSize = 0
  · subst hzero
    rfl
  · have hdiv : floorDiv (calculateWorkload lens).length minibatchSize =
        .ok ((lens.length / minibatchSize : Nat) : Int) :=
      floorDiv_eq_ok.mpr ⟨by omega, by
        rw [length_calculateWorkload, Int.fdiv_eq_ediv_of_nonneg _ (by omega)]
        norm_cast⟩
    rw [if_neg hzero]
    simp only [hdiv, ok_bind, Int.toNat_natCast]

/-- The rows of a rank as the code leaves them. -/
def finalRows (trainer : BalanceTrainer) (lens : List Int)
    (minibatchSize j : Nat) : List Nat :=
  let rows := rankRows (calculateWorkload lens) minibatchSize trainer.dpSize
    (lens.length / minibatchSize) j
  if trainer.usePrefixGrouper then rows
  else orderedPartition (calculateWorkload lens) rows

theorem finalRows_perm (trainer : BalanceTrainer) (lens : List Int)
    (minibatchSize j : Nat) :
    (finalRows trainer lens minibatchSize j).Perm
      (rankRows (calculateWorkload lens) minibatchSize trainer.dpSize
        (lens.length / minibatchSize) j) := by
  rw [finalRows]
  split
  · exact .refl _
  · exact orderedPartition_perm _ _

theorem divides_workloads (hpos : 0 < minibatchSize)
    (hdvd : trainer.dpSize ∣ minibatchSize) (lens : List Int) :
    Divides (calculateWorkload lens) minibatchSize trainer.dpSize
      (lens.length / minibatchSize) where
  dp_pos := trainer.dpSize_pos
  size_pos := hpos
  dvd := hdvd
  le := (Nat.div_mul_le_self _ _).trans_eq (length_calculateWorkload lens).symm

omit [TensorRow τ] in
theorem globalPartitionLst_eq
    (hfront : trainer.usePrefixGrouper = true →
      "uid" ∉ batch.nonTensorBatch.keys)
    (hsetting : trainer.ppoMiniBatchSize = some (minibatchSize : Int))
    (hpos : 0 < minibatchSize) (hdvd : trainer.dpSize ∣ minibatchSize)
    (lens : List Int) :
    trainer.globalPartitionLst batch lens true =
      .ok ((List.range trainer.dpSize).map
        (finalRows trainer lens minibatchSize)) := by
  rw [BalanceTrainer.globalPartitionLst, rankPartitions_eq hfront hsetting,
    if_neg hpos.ne', (divides_workloads hpos hdvd
      lens).keepMinibatchPartitions_eq, ok_bind]
  have hfinal : finalRows trainer lens minibatchSize =
      if trainer.usePrefixGrouper then
        rankRows (calculateWorkload lens) minibatchSize trainer.dpSize
          (lens.length / minibatchSize)
      else orderedPartition (calculateWorkload lens) ∘
        rankRows (calculateWorkload lens) minibatchSize trainer.dpSize
          (lens.length / minibatchSize) := by
    funext j
    rw [finalRows]
    split <;> rfl
  rw [hfinal]
  split
  · rfl
  · rw [List.map_map]
    rfl

theorem flatten_finalRows_perm (hpos : 0 < minibatchSize)
    (hdvd : trainer.dpSize ∣ minibatchSize) (lens : List Int) :
    ((List.range trainer.dpSize).map
      (finalRows trainer lens minibatchSize)).flatten.Perm
        (List.range (lens.length / minibatchSize * minibatchSize)) := by
  refine List.Perm.trans ?_
    (divides_workloads hpos hdvd lens).flatten_rankRows_perm
  apply List.Perm.flatten_congr
  rw [List.forall₂_map_left_iff, List.forall₂_map_right_iff,
    List.forall₂_same]
  exact fun j _ => finalRows_perm trainer lens minibatchSize j

omit [TensorRow τ] in
/-- A loop that ends for at least one mini-batch had a size the ranks
divide. -/
theorem dvd_of_keepMinibatchPartitions {workloads : List Int} {dpSize k : Nat}
    {partitions : List (List Nat)}
    (hle : minibatchSize ≤ workloads.length)
    (h : keepMinibatchPartitions workloads minibatchSize dpSize (k + 1) =
      .ok partitions) : dpSize ∣ minibatchSize := by
  rw [keepMinibatchPartitions, List.range_succ_eq_map, List.foldlM_cons] at h
  obtain ⟨_, hfirst, -⟩ := bind_eq_ok.mp h
  obtain ⟨parts, hparts, -⟩ := bind_eq_ok.mp hfirst
  have hdvd := dvd_of_equalPartitions hparts
  rwa [length_minibatchSlice (by omega)] at hdvd

/-- The rows of a rank stay in their mini-batches exactly when each row does,
by its place. -/
theorem finalRows_slices_iff (hpos : 0 < minibatchSize)
    (hdvd : trainer.dpSize ∣ minibatchSize)
    (hrows : lens.length / minibatchSize * minibatchSize = lens.length) :
    (∀ p ∈ (List.range trainer.dpSize).map
        (finalRows trainer lens minibatchSize), ∀ i x, p[i]? = some x →
      x / minibatchSize = i / (minibatchSize / trainer.dpSize)) ↔
    (trainer.usePrefixGrouper = true ∨ ∀ x < lens.length,
      foldPosition (lens.length / trainer.dpSize)
          (lighterOnRank (calculateWorkload lens) minibatchSize trainer.dpSize
            lens.length x) / (minibatchSize / trainer.dpSize) =
        x / minibatchSize) := by
  have hdiv := divides_workloads hpos hdvd lens
  have hnodup : ∀ j < trainer.dpSize,
      (rankRows (calculateWorkload lens) minibatchSize trainer.dpSize
        (lens.length / minibatchSize) j).Nodup := fun j hj =>
    (List.nodup_flatten.mp (hdiv.flatten_rankRows_perm.nodup_iff.mpr
      List.nodup_range)).1 _ (List.mem_map.mpr ⟨j, List.mem_range.mpr hj, rfl⟩)
  have hlength : ∀ j < trainer.dpSize,
      (rankRows (calculateWorkload lens) minibatchSize trainer.dpSize
        (lens.length / minibatchSize) j).length =
          lens.length / trainer.dpSize := fun j hj => by
    rw [hdiv.length_rankRows hj, ← Nat.mul_div_assoc _ hdvd, hrows]
  simp only [List.forall_mem_map, List.mem_range]
  cases huse : trainer.usePrefixGrouper with
  | true =>
      simp only [true_or, iff_true]
      intro j hj i x hx
      rw [finalRows, huse, if_pos rfl] at hx
      exact hdiv.minibatch_of_getElem? hj hx
  | false =>
      have hfinal : ∀ j, finalRows trainer lens minibatchSize j =
          orderedPartition (calculateWorkload lens)
            (rankRows (calculateWorkload lens) minibatchSize trainer.dpSize
              (lens.length / minibatchSize) j) := fun j => by
        rw [finalRows, huse]
        rfl
      simp only [Bool.false_eq_true, false_or, hfinal]
      constructor
      · intro hslices x hx
        rw [← hrows] at hx
        have hj := hdiv.rankOf_lt hx
        have hmem := (hdiv.mem_rankRows_iff hj hx).mpr rfl
        have hplace := (getElem?_orderedPartition
          (calculateWorkload lens) (hnodup _ hj)).mpr ⟨hmem, rfl⟩
        have hcount := hdiv.countP_rankRows hj hmem
        rw [hrows] at hcount
        rw [hlength _ hj, hcount] at hplace
        exact (hslices _ hj _ _ hplace).symm
      · intro horder j hj i x hx
        obtain ⟨hmem, rfl⟩ := (getElem?_orderedPartition _ (hnodup j hj)).mp hx
        have hcount := hdiv.countP_rankRows hj hmem
        rw [hrows] at hcount
        rw [hlength j hj, hcount]
        refine (horder x ?_).symm
        rw [← hrows]
        exact ((hdiv.mem_rankRows hj).mp hmem).1

omit [DecidableEq ν] in
/-- Aligned mini-batches are reordered, and the statistics are taken. -/
theorem MinibatchesAlign.reorder
    (h : MinibatchesAlign trainer batch minibatchSize lens) :
    0 < minibatchSize ∧
      lens.length / minibatchSize * minibatchSize = lens.length ∧
      ∃ balanced stats,
        batch.reorder ((List.range trainer.dpSize).map
          (finalRows trainer lens minibatchSize)).flatten = .ok balanced ∧
        logSeqlenUnbalance lens ((List.range trainer.dpSize).map
          (finalRows trainer lens minibatchSize)) = .ok stats := by
  have hpos : 0 < minibatchSize := by
    rcases Nat.eq_zero_or_pos minibatchSize with rfl | hpos
    · exact absurd (Nat.eq_zero_of_zero_dvd h.rows) h.rows_pos.ne'
    · exact hpos
  have hrows := Nat.div_mul_cancel h.rows
  have hperm := flatten_finalRows_perm hpos h.ranks lens
  rw [hrows] at hperm
  have hlt : ∀ x ∈ ((List.range trainer.dpSize).map
      (finalRows trainer lens minibatchSize)).flatten, x < lens.length :=
    fun x hx => List.mem_range.mp (hperm.mem_iff.mp hx)
  obtain ⟨td, htd, hsize, -⟩ := batch_of_globalSeqlenLst h.masked
  obtain ⟨balanced, hbalanced⟩ := DataProto.exists_reorder htd
    fun x hx => (hlt x hx).trans_eq hsize.symm
  have hle : trainer.dpSize ≤ lens.length :=
    (Nat.le_of_dvd hpos h.ranks).trans (Nat.le_of_dvd h.rows_pos h.rows)
  obtain ⟨stats, hstats⟩ := exists_logSeqlenUnbalance lens
    ((List.range trainer.dpSize).map (finalRows trainer lens minibatchSize))
    (by simpa using trainer.dpSize_pos) (by simpa using hle)
    fun p hp x hx => hlt x (List.mem_flatten.mpr ⟨p, hp, hx⟩)
  exact ⟨hpos, hrows, balanced, stats, hbalanced, hstats⟩

end Balance

/-- Two ranks and mini-batches of two rows. -/
def twoRanks : BalanceTrainer where
  dpSize := 2
  dpSize_pos := Nat.two_pos
  usePrefixGrouper := false
  ppoMiniBatchSize := some 2

end SelfDistillation
