/-
How far apart the sums of the partitions of `get_seqlen_balanced_partitions`
(verl/utils/seqlen_balancing.py) can be: the differencing of `karmarkar_karp`
never widens the spread its initial states have.
-/
import SelfDistillation.SeqlenBalancing

namespace SelfDistillation

open Chunks Differencing

/-- The largest of a list of lengths, which are not negative. -/
def largestValue (seqlenList : List Int) : Int := seqlenList.foldl max 0

/-- The largest value of a list less the smallest one. -/
def valueRange : List Int → Int
  | [] => 0
  | x :: xs => xs.foldl max x - xs.foldl min x

/-- The blocks of `k` consecutive values of the sorted list. -/
def sortedBlocks (seqlenList : List Int) (k : Nat) : List (List Int) :=
  chunksOf k (sorted (fun a b => decide (a < b)) seqlenList)

/-- The largest range of a block of `k` consecutive values of the sorted
list. -/
def largestBlockRange (seqlenList : List Int) (k : Nat) : Int :=
  largestValue ((sortedBlocks seqlenList k).map valueRange)

/-- The sum of the values a partition holds. -/
def partitionSum (seqlenList : List Int) (partition : List Nat) : Int :=
  (partition.map fun i => seqlenList.getD i 0).sum

section Extremes

theorem le_foldl_max_of_mem {a x : Int} {xs : List Int} (hx : x ∈ xs) :
    x ≤ xs.foldl max a := by
  induction xs generalizing a with
  | nil => cases hx
  | cons y xs ih =>
      rcases List.mem_cons.mp hx with rfl | hx
      · exact (le_max_right a x).trans (le_foldl_max _ xs)
      · exact ih hx

theorem foldl_min_le_init (a : Int) (xs : List Int) : xs.foldl min a ≤ a := by
  induction xs generalizing a with
  | nil => exact le_rfl
  | cons x xs ih => exact (ih (min a x)).trans (min_le_left a x)

theorem foldl_min_le_of_mem {a x : Int} {xs : List Int} (hx : x ∈ xs) :
    xs.foldl min a ≤ x := by
  induction xs generalizing a with
  | nil => cases hx
  | cons y xs ih =>
      rcases List.mem_cons.mp hx with rfl | hx
      · exact (foldl_min_le_init _ xs).trans (min_le_right a x)
      · exact ih hx

theorem le_largestValue {x : Int} {seqlenList : List Int}
    (hx : x ∈ seqlenList) : x ≤ largestValue seqlenList :=
  le_foldl_max_of_mem hx

theorem largestValue_nonneg (seqlenList : List Int) :
    0 ≤ largestValue seqlenList := le_foldl_max 0 seqlenList

theorem sub_le_valueRange {x y : Int} {xs : List Int} (hx : x ∈ xs)
    (hy : y ∈ xs) : x - y ≤ valueRange xs := by
  cases xs with
  | nil => cases hx
  | cons head tail =>
      have hmax : x ≤ tail.foldl max head := by
        rcases List.mem_cons.mp hx with rfl | hx
        · exact le_foldl_max x tail
        · exact le_foldl_max_of_mem hx
      have hmin : tail.foldl min head ≤ y := by
        rcases List.mem_cons.mp hy with rfl | hy
        · exact foldl_min_le_init y tail
        · exact foldl_min_le_of_mem hy
      exact Int.sub_le_sub hmax hmin

end Extremes

/-- An initial state without empty sets is as wide as its items. -/
theorem KKState.balanced_of_full {k : Nat} {bound : Int}
    {items : List (Nat × Int)} {state : KKState k}
    (h : KKState.init k items = .ok state) (hlen : items.length = k)
    (hitems : ∀ x ∈ items, ∀ y ∈ items, x.2 - y.2 ≤ bound) :
    state.Balanced bound := by
  obtain ⟨_, _, hperm⟩ := KKState.init_eq_ok h
  rw [hlen, Nat.sub_self, List.replicate_zero, List.append_nil] at hperm
  have hitem : ∀ set ∈ state.sets, ∃ item ∈ items, set.sum = item.2 := by
    intro set hset
    obtain ⟨item, hmem, rfl⟩ := List.mem_map.mp (hperm.mem_iff.mp hset)
    exact ⟨item, hmem, by simp [KKState.single, KKSet.add, KKSet.init]⟩
  intro x hx y hy
  obtain ⟨i, hi, hxi⟩ := hitem x hx
  obtain ⟨j, hj, hyj⟩ := hitem y hy
  rw [hxi, hyj]
  exact hitems i hi j hj

section Run

variable {seqlenList : List Int} {k : Nat} {equalSize : Bool}

theorem seqlenLt_iff (a b : Int × Nat) :
    seqlenLt a b = true ↔ toLex a < toLex b := by
  rw [seqlenLt, Prod.Lex.toLex_lt_toLex]
  by_cases h : a.1 = b.1
  · simp [h]
  · simp [h]

/-- The values of the sorted pairs are the sorted values. -/
theorem map_fst_sorted (seqlenList : List Int) :
    (sorted seqlenLt seqlenList.zipIdx).map Prod.fst =
      sorted (fun a b => decide (a < b)) seqlenList := by
  have hpairs := sorted_pairwise seqlenLt_iff seqlenList.zipIdx
  have hvalues : (sorted (fun a b => decide (a < b)) seqlenList).Pairwise
      (· ≤ ·) := by
    have hlt : ∀ a b : Int, decide (a < b) = true ↔ id a < id b := by simp
    exact (sorted_pairwise hlt seqlenList).imp (by simp)
  have hfirst : ((sorted seqlenLt seqlenList.zipIdx).map Prod.fst).Pairwise
      (· ≤ ·) := by
    apply List.pairwise_map.mpr
    apply hpairs.imp
    intro a b hab
    have hle : toLex a ≤ toLex b := by
      rw [← not_lt, ← seqlenLt_iff, hab]
      simp
    rcases Prod.Lex.toLex_le_toLex.mp hle with hlt | ⟨heq, _⟩
    · exact hlt.le
    · exact heq.le
  have hperm : ((sorted seqlenLt seqlenList.zipIdx).map Prod.fst).Perm
      (sorted (fun a b => decide (a < b)) seqlenList) := by
    apply ((sorted_perm seqlenLt _).map Prod.fst).trans
    rw [List.zipIdx_map_fst]
    exact (sorted_perm _ seqlenList).symm
  exact hperm.eq_of_pairwise' hfirst hvalues

theorem KKRun.blockBalanced_final (run : KKRun seqlenList k true)
    (hdvd : k ∣ seqlenList.length) :
    run.finalState.Balanced (largestBlockRange seqlenList k) := by
  apply run.final_of_init
  · exact fun a b => KKState.Balanced.merge
  · intro items hitems state hinit
    have hlen : items.length = k := by
      apply length_of_mem_chunksOf run.k_pos _ hitems
      rw [List.length_map, (sorted_perm seqlenLt _).length_eq,
        List.length_zipIdx]
      exact hdvd
    have hblock : items.map Prod.snd ∈ sortedBlocks seqlenList k := by
      rw [sortedBlocks, ← map_fst_sorted]
      have hmem := List.mem_map_of_mem (f := List.map Prod.snd) hitems
      rw [initialItems, if_pos rfl, ← map_chunksOf, List.map_map] at hmem
      exact hmem
    apply KKState.balanced_of_full hinit hlen
    intro x hx y hy
    calc x.2 - y.2 ≤ valueRange (items.map Prod.snd) :=
          sub_le_valueRange (List.mem_map_of_mem hx) (List.mem_map_of_mem hy)
      _ ≤ largestBlockRange seqlenList k :=
          le_largestValue (List.mem_map_of_mem hblock)

/-- The sum of a set is the sum of its partition. -/
theorem KKRun.partitionSum_eq (run : KKRun seqlenList k equalSize)
    {set : KKSet} (hset : set ∈ run.finalState.sets) :
    partitionSum seqlenList (sortedPartition (set.items.map Prod.fst)) =
      set.sum := by
  have hitem : ∀ item ∈ set.items, seqlenList.getD item.1 0 = item.2 := by
    intro item hitem
    have hmem : item ∈ run.finalState.contents :=
      KKState.mem_contents.mpr ⟨set, hset, hitem⟩
    rw [run.contents_final, Multiset.mem_coe, mem_indexedItems] at hmem
    rw [List.getD_eq_getElem?_getD, hmem]
    rfl
  rw [partitionSum, ((sortedPartition_perm _).map _).sum_eq, List.map_map,
    set.sum_eq]
  exact congrArg List.sum (List.map_congr_left hitem)

/-- The sums of the returned partitions are as close as the final sets. -/
theorem KKRun.partitionSum_sub_le (run : KKRun seqlenList k equalSize)
    {bound : Int} (h : run.finalState.Balanced bound) {p q : List Nat}
    (hp : p ∈ run.finalState.getPartitions.map sortedPartition)
    (hq : q ∈ run.finalState.getPartitions.map sortedPartition) :
    partitionSum seqlenList p - partitionSum seqlenList q ≤ bound := by
  obtain ⟨p', hp', rfl⟩ := List.mem_map.mp hp
  obtain ⟨q', hq', rfl⟩ := List.mem_map.mp hq
  obtain ⟨left, hleft, rfl⟩ := List.mem_map.mp hp'
  obtain ⟨right, hright, rfl⟩ := List.mem_map.mp hq'
  rw [run.partitionSum_eq hleft, run.partitionSum_eq hright]
  exact h left hleft right hright

/-- The sums of the partitions of `get_seqlen_balanced_partitions` differ by no
more than the largest value, and with equal sizes by no more than the largest
range of a block of `k` consecutive sorted values. -/
theorem getSeqlenBalancedPartitions_balanced (seqlenList : List Int) (k : Nat)
    (equalSize : Bool) (hnonneg : ∀ l ∈ seqlenList, 0 ≤ l) (hk : 1 ≤ k)
    (hkn : k ≤ seqlenList.length)
    (hdvd : equalSize = true → k ∣ seqlenList.length) :
    ∃ partitions,
      getSeqlenBalancedPartitions seqlenList k equalSize = .ok partitions ∧
      (∀ p ∈ partitions, ∀ q ∈ partitions,
        partitionSum seqlenList p - partitionSum seqlenList q ≤
          largestValue seqlenList) ∧
      (equalSize = true → ∀ p ∈ partitions, ∀ q ∈ partitions,
        partitionSum seqlenList p - partitionSum seqlenList q ≤
          largestBlockRange seqlenList k) := by
  obtain ⟨run, hcall⟩ := exists_balancedRun hnonneg hk hkn hdvd
  refine ⟨_, hcall, ?_, ?_⟩
  · intro p hp q hq
    apply run.partitionSum_sub_le _ hp hq
    exact run.balanced_final
      (fun l hl => ⟨hnonneg l hl, le_largestValue hl⟩)
      (largestValue_nonneg seqlenList)
  · rintro rfl p hp q hq
    exact run.partitionSum_sub_le (run.blockBalanced_final (hdvd rfl)) hp hq

theorem getSeqlenBalancedPartitions_balanced_four :
    ∃ partitions,
      getSeqlenBalancedPartitions [7, 3, 9, 2] 2 true = .ok partitions ∧
      (∀ p ∈ partitions, ∀ q ∈ partitions,
        partitionSum [7, 3, 9, 2] p - partitionSum [7, 3, 9, 2] q ≤
          largestValue [7, 3, 9, 2]) ∧
      (true = true → ∀ p ∈ partitions, ∀ q ∈ partitions,
        partitionSum [7, 3, 9, 2] p - partitionSum [7, 3, 9, 2] q ≤
          largestBlockRange [7, 3, 9, 2] 2) :=
  getSeqlenBalancedPartitions_balanced [7, 3, 9, 2] 2 true (by decide)
    (by decide) (by decide) (by decide)

end Run

end SelfDistillation
