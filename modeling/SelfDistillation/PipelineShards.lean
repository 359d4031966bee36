/-
`get_dynamic_pipeline_shards` (verl/model_merger/megatron_model_merger.py):
how many layers each pipeline stage gets when a checkpoint is merged.
-/
import SelfDistillation.Python

namespace SelfDistillation

namespace PipelineShards

/-- A size for every stage, none of them empty, that covers the layers. -/
structure Sharding (layerNum ppSize : Int) (shards : List Int) : Prop where
  length_eq : (shards.length : Int) = ppSize
  pos : ∀ size ∈ shards, 0 < size
  sum_eq : shards.sum = layerNum

/-- The body of the loop: the strategy with `middle_layer_num` layers in every
inner stage, and how far the first stage is from it. -/
def shardsStrategy (layerNum ppSize middleLayerNum : Int) :
    Option (List Int × Int) :=
  let middleSize := ppSize - 2
  let firstLastLayerNum := layerNum - middleLayerNum * middleSize
  let firstLayerNum := firstLastLayerNum / 2
  let lastLayerNum := firstLastLayerNum - firstLastLayerNum / 2
  if (0 < firstLayerNum ∧ firstLayerNum ≤ middleLayerNum) ∧
      0 < lastLayerNum ∧ lastLayerNum ≤ middleLayerNum then
    some ([firstLayerNum] ++ List.replicate middleSize.toNat middleLayerNum ++
      [lastLayerNum], |firstLayerNum - middleLayerNum|)
  else none

/-- `shards_strategy` after the loop. -/
def shardsStrategies (layerNum ppSize : Int) : List (List Int × Int) :=
  (List.range layerNum.toNat).filterMap fun middleLayerNum : Nat =>
    shardsStrategy layerNum ppSize middleLayerNum

/-- `get_dynamic_pipeline_shards` -/
def getDynamicPipelineShards (layerNum ppSize : Int) : Py (List Int) :=
  if layerNum < ppSize then
    .error (.valueError
      s!"layer_num {layerNum} must be greater than pp_size {ppSize}.")
  else if ppSize < 1 then
    .error (.valueError s!"pp_size must be at least 1, got {ppSize}.")
  else if ppSize = 1 then .ok [layerNum]
  else if ppSize = 2 then .ok [layerNum / 2, layerNum - layerNum / 2]
  else
    match sorted (fun x y => decide (x.2 < y.2))
        (shardsStrategies layerNum ppSize) with
    -- `[0]` of an empty list
    | [] => .error .indexError
    | best :: _ => do
        pyAssert (best.1.sum == layerNum)
          s!"sum(res)={best.1.sum} != layer_num={layerNum}, pp_size={ppSize}"
        return best.1

/-- The least size of an inner stage that none of the stages exceeds. -/
def leastMiddle (layerNum ppSize : Int) : Int :=
  (layerNum + ppSize - 1) / ppSize

section Strategies

variable {layerNum ppSize middleLayerNum : Int}

/-- The first and the last stage can share what an inner size leaves them. -/
theorem isSome_shardsStrategy_iff :
    (shardsStrategy layerNum ppSize middleLayerNum).isSome ↔
      middleLayerNum * (ppSize - 2) + 2 ≤ layerNum ∧
        layerNum ≤ middleLayerNum * ppSize := by
  have hmul : middleLayerNum * ppSize =
      middleLayerNum * (ppSize - 2) + 2 * middleLayerNum := by ring
  rw [hmul, shardsStrategy]
  generalize middleLayerNum * (ppSize - 2) = middle
  split
  · simp only [Option.isSome_some, true_iff]
    omega
  · simp only [Option.isSome_none, Bool.false_eq_true, false_iff]
    omega

theorem sharding_shardsStrategy {shards : List Int} {diff : Int}
    (hpp : 2 ≤ ppSize)
    (h : shardsStrategy layerNum ppSize middleLayerNum =
      some (shards, diff)) : Sharding layerNum ppSize shards := by
  rw [shardsStrategy] at h
  split at h
  · rename_i hbounds
    cases h
    have hsize : ((ppSize - 2).toNat : Int) = ppSize - 2 :=
      Int.toNat_of_nonneg (by omega)
    constructor
    · simp only [List.length_append, List.length_replicate,
        List.length_singleton]
      omega
    · intro size hmem
      simp only [List.mem_append, List.mem_singleton, List.mem_replicate]
        at hmem
      omega
    · simp only [List.sum_append, List.sum_replicate, List.sum_singleton,
        nsmul_eq_mul, hsize]
      ring
  · cases h

theorem le_leastMiddle_mul (hpp : 1 ≤ ppSize) :
    layerNum ≤ leastMiddle layerNum ppSize * ppSize := by
  have hlt := Int.lt_ediv_add_one_mul_self (layerNum + ppSize - 1)
    (show 0 < ppSize by omega)
  rw [add_mul, one_mul] at hlt
  rw [leastMiddle]
  omega

theorem leastMiddle_le (hpp : 1 ≤ ppSize)
    (h : layerNum ≤ middleLayerNum * ppSize) :
    leastMiddle layerNum ppSize ≤ middleLayerNum := by
  apply Int.le_of_lt_add_one
  apply Int.ediv_lt_of_lt_mul (by omega)
  rw [add_mul, one_mul]
  omega

/-- The least inner size is a strategy if any is. -/
theorem shardsStrategies_ne_nil_iff (hpp : 3 ≤ ppSize) :
    shardsStrategies layerNum ppSize ≠ [] ↔
      leastMiddle layerNum ppSize * (ppSize - 2) + 2 ≤ layerNum := by
  have hfound : shardsStrategies layerNum ppSize ≠ [] ↔
      ∃ m ∈ List.range layerNum.toNat,
        (shardsStrategy layerNum ppSize m).isSome := by
    simp only [shardsStrategies, ne_eq, List.filterMap_eq_nil_iff, not_forall,
      exists_prop, Option.isSome_iff_ne_none]
  rw [hfound]
  constructor
  · rintro ⟨m, -, hm⟩
    obtain ⟨hlow, hhigh⟩ := isSome_shardsStrategy_iff.mp hm
    have hle := leastMiddle_le (by omega) hhigh
    have hmul := Int.mul_le_mul_of_nonneg_right hle
      (show 0 ≤ ppSize - 2 by omega)
    omega
  · intro hleast
    have hone : 1 ≤ ppSize := by omega
    have hcover : layerNum ≤ leastMiddle layerNum ppSize * ppSize :=
      le_leastMiddle_mul hone
    generalize leastMiddle layerNum ppSize = m at hleast hcover
    have hnonneg : 0 ≤ m := by
      by_contra hneg
      have hmul : m * ppSize = m * (ppSize - 2) + 2 * m := by ring
      omega
    have hle : m * 1 ≤ m * (ppSize - 2) :=
      Int.mul_le_mul_of_nonneg_left (by omega) hnonneg
    have hcast : (m.toNat : Int) = m := Int.toNat_of_nonneg hnonneg
    refine ⟨m.toNat, List.mem_range.mpr (by omega), ?_⟩
    rw [hcast]
    exact isSome_shardsStrategy_iff.mpr ⟨hleast, hcover⟩

end Strategies

section Shards

variable {layerNum ppSize : Int}

theorem sharding_of_mem {best : List Int × Int} (hpp : 2 ≤ ppSize)
    (hmem : best ∈ shardsStrategies layerNum ppSize) :
    Sharding layerNum ppSize best.1 := by
  obtain ⟨m, -, hm⟩ := List.mem_filterMap.mp hmem
  exact sharding_shardsStrategy hpp hm

/-- With inner stages, there is a result where there is a strategy. -/
theorem exists_sharding_iff_ne_nil (hpp : 3 ≤ ppSize)
    (hlayers : ppSize ≤ layerNum) :
    (∃ shards, getDynamicPipelineShards layerNum ppSize = .ok shards ∧
        Sharding layerNum ppSize shards) ↔
      shardsStrategies layerNum ppSize ≠ [] := by
  have hbody : ¬ layerNum < ppSize ∧ ¬ ppSize < 1 ∧ ¬ ppSize = 1 ∧
      ¬ ppSize = 2 := by omega
  obtain ⟨hle, hpos, hone, htwo⟩ := hbody
  have hperm := sorted_perm
    (fun x y : List Int × Int => decide (x.2 < y.2))
    (shardsStrategies layerNum ppSize)
  rw [getDynamicPipelineShards, if_neg hle, if_neg hpos, if_neg hone,
    if_neg htwo]
  cases hsorted : sorted (fun x y : List Int × Int => decide (x.2 < y.2))
      (shardsStrategies layerNum ppSize) with
  | nil =>
      rw [hsorted] at hperm
      simp [hperm.nil_eq.symm]
  | cons best rest =>
      rw [hsorted] at hperm
      have hmem : best ∈ shardsStrategies layerNum ppSize :=
        hperm.mem_iff.mp List.mem_cons_self
      have hsharding := sharding_of_mem (by omega) hmem
      have hsum : (best.1.sum == layerNum) = true :=
        beq_iff_eq.mpr hsharding.sum_eq
      have hne : shardsStrategies layerNum ppSize ≠ [] :=
        List.ne_nil_of_mem hmem
      refine iff_of_true ⟨best.1, ?_, hsharding⟩ hne
      change (do
        pyAssert (best.1.sum == layerNum) _
        return best.1) = Except.ok best.1
      rw [hsum, pyAssert_true]
      rfl

/-- One or two stages always get layers. -/
theorem exists_sharding_of_le_two (hpp : 1 ≤ ppSize) (htwo : ppSize ≤ 2)
    (hlayers : ppSize ≤ layerNum) :
    ∃ shards, getDynamicPipelineShards layerNum ppSize = .ok shards ∧
      Sharding layerNum ppSize shards := by
  have hle : ¬ layerNum < ppSize := by omega
  have hpos : ¬ ppSize < 1 := by omega
  rw [getDynamicPipelineShards, if_neg hle, if_neg hpos]
  by_cases hone : ppSize = 1
  · subst hone
    exact ⟨[layerNum], if_pos rfl, rfl, by simp; omega, by simp⟩
  · have heq : ppSize = 2 := by omega
    subst heq
    refine ⟨[layerNum / 2, layerNum - layerNum / 2], rfl, rfl, ?_, ?_⟩
    · simp only [List.mem_cons, List.not_mem_nil, or_false, forall_eq_or_imp,
        forall_eq]
      omega
    · simp only [List.sum_cons, List.sum_nil]
      omega

/-- There are stage sizes exactly when the least inner size leaves a layer for
each of the outer two. -/
theorem getDynamicPipelineShards_iff (hpp : 1 ≤ ppSize)
    (hlayers : ppSize ≤ layerNum) :
    (∃ shards, getDynamicPipelineShards layerNum ppSize = .ok shards ∧
        Sharding layerNum ppSize shards) ↔
      leastMiddle layerNum ppSize * (ppSize - 2) + 2 ≤ layerNum := by
  by_cases hthree : 3 ≤ ppSize
  · rw [exists_sharding_iff_ne_nil hthree hlayers,
      shardsStrategies_ne_nil_iff hthree]
  · have hleast : leastMiddle layerNum ppSize * (ppSize - 2) + 2 ≤
        layerNum := by
      by_cases hone : ppSize = 1
      · subst hone
        rw [leastMiddle]
        omega
      · have heq : ppSize = 2 := by omega
        subst heq
        omega
    exact iff_of_true
      (exists_sharding_of_le_two hpp (by omega) hlayers) hleast

/-- Ten layers over four stages. -/
theorem getDynamicPipelineShards_iff_ten :
    (∃ shards, getDynamicPipelineShards 10 4 = .ok shards ∧
      Sharding 10 4 shards) ∧ (1 : Int) ≤ 4 ∧ (4 : Int) ≤ 10 :=
  ⟨(getDynamicPipelineShards_iff (by decide) (by decide)).mpr (by decide),
    by decide, by decide⟩

/-- Five layers over four stages: inner stages of one layer leave three for
the outer two, and of two layers one. -/
theorem getDynamicPipelineShards_five :
    getDynamicPipelineShards 5 4 = .error .indexError ∧
      ¬ ∃ shards, getDynamicPipelineShards 5 4 = .ok shards ∧
        Sharding 5 4 shards := by
  have hraises : getDynamicPipelineShards 5 4 = .error .indexError := by
    decide +kernel
  refine ⟨hraises, ?_⟩
  rintro ⟨shards, hok, -⟩
  rw [hraises] at hok
  cases hok

example : getDynamicPipelineShards 10 4 = .ok [2, 3, 3, 2] := by
  decide +kernel

end Shards

end PipelineShards

end SelfDistillation
