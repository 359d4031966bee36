/-
`agg_loss` (verl/trainer/ppo/core_algos.py) and `Metric`
(verl/utils/metric/utils.py) in exact arithmetic: the aggregated loss does not
depend on how the rows are spread over ranks and micro-batches.
-/
import SelfDistillation.Library.ExactNum
import SelfDistillation.Python

namespace SelfDistillation

open ExactNum

/-- The values `loss_agg_mode` is compared with. -/
inductive LossAggMode
  | tokenMean
  | seqMeanTokenSum
  | seqMeanTokenSumNorm
  | seqMeanTokenMean
  | other (name : String)
deriving DecidableEq

namespace LossAggMode

def ofString : String → LossAggMode
  | "token-mean" => .tokenMean
  | "seq-mean-token-sum" => .seqMeanTokenSum
  | "seq-mean-token-sum-norm" => .seqMeanTokenSumNorm
  | "seq-mean-token-mean" => .seqMeanTokenMean
  | name => .other name

/-- A mode that `agg_loss` accepts. -/
def Accepted : LossAggMode → Prop
  | .other _ => False
  | _ => True

instance (mode : LossAggMode) : Decidable mode.Accepted := by
  cases mode <;> unfold Accepted <;> infer_instance

end LossAggMode

variable {F α ι : Type} {b w : Nat}

section AggLoss

variable [Field F] [LinearOrder F]

/-- A 0/1 mask entry as a number. -/
def maskVal (m : Bool) : F := if m then 1 else 0

/-- `masked_sum` over all axes -/
def maskedSum [Fintype ι] (values : ι → F) (mask : ι → Bool) : F :=
  ∑ i, (if mask i then values i else 0) * maskVal (mask i)

/-- The parameters of `agg_loss` after `loss_agg_mode`. -/
structure AggOptions (F : Type) where
  dpSize : Nat := 1
  batchNumTokens : Option F := none
  globalBatchSize : Option F := none
  lossScaleFactor : Option F := none

/-- A count of the global batch, for which the local one only stands in on a
single rank. -/
def countOr (given : Option F) (dpSize : Nat) (msg : String) (here : F) :
    Py F :=
  match given with
  | some n => .ok n
  | none => if dpSize > 1 then .error (.valueError msg) else .ok here

/-- `torch.sum(loss_mat * loss_mask, dim=-1)` -/
def seqLoss (loss : Fin w → F) (mask : Fin w → Bool) : F :=
  ∑ t, loss t * maskVal (mask t)

/-- `torch.sum(loss_mask, dim=-1)` -/
def seqTokens (F : Type) [Field F] (mask : Fin w → Bool) : F :=
  ∑ t, maskVal (mask t)

/-- `(torch.sum(loss_mask, dim=-1) > 0).float()`: not fully masked. -/
def seqMask (F : Type) [Field F] [LinearOrder F] (mask : Fin w → Bool) :
    Bool :=
  decide ((0 : F) < seqTokens F mask)

/-- The end of the `seq-mean` modes. -/
def seqMean (seqLosses : Fin b → F) (lossMask : Fin b → Fin w → Bool)
    (options : AggOptions F) : Py (Num F) := do
  let globalBatchSize ← countOr options.globalBatchSize options.dpSize
    "global_batch_size is required when dp_size > 1"
    (∑ i, maskVal (seqMask F (lossMask i)))
  return (divide (maskedSum seqLosses fun i => seqMask F (lossMask i))
    globalBatchSize).map (· * (options.dpSize : F))

/-- `1e-8` -/
def lossEps : F := 1 / 10 ^ 8

/-- `agg_loss` -/
def aggLoss (lossMat : Fin b → Fin w → F) (lossMask : Fin b → Fin w → Bool)
    (lossAggMode : LossAggMode) (options : AggOptions F) : Py (Num F) :=
  match lossAggMode with
  | .tokenMean => do
      let batchNumTokens ← countOr options.batchNumTokens options.dpSize
        "(global) batch_num_tokens is required when dp_size > 1"
        (∑ i, ∑ t, maskVal (lossMask i t))
      return (divide
        (maskedSum (fun p : Fin b × Fin w => lossMat p.1 p.2)
          fun p => lossMask p.1 p.2)
        batchNumTokens).map (· * (options.dpSize : F))
  | .seqMeanTokenSum =>
      seqMean (fun i => seqLoss (lossMat i) (lossMask i)) lossMask options
  | .seqMeanTokenSumNorm => do
      let loss ←
        seqMean (fun i => seqLoss (lossMat i) (lossMask i)) lossMask options
      return loss.bind fun x => divide x (options.lossScaleFactor.getD (w : F))
  | .seqMeanTokenMean =>
      -- the number of tokens is not negative, so this divisor is not 0
      seqMean (fun i => seqLoss (lossMat i) (lossMask i) /
        (seqTokens F (lossMask i) + lossEps)) lossMask options
  | .other name => .error (.valueError s!"Invalid loss_agg_mode: {name}")

end AggLoss

section Masks

variable [Field F]

theorem maskVal_false : (maskVal false : F) = 0 := rfl

variable [LinearOrder F] [IsStrictOrderedRing F]

theorem maskVal_nonneg (c : Bool) : (0 : F) ≤ maskVal c := by
  cases c <;> simp [maskVal]

theorem maskVal_pos_iff {c : Bool} : (0 : F) < maskVal c ↔ c = true := by
  cases c <;> simp [maskVal]

theorem seqTokens_nonneg (mask : Fin w → Bool) : 0 ≤ seqTokens F mask :=
  Finset.sum_nonneg fun _ _ => maskVal_nonneg _

theorem seqTokens_add_lossEps_pos (mask : Fin w → Bool) :
    0 < seqTokens F mask + lossEps := by
  apply add_pos_of_nonneg_of_pos (seqTokens_nonneg mask)
  rw [lossEps]
  positivity

theorem seqMask_eq_true_iff {mask : Fin w → Bool} :
    seqMask F mask = true ↔ ∃ t, mask t = true := by
  rw [seqMask, decide_eq_true_eq, seqTokens,
    Finset.sum_pos_iff_of_nonneg fun t _ => maskVal_nonneg _]
  simp [maskVal_pos_iff]

theorem sum_seqMask_pos_iff {mask : Fin b → Fin w → Bool} :
    (0 : F) < ∑ i, maskVal (seqMask F (mask i)) ↔
      ∃ i t, mask i t = true := by
  rw [Finset.sum_pos_iff_of_nonneg fun i _ => maskVal_nonneg _]
  simp [maskVal_pos_iff, seqMask_eq_true_iff]

end Masks

section Metric

/-- `AggregationType` -/
inductive AggregationType
  | mean
  | sum
  | min
  | max
deriving DecidableEq

def AggregationType.name : AggregationType → String
  | .mean => "MEAN"
  | .sum => "SUM"
  | .min => "MIN"
  | .max => "MAX"

/-- `Metric` -/
structure Metric (F : Type) where
  aggregation : AggregationType
  values : List (Num F)

namespace Metric

/-- `Metric(aggregation)` -/
def init (aggregation : AggregationType) : Metric F := ⟨aggregation, []⟩

/-- `append` of a scalar -/
def append (metric : Metric F) (value : Num F) : Metric F :=
  { metric with values := metric.values ++ [value] }

/-- `extend` with another metric, which is also `append` of one -/
def extend (metric other : Metric F) : Py (Metric F) :=
  if other.aggregation ≠ metric.aggregation then
    .error (.valueError (s!"Aggregation type mismatch: " ++
      s!"AggregationType.{metric.aggregation.name} != " ++
      s!"AggregationType.{other.aggregation.name}"))
  else .ok (other.values.foldl append metric)

/-- `np.min` and `np.max`; no values have neither. -/
def extremum (pick : F → F → F) (msg : String) :
    List (Num F) → Py (Num F)
  | [] => .error (.valueError msg)
  | x :: xs => .ok (xs.foldl (fun acc y => acc.bind fun a => y.map (pick a)) x)

section Aggregate

variable [Field F] [LinearOrder F]

/-- `_aggregate` -/
def aggregateValues (values : List (Num F)) :
    AggregationType → Py (Num F)
  | .mean => .ok (mean values)
  | .sum => .ok (total values)
  | .min => extremum Min.min
      "zero-size array to reduction operation minimum which has no identity"
      values
  | .max => extremum Max.max
      "zero-size array to reduction operation maximum which has no identity"
      values

/-- `aggregate` -/
def aggregate (metric : Metric F) : Py (Num F) :=
  aggregateValues metric.values metric.aggregation

/-- `aggregate_dp` -/
def aggregateDp (metricLists : List (Metric F)) : Py (Num F) :=
  match metricLists with
  | [] => .error (.valueError "Cannot aggregate an empty list of metrics.")
  | first :: _ =>
      let valueLists := metricLists.map Metric.values
      if valueLists.all fun ls => ls.length == first.values.length then
        match first.aggregation with
        | .sum | .mean =>
            aggregateValues (columnMeans first.values.length valueLists)
              first.aggregation
        | .min | .max => aggregateValues valueLists.flatten first.aggregation
      else
        .error (.valueError (s!"All Metric instances must have the same number of values " ++
          s!"for dp aggregation: {valueLists.map List.length}"))

/-- A metric with SUM aggregation that the values were appended to. -/
def collected (values : List (Num F)) : Metric F :=
  values.foldl append (init .sum)

omit [Field F] [LinearOrder F] in
theorem collected_eq (values : List (Num F)) :
    collected values = ⟨.sum, values⟩ := by
  have hfold : ∀ metric : Metric F, values.foldl append metric =
      { metric with values := metric.values ++ values } := by
    induction values with
    | nil => simp
    | cons value values ih =>
        intro metric
        rw [List.foldl_cons, ih]
        simp [append]
  exact hfold _

theorem aggregateDp_collected (row : List (Num F))
    (rest : List (List (Num F))) :
    aggregateDp ((row :: rest).map collected) =
      if (row :: rest).all fun ls => ls.length == row.length then
        .ok (total (columnMeans row.length (row :: rest)))
      else
        .error (.valueError (s!"All Metric instances must have the same number of values " ++
          s!"for dp aggregation: {(row :: rest).map List.length}")) := by
  have hcollected : collected = Metric.mk .sum (F := F) := funext collected_eq
  have hvalues : ∀ table : List (List (Num F)),
      (table.map (Metric.mk .sum)).map Metric.values = table := by
    simp [Function.comp_def]
  rw [hcollected, List.map_cons, aggregateDp, ← List.map_cons, hvalues]
  rfl

theorem aggregateDp_of_length_eq {table : List (List (Num F))} {n : Nat}
    (hne : table ≠ []) (hn : ∀ row ∈ table, row.length = n) :
    aggregateDp (table.map collected) =
      .ok (total (columnMeans n table)) := by
  obtain ⟨row, rest, rfl⟩ := List.exists_cons_of_ne_nil hne
  have hrow : row.length = n := hn row List.mem_cons_self
  rw [aggregateDp_collected, if_pos, hrow]
  simpa [hrow] using hn

theorem aggregateDp_of_length_ne {table : List (List (Num F))}
    {left right : List (Num F)} (hleft : left ∈ table) (hright : right ∈ table)
    (hne : left.length ≠ right.length) :
    ∃ msg, aggregateDp (table.map collected) = .error (.valueError msg) := by
  obtain ⟨row, rest, rfl⟩ :=
    List.exists_cons_of_ne_nil (List.ne_nil_of_mem hleft)
  rw [aggregateDp_collected, if_neg]
  · exact ⟨_, rfl⟩
  · simp only [List.all_eq_true, beq_iff_eq]
    exact fun hsame => hne ((hsame left hleft).trans (hsame right hright).symm)

end Aggregate

end Metric

end Metric

section Coefficient

variable [Field F] [LinearOrder F]

/-- What a row contributes to the loss before it is normalised. -/
def rowTerm (mode : LossAggMode) (loss : Fin w → F) (mask : Fin w → Bool) :
    F :=
  match mode with
  | .tokenMean => seqLoss loss mask
  | .seqMeanTokenSum | .seqMeanTokenSumNorm =>
      if seqMask F mask then seqLoss loss mask else 0
  | .seqMeanTokenMean =>
      if seqMask F mask then
        seqLoss loss mask / (seqTokens F mask + lossEps)
      else 0
  | .other _ => 0

/-- The counts of the global batch that every call is given. -/
structure GlobalCounts (F : Type) where
  batchNumTokens : F
  globalBatchSize : F
  lossScaleFactor : Option F

def GlobalCounts.options (counts : GlobalCounts F) (dpSize : Nat) :
    AggOptions F where
  dpSize := dpSize
  batchNumTokens := some counts.batchNumTokens
  globalBatchSize := some counts.globalBatchSize
  lossScaleFactor := counts.lossScaleFactor

/-- The factor every row's contribution is multiplied with on one rank. -/
def coefficient (mode : LossAggMode) (w : Nat) (counts : GlobalCounts F) :
    Num F :=
  match mode with
  | .tokenMean => divide 1 counts.batchNumTokens
  | .seqMeanTokenSum | .seqMeanTokenMean => divide 1 counts.globalBatchSize
  | .seqMeanTokenSumNorm => (divide 1 counts.globalBatchSize).bind fun k =>
      divide k (counts.lossScaleFactor.getD (w : F))
  | .other _ => none

theorem divide_map_mul (x y d : F) :
    (divide x y).map (· * d) = (divide 1 y).map fun k => x * k * d := by
  by_cases hy : y = 0
  · simp [hy]
  · rw [divide_of_ne_zero x hy, divide_of_ne_zero 1 hy, Option.map_some,
      Option.map_some, mul_one_div]

omit [LinearOrder F] in
theorem where_mul_maskVal (m : Bool) (x : F) :
    (if m then x else 0) * maskVal m = if m then x else 0 := by
  cases m <;> simp [maskVal]

omit [LinearOrder F] in
theorem seqLoss_eq (loss : Fin w → F) (mask : Fin w → Bool) :
    seqLoss loss mask = ∑ t, if mask t then loss t else 0 := by
  apply Finset.sum_congr rfl
  intro t _
  cases mask t <;> simp [maskVal]

theorem seqMean_eq (seqLosses : Fin b → F) (lossMask : Fin b → Fin w → Bool)
    (counts : GlobalCounts F) (dpSize : Nat) :
    seqMean seqLosses lossMask (counts.options dpSize) =
      .ok ((divide 1 counts.globalBatchSize).map fun k =>
        (∑ i, if seqMask F (lossMask i) then seqLosses i else 0) * k *
          (dpSize : F)) := by
  simp only [seqMean, GlobalCounts.options, countOr, maskedSum,
    where_mul_maskVal]
  exact congrArg Except.ok (divide_map_mul _ _ _)

/-- With the global counts given, a call is a sum over its rows times a factor
that the rows have no part in. -/
theorem aggLoss_eq {mode : LossAggMode} (hmode : mode.Accepted)
    (lossMat : Fin b → Fin w → F) (lossMask : Fin b → Fin w → Bool)
    (counts : GlobalCounts F) (dpSize : Nat) :
    aggLoss lossMat lossMask mode (counts.options dpSize) =
      .ok ((coefficient mode w counts).map fun k =>
        (∑ i, rowTerm mode (lossMat i) (lossMask i)) * k * (dpSize : F)) := by
  cases mode with
  | other name => exact hmode.elim
  | tokenMean =>
      simp only [aggLoss, GlobalCounts.options, countOr, maskedSum,
        where_mul_maskVal, rowTerm, coefficient, seqLoss_eq,
        Fintype.sum_prod_type]
      exact congrArg Except.ok (divide_map_mul _ _ _)
  | seqMeanTokenSum => exact seqMean_eq _ lossMask counts dpSize
  | seqMeanTokenMean => exact seqMean_eq _ lossMask counts dpSize
  | seqMeanTokenSumNorm =>
      simp only [aggLoss, seqMean_eq, coefficient, rowTerm]
      cases divide (1 : F) counts.globalBatchSize with
      | none => rfl
      | some k =>
          set scale := counts.lossScaleFactor.getD (w : F) with hscale
          change Except.ok (divide _ scale) = Except.ok ((divide k scale).map _)
          by_cases hzero : scale = 0
          · rw [hzero, divide_zero, divide_zero]
            rfl
          · rw [divide_of_ne_zero _ hzero, divide_of_ne_zero k hzero,
              Option.map_some, mul_div_assoc', mul_div_right_comm]

end Coefficient

section Split

variable [Field F] [LinearOrder F] {B : Nat}

/-- The rows of every micro-batch of every rank. -/
abbrev RowSplit (B : Nat) := List (List (List (Fin B)))

/-- The rows of a micro-batch. -/
def pickRows (x : Fin B → α) (rows : List (Fin B)) : Fin rows.length → α :=
  fun i => x (rows.get i)

variable (lossMat : Fin B → Fin w → F) (lossMask : Fin B → Fin w → Bool)
variable (mode : LossAggMode) (counts : GlobalCounts F)

/-- The losses of the micro-batches of one rank. -/
def rankLosses (dpSize : Nat) (rank : List (List (Fin B))) :
    Py (List (Num F)) :=
  rank.mapM fun rows => aggLoss (pickRows lossMat rows)
    (pickRows lossMask rows) mode (counts.options dpSize)

/-- The mean over the ranks of the sum of the losses of each. -/
def meanOverRanks (split : RowSplit B) : Py (Num F) := do
  let losses ← split.mapM (rankLosses lossMat lossMask mode counts split.length)
  return mean (losses.map total)

/-- Each rank appends its losses to a `Metric` with SUM aggregation, and the
metrics are aggregated over the ranks. -/
def metricOverRanks (split : RowSplit B) : Py (Num F) := do
  let losses ← split.mapM (rankLosses lossMat lossMask mode counts split.length)
  Metric.aggregateDp (losses.map Metric.collected)

variable {mode} {lossMat} {lossMask} {counts}

/-- The loss of a micro-batch, as a sum over its rows. -/
def microLoss (term : Fin B → F) (factor : Num F) (dpSize : Nat)
    (rows : List (Fin B)) : Num F :=
  factor.map fun k => (rows.map term).sum * k * (dpSize : F)

theorem rankLosses_eq (hmode : mode.Accepted) (dpSize : Nat)
    (rank : List (List (Fin B))) :
    rankLosses lossMat lossMask mode counts dpSize rank =
      .ok (rank.map (microLoss
        (fun i => rowTerm mode (lossMat i) (lossMask i))
        (coefficient mode w counts) dpSize)) := by
  apply mapM_eq_ok_of_forall
  intro rows _
  rw [aggLoss_eq hmode, microLoss, ← Fin.sum_univ_fun_getElem]
  rfl

theorem mapM_rankLosses_eq (hmode : mode.Accepted) (split : RowSplit B) :
    split.mapM (rankLosses lossMat lossMask mode counts split.length) =
      .ok (split.map fun rank => rank.map (microLoss
        (fun i => rowTerm mode (lossMat i) (lossMask i))
        (coefficient mode w counts) split.length)) :=
  mapM_eq_ok_of_forall fun rank _ => rankLosses_eq hmode split.length rank

/-- A mode `agg_loss` does not know is an error at the first micro-batch. -/
theorem mapM_rankLosses_other (name : String) (dpSize : Nat)
    {split : RowSplit B} (hne : split.flatten ≠ []) :
    split.mapM (rankLosses lossMat lossMask (.other name) counts dpSize) =
      .error (.valueError s!"Invalid loss_agg_mode: {name}") := by
  induction split with
  | nil => exact absurd rfl hne
  | cons rank split ih =>
      rw [List.mapM_cons]
      cases rank with
      | nil =>
          rw [ih (by simpa using hne)]
          rfl
      | cons rows rank =>
          rw [rankLosses, List.mapM_cons]
          rfl

omit [LinearOrder F] in
/-- Summed over micro-batches and ranks, every row is counted once. -/
theorem sum_microLosses {split : RowSplit B} (term : Fin B → F) (k r : F)
    (hsplit : split.flatten.flatten.Perm (List.finRange B)) :
    (split.map fun rank =>
      (rank.map fun rows => (rows.map term).sum * k * r).sum).sum =
        (∑ i, term i) * k * r := by
  simp only [List.sum_map_mul_right]
  congr 2
  calc (split.map fun rank => (rank.map fun rows => (rows.map term).sum).sum).sum
      = (split.flatten.flatten.map term).sum := by
        rw [sum_map_flatten, sum_map_flatten]
    _ = ((List.finRange B).map term).sum := (hsplit.map term).sum_eq
    _ = ∑ i, term i := (Fin.sum_univ_def _).symm

omit [LinearOrder F] in
/-- Without a factor no micro-batch has a loss. -/
theorem microLoss_none (term : Fin B → F) (dpSize : Nat) :
    microLoss term none dpSize = fun _ => none := rfl

omit [LinearOrder F] in
theorem microLoss_some (term : Fin B → F) (k : F) (dpSize : Nat) :
    microLoss term (some k) dpSize =
      fun rows => some ((rows.map term).sum * k * (dpSize : F)) := rfl

theorem exists_rank_of_flatten_ne_nil {split : RowSplit B}
    (hne : split.flatten ≠ []) :
    ∃ rank ∈ split, ∃ rows, rows ∈ rank := by
  obtain ⟨rows, hrows⟩ := List.exists_mem_of_ne_nil _ hne
  obtain ⟨rank, hrank, hmem⟩ := List.mem_flatten.mp hrows
  exact ⟨rank, hrank, rows, hmem⟩

variable [IsStrictOrderedRing F]

/-- The mean over the ranks of losses that are sums over rows is the loss of
all rows. -/
theorem mean_microLosses {split : RowSplit B} (term : Fin B → F)
    (factor : Num F)
    (hsplit : split.flatten.flatten.Perm (List.finRange B))
    (hne : split.flatten ≠ []) :
    mean (split.map fun rank =>
      total (rank.map (microLoss term factor split.length))) =
        factor.map fun k => (∑ i, term i) * k * ((1 : Nat) : F) := by
  obtain ⟨rank, hrank, rows, hrows⟩ := exists_rank_of_flatten_ne_nil hne
  have hranks : split ≠ [] := List.ne_nil_of_mem hrank
  cases factor with
  | none =>
      have hnone : total (rank.map (microLoss term none split.length)) =
          none :=
        total_eq_none_of_mem (List.mem_map.mpr ⟨rows, hrows, rfl⟩)
      exact mean_eq_none_of_mem (List.mem_map.mpr ⟨rank, hrank, hnone⟩)
  | some k =>
      have hlen : (split.length : F) ≠ 0 := length_ne_zero hranks
      simp only [microLoss_some, Option.map_some, total_map_some]
      rw [mean_map_some _ hranks, sum_microLosses term k _ hsplit,
        mul_div_cancel_right₀ _ hlen, Nat.cast_one, mul_one]

/-- The same number through the columns of a table of losses, as
`aggregate_dp` takes it. -/
theorem total_columnMeans_microLosses {split : RowSplit B}
    (term : Fin B → F) (factor : Num F) {n : Nat}
    (hsplit : split.flatten.flatten.Perm (List.finRange B))
    (hne : split.flatten ≠ []) (hn : ∀ rank ∈ split, rank.length = n) :
    total (columnMeans n (split.map fun rank =>
      rank.map (microLoss term factor split.length))) =
        factor.map fun k => (∑ i, term i) * k * ((1 : Nat) : F) := by
  obtain ⟨rank, hrank, rows, hrows⟩ := exists_rank_of_flatten_ne_nil hne
  have hranks : split ≠ [] := List.ne_nil_of_mem hrank
  cases factor with
  | none =>
      have hpos : 0 < n := hn rank hrank ▸ List.length_pos_of_mem hrows
      apply total_eq_none_of_mem
      refine List.mem_map.mpr ⟨0, List.mem_range.mpr hpos, ?_⟩
      apply mean_eq_none_of_mem
      refine List.mem_map.mpr ⟨_, List.mem_map.mpr ⟨rank, hrank, rfl⟩, ?_⟩
      simp [microLoss_none, hn rank hrank, hpos]
  | some k =>
      have hlen : (split.length : F) ≠ 0 := length_ne_zero hranks
      set table := split.map fun rank =>
        rank.map fun rows => (rows.map term).sum * k * (split.length : F)
        with htable
      have hmap : (split.map fun rank =>
          rank.map (microLoss term (some k) split.length)) =
          table.map (List.map some) := by
        rw [htable, List.map_map]
        apply List.map_congr_left
        intro r _
        simp [microLoss_some]
      have htablene : table ≠ [] := by simpa [htable] using hranks
      have hwidth : ∀ row ∈ table, row.length = n := by
        intro row hrow
        obtain ⟨r, hr, rfl⟩ := List.mem_map.mp hrow
        rw [List.length_map, hn r hr]
      have hsum : (table.map List.sum).sum =
          (∑ i, term i) * k * (split.length : F) := by
        rw [htable, List.map_map]
        exact sum_microLosses term k _ hsplit
      rw [hmap, total_columnMeans htablene hwidth, hsum, htable,
        List.length_map, mul_div_cancel_right₀ _ hlen, Option.map_some,
        Nat.cast_one, mul_one]

/-- Parallelism-invariant loss aggregation. -/
theorem aggLoss_parallelism_invariant (lossMat : Fin B → Fin w → F)
    (lossMask : Fin B → Fin w → Bool) (mode : LossAggMode)
    (counts : GlobalCounts F) (split : RowSplit B)
    (hsplit : split.flatten.flatten.Perm (List.finRange B))
    (hne : split.flatten ≠ []) :
    meanOverRanks lossMat lossMask mode counts split =
      aggLoss lossMat lossMask mode (counts.options 1) ∧
    ((∀ left ∈ split, ∀ right ∈ split, left.length = right.length) →
      metricOverRanks lossMat lossMask mode counts split =
        aggLoss lossMat lossMask mode (counts.options 1)) ∧
    ((∃ left ∈ split, ∃ right ∈ split, left.length ≠ right.length) →
      ∃ msg, metricOverRanks lossMat lossMask mode counts split =
        .error (.valueError msg)) := by
  by_cases hmode : mode.Accepted
  · rw [meanOverRanks, metricOverRanks, mapM_rankLosses_eq hmode,
      aggLoss_eq hmode]
    refine ⟨?_, ?_, ?_⟩
    · change Except.ok (mean (List.map total (split.map _))) = _
      rw [List.map_map]
      exact congrArg Except.ok (mean_microLosses _ _ hsplit hne)
    · intro hsame
      obtain ⟨rank, hrank, _⟩ := exists_rank_of_flatten_ne_nil hne
      have hn : ∀ r ∈ split, r.length = rank.length :=
        fun r hr => hsame r hr rank hrank
      refine (Metric.aggregateDp_of_length_eq (n := rank.length) ?_ ?_).trans ?_
      · simpa using List.ne_nil_of_mem hrank
      · intro row hrow
        obtain ⟨r, hr, rfl⟩ := List.mem_map.mp hrow
        rw [List.length_map, hn r hr]
      · exact congrArg Except.ok
          (total_columnMeans_microLosses _ _ hsplit hne hn)
    · rintro ⟨left, hleft, right, hright, hlen⟩
      exact Metric.aggregateDp_of_length_ne (List.mem_map.mpr ⟨left, hleft, rfl⟩)
        (List.mem_map.mpr ⟨right, hright, rfl⟩) (by simpa using hlen)
  · cases mode with
    | other name =>
        rw [meanOverRanks, metricOverRanks, mapM_rankLosses_other name _ hne]
        exact ⟨rfl, fun _ => rfl, fun _ => ⟨_, rfl⟩⟩
    | tokenMean => exact absurd trivial hmode
    | seqMeanTokenSum => exact absurd trivial hmode
    | seqMeanTokenSumNorm => exact absurd trivial hmode
    | seqMeanTokenMean => exact absurd trivial hmode

theorem aggLoss_parallelism_invariant_two_ranks :
    meanOverRanks (fun (i : Fin 4) (_ : Fin 3) => (i : ℚ)) (fun _ _ => true)
        .seqMeanTokenMean ⟨12, 4, none⟩ [[[3], [0]], [[1], [2]]] =
      aggLoss (fun (i : Fin 4) (_ : Fin 3) => (i : ℚ)) (fun _ _ => true)
        .seqMeanTokenMean (GlobalCounts.options ⟨12, 4, none⟩ 1) ∧
    metricOverRanks (fun (i : Fin 4) (_ : Fin 3) => (i : ℚ)) (fun _ _ => true)
        .seqMeanTokenMean ⟨12, 4, none⟩ [[[3], [0]], [[1], [2]]] =
      aggLoss (fun (i : Fin 4) (_ : Fin 3) => (i : ℚ)) (fun _ _ => true)
        .seqMeanTokenMean (GlobalCounts.options ⟨12, 4, none⟩ 1) := by
  have h := aggLoss_parallelism_invariant
    (fun (i : Fin 4) (_ : Fin 3) => (i : ℚ)) (fun _ _ => true)
    .seqMeanTokenMean ⟨12, 4, none⟩ [[[3], [0]], [[1], [2]]] (by decide)
    (by decide)
  exact ⟨h.1, h.2.1 (by decide)⟩

/-- Two micro-batches on one rank and one on the other leave `aggregate_dp`
without a value. -/
theorem metricOverRanks_ranks_differ :
    ¬ ∀ (B w : Nat) (lossMat : Fin B → Fin w → ℚ)
        (lossMask : Fin B → Fin w → Bool) (mode : LossAggMode)
        (lossScaleFactor : ℚ) (split : RowSplit B),
      split.flatten.flatten.Perm (List.finRange B) → split.flatten ≠ [] →
      metricOverRanks lossMat lossMask mode
          ⟨∑ i, seqTokens ℚ (lossMask i), B, some lossScaleFactor⟩ split =
        aggLoss lossMat lossMask mode (GlobalCounts.options
          ⟨∑ i, seqTokens ℚ (lossMask i), B, some lossScaleFactor⟩ 1) := by
  intro hclaim
  have h := hclaim 3 1 (fun _ _ => 1) (fun _ _ => true) .tokenMean 1
    [[[0], [1]], [[2]]] (by decide) (by decide)
  cases h

end Split

end SelfDistillation
