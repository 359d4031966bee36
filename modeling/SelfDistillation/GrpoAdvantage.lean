/-
GRPO (verl/trainer/ppo/core_algos.py): the estimator that loops over the batch,
and the one written with `as_torch_index` and `group_mean_std`
(verl/utils/groupwise.py).
-/
import SelfDistillation.GroupIndex
import SelfDistillation.OutcomeAdvantage

namespace SelfDistillation

namespace GrpoAdvantage

open Grouping GroupIndex OutcomeAdvantage

variable {F κ Obj : Type} [Field F] [LinearOrder F]

/-- The exact square root. -/
structure SquareRoot (F : Type) [Field F] [LinearOrder F] where
  sqrt : F → F
  nonneg : ∀ x, 0 ≤ sqrt x
  mul_self : ∀ x, 0 ≤ x → sqrt x * sqrt x = x

section Source

variable (root : SquareRoot F) {bs len : Nat}

/-- `torch.std(scores)`, with Bessel's correction. -/
def torchStd (scores : List F) : F :=
  root.sqrt ((scores.map fun x => (x - torchMean scores) ^ 2).sum /
    ((scores.length : F) - 1))

/-- `scores[i] - mean`, divided by `std + epsilon` if asked for. -/
def normalized (epsilon : F) (normAdvByStd : Bool) (score mean std : F) : F :=
  if normAdvByStd then (score - mean) / (std + epsilon) else score - mean

/-- `compute_grpo_outcome_advantage` -/
def computeGrpoOutcomeAdvantage [DecidableEq κ] [ToString κ]
    (tokenLevelRewards responseMask : Fin bs → Fin len → F)
    (index : Fin bs → κ) (epsilon : F) (normAdvByStdInGrpo : Bool) :
    Py ((Fin bs → Fin len → F) × (Fin bs → Fin len → F)) := do
  let scores := scores tokenLevelRewards
  let id2mean ← id2mean (id2score index scores)
  let id2std ← groupStatistic 1 (torchStd root) (id2score index scores)
  let scores ← tabulateM fun i => do
    let mean ← dictGet id2mean (index i)
    let std ← dictGet id2std (index i)
    return normalized epsilon normAdvByStdInGrpo (scores i) mean std
  let scores := onTokens scores responseMask
  return (scores, scores)

/-- `torch.zeros(G).index_add_(0, gidx, values)` -/
def indexAdd (G : Nat) (gidx : Fin bs → Int) (values : Fin bs → F) : List F :=
  (List.range G).map fun k : Nat => ∑ j with gidx j = k, values j

/-- `G` -/
def numGroups (gidx : Fin bs → Int) : Int :=
  match (List.ofFn gidx).max? with
  | none => 0
  | some top => top + 1

/-- The mean and the standard deviation of a group by its count and sums. -/
def groupStats (eps count s1 s2 : F) : F × F :=
  if count ≤ 1 then (0, 1)
  else
    let mean := s1 / max count 1
    let varNum := s2 - s1 * s1 / max count 1
    let denom := max (count - 1) 1
    (mean, root.sqrt (max (varNum / denom) eps))

/-- `group_mean_std`, without the counts. -/
def groupMeanStd (scores : Fin bs → F) (gidx : Fin bs → Int) (eps : F) :
    Py (List F × List F) :=
  if numGroups gidx = 0 then .ok ([], [])
  else if numGroups gidx < 0 then
    .error (.runtimeError "Trying to create tensor with negative dimension")
  else if ∃ i, gidx i < 0 then .error .indexError
  else
    let G := (numGroups gidx).toNat
    let count := indexAdd G gidx fun _ => (1 : F)
    let s1 := indexAdd G gidx scores
    let s2 := indexAdd G gidx fun i => scores i * scores i
    let stats := (List.range G).map fun k : Nat => groupStats root eps
      (count.getD k 0) (s1.getD k 0) (s2.getD k 0)
    .ok (stats.map Prod.fst, stats.map Prod.snd)

/-- `xs[k]` of a tensor, negative places from the end. -/
def tensorIndex (xs : List F) (k : Int) : Py F :=
  if 0 ≤ k ∧ k < xs.length then .ok (xs.getD k.toNat 0)
  else if -xs.length ≤ k ∧ k < 0 then .ok (xs.getD (k + xs.length).toNat 0)
  else .error .indexError

/-- `compute_grpo_vectorized_outcome_advantage` after `as_torch_index`. -/
def advantageOfIds (tokenLevelRewards responseMask : Fin bs → Fin len → F)
    (g : Fin bs → Int) (epsilon : F) (normAdvByStdInGrpo : Bool) :
    Py ((Fin bs → Fin len → F) × (Fin bs → Fin len → F)) := do
  let scores := scores tokenLevelRewards
  let (meanG, stdG) ← groupMeanStd root scores g epsilon
  let scalars ← tabulateM fun i => do
    let mean ← tensorIndex meanG (g i)
    let std ← tensorIndex stdG (g i)
    return normalized epsilon normAdvByStdInGrpo (scores i) mean std
  let advantages := onTokens scalars responseMask
  return (advantages, advantages)

end Source

section Stats

variable {bs : Nat} [DecidableEq κ]

/-- The variance of the scores with the label of row `i`. -/
def groupVar (index : Fin bs → κ) (scores : Fin bs → F) (i : Fin bs) : F :=
  (∑ j ∈ members index i, (scores j - groupMean index scores i) ^ 2) /
    ((members index i).card - 1)

/-- The standard deviation the loop divides by. -/
def groupStd (root : SquareRoot F) (index : Fin bs → κ) (scores : Fin bs → F)
    (i : Fin bs) : F :=
  if (members index i).card = 1 then 1
  else root.sqrt (groupVar index scores i)

/-- The standard deviation with the variance kept from falling below
`eps`. -/
def clampedStd (root : SquareRoot F) (eps : F) (index : Fin bs → κ)
    (scores : Fin bs → F) (i : Fin bs) : F :=
  if (members index i).card = 1 then 1
  else root.sqrt (max (groupVar index scores i) eps)

end Stats

section Loop

variable (root : SquareRoot F) {bs len : Nat} [DecidableEq κ]

theorem torchStd_valuesUnder (index : Fin bs → κ) (scores : Fin bs → F)
    (i : Fin bs) (hmany : (members index i).card ≠ 1) :
    torchStd root (valuesUnder index scores (List.finRange bs) (index i)) =
      root.sqrt (groupVar index scores i) := by
  have hmean : torchMean (valuesUnder index scores (List.finRange bs)
      (index i)) = groupMean index scores i := by
    rw [torchMean_valuesUnder, groupMean, if_neg hmany]
  have hsquares : ((valuesUnder index scores (List.finRange bs)
      (index i)).map fun x => (x - groupMean index scores i) ^ 2) =
      valuesUnder index (fun j => (scores j - groupMean index scores i) ^ 2)
        (List.finRange bs) (index i) := by
    rw [valuesUnder, List.map_map]
    rfl
  rw [torchStd, hmean, hsquares, sum_valuesUnder, length_valuesUnder, groupVar]

/-- What the loop returns. -/
theorem computeGrpoOutcomeAdvantage_eq [ToString κ]
    (tokenLevelRewards responseMask : Fin bs → Fin len → F)
    (index : Fin bs → κ) (epsilon : F) (norm : Bool) :
    computeGrpoOutcomeAdvantage root tokenLevelRewards responseMask index
        epsilon norm =
      .ok (onTokens (fun i => normalized epsilon norm
          (scores tokenLevelRewards i)
          (groupMean index (scores tokenLevelRewards) i)
          (groupStd root index (scores tokenLevelRewards) i)) responseMask,
        onTokens (fun i => normalized epsilon norm
          (scores tokenLevelRewards i)
          (groupMean index (scores tokenLevelRewards) i)
          (groupStd root index (scores tokenLevelRewards) i))
            responseMask) := by
  rw [computeGrpoOutcomeAdvantage, id2mean, groupStatistic_id2score,
    groupStatistic_id2score, ok_bind, ok_bind]
  refine bind_eq_ok.mpr ⟨_, tabulateM_eq_ok.mpr fun i => ?_, rfl⟩
  rw [dictGet_groupStatistic, dictGet_groupStatistic, torchMean_valuesUnder,
    groupMean, groupStd]
  by_cases hone : (members index i).card = 1
  · simp only [hone, if_true]
    rfl
  · rw [torchStd_valuesUnder root index _ i hone]
    simp only [hone, if_false]
    rfl

end Loop

section Ids

variable {bs : Nat} {g : Fin bs → Int}

theorem le_numGroups (i : Fin bs) : g i < numGroups g := by
  rw [numGroups]
  cases hmax : (List.ofFn g).max? with
  | none =>
      rw [List.max?_eq_none_iff] at hmax
      have hlen : (List.ofFn g).length = 0 := by rw [hmax]; rfl
      rw [List.length_ofFn] at hlen
      subst hlen
      exact i.elim0
  | some top =>
      have hle := (List.max?_eq_some_iff.mp hmax).2 (g i)
        (List.mem_ofFn.mpr ⟨i, rfl⟩)
      exact Int.lt_add_one_of_le hle

theorem numGroups_eq_zero_of_isEmpty (h : bs = 0) : numGroups g = 0 := by
  subst h
  rfl

omit [LinearOrder F] in
theorem getD_indexAdd {G k : Nat} (hk : k < G) (values : Fin bs → F) :
    (indexAdd G g values).getD k 0 = ∑ j with g j = k, values j := by
  rw [indexAdd, List.getD_eq_getElem?_getD, List.getElem?_map,
    List.getElem?_range hk]
  rfl

variable [IsStrictOrderedRing F] (root : SquareRoot F)

/-- The sum of squared deviations by the sums of the scores and of their
squares. -/
theorem sum_sq_sub_mean (rows : Finset (Fin bs)) (scores : Fin bs → F)
    (hcard : (rows.card : F) ≠ 0) :
    ∑ j ∈ rows, (scores j - (∑ j ∈ rows, scores j) / rows.card) ^ 2 =
      ∑ j ∈ rows, scores j * scores j -
        (∑ j ∈ rows, scores j) * (∑ j ∈ rows, scores j) / rows.card := by
  have hterm : ∀ j, (scores j - (∑ j ∈ rows, scores j) / rows.card) ^ 2 =
      scores j * scores j - 2 * ((∑ j ∈ rows, scores j) / rows.card) *
        scores j + ((∑ j ∈ rows, scores j) / rows.card) ^ 2 := by
    intro j
    ring
  rw [Finset.sum_congr rfl fun j _ => hterm j, Finset.sum_add_distrib,
    Finset.sum_sub_distrib, ← Finset.mul_sum, Finset.sum_const, nsmul_eq_mul]
  field_simp
  ring

theorem groupStats_members (scores : Fin bs → F) (eps : F) (i : Fin bs) :
    groupStats root eps (∑ _j ∈ members g i, (1 : F))
        (∑ j ∈ members g i, scores j)
        (∑ j ∈ members g i, scores j * scores j) =
      (groupMean g scores i, clampedStd root eps g scores i) := by
  have hpos := card_members_pos g i
  have hcount : ∑ _j ∈ members g i, (1 : F) = (members g i).card := by simp
  rw [hcount, groupStats, groupMean, clampedStd]
  by_cases hone : (members g i).card = 1
  · simp [hone]
  · have htwo : (2 : F) ≤ (members g i).card := by
      exact_mod_cast show 2 ≤ (members g i).card by omega
    have hne : ((members g i).card : F) ≠ 0 := by linarith
    have hmany : ¬ ((members g i).card : F) ≤ 1 := by linarith
    have hclamp : max ((members g i).card : F) 1 = (members g i).card :=
      max_eq_left (by linarith)
    have hclamp' : max (((members g i).card : F) - 1) 1 =
        (members g i).card - 1 := max_eq_left (by linarith)
    simp only [hone, hmany, if_false, hclamp, hclamp']
    rw [groupVar, groupMean, if_neg hone, sum_sq_sub_mean _ _ hne]

/-- Ids from 0 on: the statistics a row reads are those of its id. -/
theorem groupMeanStd_eq (scores : Fin bs → F) (eps : F)
    (hnonneg : ∀ i, 0 ≤ g i) :
    ∃ meanG stdG, groupMeanStd root scores g eps = .ok (meanG, stdG) ∧
      ∀ i, tensorIndex meanG (g i) = .ok (groupMean g scores i) ∧
        tensorIndex stdG (g i) = .ok (clampedStd root eps g scores i) := by
  by_cases hbs : bs = 0
  · refine ⟨[], [], ?_, fun i => absurd i.isLt (by omega)⟩
    rw [groupMeanStd, if_pos (numGroups_eq_zero_of_isEmpty hbs)]
  · have hfirst := le_numGroups (g := g) ⟨0, Nat.pos_of_ne_zero hbs⟩
    have hfirst' := hnonneg ⟨0, Nat.pos_of_ne_zero hbs⟩
    have hnone : ¬ ∃ i, g i < 0 := by
      rintro ⟨i, hi⟩
      exact absurd (hnonneg i) (by omega)
    rw [groupMeanStd, if_neg (by omega), if_neg (by omega), if_neg hnone]
    refine ⟨_, _, rfl, fun i => ?_⟩
    have hlt := le_numGroups (g := g) i
    have hcast : ((g i).toNat : Int) = g i := Int.toNat_of_nonneg (hnonneg i)
    have hk : (g i).toNat < (numGroups g).toNat := by omega
    have hmembers : (Finset.univ.filter fun j => g j = ((g i).toNat : Int)) =
        members g i := by
      rw [hcast]
      rfl
    have hat : ∀ f : F × F → F, tensorIndex (((List.range
        (numGroups g).toNat).map fun k => groupStats root eps
          ((indexAdd (numGroups g).toNat g fun _ => (1 : F)).getD k 0)
          ((indexAdd (numGroups g).toNat g scores).getD k 0)
          ((indexAdd (numGroups g).toNat g fun i =>
            scores i * scores i).getD k 0)).map f) (g i) =
        .ok (f (groupMean g scores i, clampedStd root eps g scores i)) := by
      intro f
      rw [tensorIndex, if_pos ⟨hnonneg i, by simp; omega⟩,
        List.getD_eq_getElem?_getD, List.getElem?_map, List.getElem?_map,
        List.getElem?_range hk, Option.map_some, Option.map_some,
        Option.getD_some, getD_indexAdd hk, getD_indexAdd hk,
        getD_indexAdd hk, hmembers, groupStats_members]
    exact ⟨hat Prod.fst, hat Prod.snd⟩

variable {len : Nat}

theorem advantageOfIds_eq
    (tokenLevelRewards responseMask : Fin bs → Fin len → F) (epsilon : F)
    (norm : Bool) (hnonneg : ∀ i, 0 ≤ g i) :
    ∃ adv, advantageOfIds root tokenLevelRewards responseMask g epsilon
        norm = .ok (adv, adv) ∧
      adv = onTokens (fun i => normalized epsilon norm
        (scores tokenLevelRewards i)
        (groupMean g (scores tokenLevelRewards) i)
        (clampedStd root epsilon g (scores tokenLevelRewards) i))
          responseMask := by
  obtain ⟨meanG, stdG, hstats, hread⟩ :=
    groupMeanStd_eq root (scores tokenLevelRewards) epsilon hnonneg
  refine ⟨_, ?_, rfl⟩
  rw [advantageOfIds, hstats, ok_bind]
  refine bind_eq_ok.mpr ⟨_, tabulateM_eq_ok.mpr fun i => ?_, rfl⟩
  obtain ⟨hmean, hstd⟩ := hread i
  rw [hmean, hstd]
  rfl

omit [IsStrictOrderedRing F] in
/-- A negative id is an index error. -/
theorem nonneg_of_advantageOfIds
    {tokenLevelRewards responseMask : Fin bs → Fin len → F} {epsilon : F}
    {norm : Bool} {result : (Fin bs → Fin len → F) × (Fin bs → Fin len → F)}
    (h : advantageOfIds root tokenLevelRewards responseMask g epsilon norm =
      .ok result) (i : Fin bs) : 0 ≤ g i := by
  by_contra hneg
  obtain ⟨⟨meanG, stdG⟩, hstats, h⟩ := bind_eq_ok.mp h
  obtain ⟨scalars, hscalars, -⟩ := bind_eq_ok.mp h
  rw [groupMeanStd] at hstats
  by_cases hzero : numGroups g = 0
  · rw [if_pos hzero] at hstats
    cases hstats
    obtain ⟨mean, hmean, -⟩ := bind_eq_ok.mp (tabulateM_eq_ok.mp hscalars i)
    rw [tensorIndex, if_neg (by simp), if_neg (by simp)] at hmean
    cases hmean
  · rw [if_neg hzero] at hstats
    split at hstats
    · cases hstats
    · rw [if_pos ⟨i, by omega⟩] at hstats
      cases hstats

end Ids

section Agreement

variable {bs len : Nat} [DecidableEq κ]

/-- The two estimators make one number of the score of a row: where its id
stands for its label alone, the clamp has to leave the variance as it is, and
where the id stands for other labels too, the score has to be at one distance
from both means. -/
def RowAgrees (root : SquareRoot F) (epsilon : F) (norm : Bool)
    (index : Fin bs → κ) (g : Fin bs → Int) (scores : Fin bs → F)
    (i : Fin bs) : Prop :=
  if members g i = members index i then
    norm = false ∨ (members index i).card = 1 ∨
      epsilon ≤ groupVar index scores i ∨ scores i = groupMean index scores i
  else
    normalized epsilon norm (scores i) (groupMean index scores i)
        (groupStd root index scores i) =
      normalized epsilon norm (scores i) (groupMean g scores i)
        (clampedStd root epsilon g scores i)

variable [IsStrictOrderedRing F] {root : SquareRoot F} {epsilon : F}
  {index : Fin bs → κ} {g : Fin bs → Int} {scores : Fin bs → F} {i : Fin bs}

theorem SquareRoot.lt_sqrt {x y : F} (hx : 0 ≤ x) (hxy : x < y) :
    root.sqrt x < root.sqrt y := by
  apply lt_of_mul_self_lt_mul_self₀ (root.nonneg y)
  rw [root.mul_self x hx, root.mul_self y (hx.trans hxy.le)]
  exact hxy

theorem groupVar_nonneg (hmany : (members index i).card ≠ 1) :
    0 ≤ groupVar index scores i := by
  have hpos := card_members_pos index i
  have htwo : (2 : F) ≤ (members index i).card := by
    exact_mod_cast show 2 ≤ (members index i).card by omega
  apply div_nonneg
  · exact Finset.sum_nonneg fun j _ => sq_nonneg _
  · linarith

/-- In one and the same group only the clamp can make a difference. -/
theorem normalized_clamped_iff (heps : 0 < epsilon) (norm : Bool) :
    normalized epsilon norm (scores i) (groupMean index scores i)
        (groupStd root index scores i) =
      normalized epsilon norm (scores i) (groupMean index scores i)
        (clampedStd root epsilon index scores i) ↔
      norm = false ∨ (members index i).card = 1 ∨
        epsilon ≤ groupVar index scores i ∨
          scores i = groupMean index scores i := by
  cases norm with
  | false => simp [normalized]
  | true =>
      rw [groupStd, clampedStd]
      by_cases hone : (members index i).card = 1
      · simp [hone]
      · simp only [normalized, hone, if_true, if_false, Bool.true_eq_false,
          false_or]
        by_cases hle : epsilon ≤ groupVar index scores i
        · rw [max_eq_left hle]
          exact iff_of_true rfl (.inl hle)
        · have hlt : groupVar index scores i < epsilon := lt_of_not_ge hle
          have hvar : 0 ≤ groupVar index scores i := groupVar_nonneg hone
          have hsqrt := root.lt_sqrt hvar hlt
          have hnonneg := root.nonneg (groupVar index scores i)
          simp only [max_eq_right hlt.le, hle, false_or]
          rw [div_eq_div_iff (by linarith) (by linarith), mul_eq_mul_left_iff,
            sub_eq_zero]
          have hne : ¬ root.sqrt epsilon + epsilon =
              root.sqrt (groupVar index scores i) + epsilon := by
            intro heq
            linarith
          simp only [hne, false_or]

theorem rowAgrees_iff (heps : 0 < epsilon) (norm : Bool) :
    normalized epsilon norm (scores i) (groupMean index scores i)
        (groupStd root index scores i) =
      normalized epsilon norm (scores i) (groupMean g scores i)
        (clampedStd root epsilon g scores i) ↔
      RowAgrees root epsilon norm index g scores i := by
  rw [RowAgrees]
  split
  · rename_i hsame
    have hmean : groupMean g scores i = groupMean index scores i := by
      rw [groupMean, groupMean, hsame]
    have hstd : clampedStd root epsilon g scores i =
        clampedStd root epsilon index scores i := by
      rw [clampedStd, clampedStd, groupVar, groupVar, hmean, hsame]
    rw [hmean, hstd]
    exact normalized_clamped_iff heps norm
  · exact Iff.rfl

omit [IsStrictOrderedRing F] in
theorem onTokens_eq_iff {a b : Fin bs → F}
    {responseMask : Fin bs → Fin len → F} :
    onTokens a responseMask = onTokens b responseMask ↔
      ∀ i t, responseMask i t ≠ 0 → a i = b i := by
  constructor
  · intro h i t hmask
    exact mul_right_cancel₀ hmask (congrFun (congrFun h i) t)
  · intro h
    funext i t
    by_cases hmask : responseMask i t = 0
    · rw [onTokens, onTokens, hmask, mul_zero, mul_zero]
    · rw [onTokens, onTokens, h i t hmask]

/-- Ids given to the vectorized estimator against labels given to the loop. -/
theorem exists_result_iff [ToString κ] (heps : 0 < epsilon)
    {tokenLevelRewards responseMask : Fin bs → Fin len → F} {norm : Bool} :
    (∃ result, computeGrpoOutcomeAdvantage root tokenLevelRewards responseMask
        index epsilon norm = .ok result ∧
      advantageOfIds root tokenLevelRewards responseMask g epsilon norm =
        .ok result) ↔
      (∀ i, 0 ≤ g i) ∧ ∀ i t, responseMask i t ≠ 0 →
        RowAgrees root epsilon norm index g (OutcomeAdvantage.scores
          tokenLevelRewards) i := by
  simp only [← rowAgrees_iff heps]
  rw [← onTokens_eq_iff, computeGrpoOutcomeAdvantage_eq]
  constructor
  · rintro ⟨result, hloop, hids⟩
    have hnonneg := nonneg_of_advantageOfIds root hids
    obtain ⟨adv, hadv, heq⟩ := advantageOfIds_eq root tokenLevelRewards
      responseMask epsilon norm hnonneg
    rw [hadv, ← hloop] at hids
    exact ⟨hnonneg, (congrArg Prod.fst (Except.ok.inj hids)).symm.trans heq⟩
  · rintro ⟨hnonneg, hsame⟩
    obtain ⟨adv, hadv, heq⟩ := advantageOfIds_eq root tokenLevelRewards
      responseMask epsilon norm hnonneg
    refine ⟨_, rfl, ?_⟩
    rw [hadv, heq, hsame]

end Agreement

section Labels

/-- A label by itself. -/
inductive Label (Obj : Type)
  | int (x : Int)
  | float (x : ℚ)
  | text (s : Text)
  | object (o : Obj)
deriving DecidableEq

instance [ToString Obj] : ToString (Label Obj) where
  toString
    | .int x => toString x
    | .float x => toString x
    | .text s => String.ofList s
    | .object o => toString o

/-- `index[i]`, for all rows. -/
def labels : LabelArray Obj → List (Label Obj)
  | .intTensor xs => xs.map .int
  | .floatTensor xs => xs.map .float
  | .intArray xs => xs.map .int
  | .floatArray xs => xs.map .float
  | .strArray xs => xs.map .text
  | .objectArray xs => xs.map .object

variable [DecidableEq Obj]

theorem length_asTorchIndex (protocol : LabelProtocol Obj)
    (index : LabelArray Obj) :
    (asTorchIndex protocol index).length = (labels index).length := by
  cases index with
  | intTensor xs => simp [asTorchIndex, labels]
  | floatTensor xs =>
      rw [asTorchIndex]
      split <;> simp [labels, factorizeTexts, inverse]
  | intArray xs => simp [asTorchIndex, labels]
  | floatArray xs =>
      rw [asTorchIndex]
      split <;> simp [labels]
  | strArray xs =>
      rw [asTorchIndex]
      cases hcast : xs.mapM int64OfStr with
      | some coerced =>
          obtain ⟨-, rfl⟩ := mapM_eq_some_map hcast
          simp [labels]
      | none => simp [labels, factorizeTexts, inverse]
  | objectArray xs =>
      rw [asTorchIndex]
      cases hcast : xs.mapM protocol.toInt64 with
      | some coerced =>
          obtain ⟨-, rfl⟩ := mapM_eq_some_map hcast
          simp [labels]
      | none =>
          change (factorize protocol xs).length = _
          rw [factorize]
          split <;> simp [labels, factorizeTexts, inverse]

def labelAt (index : LabelArray Obj) (i : Fin (labels index).length) :
    Label Obj :=
  (labels index)[i]

/-- `g[i]` -/
def idAt (protocol : LabelProtocol Obj) (index : LabelArray Obj)
    (i : Fin (labels index).length) : Int :=
  (asTorchIndex protocol index).get
    (i.cast (length_asTorchIndex protocol index).symm)

/-- `compute_grpo_vectorized_outcome_advantage` -/
def computeGrpoVectorizedOutcomeAdvantage (root : SquareRoot F)
    (protocol : LabelProtocol Obj) (index : LabelArray Obj) {len : Nat}
    (tokenLevelRewards responseMask :
      Fin (labels index).length → Fin len → F)
    (epsilon : F) (normAdvByStdInGrpo : Bool) :
    Py ((Fin (labels index).length → Fin len → F) ×
      (Fin (labels index).length → Fin len → F)) :=
  advantageOfIds root tokenLevelRewards responseMask (idAt protocol index)
    epsilon normAdvByStdInGrpo

/-- The two estimators return the same advantages. -/
def Agree [ToString Obj] (root : SquareRoot F) (protocol : LabelProtocol Obj)
    (index : LabelArray Obj) {len : Nat}
    (tokenLevelRewards responseMask :
      Fin (labels index).length → Fin len → F)
    (epsilon : F) (norm : Bool) : Prop :=
  ∃ result, computeGrpoOutcomeAdvantage root tokenLevelRewards responseMask
      (labelAt index) epsilon norm = .ok result ∧
    computeGrpoVectorizedOutcomeAdvantage root protocol index
      tokenLevelRewards responseMask epsilon norm = .ok result

variable [ToString Obj] [IsStrictOrderedRing F]

/-- The estimators agree exactly where no id is negative and every row with a
token is treated alike. -/
theorem grpo_agree_iff (root : SquareRoot F) (protocol : LabelProtocol Obj)
    (index : LabelArray Obj) {len : Nat}
    (tokenLevelRewards responseMask :
      Fin (labels index).length → Fin len → F)
    {epsilon : F} (heps : 0 < epsilon) (norm : Bool) :
    Agree root protocol index tokenLevelRewards responseMask epsilon norm ↔
      (∀ i, 0 ≤ idAt protocol index i) ∧
        ∀ i t, responseMask i t ≠ 0 →
          RowAgrees root epsilon norm (labelAt index) (idAt protocol index)
            (scores tokenLevelRewards) i :=
  exists_result_iff heps

end Labels

section Reals

/-- Exact real arithmetic. -/
noncomputable def realRoot : SquareRoot ℝ where
  sqrt := Real.sqrt
  nonneg := Real.sqrt_nonneg
  mul_self _ := Real.mul_self_sqrt

/-- Two responses to one prompt, their scores 0 and `gap`. -/
def twoScores {n : Nat} (gap : ℝ) (i : Fin n) (_ : Fin 1) : ℝ :=
  if i.val = 0 then 0 else gap

theorem grpo_agree_iff_equalScores :
    Agree realRoot bareObjects (.intArray [0, 0]) (twoScores 0)
      (fun _ _ => 1) (1 / 1000000) true := by
  apply (grpo_agree_iff realRoot bareObjects (.intArray [0, 0]) (twoScores 0)
    (fun _ _ => 1) (by norm_num) true).mpr
  refine ⟨by decide +kernel, fun i t _ => ?_⟩
  have hscores : ∀ j, scores (twoScores (n := (labels
      (.intArray [0, 0] : LabelArray Unit)).length) 0) j = 0 := by
    intro j
    simp [scores, twoScores]
  have hmembers : ∀ i, members (idAt bareObjects (.intArray [0, 0])) i =
      members (labelAt (.intArray [0, 0])) i := by decide +kernel
  rw [RowAgrees, if_pos (hmembers i)]
  right; right; right
  simp [groupMean, hscores]

/-- Scores 0 and 1/1000: their variance 1/2000000 is raised to the clamp. -/
theorem not_agree_tinyVariance :
    ¬ Agree realRoot bareObjects (.intArray [0, 0]) (twoScores (1 / 1000))
      (fun _ _ => 1) (1 / 1000000) true := by
  have hclamped : ∀ (index : Fin 2 → Label Unit) (g : Fin 2 → Int),
      members index 0 = Finset.univ → members g 0 = Finset.univ →
        ¬ RowAgrees realRoot (1 / 1000000) true index g
          (scores (twoScores (1 / 1000))) 0 := by
    intro index g hindex hg hagrees
    rw [RowAgrees, if_pos (hg.trans hindex.symm), groupVar, groupMean,
      hindex] at hagrees
    norm_num [Fin.sum_univ_two, scores, twoScores] at hagrees
  intro h
  have hrows := ((exists_result_iff (by norm_num)).mp h).2
  exact hclamped _ _ (by decide +kernel) (by decide +kernel)
    (hrows ⟨0, by decide⟩ 0 one_ne_zero)

end Reals

end GrpoAdvantage

end SelfDistillation
