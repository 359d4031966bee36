/-
RLOO (verl/trainer/ppo/core_algos.py): the estimator that loops over the batch
and the one written with `np.unique` and `torch.bincount`.
-/
import SelfDistillation.Library.Unique
import SelfDistillation.OutcomeAdvantage

namespace SelfDistillation

namespace RlooAdvantage

open Grouping OutcomeAdvantage Unique

variable {κ : Type} [DecidableEq κ] {bs len : Nat}

/-- The loop over the batch: the score without its own part of the mean. -/
def leaveOneOut [ToString κ] (index : Fin bs → κ) (scores : Fin bs → ℚ)
    (means : List (κ × ℚ)) (i : Fin bs) : Py ℚ := do
  let responseNum : ℚ :=
    (((id2score index scores).lookup (index i)).getD []).length
  if responseNum > 1 then
    let mean ← dictGet means (index i)
    return scores i * responseNum / (responseNum - 1) -
      mean * responseNum / (responseNum - 1)
  else return scores i

/-- `compute_rloo_outcome_advantage` -/
def computeRlooOutcomeAdvantage [ToString κ]
    (tokenLevelRewards responseMask : Fin bs → Fin len → ℚ)
    (index : Fin bs → κ) :
    Py ((Fin bs → Fin len → ℚ) × (Fin bs → Fin len → ℚ)) := do
  let scores := scores tokenLevelRewards
  let means ← id2mean (id2score index scores)
  let scores ← tabulateM fun i => leaveOneOut index scores means i
  let scores := onTokens scores responseMask
  return (scores, scores)

/-- Entry `k` of `torch.bincount(inv)`. -/
def bincount (inv : Fin bs → Nat) (k : Nat) : Nat :=
  (Finset.univ.filter fun j => inv j = k).card

/-- Entry `k` of `torch.bincount(inv, weights=weights)`. -/
def bincountWeights (inv : Fin bs → Nat) (weights : Fin bs → ℚ) (k : Nat) :
    ℚ :=
  ∑ j ∈ Finset.univ.filter fun j => inv j = k, weights j

/-- `adv` of a row, before the mask. -/
def vectorizedScore (inv : Fin bs → Nat) (scores : Fin bs → ℚ) (i : Fin bs) :
    ℚ :=
  let c : ℚ := bincount inv (inv i)
  (c * scores i - bincountWeights inv scores (inv i)) / max (c - 1) 1 *
    if c > 1 then 1 else 0

/-- `compute_rloo_vectorized_outcome_advantage`; `np.unique` raises where it
cannot compare two labels. -/
def computeRlooVectorizedOutcomeAdvantage (comparison : Comparison κ)
    (tokenLevelRewards responseMask : Fin bs → Fin len → ℚ)
    (index : Fin bs → κ) :
    Py ((Fin bs → Fin len → ℚ) × (Fin bs → Fin len → ℚ)) :=
  match comparison.unique? (List.ofFn index) with
  | none => .error (.typeError "'<' not supported between instances")
  | some labels =>
      let scores := scores tokenLevelRewards
      let inv := fun i => labels.idxOf (index i)
      let adv := onTokens (vectorizedScore inv scores) responseMask
      .ok (adv, adv)

/-- What the loop makes of a score; a single one is left as it is. -/
def loopScore (index : Fin bs → κ) (scores : Fin bs → ℚ) (i : Fin bs) : ℚ :=
  if (members index i).card = 1 then scores i
  else ((members index i).card * scores i - ∑ j ∈ members index i, scores j) /
    ((members index i).card - 1)

section Loop

variable [ToString κ] {index : Fin bs → κ} {scores : Fin bs → ℚ}

theorem leaveOneOut_eq (i : Fin bs) :
    leaveOneOut index scores ((id2score index scores).map fun group =>
        (group.1, if group.2.length = 1 then 0 else torchMean group.2)) i =
      .ok (loopScore index scores i) := by
  have hpos := card_members_pos index i
  rw [leaveOneOut, lookup_id2score, Option.getD_some, length_valuesUnder,
    dictGet_groupStatistic, torchMean_valuesUnder, loopScore]
  by_cases hone : (members index i).card = 1
  · rw [if_pos hone, if_neg (by rw [hone]; norm_num), if_pos hone]
    rfl
  · have hmany : ((members index i).card : ℚ) > 1 := by
      exact_mod_cast show (members index i).card > 1 by omega
    have hcard : ((members index i).card : ℚ) ≠ 0 := by linarith
    have hrest : ((members index i).card : ℚ) - 1 ≠ 0 := by linarith
    rw [if_neg hone, if_pos hmany, if_neg hone, ok_bind]
    apply congrArg Except.ok
    field_simp

/-- The loop returns a result for every batch. -/
theorem computeRlooOutcomeAdvantage_eq
    (tokenLevelRewards responseMask : Fin bs → Fin len → ℚ)
    (index : Fin bs → κ) :
    computeRlooOutcomeAdvantage tokenLevelRewards responseMask index =
      .ok (onTokens (loopScore index (OutcomeAdvantage.scores
          tokenLevelRewards)) responseMask,
        onTokens (loopScore index (OutcomeAdvantage.scores
          tokenLevelRewards)) responseMask) := by
  rw [computeRlooOutcomeAdvantage, id2mean, groupStatistic_id2score, ok_bind]
  refine bind_eq_ok.mpr ⟨_, tabulateM_eq_ok.mpr fun i => ?_, rfl⟩
  exact leaveOneOut_eq i

end Loop

section Vectorized

variable {index : Fin bs → κ} {scores : Fin bs → ℚ} {inv : Fin bs → Nat}

/-- Ids that stand for the labels count and sum what the labels do. -/
theorem vectorizedScore_eq
    (hinv : ∀ i j, inv j = inv i ↔ index j = index i) (i : Fin bs) :
    vectorizedScore inv scores i =
      if (members index i).card = 1 then 0 else loopScore index scores i := by
  have hmembers : (Finset.univ.filter fun j => inv j = inv i) =
      members index i :=
    Finset.filter_congr fun j _ => hinv i j
  have hpos := card_members_pos index i
  rw [vectorizedScore, bincount, bincountWeights, hmembers, loopScore]
  by_cases hone : (members index i).card = 1
  · simp [hone]
  · have hmany : ((members index i).card : ℚ) > 1 := by
      exact_mod_cast show (members index i).card > 1 by omega
    have hclamp : max (((members index i).card : ℚ) - 1) 1 =
        (members index i).card - 1 := by
      apply max_eq_left
      have htwo : (2 : ℚ) ≤ (members index i).card := by
        exact_mod_cast show 2 ≤ (members index i).card by omega
      linarith
    rw [if_neg hone, if_neg hone, hclamp, if_pos hmany, mul_one]

theorem computeRlooVectorizedOutcomeAdvantage_eq
    {comparison : Comparison κ}
    (tokenLevelRewards responseMask : Fin bs → Fin len → ℚ)
    (hsortable : comparison.Sortable (List.ofFn index)) :
    ∃ adv, computeRlooVectorizedOutcomeAdvantage comparison tokenLevelRewards
        responseMask index = .ok (adv, adv) ∧
      adv = onTokens (fun i => if (members index i).card = 1 then 0
        else loopScore index (OutcomeAdvantage.scores tokenLevelRewards) i)
          responseMask := by
  rw [computeRlooVectorizedOutcomeAdvantage, Comparison.unique?,
    if_pos hsortable]
  refine ⟨_, rfl, ?_⟩
  congr 1
  funext i
  apply vectorizedScore_eq
  intro i j
  exact comparison.idxOf_unique_eq_iff (List.mem_ofFn.mpr ⟨j, rfl⟩)

end Vectorized

/-- The two estimators return the same advantages. -/
def Agree [ToString κ] (comparison : Comparison κ)
    (tokenLevelRewards responseMask : Fin bs → Fin len → ℚ)
    (index : Fin bs → κ) : Prop :=
  ∃ result, computeRlooOutcomeAdvantage tokenLevelRewards responseMask index =
      .ok result ∧
    computeRlooVectorizedOutcomeAdvantage comparison tokenLevelRewards
      responseMask index = .ok result

variable [ToString κ] {comparison : Comparison κ}
  {tokenLevelRewards responseMask : Fin bs → Fin len → ℚ}
  {index : Fin bs → κ}

theorem sortable_of_agree
    (h : Agree comparison tokenLevelRewards responseMask index) :
    comparison.Sortable (List.ofFn index) := by
  obtain ⟨result, -, hvectorized⟩ := h
  by_contra hunsortable
  rw [computeRlooVectorizedOutcomeAdvantage, Comparison.unique?,
    if_neg hunsortable] at hvectorized
  cases hvectorized

/-- A response alone in its group gets its score from one estimator and 0 from
the other. -/
theorem masked_eq_zero_of_agree
    (h : Agree comparison tokenLevelRewards responseMask index) (i : Fin bs)
    (t : Fin len) (hone : (members index i).card = 1) :
    scores tokenLevelRewards i * responseMask i t = 0 := by
  obtain ⟨adv, hadv, heq⟩ := computeRlooVectorizedOutcomeAdvantage_eq
    tokenLevelRewards responseMask (sortable_of_agree h)
  obtain ⟨result, hloop, hvectorized⟩ := h
  rw [computeRlooOutcomeAdvantage_eq] at hloop
  rw [hadv, ← hloop] at hvectorized
  have hsame := congrArg Prod.fst (Except.ok.inj hvectorized)
  have hentry := congrFun (congrFun (heq.symm.trans hsame) i) t
  simp only [onTokens, loopScore, hone, if_true, zero_mul] at hentry
  exact hentry.symm

/-- The loop keeps the score of a response that is alone in its group, the
vectorized estimator makes it 0. -/
theorem rloo_agree_iff :
    Agree comparison tokenLevelRewards responseMask index ↔
      comparison.Sortable (List.ofFn index) ∧
        ∀ i t, (members index i).card = 1 →
          scores tokenLevelRewards i * responseMask i t = 0 := by
  constructor
  · intro h
    exact ⟨sortable_of_agree h, masked_eq_zero_of_agree h⟩
  · rintro ⟨hsortable, hzero⟩
    obtain ⟨adv, hadv, heq⟩ := computeRlooVectorizedOutcomeAdvantage_eq
      tokenLevelRewards responseMask hsortable
    refine ⟨_, computeRlooOutcomeAdvantage_eq .., ?_⟩
    have hsame : adv = onTokens (loopScore index
        (scores tokenLevelRewards)) responseMask := by
      rw [heq]
      funext i t
      by_cases hone : (members index i).card = 1
      · simp only [onTokens, loopScore, hone, if_true, zero_mul,
          hzero i t hone]
      · simp only [onTokens, hone, if_false]
    rw [hadv, hsame]

/-- One response, alone in its group, with score 1. -/
theorem not_agree_singleton :
    ¬ Agree (Comparison.ofLinearOrder (κ := Nat))
      (fun _ _ => 1 : Fin 1 → Fin 1 → ℚ) (fun _ _ => 1) (fun _ => 0) := by
  intro h
  have hzero := masked_eq_zero_of_agree h 0 0 (by decide)
  simp [scores] at hzero

end RlooAdvantage

end SelfDistillation
