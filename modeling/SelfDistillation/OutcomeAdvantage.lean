/-
What the outcome-supervised estimators of verl/trainer/ppo/core_algos.py share:
one score for each response, the scores of a prompt collected in a dictionary,
and the advantage of a response written on its tokens.
-/
import SelfDistillation.Library.Grouping
import SelfDistillation.Python

namespace SelfDistillation

namespace OutcomeAdvantage

open Grouping

variable {F κ : Type} [DecidableEq κ] {bs len : Nat}

/-- `token_level_rewards.sum(dim=-1)` -/
def scores [AddCommMonoid F] (tokenLevelRewards : Fin bs → Fin len → F)
    (i : Fin bs) : F :=
  ∑ t, tokenLevelRewards i t

/-- `scores.unsqueeze(-1) * response_mask` -/
def onTokens [Mul F] (scores : Fin bs → F) (responseMask : Fin bs → Fin len → F)
    (i : Fin bs) (t : Fin len) : F :=
  scores i * responseMask i t

/-- `id2score` after the loop over the batch. -/
def id2score (index : Fin bs → κ) (scores : Fin bs → F) :
    List (κ × List F) :=
  collect index scores (List.finRange bs)

/-- `d[key]` -/
def dictGet [ToString κ] {α : Type} (d : List (κ × α)) (key : κ) : Py α :=
  match d.lookup key with
  | some a => .ok a
  | none => .error (.keyError (toString key))

/-- A loop over `id2score` that computes a statistic of every prompt: `one` for
a single score, else `many` of the scores. -/
def groupStatistic [ToString κ] (one : F) (many : List F → F)
    (groups : List (κ × List F)) : Py (List (κ × F)) :=
  groups.mapM fun group =>
    if group.2.length = 1 then .ok (group.1, one)
    else if group.2.length > 1 then .ok (group.1, many group.2)
    else .error (.valueError s!"no score in prompt index: {group.1}")

/-- `torch.mean(torch.stack(scores))` -/
def torchMean [Field F] (scores : List F) : F := scores.sum / scores.length

/-- `id2mean` -/
def id2mean [Field F] [ToString κ] (groups : List (κ × List F)) :
    Py (List (κ × F)) :=
  groupStatistic 0 torchMean groups

/-- The mean of the scores with the label of row `i`; 0 of a single one. -/
def groupMean [Field F] (index : Fin bs → κ) (scores : Fin bs → F)
    (i : Fin bs) : F :=
  if (members index i).card = 1 then 0
  else (∑ j ∈ members index i, scores j) / (members index i).card

section Groups

variable {index : Fin bs → κ}

theorem lookup_id2score (scores : Fin bs → F) (i : Fin bs) :
    (id2score index scores).lookup (index i) =
      some (valuesUnder index scores (List.finRange bs) (index i)) := by
  rw [id2score, lookup_collect, if_pos]
  exact List.mem_map_of_mem (List.mem_finRange i)

/-- Every prompt has a score, so the loop does not raise. -/
theorem groupStatistic_id2score [ToString κ] (one : F) (many : List F → F)
    (scores : Fin bs → F) :
    groupStatistic one many (id2score index scores) =
      .ok ((id2score index scores).map fun group =>
        (group.1, if group.2.length = 1 then one else many group.2)) := by
  apply mapM_eq_ok_of_forall
  intro group hgroup
  have hpos : 0 < group.2.length :=
    List.length_pos_iff.mpr (ne_nil_of_mem_collect _ _ _ group hgroup)
  by_cases hone : group.2.length = 1
  · rw [if_pos hone, if_pos hone]
  · have hmany : group.2.length > 1 := by omega
    rw [if_neg hone, if_pos hmany, if_neg hone]

theorem lookup_map_snd {α β : Type} (f : α → β) (groups : List (κ × α))
    (key : κ) :
    (groups.map fun group => (group.1, f group.2)).lookup key =
      (groups.lookup key).map f := by
  induction groups with
  | nil => rfl
  | cons group rest ih =>
      rw [List.map_cons, List.lookup_cons, List.lookup_cons, ih]
      cases key == group.1 <;> rfl

/-- The statistic a row reads is that of the scores with its label. -/
theorem dictGet_groupStatistic [ToString κ] (one : F) (many : List F → F)
    (scores : Fin bs → F) (i : Fin bs) :
    dictGet ((id2score index scores).map fun group =>
        (group.1, if group.2.length = 1 then one else many group.2))
      (index i) =
      .ok (if (members index i).card = 1 then one
        else many (valuesUnder index scores (List.finRange bs) (index i))) := by
  rw [dictGet, lookup_map_snd fun values : List F =>
    if values.length = 1 then one else many values, lookup_id2score,
    Option.map_some, length_valuesUnder]

theorem torchMean_valuesUnder [Field F] (scores : Fin bs → F) (i : Fin bs) :
    torchMean (valuesUnder index scores (List.finRange bs) (index i)) =
      (∑ j ∈ members index i, scores j) / (members index i).card := by
  rw [torchMean, sum_valuesUnder, length_valuesUnder]

end Groups

end OutcomeAdvantage

end SelfDistillation
