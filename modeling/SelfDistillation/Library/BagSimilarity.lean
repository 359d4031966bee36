/-
The similarity of two bags: the share of their union that is in both.
-/
import Mathlib

namespace BagSimilarity

universe u v

variable {κ : Type u} [DecidableEq κ]

section

variable (K : Type v) [Field K]

/-- `|s ∩ t| / |s ∪ t|`; two empty bags are alike. -/
def similarity (s t : Multiset κ) : K :=
  if s = 0 ∧ t = 0 then 1 else ((s ∩ t).card : K) / ((s ∪ t).card : K)

end

variable {K : Type v} [Field K] [LinearOrder K] [IsStrictOrderedRing K]
  {s t : Multiset κ}

theorem inter_le_union (s t : Multiset κ) : s ∩ t ≤ s ∪ t :=
  Multiset.inter_le_left.trans Multiset.le_union_left

theorem card_union_pos (h : ¬ (s = 0 ∧ t = 0)) : 0 < (s ∪ t).card := by
  rw [Multiset.card_pos, Ne, ← Multiset.le_zero, Multiset.union_le_iff,
    Multiset.le_zero, Multiset.le_zero]
  exact h

theorem similarity_nonneg (s t : Multiset κ) : 0 ≤ similarity K s t := by
  unfold similarity
  split_ifs
  · exact zero_le_one
  · positivity

theorem similarity_le_one (s t : Multiset κ) : similarity K s t ≤ 1 := by
  unfold similarity
  split_ifs with h
  · exact le_refl 1
  · have hpos : (0 : K) < (s ∪ t).card := by exact_mod_cast card_union_pos h
    rw [div_le_one hpos]
    exact_mod_cast Multiset.card_le_card (inter_le_union s t)

/-- Only equal bags are alike. -/
theorem similarity_eq_one_iff : similarity K s t = 1 ↔ s = t := by
  unfold similarity
  split_ifs with h
  · simp [h.1, h.2]
  · have hpos : (0 : K) < (s ∪ t).card := by exact_mod_cast card_union_pos h
    rw [div_eq_one_iff_eq hpos.ne', Nat.cast_inj]
    constructor
    · intro hcard
      have hsame : s ∩ t = s ∪ t :=
        Multiset.eq_of_le_of_card_le (inter_le_union s t) hcard.ge
      apply le_antisymm
      · calc s ≤ s ∪ t := Multiset.le_union_left
          _ = s ∩ t := hsame.symm
          _ ≤ t := Multiset.inter_le_right
      · calc t ≤ s ∪ t := Multiset.le_union_right
          _ = s ∩ t := hsame.symm
          _ ≤ s := Multiset.inter_le_left
    · rintro rfl
      rw [← Multiset.inf_eq_inter, ← Multiset.sup_eq_union, inf_idem, sup_idem]

end BagSimilarity
