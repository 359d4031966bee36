/-
Greedy matching: each of some demands takes, in turn, the first of the offers
left that scores best for it, if any scores at all.
-/
import Mathlib

namespace GreedyMatching

universe u v w

variable {γ : Type u} {α : Type v} {K : Type w}

section Best

variable [LinearOrder K] [Zero K]

/-- The first offer with the greatest score, if that is positive. -/
def best (score : α → K) (offers : List α) : Option α :=
  offers.foldl (fun best x =>
    if best.elim 0 score < score x then some x else best) none

variable {score : α → K} {offers : List α} {x : α}

@[simp] theorem best_nil : best score [] = none := rfl

theorem best_append_singleton (offers : List α) (x : α) :
    best score (offers ++ [x]) =
      if (best score offers).elim 0 score < score x then some x
      else best score offers := by
  rw [best, List.foldl_append]
  rfl

/-- The best offer comes before every other one that scores as much. -/
structure IsBest (score : α → K) (offers : List α) (x : α) : Prop where
  pos : 0 < score x
  first : ∃ before after, offers = before ++ x :: after ∧
    (∀ y ∈ before, score y < score x) ∧ ∀ y ∈ after, score y ≤ score x

theorem IsBest.le (h : IsBest score offers x) {y : α} (hy : y ∈ offers) :
    score y ≤ score x := by
  obtain ⟨before, after, rfl, hbefore, hafter⟩ := h.first
  rcases List.mem_append.mp hy with hy | hy
  · exact (hbefore y hy).le
  · rcases List.mem_cons.mp hy with rfl | hy
    · exact le_refl _
    · exact hafter y hy

theorem IsBest.mem (h : IsBest score offers x) : x ∈ offers := by
  obtain ⟨before, after, rfl, -, -⟩ := h.first
  simp

/-- The scan finds the best offer, or none scores. -/
theorem best_spec (score : α → K) (offers : List α) :
    (∃ x, best score offers = some x ∧ IsBest score offers x) ∨
      best score offers = none ∧ ∀ y ∈ offers, score y ≤ 0 := by
  induction offers using List.reverseRecOn with
  | nil => simp
  | append_singleton offers last ih =>
      rw [best_append_singleton]
      rcases ih with ⟨x, hbest, hx⟩ | ⟨hbest, hnone⟩
      · rw [hbest]
        by_cases hlast : score x < score last
        · refine Or.inl ⟨last, if_pos hlast, hx.pos.trans hlast, offers, [],
            rfl, fun y hy => (hx.le hy).trans_lt hlast, by simp⟩
        · obtain ⟨before, after, rfl, hbefore, hafter⟩ := hx.first
          refine Or.inl ⟨x, if_neg hlast, hx.pos, before, after ++ [last],
            by simp, hbefore, fun y hy => ?_⟩
          rcases List.mem_append.mp hy with hy | hy
          · exact hafter y hy
          · rw [List.mem_singleton.mp hy]
            exact not_lt.mp hlast
      · rw [hbest]
        by_cases hlast : 0 < score last
        · exact Or.inl ⟨last, if_pos hlast, hlast, offers, [], rfl,
            fun y hy => (hnone y hy).trans_lt hlast, by simp⟩
        · refine Or.inr ⟨if_neg hlast, fun y hy => ?_⟩
          rcases List.mem_append.mp hy with hy | hy
          · exact hnone y hy
          · rw [List.mem_singleton.mp hy]
            exact not_lt.mp hlast

theorem isBest_of_best (h : best score offers = some x) :
    IsBest score offers x := by
  rcases best_spec score offers with ⟨y, hy, hbest⟩ | ⟨hnone, -⟩
  · rw [h] at hy
    cases hy
    exact hbest
  · rw [h] at hnone
    cases hnone

/-- The best offer is the first of those that score as much. -/
theorem IsBest.filter_eq (h : IsBest score offers x) {p : α → Bool}
    (hx : p x) (hp : ∀ z, p z → score z = score x) :
    ∃ after, offers.filter p = x :: after := by
  obtain ⟨before, after, rfl, hbefore, -⟩ := h.first
  have hnone : before.filter p = [] := by
    rw [List.filter_eq_nil_iff]
    intro z hz hpz
    exact (hbefore z hz).ne (hp z hpz)
  rw [List.filter_append, hnone, List.nil_append, List.filter_cons_of_pos hx]
  exact ⟨_, rfl⟩

/-- Scoring offers through a map is scoring what it maps them to. -/
theorem best_map {β : Type*} (f : β → α) (items : List β) :
    best score (items.map f) = (best (score ∘ f) items).map f := by
  induction items using List.reverseRecOn with
  | nil => rfl
  | append_singleton items last ih =>
      rw [List.map_append, List.map_singleton, best_append_singleton,
        best_append_singleton, ih]
      have helim : ((best (score ∘ f) items).map f).elim 0 score =
          (best (score ∘ f) items).elim 0 (score ∘ f) := by
        cases best (score ∘ f) items <;> rfl
      rw [helim, Function.comp_apply]
      split_ifs <;> rfl

end Best

section Total

variable [AddCommMonoid K] [LinearOrder K] [DecidableEq α]

/-- What the demands get in all, each from an offer of its own. -/
def total (score : γ → α → K) : List γ → List α → K
  | [], _ => 0
  | g :: demands, offers =>
      match best (score g) offers with
      | none => total score demands offers
      | some x => score g x + total score demands (offers.erase x)

variable {score : γ → α → K}

theorem total_cons_of_none {g : γ} {demands : List γ} {offers : List α}
    (h : best (score g) offers = none) :
    total score (g :: demands) offers = total score demands offers := by
  rw [total, h]

theorem total_cons_of_some {g : γ} {demands : List γ} {offers : List α}
    {x : α} (h : best (score g) offers = some x) :
    total score (g :: demands) offers =
      score g x + total score demands (offers.erase x) := by
  rw [total, h]

/-- The offers of two lists that tie for a demand stand in the same order in
both. -/
def SameTies (score : γ → α → K) (demands : List γ) (left right : List α) :
    Prop :=
  ∀ g ∈ demands, ∀ x y, 0 < score g x → score g x = score g y →
    left.filter (fun z => z = x ∨ z = y) =
      right.filter fun z => z = x ∨ z = y

theorem SameTies.erase {demands : List γ} {left right : List α}
    (h : SameTies score demands left right) (x : α) :
    SameTies score demands (left.erase x) (right.erase x) := by
  intro g hg y z hpos htie
  rw [← List.erase_filter, ← List.erase_filter, h g hg y z hpos htie]

/-- Reordered offers have the same best one if those that tie keep their
order. -/
theorem best_eq_of_perm {g : γ} {left right : List α} (hperm : left.Perm right)
    (hties : ∀ x y, 0 < score g x → score g x = score g y →
      left.filter (fun z => z = x ∨ z = y) =
        right.filter fun z => z = x ∨ z = y) :
    best (score g) left = best (score g) right := by
  rcases best_spec (score g) left with ⟨x, hx, hbest⟩ | ⟨hnone, hle⟩
  · rcases best_spec (score g) right with ⟨y, hy, hbest'⟩ | ⟨hnone', hle'⟩
    · have htie : score g x = score g y := le_antisymm
        (hbest'.le (hperm.mem_iff.mp hbest.mem))
        (hbest.le (hperm.mem_iff.mpr hbest'.mem))
      have hscore : ∀ z, decide (z = x ∨ z = y) = true →
          score g z = score g x ∧ score g z = score g y := by
        intro z hz
        rcases of_decide_eq_true hz with rfl | rfl
        · exact ⟨rfl, htie⟩
        · exact ⟨htie.symm, rfl⟩
      obtain ⟨after, hafter⟩ :=
        hbest.filter_eq (by simp) fun z hz => (hscore z hz).1
      obtain ⟨after', hafter'⟩ :=
        hbest'.filter_eq (by simp) fun z hz => (hscore z hz).2
      have hsame := hties x y hbest.pos htie
      rw [hafter, hafter'] at hsame
      rw [hx, hy, (List.cons.inj hsame).1]
    · exact absurd (hle' x (hperm.mem_iff.mp hbest.mem)) (not_le.mpr hbest.pos)
  · rcases best_spec (score g) right with ⟨y, hy, hbest'⟩ | ⟨hnone', hle'⟩
    · exact absurd (hle y (hperm.mem_iff.mpr hbest'.mem))
        (not_le.mpr hbest'.pos)
    · rw [hnone, hnone']

/-- Greedy matching does not see an order in which no offers that tie change
places. -/
theorem total_eq_of_perm {demands : List γ} {left right : List α}
    (hperm : left.Perm right) (hties : SameTies score demands left right) :
    total score demands left = total score demands right := by
  induction demands generalizing left right with
  | nil => rfl
  | cons g demands ih =>
      have hrest : SameTies score demands left right :=
        fun g' hg' => hties g' (List.mem_cons_of_mem g hg')
      have hbest := best_eq_of_perm hperm (hties g List.mem_cons_self)
      cases hleft : best (score g) left with
      | none =>
          rw [total_cons_of_none hleft, total_cons_of_none (hbest ▸ hleft),
            ih hperm hrest]
      | some x =>
          rw [total_cons_of_some hleft, total_cons_of_some (hbest ▸ hleft),
            ih (hperm.erase x) (hrest.erase x)]

end Total

section Bounds

variable [AddCommMonoid K] [LinearOrder K] [IsOrderedCancelAddMonoid K]
  [DecidableEq α] {score : γ → α → K} {bound : γ → K}

theorem total_nonneg (demands : List γ) (offers : List α) :
    0 ≤ total score demands offers := by
  induction demands generalizing offers with
  | nil => exact le_refl 0
  | cons g demands ih =>
      cases hbest : best (score g) offers with
      | none =>
          rw [total_cons_of_none hbest]
          exact ih offers
      | some x =>
          rw [total_cons_of_some hbest]
          exact add_nonneg (isBest_of_best hbest).pos.le (ih _)

/-- No demand gets more than its bound. -/
theorem total_le (hbound : ∀ g x, score g x ≤ bound g)
    (hpos : ∀ g, 0 < bound g) (demands : List γ) (offers : List α) :
    total score demands offers ≤ (demands.map bound).sum := by
  induction demands generalizing offers with
  | nil => exact le_refl 0
  | cons g demands ih =>
      rw [List.map_cons, List.sum_cons]
      cases hbest : best (score g) offers with
      | none =>
          rw [total_cons_of_none hbest]
          exact (ih offers).trans (le_add_of_nonneg_left (hpos g).le)
      | some x =>
          rw [total_cons_of_some hbest]
          exact add_le_add (hbound g x) (ih _)

/-- Where each demand is met in full by one offer only, all are met in full
exactly if those offers are there. -/
theorem total_eq_sum_iff {full : γ → α} (hbound : ∀ g x, score g x ≤ bound g)
    (hpos : ∀ g, 0 < bound g) (hfull : ∀ g x, score g x = bound g ↔ x = full g)
    (demands : List γ) (offers : List α) :
    total score demands offers = (demands.map bound).sum ↔
      List.Subperm (demands.map full) offers := by
  induction demands generalizing offers with
  | nil => simp [total]
  | cons g demands ih =>
      rw [List.map_cons, List.map_cons, List.sum_cons]
      constructor
      · intro htotal
        cases hbest : best (score g) offers with
        | none =>
            rw [total_cons_of_none hbest] at htotal
            have hle := total_le hbound hpos demands offers
            rw [htotal] at hle
            exact absurd hle (not_le.mpr (lt_add_of_pos_left _ (hpos g)))
        | some x =>
            rw [total_cons_of_some hbest] at htotal
            have hrest := total_le hbound hpos demands (offers.erase x)
            have hx := hbound g x
            obtain ⟨hgx, hsum⟩ := (add_eq_add_iff_eq_and_eq hx hrest).mp htotal
            have hmem := (isBest_of_best hbest).mem
            rw [(hfull g x).mp hgx] at hsum hmem
            have hsub := (List.subperm_cons (full g)).mpr
              ((ih _).mp hsum)
            exact hsub.trans (List.perm_cons_erase hmem).symm.subperm
      · intro hsub
        have hmem : full g ∈ offers := hsub.subset List.mem_cons_self
        have hscore : score g (full g) = bound g := (hfull g _).mpr rfl
        rcases best_spec (score g) offers with ⟨x, hx, hbest⟩ | ⟨-, hnone⟩
        · have hx' : x = full g := by
            rw [← hfull]
            exact le_antisymm (hbound g x) (hscore ▸ hbest.le hmem)
          subst hx'
          have hrest := hsub.erase (full g)
          rw [List.erase_cons_head] at hrest
          rw [total_cons_of_some hx, hscore, (ih _).mpr hrest]
        · have hle := hnone _ hmem
          rw [hscore] at hle
          exact absurd hle (not_le.mpr (hpos g))

end Bounds

end GreedyMatching
