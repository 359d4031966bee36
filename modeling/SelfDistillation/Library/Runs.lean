/-
The runs of a sequence: its positions, cut into consecutive groups wherever the
value changes.
-/
import Mathlib

namespace Runs

universe u

variable {κ : Type u} {key : Nat → κ} {n : Nat} {groups : List (List Nat)}

/-- The groups hold the positions below `n` in order, every group one value,
and neighbours of one value are in one group. -/
structure IsRuns (key : Nat → κ) (n : Nat) (groups : List (List Nat)) :
    Prop where
  flatten : groups.flatten = List.range n
  same : ∀ group ∈ groups, ∀ i ∈ group, ∀ j ∈ group, key i = key j
  adjacent : ∀ i, i + 1 < n → key i = key (i + 1) →
    ∃ group ∈ groups, i ∈ group ∧ i + 1 ∈ group
  ne_nil : ∀ group ∈ groups, group ≠ []

/-- All groups, taken by their number, are all positions. -/
theorem flatMap_getD_range (groups : List (List Nat)) :
    ((List.range groups.length).flatMap fun g => groups.getD g []) =
      groups.flatten := by
  rw [List.flatMap_def]
  apply congrArg
  apply List.ext_getElem (by simp)
  intro g hg hg'
  simp [hg']

/-- Positions of one value have nothing else between them. -/
def Contiguous (key : Nat → κ) (n : Nat) : Prop :=
  ∀ i j l, i ≤ j → j ≤ l → l < n → key i = key l → key j = key i

namespace IsRuns

theorem nil (key : Nat → κ) : IsRuns key 0 [] where
  flatten := rfl
  same := by simp
  adjacent := by
    intro i hi
    omega
  ne_nil := by simp

/-- A new value starts a new group. -/
theorem snoc_new (h : IsRuns key n groups)
    (hnew : ∀ m, n = m + 1 → key m ≠ key n) :
    IsRuns key (n + 1) (groups ++ [[n]]) where
  flatten := by simp [h.flatten, List.range_succ]
  same := by
    intro group hgroup i hi j hj
    rcases List.mem_append.mp hgroup with hgroup | hgroup
    · exact h.same group hgroup i hi j hj
    · rw [List.mem_singleton.mp hgroup] at hi hj
      rw [List.mem_singleton.mp hi, List.mem_singleton.mp hj]
  adjacent := by
    intro i hi heq
    rcases Nat.lt_or_eq_of_le (Nat.lt_succ_iff.mp hi) with hlt | hlast
    · obtain ⟨group, hgroup, hmem⟩ := h.adjacent i hlt heq
      exact ⟨group, List.mem_append_left _ hgroup, hmem⟩
    · rw [hlast] at heq
      exact absurd heq (hnew i hlast.symm)
  ne_nil := by
    intro group hgroup
    rcases List.mem_append.mp hgroup with hgroup | hgroup
    · exact h.ne_nil group hgroup
    · rw [List.mem_singleton.mp hgroup]
      exact List.cons_ne_nil n []

/-- The same value again extends the last group. -/
theorem snoc_same {last : List Nat} (h : IsRuns key n (groups ++ [last]))
    (hlast : ∀ m, n = m + 1 → m ∈ last ∧ key m = key n) (hn : n ≠ 0) :
    IsRuns key (n + 1) (groups ++ [last ++ [n]]) where
  flatten := by
    have hflat := h.flatten
    rw [List.flatten_append, List.flatten_cons, List.flatten_nil,
      List.append_nil] at hflat
    rw [List.flatten_append, List.flatten_cons, List.flatten_nil,
      List.append_nil, ← List.append_assoc, hflat, List.range_succ]
  same := by
    obtain ⟨m, hm⟩ := Nat.exists_eq_succ_of_ne_zero hn
    obtain ⟨hmem, hkey⟩ := hlast m hm
    have hall : ∀ i ∈ last ++ [n], key i = key n := by
      intro i hi
      rcases List.mem_append.mp hi with hi | hi
      · exact (h.same last (by simp) i hi m hmem).trans hkey
      · rw [List.mem_singleton.mp hi]
    intro group hgroup i hi j hj
    rcases List.mem_append.mp hgroup with hgroup | hgroup
    · exact h.same group (List.mem_append_left _ hgroup) i hi j hj
    · rw [List.mem_singleton.mp hgroup] at hi hj
      exact (hall i hi).trans (hall j hj).symm
  adjacent := by
    intro i hi heq
    rcases Nat.lt_or_eq_of_le (Nat.lt_succ_iff.mp hi) with hlt | hend
    · obtain ⟨group, hgroup, hi, hi'⟩ := h.adjacent i hlt heq
      rcases List.mem_append.mp hgroup with hgroup | hgroup
      · exact ⟨group, List.mem_append_left _ hgroup, hi, hi'⟩
      · rw [List.mem_singleton.mp hgroup] at hi hi'
        exact ⟨last ++ [n], by simp, by simp [hi], by simp [hi']⟩
    · exact ⟨last ++ [n], by simp, by simp [(hlast i hend.symm).1],
        by simp [hend]⟩
  ne_nil := by
    intro group hgroup
    rcases List.mem_append.mp hgroup with hgroup | hgroup
    · exact h.ne_nil group (List.mem_append_left _ hgroup)
    · rw [List.mem_singleton.mp hgroup]
      simp

theorem exists_group (h : IsRuns key n groups) {i : Nat} (hi : i < n) :
    ∃ g, ∃ hg : g < groups.length, i ∈ groups[g] := by
  have hmem : i ∈ groups.flatten := by
    rw [h.flatten]
    exact List.mem_range.mpr hi
  obtain ⟨group, hgroup, hi⟩ := List.mem_flatten.mp hmem
  obtain ⟨g, hg, rfl⟩ := List.mem_iff_getElem.mp hgroup
  exact ⟨g, hg, hi⟩

theorem lt_of_mem (h : IsRuns key n groups) {group : List Nat}
    (hgroup : group ∈ groups) {i : Nat} (hi : i ∈ group) : i < n := by
  rw [← List.mem_range, ← h.flatten]
  exact List.mem_flatten.mpr ⟨group, hgroup, hi⟩

/-- Groups follow one another as their positions do. -/
theorem lt_of_group_lt (h : IsRuns key n groups) {g g' : Nat}
    (hg : g < groups.length) (hg' : g' < groups.length) (hlt : g < g')
    {i j : Nat} (hi : i ∈ groups[g]) (hj : j ∈ groups[g']) : i < j := by
  have hsorted : groups.flatten.Pairwise (· < ·) := by
    rw [h.flatten]
    exact List.pairwise_lt_range
  exact List.pairwise_iff_getElem.mp (List.pairwise_flatten.mp hsorted).2
    g g' hg hg' hlt i hi j hj

/-- A position is in one group only. -/
theorem group_unique (h : IsRuns key n groups) {g g' : Nat}
    (hg : g < groups.length) (hg' : g' < groups.length) {i : Nat}
    (hi : i ∈ groups[g]) (hi' : i ∈ groups[g']) : g = g' := by
  rcases Nat.lt_trichotomy g g' with hlt | heq | hlt
  · exact absurd (h.lt_of_group_lt hg hg' hlt hi hi') (Nat.lt_irrefl i)
  · exact heq
  · exact absurd (h.lt_of_group_lt hg' hg hlt hi' hi) (Nat.lt_irrefl i)

/-- What lies between positions of one group is in that group. -/
theorem key_between (h : IsRuns key n groups) {g : Nat}
    (hg : g < groups.length) {i j l : Nat} (hi : i ∈ groups[g])
    (hl : l ∈ groups[g]) (hij : i ≤ j) (hjl : j ≤ l) : key j = key i := by
  have hn : j < n :=
    Nat.lt_of_le_of_lt hjl (h.lt_of_mem (List.getElem_mem hg) hl)
  obtain ⟨g', hg', hj⟩ := h.exists_group hn
  rcases Nat.lt_trichotomy g g' with hlt | rfl | hlt
  · have := h.lt_of_group_lt hg hg' hlt hl hj
    omega
  · exact h.same _ (List.getElem_mem hg) j hj i hi
  · have := h.lt_of_group_lt hg' hg hlt hj hi
    omega

/-- In a contiguous sequence positions of one value share a group. By
induction on their distance. -/
theorem same_group (h : IsRuns key n groups) (hc : Contiguous key n)
    (d : Nat) {i g : Nat} (hg : g < groups.length) (hi : i ∈ groups[g])
    (hd : i + d < n) (hkey : key i = key (i + d)) : i + d ∈ groups[g] := by
  induction d with
  | zero => exact hi
  | succ d ih =>
      have hprev : key (i + d) = key i :=
        hc i (i + d) (i + (d + 1)) (by omega) (by omega) hd hkey
      have hmem := ih (by omega) hprev.symm
      obtain ⟨group, hgroup, hleft, hright⟩ :=
        h.adjacent (i + d) hd (hprev.trans hkey)
      obtain ⟨g', hg', rfl⟩ := List.mem_iff_getElem.mp hgroup
      obtain rfl := h.group_unique hg hg' hmem hleft
      exact hright

theorem group_eq_of_key_eq (h : IsRuns key n groups) (hc : Contiguous key n)
    {g g' : Nat} (hg : g < groups.length) (hg' : g' < groups.length)
    {i j : Nat} (hi : i ∈ groups[g]) (hj : j ∈ groups[g'])
    (hkey : key i = key j) : g = g' := by
  have hin := h.lt_of_mem (List.getElem_mem hg) hi
  have hjn := h.lt_of_mem (List.getElem_mem hg') hj
  rcases Nat.le_total i j with hle | hle
  · obtain ⟨d, rfl⟩ := Nat.exists_eq_add_of_le hle
    exact h.group_unique hg hg' (h.same_group hc d hg hi hjn hkey) hj
  · obtain ⟨d, rfl⟩ := Nat.exists_eq_add_of_le hle
    exact h.group_unique hg hg' hi (h.same_group hc d hg' hj hin hkey.symm)

/-- In a contiguous sequence some of the groups have as many values as they
are groups. -/
theorem length_dedup_keys [DecidableEq κ] (h : IsRuns key n groups)
    (hc : Contiguous key n) {gs : List Nat} (hgs : gs.Nodup)
    (hlt : ∀ g ∈ gs, g < groups.length) :
    ((gs.flatMap fun g => groups.getD g []).map key).dedup.length =
      gs.length := by
  have hfirst : ∀ g (hg : g < groups.length), ∃ i ∈ groups[g],
      key ((groups.getD g []).headD 0) = key i := by
    intro g hg
    obtain ⟨i, rest, heq⟩ := List.exists_cons_of_ne_nil
      (h.ne_nil _ (List.getElem_mem hg))
    refine ⟨i, by rw [heq]; exact List.mem_cons_self, ?_⟩
    rw [List.getD_eq_getElem _ _ hg, heq]
    rfl
  have hnodup : (gs.map fun g => key ((groups.getD g []).headD 0)).Nodup := by
    apply List.Nodup.map_on _ hgs
    intro g hg g' hg' heq
    obtain ⟨i, hi, hkey⟩ := hfirst g (hlt g hg)
    obtain ⟨j, hj, hkey'⟩ := hfirst g' (hlt g' hg')
    exact h.group_eq_of_key_eq hc _ _ hi hj
      (hkey.symm.trans (heq.trans hkey'))
  have hperm : ((gs.flatMap fun g => groups.getD g []).map key).dedup.Perm
      (gs.map fun g => key ((groups.getD g []).headD 0)) := by
    apply (List.perm_ext_iff_of_nodup (List.nodup_dedup _) hnodup).mpr
    intro value
    rw [List.mem_dedup, List.mem_map, List.mem_map]
    constructor
    · rintro ⟨i, hi, rfl⟩
      obtain ⟨g, hg, hmem⟩ := List.mem_flatMap.mp hi
      rw [List.getD_eq_getElem _ _ (hlt g hg)] at hmem
      obtain ⟨j, hj, hkey⟩ := hfirst g (hlt g hg)
      exact ⟨g, hg, hkey.trans
        (h.same _ (List.getElem_mem (hlt g hg)) j hj i hmem)⟩
    · rintro ⟨g, hg, rfl⟩
      obtain ⟨j, hj, hkey⟩ := hfirst g (hlt g hg)
      refine ⟨j, List.mem_flatMap.mpr ⟨g, hg, ?_⟩, hkey.symm⟩
      rw [List.getD_eq_getElem _ _ (hlt g hg)]
      exact hj
  rw [hperm.length_eq, List.length_map]

/-- As many groups as values. -/
theorem length_groups [DecidableEq κ] (h : IsRuns key n groups)
    (hc : Contiguous key n) :
    ((List.range n).map key).dedup.length = groups.length := by
  have hcount := h.length_dedup_keys hc List.nodup_range
    (fun g hg => List.mem_range.mp hg)
  rw [flatMap_getD_range, h.flatten, List.length_range] at hcount
  exact hcount

end IsRuns

end Runs
