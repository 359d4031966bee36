/-
Reading a list at a list of positions, writing values at a list of positions,
and the inverse of a permutation that such writes compute.
-/
import Mathlib

namespace Gather

universe u v

variable {α : Type u} {β : Type v}

/-- The elements at the given positions, if all of them exist. -/
def gather (xs : List α) (idx : List Nat) : Option (List α) :=
  idx.mapM fun i => xs[i]?

theorem gather_nil (xs : List α) : gather xs [] = some [] := rfl

theorem gather_cons (xs : List α) (i : Nat) (idx : List Nat) :
    gather xs (i :: idx) =
      xs[i]?.bind fun x => (gather xs idx).map (x :: ·) := by
  rw [gather, List.mapM_cons]
  cases xs[i]? with
  | none => rfl
  | some x =>
      cases h : gather xs idx with
      | none =>
          rw [gather] at h
          simp [h]
      | some ys =>
          rw [gather] at h
          simp [h]

theorem gather_eq_some_iff {xs ys : List α} {idx : List Nat} :
    gather xs idx = some ys ↔
      List.Forall₂ (fun i y => xs[i]? = some y) idx ys := by
  induction idx generalizing ys with
  | nil => simp [gather_nil, eq_comm]
  | cons i idx ih =>
      rw [gather_cons, List.forall₂_cons_left_iff]
      simp only [Option.bind_eq_some_iff, Option.map_eq_some_iff, ih]
      constructor
      · rintro ⟨x, hx, zs, hzs, rfl⟩
        exact ⟨x, zs, hx, hzs, rfl⟩
      · rintro ⟨x, zs, hx, hzs, rfl⟩
        exact ⟨x, hx, zs, hzs, rfl⟩

theorem length_of_gather {xs ys : List α} {idx : List Nat}
    (h : gather xs idx = some ys) : ys.length = idx.length :=
  (gather_eq_some_iff.mp h).length_eq.symm

theorem getElem?_of_gather {xs ys : List α} {idx : List Nat}
    (h : gather xs idx = some ys) (j : Nat) :
    ys[j]? = idx[j]?.bind fun i => xs[i]? := by
  have hall := gather_eq_some_iff.mp h
  clear h
  induction hall generalizing j with
  | nil => simp
  | cons hx _ ih =>
      cases j with
      | zero => simp [hx]
      | succ j => simpa using ih j

theorem gather_range (xs : List α) :
    gather xs (List.range xs.length) = some xs := by
  rw [gather_eq_some_iff, List.forall₂_iff_get]
  refine ⟨List.length_range, fun i hi hi' => ?_⟩
  simp [List.getElem?_eq_getElem hi']

theorem exists_gather {xs : List α} {idx : List Nat}
    (h : ∀ i ∈ idx, i < xs.length) : ∃ ys, gather xs idx = some ys := by
  induction idx with
  | nil => exact ⟨[], rfl⟩
  | cons i idx ih =>
      obtain ⟨hi, hidx⟩ := List.forall_mem_cons.mp h
      obtain ⟨ys, hys⟩ := ih hidx
      refine ⟨xs[i] :: ys, ?_⟩
      rw [gather_cons, List.getElem?_eq_getElem hi, hys]
      rfl

theorem gather_map (f : α → β) (xs : List α) (idx : List Nat) :
    gather (xs.map f) idx = (gather xs idx).map (List.map f) := by
  induction idx with
  | nil => rfl
  | cons i idx ih =>
      rw [gather_cons, gather_cons, ih, List.getElem?_map]
      cases xs[i]? <;> cases gather xs idx <;> rfl

theorem gather_append (xs : List α) (idx idx' : List Nat) :
    gather xs (idx ++ idx') = (gather xs idx).bind fun ys =>
      (gather xs idx').map (ys ++ ·) := by
  induction idx with
  | nil =>
      rw [List.nil_append, gather_nil]
      cases gather xs idx' <;> rfl
  | cons i idx ih =>
      rw [List.cons_append, gather_cons, gather_cons, ih]
      cases xs[i]? <;> cases gather xs idx <;> cases gather xs idx' <;> rfl

/-- Pieces read one after the other are the reading of all positions. -/
theorem gather_flatten {xs : List α} {idxs : List (List Nat)}
    {yss : List (List α)}
    (h : List.Forall₂ (fun idx ys => gather xs idx = some ys) idxs yss) :
    gather xs idxs.flatten = some yss.flatten := by
  induction h with
  | nil => rfl
  | cons hys _ ih =>
      rw [List.flatten_cons, gather_append, hys, ih]
      rfl

section Scatter

/-- `base` with every written position overwritten in order. -/
def scatter (base : List β) (writes : List (Nat × β)) : List β :=
  writes.foldl (fun acc write => acc.set write.1 write.2) base

@[simp] theorem length_scatter (base : List β) (writes : List (Nat × β)) :
    (scatter base writes).length = base.length := by
  induction writes generalizing base with
  | nil => rfl
  | cons write writes ih =>
      rw [scatter, List.foldl_cons]
      exact (ih _).trans List.length_set

theorem getElem?_scatter_of_notMem {base : List β}
    {writes : List (Nat × β)} {k : Nat}
    (hk : k ∉ writes.map Prod.fst) : (scatter base writes)[k]? = base[k]? := by
  induction writes generalizing base with
  | nil => rfl
  | cons write writes ih =>
      simp only [List.map_cons, List.mem_cons, not_or] at hk
      rw [scatter, List.foldl_cons]
      exact (ih hk.2).trans (List.getElem?_set_ne (Ne.symm hk.1))

/-- Positions written at most once hold what was written. -/
theorem getElem?_scatter_of_mem {base : List β} {writes : List (Nat × β)}
    (hnodup : (writes.map Prod.fst).Nodup) {k : Nat} {b : β}
    (hmem : (k, b) ∈ writes) (hk : k < base.length) :
    (scatter base writes)[k]? = some b := by
  induction writes generalizing base with
  | nil => simp at hmem
  | cons write writes ih =>
      simp only [List.map_cons, List.nodup_cons] at hnodup
      rw [scatter, List.foldl_cons]
      rcases List.mem_cons.mp hmem with rfl | hmem
      · refine (getElem?_scatter_of_notMem hnodup.1).trans ?_
        simp [hk]
      · exact ih hnodup.2 hmem (by simpa using hk)

end Scatter

section Inverse

/-- Every position is written the place it was read from. -/
def IsInverse (idx inverse : List Nat) : Prop :=
  inverse.length = idx.length ∧
    ∀ i j : Nat, idx[i]? = some j → inverse[j]? = some i

/-- Writing every index at the position it names inverts a permutation. -/
theorem isInverse_scatter {idx base : List Nat}
    (hperm : idx.Perm (List.range idx.length))
    (hbase : base.length = idx.length) :
    IsInverse idx (scatter base idx.zipIdx) := by
  refine ⟨by simp [hbase], ?_⟩
  intro i j hij
  have hnodup : (idx.zipIdx.map Prod.fst).Nodup := by
    rw [List.zipIdx_map_fst]
    exact hperm.nodup_iff.mpr List.nodup_range
  apply getElem?_scatter_of_mem hnodup
  · exact List.mem_zipIdx_iff_getElem?.mpr hij
  · rw [hbase]
    exact List.mem_range.mp (hperm.mem_iff.mp (List.mem_of_getElem? hij))

/-- Reading in the order of a permutation and then in the order of its
inverse restores the original order. -/
theorem gather_inverse {xs ys : List α} {idx inverse : List Nat}
    (hperm : idx.Perm (List.range xs.length))
    (hinverse : IsInverse idx inverse) (hys : gather xs idx = some ys) :
    gather ys inverse = some xs := by
  have hlen : idx.length = xs.length := by simpa using hperm.length_eq
  rw [gather_eq_some_iff, List.forall₂_iff_get]
  refine ⟨by rw [hinverse.1, hlen], ?_⟩
  intro j hj hj'
  have hmem : j ∈ idx := hperm.mem_iff.mpr (List.mem_range.mpr hj')
  obtain ⟨i, hi, hij⟩ := List.mem_iff_getElem.mp hmem
  have hget : idx[i]? = some j := List.getElem?_eq_some_iff.mpr ⟨hi, hij⟩
  have hinv : inverse[j]? = some i := hinverse.2 i j hget
  have heq : inverse.get ⟨j, hj⟩ = i :=
    (List.getElem?_eq_some_iff.mp hinv).2
  rw [heq, getElem?_of_gather hys, hget]
  exact List.getElem?_eq_getElem hj'

end Inverse

end Gather
