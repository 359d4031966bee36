/-
In a list that is strictly sorted by a key, the position of an element is the
number of elements with a smaller key.
-/
import Mathlib

namespace SortedRank

universe u v

variable {α : Type u} {κ : Type v} [LinearOrder κ] {key : α → κ}

theorem getElem?_eq_some_iff {xs : List α}
    (hsorted : xs.Pairwise fun x y => key x < key y) {i : Nat} {x : α} :
    xs[i]? = some x ↔
      x ∈ xs ∧ i = xs.countP fun y => decide (key y < key x) := by
  induction xs generalizing i with
  | nil => simp
  | cons head tail ih =>
      obtain ⟨hhead, htail⟩ := List.pairwise_cons.mp hsorted
      have hbelow : ∀ y ∈ tail, decide (key y < key head) = false :=
        fun y hy => by simpa using (hhead y hy).le
      have hzero : (tail.countP fun y => decide (key y < key head)) = 0 :=
        List.countP_eq_zero.mpr fun y hy => by simp [hbelow y hy]
      have hsucc : ∀ y ∈ tail, ((head :: tail).countP fun z =>
          decide (key z < key y)) =
            (tail.countP fun z => decide (key z < key y)) + 1 :=
        fun y hy => by simp [hhead y hy]
      have hself : ((head :: tail).countP fun z =>
          decide (key z < key head)) = 0 := by simp [hzero]
      rw [List.mem_cons]
      cases i with
      | zero =>
          rw [List.getElem?_cons_zero, Option.some.injEq]
          constructor
          · rintro rfl
            exact ⟨.inl rfl, hself.symm⟩
          · rintro ⟨rfl | hx, hcount⟩
            · rfl
            · rw [hsucc x hx] at hcount
              omega
      | succ i =>
          rw [List.getElem?_cons_succ, ih htail]
          constructor
          · rintro ⟨hx, rfl⟩
            exact ⟨.inr hx, (hsucc x hx).symm⟩
          · rintro ⟨rfl | hx, hcount⟩
            · rw [hself] at hcount
              omega
            · rw [hsucc x hx] at hcount
              exact ⟨hx, by omega⟩

end SortedRank
