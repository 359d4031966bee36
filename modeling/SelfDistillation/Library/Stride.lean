/-
Every `step`-th element of a list, and the two halves of a list that are read
with step two.
-/
import Mathlib

namespace Stride

universe u

variable {α : Type u}

/-- The elements at positions `0`, `step`, `2 * step`, ... -/
def stride (step : Nat) (xs : List α) : List α :=
  (List.range ((xs.length + step - 1) / step)).filterMap fun j => xs[j * step]?

theorem stride_two_cons_cons (x y : α) (xs : List α) :
    stride 2 (x :: y :: xs) = x :: stride 2 xs := by
  have hcount : ((x :: y :: xs).length + 2 - 1) / 2 =
      (xs.length + 2 - 1) / 2 + 1 := by
    simp only [List.length_cons]
    omega
  rw [stride, hcount, List.range_succ_eq_map]
  simp only [List.filterMap_cons, List.filterMap_map]
  simp only [Nat.zero_mul, List.getElem?_cons_zero, stride]
  congr 2
  funext j
  have hj : (j + 1) * 2 = j * 2 + 1 + 1 := by omega
  simp [hj]

/-- Positions of even and of odd index together are all positions. -/
theorem stride_two_append_perm : ∀ xs : List α,
    (stride 2 xs ++ stride 2 xs.tail).Perm xs
  | [] => by simp [stride]
  | [x] => by simp [stride]
  | x :: y :: xs => by
      have htail : stride 2 (y :: xs) = y :: stride 2 xs.tail := by
        cases xs with
        | nil => simp [stride]
        | cons z zs => rw [stride_two_cons_cons, List.tail_cons]
      rw [stride_two_cons_cons, List.tail_cons, htail, List.cons_append]
      apply List.Perm.cons
      exact List.perm_middle.trans ((stride_two_append_perm xs).cons y)

theorem length_stride_two : ∀ xs : List α,
    (stride 2 xs).length = (xs.length + 1) / 2
  | [] => by simp [stride]
  | [x] => by simp [stride]
  | x :: y :: xs => by
      rw [stride_two_cons_cons, List.length_cons, length_stride_two xs]
      simp only [List.length_cons]
      omega

theorem getElem?_stride_two : ∀ (xs : List α) (i : Nat),
    (stride 2 xs)[i]? = xs[2 * i]?
  | [], i => by simp [stride]
  | [x], i => by cases i <;> simp [stride, Nat.mul_add]
  | x :: y :: xs, i => by
      rw [stride_two_cons_cons]
      cases i with
      | zero => rfl
      | succ i =>
          rw [List.getElem?_cons_succ, getElem?_stride_two xs i,
            Nat.mul_succ, List.getElem?_cons_succ, List.getElem?_cons_succ]

/-- The even positions in order, then the odd ones from the last to the
first: both ends hold the front of the list. -/
def foldToEnds (xs : List α) : List α :=
  stride 2 xs ++ (stride 2 xs.tail).reverse

theorem foldToEnds_perm (xs : List α) : (foldToEnds xs).Perm xs :=
  ((List.reverse_perm _).append_left _).trans (stride_two_append_perm xs)

/-- Where `foldToEnds` puts position `i` of a list of `n` elements. -/
def foldPosition (n i : Nat) : Nat :=
  if i % 2 = 0 then i / 2 else n - 1 - i / 2

theorem getElem?_foldToEnds {xs : List α} {i : Nat} (hi : i < xs.length) :
    (foldToEnds xs)[foldPosition xs.length i]? = xs[i]? := by
  have hfront := length_stride_two xs
  have hback := length_stride_two xs.tail
  rw [List.length_tail] at hback
  rw [foldToEnds, foldPosition]
  split
  · rename_i heven
    rw [List.getElem?_append_left (by omega), getElem?_stride_two]
    congr 1
    omega
  · rename_i hodd
    rw [List.getElem?_append_right (by omega),
      List.getElem?_reverse (by omega), getElem?_stride_two,
      List.getElem?_tail]
    congr 1
    omega

end Stride
