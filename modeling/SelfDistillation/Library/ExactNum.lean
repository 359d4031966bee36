/-
Exact arithmetic with the divisions a floating-point program performs: a
division by zero leaves no number, and nothing computed from it is one.
-/
import Mathlib

namespace ExactNum

universe u v

/-- A number, or nothing after a division by zero. -/
abbrev Num (F : Type u) := Option F

variable {F : Type u} {α : Type v}

section Sum

variable [AddCommMonoid F]

/-- The sum, if all summands are numbers. -/
def total (xs : List (Num F)) : Num F :=
  xs.foldr (fun x acc => x.bind fun a => acc.map (a + ·)) (some 0)

@[simp] theorem total_nil : total ([] : List (Num F)) = some 0 := rfl

theorem total_cons (x : Num F) (xs : List (Num F)) :
    total (x :: xs) = x.bind fun a => (total xs).map (a + ·) := rfl

@[simp] theorem total_map_some (f : α → F) (xs : List α) :
    total (xs.map fun x => some (f x)) = some (xs.map f).sum := by
  induction xs with
  | nil => rfl
  | cons x xs ih =>
      rw [List.map_cons, total_cons, ih]
      rfl

theorem total_eq_none_of_mem {xs : List (Num F)} (h : none ∈ xs) :
    total xs = none := by
  induction xs with
  | nil => cases h
  | cons x xs ih =>
      rw [total_cons]
      rcases List.mem_cons.mp h with rfl | h
      · rfl
      · rw [ih h]
        cases x <;> rfl

theorem total_isSome {xs : List (Num F)} (h : ∀ x ∈ xs, x.isSome) :
    (total xs).isSome := by
  induction xs with
  | nil => rfl
  | cons x xs ih =>
      have hx := h x List.mem_cons_self
      have hrest := ih fun y hy => h y (List.mem_cons_of_mem x hy)
      obtain ⟨a, rfl⟩ := Option.isSome_iff_exists.mp hx
      obtain ⟨c, hc⟩ := Option.isSome_iff_exists.mp hrest
      rw [total_cons, hc]
      rfl

end Sum

theorem isSome_bind {x : Option α} {β : Type v} {f : α → Option β}
    (hx : x.isSome) (hf : ∀ a, (f a).isSome) : (x >>= f).isSome := by
  obtain ⟨a, rfl⟩ := Option.isSome_iff_exists.mp hx
  exact hf a

section Division

variable [Field F] [DecidableEq F]

/-- Exact division. -/
def divide (x y : F) : Num F := if y = 0 then none else some (x / y)

theorem divide_of_ne_zero (x : F) {y : F} (hy : y ≠ 0) :
    divide x y = some (x / y) := if_neg hy

@[simp] theorem divide_zero (x : F) : divide x 0 = none := if_pos rfl

theorem divide_eq_none_iff {x y : F} : divide x y = none ↔ y = 0 := by
  by_cases hy : y = 0 <;> simp [divide, hy]

/-- The arithmetic mean; of no numbers there is none. -/
def mean (xs : List (Num F)) : Num F :=
  (total xs).bind fun x => divide x (xs.length : F)

omit [DecidableEq F] in
theorem length_ne_zero [CharZero F] {xs : List α} (hne : xs ≠ []) :
    (xs.length : F) ≠ 0 :=
  Nat.cast_ne_zero.mpr (List.length_pos_iff.mpr hne).ne'

theorem mean_map_some [CharZero F] (f : α → F) {xs : List α} (hne : xs ≠ []) :
    mean (xs.map fun x => some (f x)) =
      some ((xs.map f).sum / (xs.length : F)) := by
  rw [mean, total_map_some, Option.bind_some, List.length_map,
    divide_of_ne_zero _ (length_ne_zero hne)]

theorem mean_eq_none_of_mem {xs : List (Num F)} (h : none ∈ xs) :
    mean xs = none := by
  rw [mean, total_eq_none_of_mem h]
  rfl

/-- The mean of every column of a table with `width` columns. -/
def columnMeans (width : Nat) (table : List (List (Num F))) :
    List (Num F) :=
  (List.range width).map fun j => mean (table.map fun row => row.getD j none)

end Division

section Table

variable [AddCommMonoid F]

theorem sum_map_flatten (f : α → F) (xss : List (List α)) :
    (xss.flatten.map f).sum = (xss.map fun xs => (xs.map f).sum).sum := by
  induction xss with
  | nil => rfl
  | cons xs xss ih =>
      rw [List.flatten_cons, List.map_append, List.sum_append, ih,
        List.map_cons, List.sum_cons]

omit [AddCommMonoid F] in
theorem map_getD_range [Zero F] (row : List F) :
    (List.range row.length).map (fun j => row.getD j 0) = row := by
  apply List.ext_getElem (by simp)
  intro j hj hj'
  simp [hj']

/-- Summing by columns and by rows is the same. -/
theorem sum_columns {width : Nat} {table : List (List F)}
    (hwidth : ∀ row ∈ table, row.length = width) :
    ((List.range width).map fun j =>
      (table.map fun row => row.getD j 0).sum).sum =
        (table.map List.sum).sum := by
  induction table with
  | nil => simp
  | cons row table ih =>
      have hrow := hwidth row List.mem_cons_self
      have hrest := ih fun r hr => hwidth r (List.mem_cons_of_mem row hr)
      simp only [List.map_cons, List.sum_cons]
      rw [List.sum_map_add, hrest, ← hrow, map_getD_range]

end Table

/-- The column means add up to the mean of the row sums. -/
theorem total_columnMeans [Field F] [DecidableEq F] [CharZero F]
    {width : Nat} {table : List (List F)} (hne : table ≠ [])
    (hwidth : ∀ row ∈ table, row.length = width) :
    total (columnMeans width (table.map (List.map some))) =
      some ((table.map List.sum).sum / (table.length : F)) := by
  have hcolumn : ∀ j ∈ List.range width,
      mean ((table.map (List.map some)).map fun row => row.getD j none) =
        some ((table.map fun row => row.getD j 0).sum / (table.length : F)) := by
    intro j hj
    have hget : (table.map (List.map some)).map (fun row => row.getD j none) =
        table.map fun row => some (row.getD j 0) := by
      rw [List.map_map]
      apply List.map_congr_left
      intro row hrow
      have hlt : j < row.length := by
        rw [hwidth row hrow]
        exact List.mem_range.mp hj
      simp [hlt]
    rw [hget, mean_map_some _ hne]
  rw [columnMeans, List.map_congr_left hcolumn, total_map_some]
  simp only [div_eq_mul_inv, List.sum_map_mul_right]
  rw [sum_columns hwidth]

end ExactNum
