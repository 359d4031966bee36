/-
Rows of different lengths that stand one after the other: the offsets at
which they start, and reading a piece of one row out of the concatenation.
-/
import Mathlib

namespace Ragged

universe u v

variable {α : Type u}

/-- Where rows of the given lengths start, and where the last one ends. -/
def offsets (lens : List Nat) : List Nat := lens.scanl (· + ·) 0

/-- Where rows of the given lengths end. -/
def cumsum (lens : List Nat) : List Nat := (offsets lens).tail

/-- The differences of neighbours. -/
def diff : List Nat → List Nat
  | a :: b :: rest => (b - a) :: diff (b :: rest)
  | _ => []

theorem diff_scanl (start : Nat) (lens : List Nat) :
    diff (lens.scanl (· + ·) start) = lens := by
  induction lens generalizing start with
  | nil => rfl
  | cons len lens ih =>
      have hrest := ih (start + len)
      cases lens with
      | nil => simp [diff]
      | cons next lens =>
          simp only [List.scanl_cons] at hrest ⊢
          rw [diff, hrest, Nat.add_sub_cancel_left]

/-- The lengths can be read off the offsets. -/
theorem diff_offsets (lens : List Nat) : diff (offsets lens) = lens :=
  diff_scanl 0 lens

theorem le_of_mem_scanl {start : Nat} {lens : List Nat} {offset : Nat}
    (hmem : offset ∈ lens.scanl (· + ·) start) : offset ≤ start + lens.sum := by
  induction lens generalizing start with
  | nil =>
      have heq : offset = start := by simpa using hmem
      simp [heq]
  | cons len lens ih =>
      rw [List.scanl_cons, List.mem_cons] at hmem
      rw [List.sum_cons]
      rcases hmem with rfl | hmem
      · exact Nat.le_add_right _ _
      · have hle := ih hmem
        omega

theorem sum_mem_scanl (start : Nat) (lens : List Nat) :
    start + lens.sum ∈ lens.scanl (· + ·) start := by
  induction lens generalizing start with
  | nil => simp
  | cons len lens ih =>
      rw [List.scanl_cons, List.sum_cons, ← Nat.add_assoc]
      exact List.mem_cons_of_mem _ (ih (start + len))

/-- The largest offset is the number of entries of all rows. -/
theorem max?_offsets (lens : List Nat) :
    (offsets lens).max? = some lens.sum := by
  rw [List.max?_eq_some_iff]
  constructor
  · simpa [offsets] using sum_mem_scanl 0 lens
  · intro offset hmem
    simpa [offsets] using le_of_mem_scanl hmem

theorem getElem?_scanl_eq (start : Nat) (lens : List Nat) {i : Nat}
    (hi : i ≤ lens.length) :
    (lens.scanl (· + ·) start)[i]? = some (start + (lens.take i).sum) := by
  induction lens generalizing start i with
  | nil =>
      have hzero : i = 0 := by simpa using hi
      simp [hzero]
  | cons len lens ih =>
      cases i with
      | zero => simp
      | succ i =>
          rw [List.scanl_cons, List.getElem?_cons_succ,
            ih (start + len) (Nat.le_of_succ_le_succ hi), List.take_succ_cons,
            List.sum_cons, Nat.add_assoc]

theorem getElem?_cumsum (lens : List Nat) {i : Nat} (hi : i < lens.length) :
    (cumsum lens)[i]? = some (lens.take (i + 1)).sum := by
  rw [cumsum, List.getElem?_tail, offsets, getElem?_scanl_eq 0 lens hi,
    Nat.zero_add]

@[simp] theorem length_cumsum (lens : List Nat) :
    (cumsum lens).length = lens.length := by
  simp [cumsum, offsets]

theorem getLast?_cumsum {lens : List Nat} (hlens : lens ≠ []) :
    (cumsum lens).getLast? = some lens.sum := by
  have hpos : 0 < lens.length := List.length_pos_iff.mpr hlens
  rw [List.getLast?_eq_getElem?, length_cumsum,
    getElem?_cumsum lens (by omega), Nat.sub_add_cancel hpos, List.take_length]

/-- Where a row ends is where it starts, and its length further. -/
theorem sum_take_succ {lens : List Nat} {i len : Nat}
    (hlen : lens[i]? = some len) :
    (lens.take (i + 1)).sum = (lens.take i).sum + len := by
  rw [List.take_add_one, hlen, List.sum_append]
  simp

/-- A row has its place between the rows before and after it. -/
theorem flatten_eq_append {rows : List (List α)} {i : Nat} {row : List α}
    (hrow : rows[i]? = some row) :
    rows.flatten = (rows.take i).flatten ++
      (row ++ (rows.drop (i + 1)).flatten) := by
  obtain ⟨hi, rfl⟩ := List.getElem?_eq_some_iff.mp hrow
  calc rows.flatten
      = (rows.take i ++ rows.drop i).flatten := by rw [List.take_append_drop]
    _ = (rows.take i).flatten ++
          (rows[i] ++ (rows.drop (i + 1)).flatten) := by
        rw [List.flatten_append, List.drop_eq_getElem_cons hi,
          List.flatten_cons]

theorem start_add_le {rows : List (List α)} {i : Nat} {row : List α}
    (hrow : rows[i]? = some row) {b : Nat} (hb : b ≤ row.length) :
    ((rows.take i).map List.length).sum + b ≤ rows.flatten.length := by
  rw [flatten_eq_append hrow, ← List.length_flatten, List.length_append,
    List.length_append]
  omega

/-- A piece of a row, read out of all rows one after the other. -/
theorem drop_take_flatten {rows : List (List α)} {i : Nat} {row : List α}
    (hrow : rows[i]? = some row) (a : Nat) {b : Nat} (hb : b ≤ row.length) :
    (rows.flatten.take (((rows.take i).map List.length).sum + b)).drop
        (((rows.take i).map List.length).sum + a) =
      (row.take b).drop a := by
  rw [flatten_eq_append hrow, ← List.length_flatten,
    List.take_length_add_append, List.drop_length_add_append,
    List.take_append_of_le_length hb]

/-- Rows written one after the other are cut apart again by their lengths,
whatever comes after them. -/
theorem splitLengths_flatten_append (rows : List (List α)) (rest : List α) :
    (rows.map List.length).splitLengths (rows.flatten ++ rest) = rows := by
  induction rows with
  | nil => rfl
  | cons row rows ih =>
      rw [List.map_cons, List.flatten_cons, List.append_assoc,
        List.splitLengths_cons, List.take_left, List.drop_left, ih]

theorem map_splitLengths {β : Type v} (f : α → β) (lens : List Nat)
    (xs : List α) :
    lens.splitLengths (xs.map f) = (lens.splitLengths xs).map (List.map f) := by
  induction lens generalizing xs with
  | nil => rfl
  | cons len lens ih =>
      rw [List.splitLengths_cons, List.splitLengths_cons, List.map_cons,
        List.map_take, ← List.map_drop, ih]

theorem mem_of_mem_splitLengths {lens : List Nat} {xs piece : List α}
    (hpiece : piece ∈ lens.splitLengths xs) {x : α} (hx : x ∈ piece) :
    x ∈ xs := by
  induction lens generalizing xs with
  | nil => cases hpiece
  | cons len lens ih =>
      rw [List.splitLengths_cons, List.mem_cons] at hpiece
      rcases hpiece with rfl | hpiece
      · exact List.mem_of_mem_take hx
      · exact List.mem_of_mem_drop (ih hpiece)

theorem length_flatten_splitLengths_le (lens : List Nat) (xs : List α) :
    (lens.splitLengths xs).flatten.length ≤ lens.sum := by
  induction lens generalizing xs with
  | nil => exact Nat.le_refl 0
  | cons len lens ih =>
      have hrest := ih (xs.drop len)
      rw [List.splitLengths_cons, List.flatten_cons, List.length_append,
        List.length_take, List.sum_cons]
      omega

end Ragged
