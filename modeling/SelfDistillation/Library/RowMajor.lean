/-
Dense arrays of at least one axis, their entries stored row by row: reading a
row, giving the entries another shape, and repeating every row in place.
-/
import SelfDistillation.Library.Blocks

namespace RowMajor

open Blocks

variable {α β : Type}

/-- `rows` rows, each with the axes `rowShape`. -/
structure Dense (α : Type) where
  rows : Nat
  rowShape : List Nat
  data : List α
  length_data : data.length = rows * rowShape.prod
deriving DecidableEq

namespace Dense

/-- How many entries a row has. -/
def stride (x : Dense α) : Nat := x.rowShape.prod

/-- The entries of a row. -/
def row (x : Dense α) (i : Nat) : List α :=
  (x.data.drop (i * x.stride)).take x.stride

/-- A part of a row: of `n` equal parts the `j`-th. -/
def chunk (x : Dense α) (part i j : Nat) : List α :=
  ((x.row i).drop (j * part)).take part

/-- The same entries in another shape, if it holds as many. -/
def reshape? (x : Dense α) (rows : Nat) (rowShape : List Nat) :
    Option (Dense α) :=
  if h : x.data.length = rows * rowShape.prod then
    some ⟨rows, rowShape, x.data, h⟩
  else none

theorem length_row {x : Dense α} {i : Nat} (hi : i < x.rows) :
    (x.row i).length = x.stride := by
  have hle : (i + 1) * x.stride ≤ x.rows * x.stride :=
    Nat.mul_le_mul_right _ hi
  rw [Nat.succ_mul] at hle
  rw [row, List.length_take, List.length_drop, x.length_data]
  change min x.stride (x.rows * x.stride - i * x.stride) = x.stride
  omega

theorem length_row_div (x : Dense α) (n : Nat) :
    ∀ r < x.rows * n, (x.row (r / n)).length = x.stride := by
  intro r hr
  apply length_row
  rw [Nat.mul_comm] at hr
  exact Nat.div_lt_of_lt_mul hr

/-- Every row `n` times in place. -/
def repeatRows (x : Dense α) (n : Nat) : Dense α where
  rows := x.rows * n
  rowShape := x.rowShape
  data := blocks (x.rows * n) fun r => x.row (r / n)
  length_data := length_blocks (x.length_row_div n)

variable {x y : Dense α}

theorem reshape?_eq_some {rows : Nat} {rowShape : List Nat} :
    x.reshape? rows rowShape = some y ↔
      y.rows = rows ∧ y.rowShape = rowShape ∧ y.data = x.data := by
  obtain ⟨rows', rowShape', data, hlen⟩ := y
  rw [reshape?]
  constructor
  · intro h
    split at h
    · cases h
      exact ⟨rfl, rfl, rfl⟩
    · cases h
  · rintro ⟨rfl, rfl, rfl⟩
    rw [dif_pos hlen]

theorem isSome_reshape? {rows : Nat} {rowShape : List Nat} :
    (x.reshape? rows rowShape).isSome ↔
      x.rows * x.stride = rows * rowShape.prod := by
  rw [stride, ← x.length_data, reshape?]
  split <;> simp [*]

/-- Where `n` new rows make up an old one, they are its parts. -/
theorem row_of_reshape {n i j : Nat} (hdata : y.data = x.data)
    (hstride : n * y.stride = x.stride) (hj : j < n) :
    y.row (i * n + j) = x.chunk y.stride i j := by
  have hroom : j * y.stride + y.stride ≤ x.stride := by
    rw [← hstride, ← Nat.succ_mul]
    exact Nat.mul_le_mul_right _ hj
  rw [row, chunk, row, hdata, List.drop_take, List.drop_drop, List.take_take,
    Nat.add_mul, Nat.mul_assoc, hstride, Nat.min_eq_left (by omega)]

/-- An array without entries has empty rows. -/
theorem row_of_data_eq_nil (hdata : x.data = []) (i : Nat) : x.row i = [] := by
  simp [row, hdata]

theorem row_repeatRows {n i j : Nat} (hi : i < x.rows) (hj : j < n) :
    (x.repeatRows n).row (i * n + j) = x.row i := by
  have hplace : (i * n + j) / n = i := by
    rw [Nat.mul_comm, Nat.mul_add_div (Nat.zero_lt_of_lt hj),
      Nat.div_eq_of_lt hj, Nat.add_zero]
  have hslice := slice_blocks (x.length_row_div n) (place_lt hi hj)
  rw [hplace, List.drop_take, Nat.succ_mul, Nat.add_sub_cancel_left] at hslice
  exact hslice

end Dense

end RowMajor
