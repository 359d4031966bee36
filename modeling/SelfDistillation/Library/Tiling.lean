/-
Pieces of a line of cells, each an offset and a length: when they cover the
line from a place on, one behind the other.
-/
import Mathlib

namespace Tiling

/-- The cells of a piece; none if its length is negative. -/
def cells (piece : Int × Int) : List Int :=
  (List.range piece.2.toNat).map fun k : Nat => piece.1 + k

/-- Every piece that is not empty begins where the ones before it end. -/
def Tiles : Int → List (Int × Int) → Prop
  | _, [] => True
  | start, piece :: pieces =>
      0 ≤ piece.2 ∧ (piece.2 ≠ 0 → piece.1 = start) ∧
        Tiles (start + piece.2) pieces

@[simp] theorem length_cells (piece : Int × Int) :
    (cells piece).length = piece.2.toNat := by
  simp [cells]

theorem cells_add (start : Int) (m n : Nat) :
    cells (start, (m + n : Nat)) =
      cells (start, m) ++ cells (start + m, n) := by
  unfold cells
  simp only [Int.toNat_natCast]
  rw [List.range_add, List.map_append, List.map_map]
  apply congrArg
  apply List.map_congr_left
  intro k _
  simp [add_assoc]

theorem cells_eq_iff {offset start : Int} {n : Nat} :
    cells (offset, n) = cells (start, n) ↔ (n ≠ 0 → offset = start) := by
  constructor
  · intro h hn
    have hhead := congrArg List.head? h
    obtain ⟨k, rfl⟩ := Nat.exists_eq_succ_of_ne_zero hn
    simpa [cells, List.range_succ_eq_map] using hhead
  · intro h
    by_cases hn : n = 0
    · subst hn
      rfl
    · rw [h hn]

/-- Pieces have as many cells as their lengths say only if none of these is
negative. -/
theorem sum_le_length (pieces : List (Int × Int)) :
    (pieces.map Prod.snd).sum ≤ ((pieces.flatMap cells).length : Int) := by
  induction pieces with
  | nil => simp
  | cons piece pieces ih =>
      have hpiece := Int.self_le_toNat piece.2
      rw [List.map_cons, List.sum_cons, List.flatMap_cons, List.length_append,
        length_cells]
      push_cast
      omega

theorem Tiles.sum_nonneg {pieces : List (Int × Int)} {start : Int}
    (h : Tiles start pieces) : 0 ≤ (pieces.map Prod.snd).sum := by
  induction pieces generalizing start with
  | nil => simp
  | cons piece pieces ih =>
      obtain ⟨hcount, -, hlater⟩ := h
      rw [List.map_cons, List.sum_cons]
      exact add_nonneg hcount (ih hlater)

/-- The pieces in their order make up the line from `start` on exactly if they
tile it. -/
theorem flatMap_cells_eq_iff {pieces : List (Int × Int)} {start : Int}
    {n : Nat} (hsum : (pieces.map Prod.snd).sum = n) :
    pieces.flatMap cells = cells (start, n) ↔ Tiles start pieces := by
  induction pieces generalizing start n with
  | nil =>
      have hn : n = 0 := by simpa using hsum.symm
      subst hn
      simp [Tiles, cells]
  | cons piece pieces ih =>
      obtain ⟨offset, count⟩ := piece
      rw [List.map_cons, List.sum_cons] at hsum
      dsimp only at hsum
      have hrest := sum_le_length pieces
      rw [List.flatMap_cons]
      constructor
      · intro h
        have hlength := congrArg List.length h
        rw [List.length_append, length_cells, length_cells] at hlength
        dsimp only at hlength
        have hcount : 0 ≤ count := by omega
        obtain ⟨m, rfl⟩ := Int.eq_ofNat_of_zero_le hcount
        have hle : m ≤ n := by
          simp only [Int.toNat_natCast] at hlength
          omega
        obtain ⟨k, rfl⟩ := Nat.exists_eq_add_of_le hle
        rw [cells_add] at h
        obtain ⟨hfirst, hlater⟩ := List.append_inj h (by simp)
        have hsum' : (pieces.map Prod.snd).sum = (k : Int) := by
          push_cast at hsum
          omega
        exact ⟨hcount, fun hne => cells_eq_iff.mp hfirst (by omega),
          (ih hsum').mp hlater⟩
      · rintro ⟨hcount, hoffset, hlater⟩
        dsimp only at hcount hoffset hlater
        obtain ⟨m, rfl⟩ := Int.eq_ofNat_of_zero_le hcount
        have hnonneg := hlater.sum_nonneg
        obtain ⟨k, hk⟩ := Int.eq_ofNat_of_zero_le hnonneg
        have hn : n = m + k := by
          rw [hk] at hsum
          exact_mod_cast hsum.symm
        subst hn
        rw [cells_add, (ih hk).mpr hlater,
          cells_eq_iff.mpr fun hm => hoffset (by exact_mod_cast hm)]

theorem tiles_append_iff {left right : List (Int × Int)} {start : Int} :
    Tiles start (left ++ right) ↔
      Tiles start left ∧ Tiles (start + (left.map Prod.snd).sum) right := by
  induction left generalizing start with
  | nil => simp [Tiles]
  | cons piece left ih =>
      rw [List.cons_append, Tiles, Tiles, ih, List.map_cons, List.sum_cons,
        add_assoc, and_assoc, and_assoc]

variable (piece : Nat → Int × Int) (grid : Nat → Nat → Int × Int)

theorem sum_map_range (n : Nat) :
    (((List.range n).map piece).map Prod.snd).sum =
      ∑ j ∈ Finset.range n, (piece j).2 := by
  induction n with
  | zero => rfl
  | succ n ih =>
      rw [List.range_succ, List.map_append, List.map_append, List.sum_append,
        ih, Finset.sum_range_succ]
      simp

theorem sum_map_grid (m n : Nat) :
    (((List.range m).flatMap fun i =>
      (List.range n).map (grid i)).map Prod.snd).sum =
        ∑ i ∈ Finset.range m, ∑ j ∈ Finset.range n, (grid i j).2 := by
  induction m with
  | zero => rfl
  | succ m ih =>
      rw [List.range_succ, List.flatMap_append, List.map_append,
        List.sum_append, ih, Finset.sum_range_succ, List.flatMap_singleton,
        sum_map_range]

/-- A row of pieces, by how much is in front of each. -/
theorem tiles_row_iff (start : Int) (n : Nat) :
    Tiles start ((List.range n).map piece) ↔
      ∀ j < n, 0 ≤ (piece j).2 ∧ ((piece j).2 ≠ 0 →
        (piece j).1 = start + ∑ i ∈ Finset.range j, (piece i).2) := by
  induction n with
  | zero => simp [Tiles]
  | succ n ih =>
      rw [List.range_succ, List.map_append, tiles_append_iff, ih,
        sum_map_range, Nat.forall_lt_succ_right]
      simp [Tiles]

/-- Rows of pieces, one behind the other. -/
theorem tiles_grid_iff (start : Int) (m n : Nat) :
    Tiles start ((List.range m).flatMap fun i =>
        (List.range n).map (grid i)) ↔
      ∀ i < m, ∀ j < n, 0 ≤ (grid i j).2 ∧ ((grid i j).2 ≠ 0 →
        (grid i j).1 = start +
          ∑ i' ∈ Finset.range i, ∑ j' ∈ Finset.range n, (grid i' j').2 +
          ∑ j' ∈ Finset.range j, (grid i j').2) := by
  induction m with
  | zero => simp [Tiles]
  | succ m ih =>
      rw [List.range_succ, List.flatMap_append, tiles_append_iff,
        sum_map_grid, Nat.forall_lt_succ_right, List.flatMap_singleton,
        tiles_row_iff]
      exact and_congr_left' ih

end Tiling
