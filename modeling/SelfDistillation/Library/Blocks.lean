/-
Blocks of one length, one after the other: reading an entry of a block, and
cutting the blocks apart again.
-/
import Mathlib

namespace Blocks

universe u v

variable {α : Type u} {β : Type v}

/-- The blocks `f 0`, `f 1`, ... of `n` indices, one after the other. -/
def blocks (n : Nat) (f : Nat → List α) : List α := (List.range n).flatMap f

/-- An entry for every pair of indices, row by row. -/
def grid (n m : Nat) (f : Nat → Nat → α) : List α :=
  blocks n fun i => (List.range m).map (f i)

/-- Where entry `j` of block `i` stands. -/
theorem place_lt {n m i j : Nat} (hi : i < n) (hj : j < m) :
    i * m + j < n * m := by
  have hle : (i + 1) * m ≤ n * m := Nat.mul_le_mul_right m hi
  rw [Nat.succ_mul] at hle
  omega

/-- Every place is an entry of a block. -/
theorem exists_place {n m k : Nat} (hk : k < n * m) :
    ∃ i < n, ∃ j < m, k = i * m + j := by
  have hm : 0 < m := by
    apply Nat.pos_of_ne_zero
    rintro rfl
    simp at hk
  refine ⟨k / m, (Nat.div_lt_iff_lt_mul hm).mpr hk, k % m, Nat.mod_lt k hm, ?_⟩
  rw [Nat.mul_comm]
  exact (Nat.div_add_mod k m).symm

/-- No place is that of two entries. -/
theorem place_inj {m i i' j j' : Nat} (hj : j < m) (hj' : j' < m)
    (h : i * m + j = i' * m + j') : i = i' ∧ j = j' := by
  have hm : 0 < m := Nat.zero_lt_of_lt hj
  have hdiv (a b : Nat) (hb : b < m) : (a * m + b) / m = a := by
    rw [Nat.mul_comm, Nat.mul_add_div hm, Nat.div_eq_of_lt hb, Nat.add_zero]
  have hi : i = i' := by rw [← hdiv i j hj, h, hdiv i' j' hj']
  subst hi
  exact ⟨rfl, Nat.add_left_cancel h⟩

theorem blocks_succ (n : Nat) (f : Nat → List α) :
    blocks (n + 1) f = blocks n f ++ f n := by
  rw [blocks, List.range_succ, List.flatMap_append, List.flatMap_singleton,
    blocks]

theorem map_blocks (g : α → β) (n : Nat) (f : Nat → List α) :
    (blocks n f).map g = blocks n fun i => (f i).map g :=
  List.map_flatMap

theorem map_grid (g : α → β) (n m : Nat) (f : Nat → Nat → α) :
    (grid n m f).map g = grid n m fun i j => g (f i j) := by
  simp only [grid, map_blocks, List.map_map, Function.comp_def]

theorem blocks_congr {n : Nat} {f g : Nat → List α}
    (h : ∀ i < n, f i = g i) : blocks n f = blocks n g := by
  rw [blocks, blocks, List.flatMap_def, List.flatMap_def]
  congr 1
  exact List.map_congr_left fun i hi => h i (List.mem_range.mp hi)

section Ragged

variable {n : Nat} {f : Nat → List α} {size : Nat → Nat}
  (hlen : ∀ i < n, (f i).length = size i)

include hlen

theorem length_blocks_eq_sum :
    (blocks n f).length = ∑ i ∈ Finset.range n, size i := by
  induction n with
  | zero => simp [blocks]
  | succ n ih =>
      rw [blocks_succ, List.length_append,
        ih fun i hi => hlen i (Nat.lt_succ_of_lt hi),
        hlen n (Nat.lt_succ_self n), Finset.sum_range_succ]

/-- An entry of a block among blocks of any lengths. -/
theorem getElem?_blocks_sum {i j : Nat} (hi : i < n) (hj : j < size i) :
    (blocks n f)[∑ k ∈ Finset.range i, size k + j]? = (f i)[j]? := by
  induction n with
  | zero => cases hi
  | succ n ih =>
      have hlen' : ∀ k < n, (f k).length = size k :=
        fun k hk => hlen k (Nat.lt_succ_of_lt hk)
      rw [blocks_succ]
      rcases Nat.lt_succ_iff_lt_or_eq.mp hi with hlt | rfl
      · have hroom : ∑ k ∈ Finset.range i, size k + size i ≤
            ∑ k ∈ Finset.range n, size k := by
          rw [← Finset.sum_range_succ]
          exact Finset.sum_le_sum_of_subset (Finset.range_subset_range.mpr hlt)
        rw [List.getElem?_append_left
          (by rw [length_blocks_eq_sum hlen']; omega)]
        exact ih hlen' hlt
      · rw [List.getElem?_append_right
          (by rw [length_blocks_eq_sum hlen']; exact Nat.le_add_right _ _),
          length_blocks_eq_sum hlen', Nat.add_sub_cancel_left]

/-- Cutting where a block begins and ends gives it back. -/
theorem slice_blocks_sum {i : Nat} (hi : i < n) :
    ((blocks n f).take (∑ k ∈ Finset.range (i + 1), size k)).drop
      (∑ k ∈ Finset.range i, size k) = f i := by
  have hroom : ∑ k ∈ Finset.range (i + 1), size k ≤
      ∑ k ∈ Finset.range n, size k :=
    Finset.sum_le_sum_of_subset (Finset.range_subset_range.mpr hi)
  have hsucc := Finset.sum_range_succ size i
  apply List.ext_getElem?
  intro j
  rw [List.getElem?_drop]
  by_cases hj : j < size i
  · rw [List.getElem?_take_of_lt (by omega), getElem?_blocks_sum hlen hi hj]
  · rw [List.getElem?_eq_none (by
        rw [List.length_take, length_blocks_eq_sum hlen]
        omega),
      List.getElem?_eq_none (by rw [hlen i hi]; omega)]

end Ragged

section Uniform

variable {n m : Nat} {f : Nat → List α} (hlen : ∀ i < n, (f i).length = m)

include hlen

theorem length_blocks : (blocks n f).length = n * m := by
  induction n with
  | zero => simp [blocks]
  | succ n ih =>
      rw [blocks_succ, List.length_append,
        ih fun i hi => hlen i (Nat.lt_succ_of_lt hi),
        hlen n (Nat.lt_succ_self n), Nat.succ_mul]

/-- An entry of a block. -/
theorem getElem?_blocks {i j : Nat} (hi : i < n) (hj : j < m) :
    (blocks n f)[i * m + j]? = (f i)[j]? := by
  induction n with
  | zero => cases hi
  | succ n ih =>
      have hlen' : ∀ k < n, (f k).length = m :=
        fun k hk => hlen k (Nat.lt_succ_of_lt hk)
      rw [blocks_succ]
      rcases Nat.lt_succ_iff_lt_or_eq.mp hi with hlt | rfl
      · rw [List.getElem?_append_left
          (by rw [length_blocks hlen']; exact place_lt hlt hj)]
        exact ih hlen' hlt
      · rw [List.getElem?_append_right
          (by rw [length_blocks hlen']; exact Nat.le_add_right _ _),
          length_blocks hlen', Nat.add_sub_cancel_left]

/-- Cutting at the multiples of the length gives the blocks back. -/
theorem slice_blocks {i : Nat} (hi : i < n) :
    ((blocks n f).take ((i + 1) * m)).drop (i * m) = f i := by
  have hroom : (i + 1) * m ≤ n * m := Nat.mul_le_mul_right m hi
  apply List.ext_getElem?
  intro j
  rw [List.getElem?_drop]
  by_cases hj : j < m
  · rw [List.getElem?_take_of_lt (by rw [Nat.succ_mul]; omega),
      getElem?_blocks hlen hi hj]
  · rw [List.getElem?_eq_none (by
        rw [List.length_take, length_blocks hlen, Nat.min_eq_left hroom,
          Nat.succ_mul]
        omega),
      List.getElem?_eq_none (by rw [hlen i hi]; omega)]

end Uniform

@[simp] theorem length_grid (n m : Nat) (f : Nat → Nat → α) :
    (grid n m f).length = n * m :=
  length_blocks fun i _ => by rw [List.length_map, List.length_range]

theorem getElem?_grid {n m i j : Nat} (f : Nat → Nat → α) (hi : i < n)
    (hj : j < m) : (grid n m f)[i * m + j]? = some (f i j) := by
  have hlen : ∀ k < n, ((List.range m).map (f k)).length = m := by
    intro k _
    rw [List.length_map, List.length_range]
  rw [grid, getElem?_blocks hlen hi hj, List.getElem?_map,
    List.getElem?_range hj, Option.map_some]

theorem slice_grid {n m i : Nat} (f : Nat → Nat → α) (hi : i < n) :
    ((grid n m f).take ((i + 1) * m)).drop (i * m) =
      (List.range m).map (f i) :=
  slice_blocks (fun k _ => by rw [List.length_map, List.length_range]) hi

/-- A list of the right length is read row by row. -/
theorem eq_grid {n m : Nat} {xs : List α} (hlen : xs.length = n * m)
    (default : α) :
    xs = grid n m fun i j => xs.getD (i * m + j) default := by
  apply List.ext_getElem?
  intro k
  by_cases hk : k < n * m
  · obtain ⟨i, hi, j, hj, rfl⟩ := exists_place hk
    have hlt : i * m + j < xs.length := hlen ▸ hk
    rw [getElem?_grid _ hi hj, List.getD_eq_getElem?_getD,
      List.getElem?_eq_getElem hlt, Option.getD_some]
  · rw [List.getElem?_eq_none (by omega),
      List.getElem?_eq_none (by rw [length_grid]; omega)]

/-- A list of the right length is its blocks. -/
theorem exists_blocks {n m : Nat} {xs : List α} (hlen : xs.length = n * m) :
    ∃ f : Nat → List α, (∀ i < n, (f i).length = m) ∧ xs = blocks n f := by
  induction n generalizing xs with
  | zero =>
      rw [Nat.zero_mul] at hlen
      exact ⟨fun _ => [], fun i hi => absurd hi (Nat.not_lt_zero i),
        List.eq_nil_of_length_eq_zero hlen⟩
  | succ n ih =>
      rw [Nat.succ_mul] at hlen
      have hhead : (xs.take (n * m)).length = n * m := by
        rw [List.length_take]
        omega
      obtain ⟨f, hf, hxs⟩ := ih hhead
      refine ⟨fun i => if i = n then xs.drop (n * m) else f i,
        fun i hi => ?_, ?_⟩
      · dsimp only
        split
        · rw [List.length_drop]
          omega
        · exact hf i (by omega)
      · have hfront : blocks n (fun i => if i = n then xs.drop (n * m) else f i)
            = blocks n f := blocks_congr fun i hi => if_neg hi.ne
        rw [blocks_succ, hfront, ← hxs, if_pos rfl, List.take_append_drop]

/-- Blocks of blocks. -/
theorem exists_blocks_blocks {n m k : Nat} {xs : List α}
    (hlen : xs.length = n * (m * k)) :
    ∃ f : Nat → Nat → List α, (∀ i < n, ∀ j < m, (f i j).length = k) ∧
      xs = blocks n fun i => blocks m (f i) := by
  obtain ⟨f, hf, rfl⟩ := exists_blocks hlen
  have hblock : ∀ i : Nat, ∃ g : Nat → List α,
      i < n → (∀ j < m, (g j).length = k) ∧ f i = blocks m g := by
    intro i
    by_cases hi : i < n
    · obtain ⟨g, hg⟩ := exists_blocks (hf i hi)
      exact ⟨g, fun _ => hg⟩
    · exact ⟨fun _ => [], fun h => absurd h hi⟩
  choose g hg using hblock
  exact ⟨g, fun i hi => (hg i hi).1, blocks_congr fun i hi => (hg i hi).2⟩

theorem map_range_mul (n m : Nat) (g : Nat → α) :
    (List.range (n * m)).map g = grid n m fun i j => g (i * m + j) := by
  apply List.ext_getElem?
  intro k
  by_cases hk : k < n * m
  · obtain ⟨i, hi, j, hj, rfl⟩ := exists_place hk
    rw [getElem?_grid _ hi hj, List.getElem?_map, List.getElem?_range hk,
      Option.map_some]
  · rw [List.getElem?_eq_none (by simpa using hk),
      List.getElem?_eq_none (by rw [length_grid]; omega)]

theorem zipIdx_map_range (n : Nat) (f : Nat → α) :
    ((List.range n).map f).zipIdx = (List.range n).map fun i => (f i, i) := by
  apply List.ext_getElem?
  intro k
  rw [List.getElem?_zipIdx, List.getElem?_map, List.getElem?_map]
  by_cases hk : k < n
  · simp [List.getElem?_range hk]
  · have hnone : (List.range n)[k]? = none :=
      List.getElem?_eq_none (by simpa using hk)
    simp [hnone]

/-- Numbering the entries numbers the places. -/
theorem zipIdx_grid (n m : Nat) (f : Nat → Nat → α) :
    (grid n m f).zipIdx = grid n m fun i j => (f i j, i * m + j) := by
  apply List.ext_getElem?
  intro k
  by_cases hk : k < n * m
  · obtain ⟨i, hi, j, hj, rfl⟩ := exists_place hk
    rw [List.getElem?_zipIdx, getElem?_grid _ hi hj, getElem?_grid _ hi hj]
    simp
  · rw [List.getElem?_eq_none (by rw [List.length_zipIdx, length_grid]; omega),
      List.getElem?_eq_none (by rw [length_grid]; omega)]

end Blocks
