/-
Cutting a list into consecutive pieces: of one size, as many elements as fit,
and the stretch between two positions.
-/
import SelfDistillation.Library.Blocks

namespace Chunks

universe u v

variable {α : Type u} {β : Type v}

/-- Consecutive pieces of `size` elements, the last one as long as what is
left. -/
def chunksOf (size : Nat) (xs : List α) : List (List α) :=
  (List.range ((xs.length + size - 1) / size)).map
    fun j => (xs.drop (j * size)).take size

@[simp] theorem length_chunksOf (size : Nat) (xs : List α) :
    (chunksOf size xs).length = (xs.length + size - 1) / size := by
  simp [chunksOf]

theorem chunksOf_nil (size : Nat) : chunksOf size ([] : List α) = [] := by
  have hcount : (([] : List α).length + size - 1) / size = 0 := by
    rcases Nat.eq_zero_or_pos size with rfl | hsize
    · exact Nat.div_zero _
    · rw [List.length_nil, Nat.zero_add]
      exact Nat.div_eq_of_lt (Nat.sub_lt hsize Nat.one_pos)
  rw [chunksOf, hcount]
  rfl

theorem getElem?_chunksOf {size : Nat} {xs : List α} {j : Nat}
    (hj : j < (xs.length + size - 1) / size) :
    (chunksOf size xs)[j]? = some ((xs.drop (j * size)).take size) := by
  simp [chunksOf, hj]

theorem map_chunksOf (f : α → β) (size : Nat) (xs : List α) :
    chunksOf size (xs.map f) = (chunksOf size xs).map (List.map f) := by
  simp [chunksOf, List.map_take, List.map_drop]

theorem chunksOf_eq_cons {size : Nat} (hsize : 0 < size) {xs : List α}
    (hxs : xs ≠ []) :
    chunksOf size xs = xs.take size :: chunksOf size (xs.drop size) := by
  have hpos : 0 < xs.length := List.length_pos_iff.mpr hxs
  have hcount : (xs.length + size - 1) / size =
      ((xs.drop size).length + size - 1) / size + 1 := by
    rw [List.length_drop]
    rcases Nat.le_total size xs.length with hle | hle
    · have heq : xs.length + size - 1 = (xs.length - size + size - 1) + size := by
        omega
      rw [heq, Nat.add_div_right _ hsize]
    · have hzero : xs.length - size = 0 := Nat.sub_eq_zero_of_le hle
      rw [hzero, Nat.zero_add, Nat.div_eq_of_lt (Nat.sub_lt hsize Nat.one_pos)]
      apply Nat.div_eq_of_lt_le <;> omega
  rw [chunksOf, hcount, List.range_succ_eq_map]
  simp only [List.map_cons, Nat.zero_mul, List.drop_zero, List.map_map,
    chunksOf]
  congr 1
  apply List.map_congr_left
  intro j _
  simp [List.drop_drop, Nat.add_mul, Nat.add_comm]

/-- No element is lost, repeated or moved. -/
theorem flatten_chunksOf {size : Nat} (hsize : 0 < size) (xs : List α) :
    (chunksOf size xs).flatten = xs := by
  induction hn : xs.length using Nat.strong_induction_on generalizing xs with
  | h n ih =>
      by_cases hxs : xs = []
      · subst hxs
        simp [chunksOf]
      · have hpos : 0 < xs.length := List.length_pos_iff.mpr hxs
        rw [chunksOf_eq_cons hsize hxs, List.flatten_cons,
          ih (xs.drop size).length (by rw [List.length_drop]; omega)
            (xs.drop size) rfl,
          List.take_append_drop]

/-- Blocks of one length are the pieces of that length. -/
theorem chunksOf_blocks {n size : Nat} {f : Nat → List α} (hsize : 0 < size)
    (hlen : ∀ i < n, (f i).length = size) :
    chunksOf size (Blocks.blocks n f) = (List.range n).map f := by
  have hcount : ((Blocks.blocks n f).length + size - 1) / size = n := by
    rw [Blocks.length_blocks hlen]
    apply Nat.div_eq_of_lt_le
    · omega
    · rw [Nat.succ_mul]
      omega
  rw [chunksOf, hcount]
  apply List.map_congr_left
  intro j hj
  rw [List.take_drop, ← Nat.succ_mul]
  exact Blocks.slice_blocks hlen (List.mem_range.mp hj)

theorem chunksOf_one (xs : List α) : chunksOf 1 xs = xs.map fun x => [x] := by
  induction xs with
  | nil => simp [chunksOf]
  | cons x xs ih =>
      rw [chunksOf_eq_cons Nat.one_pos (List.cons_ne_nil x xs)]
      simpa using ih

section Divisible

variable {size : Nat} {xs : List α}

theorem length_chunksOf_of_dvd (hsize : 0 < size) (hdvd : size ∣ xs.length) :
    (chunksOf size xs).length = xs.length / size := by
  obtain ⟨q, hq⟩ := hdvd
  rw [length_chunksOf, hq, Nat.mul_div_cancel_left q hsize]
  apply Nat.div_eq_of_lt_le
  · rw [Nat.mul_comm]; omega
  · rw [Nat.add_mul, Nat.mul_comm]; omega

/-- When the size divides the length every piece is full. -/
theorem length_of_mem_chunksOf (hsize : 0 < size) (hdvd : size ∣ xs.length)
    {piece : List α} (hpiece : piece ∈ chunksOf size xs) :
    piece.length = size := by
  simp only [chunksOf, List.mem_map, List.mem_range] at hpiece
  obtain ⟨j, hj, rfl⟩ := hpiece
  have hcount := length_chunksOf_of_dvd hsize hdvd
  rw [length_chunksOf] at hcount
  rw [hcount] at hj
  obtain ⟨q, hq⟩ := hdvd
  rw [hq, Nat.mul_div_cancel_left q hsize] at hj
  have hroom : (j + 1) * size ≤ q * size := Nat.mul_le_mul_right size hj
  rw [Nat.mul_comm q size, ← hq, Nat.add_mul] at hroom
  rw [List.length_take, List.length_drop]
  omega

end Divisible

/-- Pieces of at most `capacity`, each filled from the front until the next
element does not fit; `piece` is the one being filled. -/
def nextFit (capacity : Nat) (size : α → Nat) (piece : List α) :
    List α → List (List α)
  | [] => [piece]
  | x :: xs =>
      if capacity < (piece.map size).sum + size x then
        piece :: nextFit capacity size [x] xs
      else nextFit capacity size (piece ++ [x]) xs

theorem nextFit_ne_nil (capacity : Nat) (size : α → Nat) (piece xs : List α) :
    nextFit capacity size piece xs ≠ [] := by
  induction xs generalizing piece with
  | nil => exact List.cons_ne_nil _ _
  | cons x xs ih =>
      rw [nextFit]
      split
      · exact List.cons_ne_nil _ _
      · exact ih _

/-- No element is lost, repeated or moved. -/
theorem flatten_nextFit (capacity : Nat) (size : α → Nat)
    (piece xs : List α) :
    (nextFit capacity size piece xs).flatten = piece ++ xs := by
  induction xs generalizing piece with
  | nil => simp [nextFit]
  | cons x xs ih =>
      rw [nextFit]
      split
      · rw [List.flatten_cons, ih, List.singleton_append]
      · rw [ih, List.append_assoc, List.singleton_append]

/-- An element that fits an empty piece is put there. -/
theorem nextFit_nil_cons {capacity : Nat} {size : α → Nat} {x : α}
    {xs : List α} (hfits : size x ≤ capacity) :
    nextFit capacity size [] (x :: xs) = nextFit capacity size [x] xs := by
  rw [nextFit, if_neg (by simpa using hfits), List.nil_append]

/-- What a channel holds after `j` elements of `xs` went in and `i` came
out. -/
def window (xs : List α) (i j : Nat) : List α := (xs.take j).drop i

@[simp] theorem window_self (xs : List α) (i : Nat) : window xs i i = [] := by
  simp [window]

theorem window_push {xs : List α} {i j : Nat} {x : α} (hij : i ≤ j)
    (hx : xs[j]? = some x) :
    window xs i (j + 1) = window xs i j ++ [x] := by
  obtain ⟨hj, rfl⟩ := List.getElem?_eq_some_iff.mp hx
  rw [window, List.take_succ_eq_append_getElem hj, List.drop_append_of_le_length
    (by rw [List.length_take]; omega), window]

theorem window_pop {xs rest : List α} {i j : Nat} {x : α}
    (h : window xs i j = x :: rest) :
    i < j ∧ xs[i]? = some x ∧ rest = window xs (i + 1) j := by
  have hi : (xs.take j)[i]? = some x := by
    rw [← List.head?_drop, ← window, h, List.head?_cons]
  obtain ⟨hlt, hget⟩ := List.getElem?_eq_some_iff.mp hi
  rw [List.length_take] at hlt
  have hij : i < j := by omega
  refine ⟨hij, ?_, ?_⟩
  · rw [← hi, List.getElem?_take_of_lt hij]
  · rw [window, ← List.tail_drop, ← window, h, List.tail_cons]

theorem window_ne_nil {xs : List α} {i j : Nat} (hij : i < j)
    (hj : j ≤ xs.length) : window xs i j ≠ [] := by
  rw [← List.length_pos_iff, window, List.length_drop, List.length_take]
  omega

end Chunks
