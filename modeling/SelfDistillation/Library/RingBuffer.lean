/-
Buffer buffers: a list of slots written round and round, and the log of all that
was written, of which the buffer keeps the end.
-/
import Mathlib.Data.List.Rotate

namespace RingBuffer

universe u

variable {α : Type u}

structure Buffer (α : Type u) where
  slots : List α
  size : Nat
  position : Nat
deriving DecidableEq, Repr

namespace Buffer

def push (buffer : Buffer α) (x : α) : Buffer α where
  slots := buffer.slots.set buffer.position x
  size := min (buffer.size + 1) buffer.slots.length
  position := (buffer.position + 1) % buffer.slots.length

def pushAll (buffer : Buffer α) (xs : List α) : Buffer α := xs.foldl push buffer

/-- The slots in use. -/
def contents (buffer : Buffer α) : List α := buffer.slots.take buffer.size

/-- The buffer is filled in order up to the position, or full, and then from
the position on round it holds the end of the log. -/
inductive Holds (buffer : Buffer α) (log : List α) : Prop
  | filling (hsize : buffer.size < buffer.slots.length)
      (hposition : buffer.position = buffer.size)
      (hlog : buffer.slots.take buffer.size = log)
  | full (hsize : buffer.size = buffer.slots.length)
      (hposition : buffer.position < buffer.slots.length)
      (hle : buffer.slots.length ≤ log.length)
      (hlog : buffer.slots.rotate buffer.position =
        log.drop (log.length - buffer.slots.length))

section Lists

/-- The oldest makes room for the newest. -/
theorem rotate_set_succ (xs : List α) {p : Nat} (hp : p < xs.length) (x : α) :
    (xs.set p x).rotate (p + 1) = (xs.rotate p).tail ++ [x] := by
  have hsplit : xs = xs.take p ++ xs[p] :: xs.drop (p + 1) := by
    rw [List.cons_getElem_drop_succ, List.take_append_drop]
  have hlength : (xs.take p).length = p := by
    rw [List.length_take]
    omega
  have hset : xs.set p x = (xs.take p ++ [x]) ++ xs.drop (p + 1) := by
    rw [List.append_assoc, List.singleton_append,
      List.set_eq_take_append_cons_drop, if_pos hp]
  have hleft : ((xs.take p ++ [x]) ++ xs.drop (p + 1)).rotate (p + 1) =
      xs.drop (p + 1) ++ (xs.take p ++ [x]) := by
    have h := List.rotate_append_length_eq (xs.take p ++ [x]) (xs.drop (p + 1))
    rwa [List.length_append, hlength, List.length_singleton] at h
  have hright : (xs.take p ++ xs[p] :: xs.drop (p + 1)).rotate p =
      xs[p] :: xs.drop (p + 1) ++ xs.take p := by
    have h := List.rotate_append_length_eq (xs.take p)
      (xs[p] :: xs.drop (p + 1))
    rwa [hlength] at h
  calc (xs.set p x).rotate (p + 1)
    _ = xs.drop (p + 1) ++ (xs.take p ++ [x]) := by rw [hset, hleft]
    _ = ((xs.take p ++ xs[p] :: xs.drop (p + 1)).rotate p).tail ++ [x] := by
      rw [hright, List.cons_append, List.tail_cons, List.append_assoc]
    _ = (xs.rotate p).tail ++ [x] := by rw [← hsplit]

theorem take_set_succ (xs : List α) {p : Nat} (hp : p < xs.length) (x : α) :
    (xs.set p x).take (p + 1) = xs.take p ++ [x] := by
  rw [List.set_eq_take_append_cons_drop, if_pos hp, List.take_append,
    List.length_take, Nat.min_eq_left (Nat.le_of_lt hp), Nat.add_sub_cancel_left,
    List.take_of_length_le (by rw [List.length_take]; omega)]
  rfl

end Lists

variable {buffer : Buffer α} {log : List α}

theorem length_push (buffer : Buffer α) (x : α) :
    (buffer.push x).slots.length = buffer.slots.length :=
  List.length_set

theorem Holds.position_lt (h : Holds buffer log) :
    buffer.position < buffer.slots.length := by
  cases h with
  | filling hsize hposition _ => omega
  | full _ hposition _ _ => exact hposition

theorem Holds.size_le (h : Holds buffer log) :
    buffer.size ≤ buffer.slots.length := by
  cases h with
  | filling hsize _ _ => omega
  | full hsize _ _ _ => omega

/-- In some order the slots in use are the end of the log. -/
theorem Holds.contents_perm (h : Holds buffer log) :
    buffer.contents.Perm
      (log.drop (log.length - min log.length buffer.slots.length)) := by
  cases h with
  | filling hsize _ hlog =>
      have hlength : log.length = buffer.size := by
        rw [← hlog, List.length_take]
        omega
      rw [contents, hlog, Nat.min_eq_left (by omega), Nat.sub_self,
        List.drop_zero]
  | full hsize _ hle hlog =>
      rw [contents, hsize, List.take_length, Nat.min_eq_right hle, ← hlog]
      exact (List.rotate_perm _ _).symm

theorem Holds.push (h : Holds buffer log) (x : α) :
    Holds (buffer.push x) (log ++ [x]) := by
  have hlength := length_push buffer x
  cases h with
  | filling hsize hposition hlog =>
      have hloglength : log.length = buffer.size := by
        rw [← hlog, List.length_take]
        omega
      have htake : (buffer.push x).slots.take (buffer.size + 1) = log ++ [x] := by
        rw [Buffer.push, hposition, take_set_succ _ hsize, hlog]
      have hmin : (buffer.push x).size = buffer.size + 1 :=
        Nat.min_eq_left hsize
      by_cases hlast : buffer.size + 1 < buffer.slots.length
      · apply Holds.filling
        · rw [hmin, hlength]
          exact hlast
        · rw [hmin, Buffer.push, hposition, Nat.mod_eq_of_lt hlast]
        · rw [hmin]
          exact htake
      · have heq : buffer.size + 1 = buffer.slots.length := by omega
        have hzero : (buffer.push x).position = 0 := by
          rw [Buffer.push, hposition, heq, Nat.mod_self]
        apply Holds.full
        · rw [hmin, hlength, heq]
        · rw [hzero, hlength]
          omega
        · rw [hlength, List.length_append, List.length_singleton]
          omega
        · rw [hzero, List.rotate_zero, ← htake, hlength, List.length_take,
            hlength, heq, Nat.min_self, Nat.sub_self, List.drop_zero,
            ← hlength, List.take_length]
  | full hsize hposition hle hlog =>
      apply Holds.full
      · rw [hlength, Buffer.push, hsize]
        exact Nat.min_eq_right (Nat.le_succ _)
      · rw [hlength]
        exact Nat.mod_lt _ (by omega)
      · rw [hlength, List.length_append, List.length_singleton]
        omega
      · have hrotate : (buffer.push x).slots.rotate (buffer.push x).position =
            (buffer.slots.set buffer.position x).rotate (buffer.position + 1) := by
          rw [← List.rotate_mod _ (buffer.position + 1), List.length_set]
          rfl
        rw [hrotate, rotate_set_succ _ hposition, hlog, hlength,
          List.tail_drop, List.length_append, List.length_singleton,
          List.drop_append_of_le_length (by omega)]
        congr 2
        omega

theorem Holds.pushAll (h : Holds buffer log) (xs : List α) :
    Holds (buffer.pushAll xs) (log ++ xs) := by
  induction xs generalizing buffer log with
  | nil =>
      rw [List.append_nil]
      exact h
  | cons x xs ih =>
      have hrest := ih (h.push x)
      rwa [List.append_assoc, List.singleton_append] at hrest

/-- An empty buffer with room. -/
theorem holds_empty {slots : List α} (h : 0 < slots.length) :
    Holds ⟨slots, 0, 0⟩ [] :=
  .filling h rfl rfl

/-- More slots for a buffer that is not full. -/
theorem Holds.widen (h : Holds buffer log)
    (hsize : buffer.size < buffer.slots.length) (more : List α) :
    Holds ⟨buffer.slots ++ more, buffer.size, buffer.position⟩ log := by
  cases h with
  | filling _ hposition hlog =>
      apply Holds.filling
      · simp only [List.length_append]
        omega
      · exact hposition
      · simp only []
        rw [List.take_append_of_le_length (Nat.le_of_lt hsize), hlog]
  | full hfull => omega

/-- The front of the buffer is enough where it holds all of the log, or where
the writing has just come to its end. -/
theorem Holds.narrow (h : Holds buffer log) {capacity : Nat}
    (hpos : 0 < capacity) (hlt : capacity < buffer.slots.length)
    (hfits : buffer.size ≤ capacity ∨
      buffer.size = buffer.slots.length ∧ buffer.position = capacity) :
    Holds ⟨buffer.slots.take capacity, min buffer.size capacity,
      buffer.position % capacity⟩ log := by
  have hlength : (buffer.slots.take capacity).length = capacity := by
    rw [List.length_take]
    omega
  cases h with
  | filling hsize hposition hlog =>
      have hle : buffer.size ≤ capacity := by omega
      have htake : (buffer.slots.take capacity).take buffer.size = log := by
        rw [List.take_take, Nat.min_eq_left hle, hlog]
      have hmin : min buffer.size capacity = buffer.size := Nat.min_eq_left hle
      by_cases hroom : buffer.size < capacity
      · apply Holds.filling
        · simp only [hlength, hmin]
          exact hroom
        · simp only [hmin, hposition]
          exact Nat.mod_eq_of_lt hroom
        · simp only [hmin]
          exact htake
      · have heq : buffer.size = capacity := by omega
        have hloglength : log.length = capacity := by
          rw [← hlog, List.length_take]
          omega
        apply Holds.full
        · simp only [hlength, hmin]
          exact heq
        · simp only [hlength]
          exact Nat.mod_lt _ hpos
        · simp only [hlength]
          omega
        · simp only [hlength, hposition, heq, Nat.mod_self, List.rotate_zero]
          rw [heq, List.take_take, Nat.min_self] at htake
          rw [hloglength, Nat.sub_self, List.drop_zero, htake]
  | full hsize hposition hle hlog =>
      obtain ⟨-, hat⟩ : buffer.size = buffer.slots.length ∧
          buffer.position = capacity := hfits.resolve_left (by omega)
      have hsplit : buffer.slots.drop capacity ++ buffer.slots.take capacity =
          log.drop (log.length - buffer.slots.length) := by
        rw [← hlog, hat, List.rotate_eq_drop_append_take (by omega)]
      have hdrop := congrArg (List.drop (buffer.slots.length - capacity)) hsplit
      rw [List.drop_drop, List.drop_left' (by rw [List.length_drop])] at hdrop
      apply Holds.full
      · simp only [hlength]
        omega
      · simp only [hlength]
        exact Nat.mod_lt _ hpos
      · simp only [hlength]
        omega
      · simp only [hlength, hat, Nat.mod_self, List.rotate_zero]
        rw [hdrop]
        congr 1
        omega

theorem size_pushAll  (xs : List α)
    (h : buffer.size ≤ buffer.slots.length) :
    (buffer.pushAll xs).size =
      min (buffer.size + xs.length) buffer.slots.length := by
  induction xs generalizing buffer with
  | nil => exact (Nat.min_eq_left h).symm
  | cons x xs ih =>
      have hpush : (buffer.push x).size ≤ (buffer.push x).slots.length := by
        rw [length_push]
        exact Nat.min_le_right _ _
      refine (ih hpush).trans ?_
      rw [length_push, push, List.length_cons]
      simp only []
      omega

theorem position_pushAll  (xs : List α)
    (h : buffer.position < buffer.slots.length) :
    (buffer.pushAll xs).position =
      (buffer.position + xs.length) % buffer.slots.length := by
  induction xs generalizing buffer with
  | nil => exact (Nat.mod_eq_of_lt h).symm
  | cons x xs ih =>
      have hpush : (buffer.push x).position < (buffer.push x).slots.length := by
        rw [length_push]
        exact Nat.mod_lt _ (by omega)
      refine (ih hpush).trans ?_
      rw [length_push, push, List.length_cons]
      simp only []
      rw [Nat.mod_add_mod, Nat.add_assoc, Nat.add_comm 1]

end Buffer

end RingBuffer
