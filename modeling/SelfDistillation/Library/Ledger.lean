/-
A bounded first-in first-out buffer that gives up its oldest element when it
is full, with a record of what became of every element put into it.
-/
import Mathlib

universe u

/-- What became of an element that is no longer in the buffer. -/
inductive Fate
  | delivered
  | dropped
  | cleared
deriving DecidableEq

/-- The elements that left and those still in the buffer; both together in
the order they were put. -/
structure Ledger (α : Type u) where
  gone : List (α × Fate)
  buffer : List α

namespace Ledger

variable {α : Type u}

def empty : Ledger α := ⟨[], []⟩

/-- All elements that were put. -/
def all (ledger : Ledger α) : List α :=
  ledger.gone.map Prod.fst ++ ledger.buffer

/-- The elements with the given fate. -/
def withFate (fate : Fate) (ledger : Ledger α) : List α :=
  (ledger.gone.filter fun e => e.2 = fate).map Prod.fst

/-- A new element; in a full buffer it takes the place of the oldest. -/
def put (capacity : Nat) (ledger : Ledger α) (x : α) : Ledger α :=
  match ledger.buffer with
  | [] => ⟨ledger.gone, [x]⟩
  | oldest :: rest =>
      if capacity ≤ (oldest :: rest).length then
        ⟨ledger.gone ++ [(oldest, .dropped)], rest ++ [x]⟩
      else ⟨ledger.gone, oldest :: rest ++ [x]⟩

/-- The oldest element is delivered. -/
def take (ledger : Ledger α) : Ledger α :=
  match ledger.buffer with
  | [] => ledger
  | oldest :: rest => ⟨ledger.gone ++ [(oldest, .delivered)], rest⟩

/-- Everything in the buffer is given up. -/
def clear (ledger : Ledger α) : Ledger α :=
  ⟨ledger.gone ++ ledger.buffer.map fun x => (x, .cleared), []⟩

@[simp] theorem all_put (capacity : Nat) (ledger : Ledger α) (x : α) :
    (ledger.put capacity x).all = ledger.all ++ [x] := by
  obtain ⟨gone, buffer⟩ := ledger
  cases buffer with
  | nil => simp [put, all]
  | cons oldest rest => simp only [put, all]; split <;> simp

@[simp] theorem all_take (ledger : Ledger α) : ledger.take.all = ledger.all := by
  obtain ⟨gone, buffer⟩ := ledger
  cases buffer <;> simp [take, all]

@[simp] theorem all_clear (ledger : Ledger α) :
    ledger.clear.all = ledger.all := by
  simp [clear, all, Function.comp_def]

theorem delivered_put (capacity : Nat) (ledger : Ledger α) (x : α) :
    (ledger.put capacity x).withFate .delivered =
      ledger.withFate .delivered := by
  obtain ⟨gone, buffer⟩ := ledger
  cases buffer with
  | nil => rfl
  | cons oldest rest => simp only [put]; split <;> simp [withFate]

theorem delivered_clear (ledger : Ledger α) :
    ledger.clear.withFate .delivered = ledger.withFate .delivered := by
  simp [clear, withFate, List.filter_map, Function.comp_def]

theorem delivered_sublist (ledger : Ledger α) (fate : Fate) :
    (ledger.withFate fate).Sublist (ledger.gone.map Prod.fst) :=
  List.filter_sublist.map Prod.fst

/-- Every element has one of the three fates, or is still there. -/
theorem length_all (ledger : Ledger α) :
    ledger.all.length = (ledger.withFate .delivered).length +
      (ledger.withFate .dropped).length +
        (ledger.withFate .cleared).length + ledger.buffer.length := by
  obtain ⟨gone, buffer⟩ := ledger
  have hgone : gone.length =
      (gone.filter fun e => e.2 = .delivered).length +
        (gone.filter fun e => e.2 = .dropped).length +
          (gone.filter fun e => e.2 = .cleared).length := by
    induction gone with
    | nil => rfl
    | cons e gone ih =>
        obtain ⟨x, fate⟩ := e
        cases fate <;> simp [ih] <;> omega
  simp only [all, withFate, List.length_append, List.length_map]
  omega

/-- The buffer holds at most its capacity, and an element was dropped only
after that many newer ones. -/
structure Within (capacity : Nat) (ledger : Ledger α) : Prop where
  buffer_le : ledger.buffer.length ≤ capacity
  dropped_after : ∀ i x, ledger.gone[i]? = some (x, .dropped) →
    i + capacity < ledger.all.length

theorem within_empty (capacity : Nat) :
    (empty : Ledger α).Within capacity :=
  ⟨Nat.zero_le _, by simp [empty]⟩

theorem Within.put {capacity : Nat} (hcapacity : 0 < capacity)
    {ledger : Ledger α} (h : ledger.Within capacity) (x : α) :
    (ledger.put capacity x).Within capacity := by
  have hall := congrArg List.length (all_put capacity ledger x)
  rw [List.length_append, List.length_singleton] at hall
  obtain ⟨gone, buffer⟩ := ledger
  obtain ⟨hbuffer, hdropped⟩ := h
  simp only at hbuffer hdropped
  cases buffer with
  | nil =>
      refine ⟨hcapacity, fun i y hi => ?_⟩
      have hlt := hdropped i y hi
      omega
  | cons oldest rest =>
      by_cases hfull : capacity ≤ (oldest :: rest).length
      · simp only [Ledger.put, if_pos hfull] at hall ⊢
        refine ⟨by simpa using hbuffer, fun i y hi => ?_⟩
        have hlength : (⟨gone, oldest :: rest⟩ : Ledger α).all.length =
            gone.length + (oldest :: rest).length := by
          simp [all]
        rcases Nat.lt_or_ge i gone.length with hlt | hge
        · rw [List.getElem?_append_left hlt] at hi
          have hlt' := hdropped i y hi
          omega
        · have hi' : i < (gone ++ [(oldest, Fate.dropped)]).length :=
            (List.getElem?_eq_some_iff.mp hi).1
          rw [List.length_append, List.length_singleton] at hi'
          omega
      · simp only [Ledger.put, if_neg hfull] at hall ⊢
        refine ⟨?_, fun i y hi => ?_⟩
        · simp only [List.length_append, List.length_cons,
            List.length_nil] at hfull ⊢
          omega
        · have hlt := hdropped i y hi
          omega

theorem Within.take {capacity : Nat} {ledger : Ledger α}
    (h : ledger.Within capacity) : ledger.take.Within capacity := by
  have hall := all_take ledger
  obtain ⟨gone, buffer⟩ := ledger
  cases buffer with
  | nil => exact h
  | cons oldest rest =>
      refine ⟨Nat.le_of_succ_le h.buffer_le, fun i y hi => ?_⟩
      rw [hall]
      rcases Nat.lt_or_ge i gone.length with hlt | hge
      · refine h.dropped_after i y ?_
        rwa [Ledger.take, List.getElem?_append_left hlt] at hi
      · rw [Ledger.take, List.getElem?_append_right hge] at hi
        obtain ⟨_, hlast⟩ := List.getElem?_eq_some_iff.mp hi
        simp at hlast

theorem Within.clear {capacity : Nat} {ledger : Ledger α}
    (h : ledger.Within capacity) : ledger.clear.Within capacity := by
  refine ⟨Nat.zero_le _, fun i y hi => ?_⟩
  rw [all_clear]
  rcases Nat.lt_or_ge i ledger.gone.length with hlt | hge
  · refine h.dropped_after i y ?_
    rwa [Ledger.clear, List.getElem?_append_left hlt] at hi
  · rw [Ledger.clear, List.getElem?_append_right hge, List.getElem?_map] at hi
    obtain ⟨_, -, hlast⟩ := Option.map_eq_some_iff.mp hi
    simp at hlast

end Ledger
