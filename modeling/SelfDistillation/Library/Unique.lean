/-
The distinct labels of a list in order, and the position of each label among
them.  Two labels may have no order between them; then there is no result.
-/
import Mathlib

namespace Unique

universe u

variable {κ : Type u}

/-- Labels that are compared two at a time: `lt x y` is nothing where `x < y`
is an error, and a strict order without ties elsewhere. -/
structure Comparison (κ : Type u) where
  lt : κ → κ → Option Bool
  irrefl : ∀ x, lt x x ≠ some true
  trans : ∀ x y z, lt x y = some true → lt y z = some true →
    lt x z = some true
  eq_of_not_lt : ∀ x y, lt x y = some false → lt y x = some false → x = y

namespace Comparison

/-- Labels of one ordered type. -/
def ofLinearOrder [LinearOrder κ] : Comparison κ where
  lt x y := some (decide (x < y))
  irrefl x := by simp
  trans x y z hxy hyz := by
    simp only [Option.some.injEq, decide_eq_true_eq] at hxy hyz ⊢
    exact hxy.trans hyz
  eq_of_not_lt x y hxy hyx := by
    simp only [Option.some.injEq, decide_eq_false_iff_not, not_lt] at hxy hyx
    exact le_antisymm hyx hxy

/-- Sorting compares nothing it cannot compare. -/
def Sortable (c : Comparison κ) (xs : List κ) : Prop :=
  xs.length ≤ 1 ∨ ∀ x ∈ xs, ∀ y ∈ xs, (c.lt x y).isSome = true

instance (c : Comparison κ) (xs : List κ) : Decidable (c.Sortable xs) :=
  inferInstanceAs (Decidable (_ ∨ _))

variable [DecidableEq κ]

/-- The distinct labels in order. -/
def unique (c : Comparison κ) (xs : List κ) : List κ :=
  xs.dedup.insertionSort fun x y => c.lt y x ≠ some true

/-- The distinct labels in order, if all of them have one. -/
def unique? (c : Comparison κ) (xs : List κ) : Option (List κ) :=
  if c.Sortable xs then some (c.unique xs) else none

variable (c : Comparison κ) {xs : List κ} {x y : κ}

theorem unique_perm (xs : List κ) : (c.unique xs).Perm xs.dedup :=
  List.perm_insertionSort _ _

@[simp] theorem mem_unique : x ∈ c.unique xs ↔ x ∈ xs := by
  rw [(c.unique_perm xs).mem_iff, List.mem_dedup]

theorem nodup_unique (xs : List κ) : (c.unique xs).Nodup :=
  (c.unique_perm xs).nodup_iff.mpr (List.nodup_dedup xs)

/-- Labels have one position exactly if they are equal. -/
theorem idxOf_unique_eq_iff (hx : x ∈ xs) :
    (c.unique xs).idxOf x = (c.unique xs).idxOf y ↔ x = y :=
  List.idxOf_inj (c.mem_unique.mpr hx)

theorem idxOf_unique_lt (hx : x ∈ xs) :
    (c.unique xs).idxOf x < (c.unique xs).length :=
  List.idxOf_lt_length_of_mem (c.mem_unique.mpr hx)

/-- Every position is that of a label. -/
theorem exists_idxOf_eq (xs : List κ) {k : Nat}
    (hk : k < (c.unique xs).length) :
    ∃ x ∈ xs, (c.unique xs).idxOf x = k := by
  refine ⟨(c.unique xs)[k], ?_, (c.nodup_unique xs).idxOf_getElem k hk⟩
  exact c.mem_unique.mp (List.getElem_mem hk)

end Comparison

end Unique
