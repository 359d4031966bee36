/-
Exact arithmetic extended by the special values of floating point: two
infinities and a value that is not a number, which absorbs everything.
-/
import Mathlib

universe u

/-- A number, an infinity (`inf true` is the negative one), or not a number. -/
inductive ExtNum (F : Type u)
  | fin (x : F)
  | inf (neg : Bool)
  | nan
deriving DecidableEq

namespace ExtNum

variable {F : Type u} {ι : Type*}

section Add

variable [AddCommMonoid F]

/-- The infinities of the two signs have no sum. -/
protected def add : ExtNum F → ExtNum F → ExtNum F
  | fin x, fin y => fin (x + y)
  | inf s, fin _ => inf s
  | fin _, inf s => inf s
  | inf s, inf r => if s = r then inf s else nan
  | nan, _ => nan
  | _, nan => nan

instance : Zero (ExtNum F) := ⟨fin 0⟩

instance : Add (ExtNum F) := ⟨ExtNum.add⟩

omit [AddCommMonoid F] in
theorem zero_def [AddCommMonoid F] : (0 : ExtNum F) = fin 0 := rfl

@[simp] theorem fin_add_fin (x y : F) : (fin x + fin y : ExtNum F) =
    fin (x + y) := rfl

@[simp] theorem inf_add_fin (s : Bool) (y : F) :
    (inf s + fin y : ExtNum F) = inf s := rfl

@[simp] theorem fin_add_inf (x : F) (s : Bool) :
    (fin x + inf s : ExtNum F) = inf s := rfl

@[simp] theorem inf_add_inf (s r : Bool) :
    (inf s + inf r : ExtNum F) = if s = r then inf s else nan := rfl

@[simp] theorem nan_add (x : ExtNum F) : nan + x = nan := by
  cases x <;> rfl

@[simp] theorem add_nan (x : ExtNum F) : x + nan = nan := by
  cases x <;> rfl

protected theorem add_comm (x y : ExtNum F) : x + y = y + x := by
  cases x with
  | nan => rw [nan_add, add_nan]
  | inf s =>
      cases y with
      | nan => rfl
      | fin y => rfl
      | inf r => cases s <;> cases r <;> rfl
  | fin x =>
      cases y with
      | nan => rfl
      | inf r => rfl
      | fin y => exact congrArg fin (add_comm x y)

protected theorem add_assoc (x y z : ExtNum F) : x + y + z = x + (y + z) := by
  cases x with
  | nan => simp
  | inf s =>
      cases y with
      | nan => simp
      | inf r =>
          cases z with
          | nan => simp
          | inf q => cases s <;> cases r <;> cases q <;> rfl
          | fin z => cases s <;> cases r <;> rfl
      | fin y => cases z <;> simp
  | fin x =>
      cases y with
      | nan => simp
      | inf r =>
          cases z with
          | nan => simp
          | inf q => cases r <;> cases q <;> rfl
          | fin z => simp
      | fin y =>
          cases z with
          | nan => simp
          | inf q => simp
          | fin z => exact congrArg fin (add_assoc x y z)

protected theorem zero_add (x : ExtNum F) : 0 + x = x := by
  cases x with
  | nan => rfl
  | inf s => rfl
  | fin x => exact congrArg fin (zero_add x)

instance : AddCommMonoid (ExtNum F) where
  add_assoc := ExtNum.add_assoc
  zero_add := ExtNum.zero_add
  add_zero x := (ExtNum.add_comm x 0).trans (ExtNum.zero_add x)
  add_comm := ExtNum.add_comm
  nsmul := nsmulRec

/-- The numbers among the extended ones. -/
def finHom : F →+ ExtNum F where
  toFun := fin
  map_zero' := rfl
  map_add' _ _ := rfl

theorem sum_fin (s : Finset ι) (f : ι → F) :
    ∑ i ∈ s, fin (f i) = fin (∑ i ∈ s, f i) :=
  (map_sum (finHom (F := F)) f s).symm

section Sum

variable (f : ι → ExtNum F)

/-- A sum is not a number if a summand is none or if both infinities occur; it
is an infinity if that one occurs and nothing stands against it. The two are
proved together, by induction on the summands. -/
theorem sum_special (s : Finset ι) :
    (∑ i ∈ s, f i = nan ↔ (∃ i ∈ s, f i = nan) ∨
      ((∃ i ∈ s, f i = inf true) ∧ ∃ i ∈ s, f i = inf false)) ∧
    ∀ q, ∑ i ∈ s, f i = inf q ↔ (∃ i ∈ s, f i = inf q) ∧
      (¬ ∃ i ∈ s, f i = nan) ∧ ¬ ∃ i ∈ s, f i = inf !q := by
  classical
  induction s using Finset.induction with
  | empty => simp [zero_def]
  | insert j s hj ih =>
      obtain ⟨hnan, hinf⟩ := ih
      have hpos := hinf false
      have hneg := hinf true
      rw [Finset.sum_insert hj]
      simp only [Bool.forall_bool, Bool.not_true, Bool.not_false,
        Finset.exists_mem_insert] at hpos hneg ⊢
      clear hinf
      -- of the summands before `j` only three facts and the sum matter
      generalize (∃ i ∈ s, f i = nan) = someNan at *
      generalize (∃ i ∈ s, f i = inf true) = someNeg at *
      generalize (∃ i ∈ s, f i = inf false) = somePos at *
      generalize ∑ i ∈ s, f i = x at *
      cases f j with
      | nan => simp
      | fin a => cases x <;> simp_all
      | inf r =>
          cases x with
          | nan => cases r <;> simp_all <;> tauto
          | fin x => cases r <;> simp_all
          | inf q => cases r <;> cases q <;> simp_all

theorem sum_eq_nan_iff (s : Finset ι) :
    ∑ i ∈ s, f i = nan ↔ (∃ i ∈ s, f i = nan) ∨
      ((∃ i ∈ s, f i = inf true) ∧ ∃ i ∈ s, f i = inf false) :=
  (sum_special f s).1

theorem sum_eq_nan_of_mem {f : ι → ExtNum F} {s : Finset ι} {i : ι}
    (hi : i ∈ s) (h : f i = nan) : ∑ i ∈ s, f i = nan :=
  (sum_eq_nan_iff f s).mpr (Or.inl ⟨i, hi, h⟩)

end Sum

/-- A number without its size. -/
def withoutSize : ExtNum F → ExtNum PUnit
  | fin _ => fin ⟨⟩
  | inf s => inf s
  | nan => nan

/-- What is left of a number when its size is forgotten; that much of a sum
depends only on that much of its summands. -/
def kind : ExtNum F →+ ExtNum PUnit where
  toFun := withoutSize
  map_zero' := rfl
  map_add' x y := by
    cases x with
    | nan => rw [nan_add]; exact (nan_add _).symm
    | fin x => cases y <;> rfl
    | inf s =>
        cases y with
        | nan => rfl
        | fin y => rfl
        | inf r => cases s <;> cases r <;> rfl

@[simp] theorem kind_fin (x : F) : kind (fin x) = fin ⟨⟩ := rfl

@[simp] theorem kind_inf (s : Bool) : kind (inf s : ExtNum F) = inf s := rfl

@[simp] theorem kind_nan : kind (nan : ExtNum F) = nan := rfl

theorem kind_eq_nan_iff {x : ExtNum F} : kind x = nan ↔ x = nan := by
  cases x <;> simp

theorem kind_eq_inf_iff {x : ExtNum F} {s : Bool} :
    kind x = inf s ↔ x = inf s := by
  cases x <;> simp

end Add

/-- A number, not an infinity and not `nan`. -/
def isFinite : ExtNum F → Bool
  | fin _ => true
  | _ => false

section Scale

variable [Field F] [LinearOrder F]

/-- Multiplication by a number: an infinity times 0 is not a number. -/
def times : ExtNum F → F → ExtNum F
  | fin x, c => fin (x * c)
  | inf s, c => if c = 0 then nan else inf (s != decide (c < 0))
  | nan, _ => nan

/-- Division by a number: 0 by 0 is not a number, anything else by 0 is
infinite. -/
def dividedBy : ExtNum F → F → ExtNum F
  | fin x, c =>
      if c = 0 then if x = 0 then nan else inf (decide (x < 0))
      else fin (x / c)
  | inf s, c => inf (s != decide (c < 0))
  | nan, _ => nan

@[simp] theorem nan_times (c : F) : (nan : ExtNum F).times c = nan := rfl

@[simp] theorem nan_dividedBy (c : F) :
    (nan : ExtNum F).dividedBy c = nan := rfl

theorem times_eq_nan_iff {x : ExtNum F} {c : F} (hc : c ≠ 0) :
    x.times c = nan ↔ x = nan := by
  cases x <;> simp [times, hc]

theorem dividedBy_eq_nan_iff {x : ExtNum F} {c : F} (hc : c ≠ 0) :
    x.dividedBy c = nan ↔ x = nan := by
  cases x <;> simp [dividedBy, hc]

/-- Only a finite number is wiped out by 0. -/
theorem times_zero (x : ExtNum F) :
    x.times 0 = if x.isFinite then 0 else nan := by
  cases x <;> simp [times, isFinite, zero_def]

theorem fin_dividedBy_of_ne_zero (x : F) {c : F} (hc : c ≠ 0) :
    (fin x).dividedBy c = fin (x / c) := if_neg hc

variable [IsStrictOrderedRing F]

@[simp] theorem times_one (x : ExtNum F) : x.times 1 = x := by
  cases x <;> simp [times, not_lt.mpr zero_le_one]

omit [IsStrictOrderedRing F] in
theorem kind_dividedBy_of_pos {c : F} (hc : 0 < c) (x : ExtNum F) :
    kind (x.dividedBy c) = kind x := by
  cases x <;> simp [dividedBy, hc.ne', not_lt.mpr hc.le]

end Scale

end ExtNum
