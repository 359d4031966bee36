/-
The operations of floating point on extended numbers in exact arithmetic:
differences, products, quotients and maxima, and the exponential and the
logarithm of the reals.
-/
import SelfDistillation.Library.ExtendedNum

namespace ExtNum

universe u

variable {F : Type u}

section Difference

variable [AddCommGroup F]

protected def neg : ExtNum F → ExtNum F
  | fin x => fin (-x)
  | inf s => inf !s
  | nan => nan

instance : Neg (ExtNum F) := ⟨ExtNum.neg⟩

instance : Sub (ExtNum F) := ⟨fun x y => x + -y⟩

@[simp] theorem neg_fin (x : F) : -(fin x) = fin (-x) := rfl

theorem sub_def (x y : ExtNum F) : x - y = x + -y := rfl

@[simp] theorem fin_sub_fin (x y : F) : fin x - fin y = fin (x - y) := by
  rw [sub_def, neg_fin, fin_add_fin, sub_eq_add_neg]

@[simp] theorem inf_sub_fin (s : Bool) (y : F) : inf s - fin y = inf s := rfl

theorem add_ne_fin {x : ExtNum F} (hx : ∀ a, x ≠ fin a) (y : ExtNum F)
    (b : F) : x + y ≠ fin b := by
  cases x with
  | fin x => exact absurd rfl (hx x)
  | nan => simp
  | inf q =>
      cases y with
      | fin y => simp
      | nan => simp
      | inf r => rw [inf_add_inf]; split <;> simp

/-- A sum with a summand that is not a number is none. -/
theorem sum_ne_fin {ι : Type*} {f : ι → ExtNum F} {s : Finset ι} {i : ι}
    (hi : i ∈ s) (h : ∀ x, f i ≠ fin x) (x : F) : ∑ i ∈ s, f i ≠ fin x := by
  classical
  rw [← Finset.add_sum_erase s f hi]
  exact add_ne_fin h _ x

end Difference

section Product

variable [Field F] [LinearOrder F]

/-- Zero times an infinity is no number. -/
protected def mul : ExtNum F → ExtNum F → ExtNum F
  | fin x, fin y => fin (x * y)
  | fin x, inf s => if x = 0 then nan else inf (s ^^ decide (x < 0))
  | inf s, fin x => if x = 0 then nan else inf (s ^^ decide (x < 0))
  | inf s, inf r => inf (s ^^ r)
  | nan, _ => nan
  | _, nan => nan

instance : Mul (ExtNum F) := ⟨ExtNum.mul⟩

protected def div : ExtNum F → ExtNum F → ExtNum F
  | fin x, fin y =>
      if y = 0 then if x = 0 then nan else inf (decide (x < 0))
      else fin (x / y)
  | inf s, fin y => inf (s ^^ decide (y < 0))
  | fin _, inf _ => fin 0
  | inf _, inf _ => nan
  | nan, _ => nan
  | _, nan => nan

instance : Div (ExtNum F) := ⟨ExtNum.div⟩

@[simp] theorem fin_mul_fin (x y : F) : fin x * fin y = fin (x * y) := rfl

protected theorem mul_comm (x y : ExtNum F) : x * y = y * x := by
  cases x with
  | nan => cases y <;> rfl
  | fin x =>
      cases y with
      | fin y => exact congrArg fin (mul_comm x y)
      | inf s => rfl
      | nan => rfl
  | inf s =>
      cases y with
      | fin y => rfl
      | inf r => exact congrArg inf (Bool.xor_comm s r)
      | nan => rfl

theorem fin_div_fin (x : F) {y : F} (hy : y ≠ 0) :
    fin x / fin y = fin (x / y) := if_neg hy

@[simp] theorem zero_div_zero : (fin 0 / fin 0 : ExtNum F) = nan :=
  (if_pos rfl).trans (if_pos rfl)

/-- What is no number stays none under a factor that is not zero. -/
theorem mul_ne_fin {x : F} (hx : x ≠ 0) {y : ExtNum F}
    (hy : ∀ b, y ≠ fin b) (c : F) : fin x * y ≠ fin c := by
  cases y with
  | fin y => exact absurd rfl (hy y)
  | nan => nofun
  | inf s =>
      change (if x = 0 then nan else inf _) ≠ fin c
      rw [if_neg hx]
      nofun

theorem div_fin_ne_fin {x : ExtNum F} (hx : ∀ a, x ≠ fin a) (y c : F) :
    x / fin y ≠ fin c := by
  cases x with
  | fin x => exact absurd rfl (hx x)
  | nan => nofun
  | inf s => nofun

end Product

section Max

variable [LinearOrder F]

/-- The larger of two, or the one that is a number. -/
protected def max : ExtNum F → ExtNum F → ExtNum F
  | nan, y => y
  | x, nan => x
  | inf true, y => y
  | x, inf true => x
  | inf false, _ => inf false
  | _, inf false => inf false
  | fin x, fin y => fin (max x y)

instance : Max (ExtNum F) := ⟨ExtNum.max⟩

@[simp] theorem max_fin_fin (x y : F) : max (fin x) (fin y) = fin (max x y) :=
  rfl

@[simp] theorem nan_max (y : ExtNum F) : max nan y = y := rfl

@[simp] theorem fin_max_nan (x : F) : max (fin x) nan = fin x := rfl

@[simp] theorem bot_max_fin (y : F) : max (inf true) (fin y) = fin y := rfl

@[simp] theorem fin_max_bot (x : F) : max (fin x) (inf true) = fin x := rfl

/-- The maximum of the first `n` values of `f`. -/
def maxOver (f : ℕ → ExtNum F) : ℕ → ExtNum F
  | 0 => nan
  | n + 1 => max (maxOver f n) (f n)

/-- Numbers, with the least infinity standing for none, have a number as their
maximum unless all are that infinity. -/
theorem maxOver_cases {f : ℕ → ExtNum F} (n : ℕ)
    (h : ∀ j < n, f j = inf true ∨ ∃ x, f j = fin x) :
    (∃ x, maxOver f n = fin x) ∨ (∀ j < n, f j = inf true) ∧
      (maxOver f n = nan ∨ maxOver f n = inf true) := by
  induction n with
  | zero => exact .inr ⟨fun j hj => absurd hj (Nat.not_lt_zero j), .inl rfl⟩
  | succ n ih =>
      rw [maxOver]
      have hrest := ih fun j hj => h j (hj.trans n.lt_succ_self)
      rcases hrest with ⟨x, hx⟩ | ⟨hall, hmax⟩
      · rw [hx]
        rcases h n n.lt_succ_self with hn | ⟨y, hn⟩ <;> simp [hn]
      · rcases h n n.lt_succ_self with hn | ⟨y, hn⟩
        · refine .inr ⟨fun j hj => ?_, .inr ?_⟩
          · rcases Nat.lt_succ_iff_lt_or_eq.mp hj with hj | rfl
            · exact hall j hj
            · exact hn
          · rcases hmax with hmax | hmax <;> rw [hmax, hn] <;> rfl
        · rcases hmax with hmax | hmax <;> simp [hmax, hn]

theorem maxOver_eq_fin {f : ℕ → ExtNum F} {n j : ℕ}
    (h : ∀ j < n, f j = inf true ∨ ∃ x, f j = fin x) (hj : j < n) {x : F}
    (hx : f j = fin x) : ∃ m, maxOver f n = fin m := by
  rcases maxOver_cases n h with hfin | ⟨hall, -⟩
  · exact hfin
  · rw [hall j hj] at hx
    cases hx

end Max

section Real

/-- The exponential. -/
noncomputable def exp : ExtNum ℝ → ExtNum ℝ
  | fin x => fin (Real.exp x)
  | inf true => fin 0
  | inf false => inf false
  | nan => nan

/-- The logarithm. -/
noncomputable def log : ExtNum ℝ → ExtNum ℝ
  | fin x =>
      if 0 < x then fin (Real.log x) else if x = 0 then inf true else nan
  | inf true => nan
  | inf false => inf false
  | nan => nan

@[simp] theorem exp_fin (x : ℝ) : exp (fin x) = fin (Real.exp x) := rfl

@[simp] theorem exp_bot : exp (inf true) = fin 0 := rfl

theorem log_fin {x : ℝ} (hx : 0 < x) : log (fin x) = fin (Real.log x) :=
  if_pos hx

end Real

end ExtNum
