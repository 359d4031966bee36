/-
Differencing heuristics over rows of bins: two rows are joined by pairing the
heaviest bin of one with the lightest bin of the other, and a pool of rows is
reduced by joining two of them until one is left.
-/
import Mathlib

namespace Differencing

universe u v

section Pairing

variable {β : Type u}

/-- Bin `i` of the first row joined with the `i`-th bin from the end of the
second. -/
def pairReversed (join : β → β → β) (left right : List β) : List β :=
  List.zipWith join left right.reverse

theorem length_pairReversed (join : β → β → β) {left right : List β}
    (hlen : left.length = right.length) :
    (pairReversed join left right).length = left.length := by
  simp [pairReversed, hlen]

theorem getElem_pairReversed (join : β → β → β) {left right : List β}
    {i : Nat} (hi : i < (pairReversed join left right).length)
    (hleft : i < left.length) (hright : right.length - 1 - i < right.length) :
    (pairReversed join left right)[i] =
      join left[i] right[right.length - 1 - i] := by
  simp [pairReversed, List.getElem_zipWith, List.getElem_reverse]

/-- Every joined bin comes from one index: bin `i` on the left, its mirror
image on the right. -/
theorem mem_pairReversed {join : β → β → β} {left right : List β} {bin : β}
    (hlen : left.length = right.length)
    (hbin : bin ∈ pairReversed join left right) :
    ∃ i, ∃ (hi : i < left.length) (hi' : right.length - 1 - i < right.length),
      bin = join left[i] right[right.length - 1 - i] := by
  obtain ⟨i, hi, rfl⟩ := List.mem_iff_getElem.mp hbin
  have hleft : i < left.length := by
    rwa [length_pairReversed join hlen] at hi
  have hright : right.length - 1 - i < right.length := by omega
  exact ⟨i, hleft, hright, getElem_pairReversed join hi hleft hright⟩

/-- A quantity that `join` adds up is added up over whole rows. -/
theorem sum_map_pairReversed {M : Type v} [AddCommMonoid M]
    {join : β → β → β} {μ : β → M} (hμ : ∀ x y, μ (join x y) = μ x + μ y)
    {left right : List β} (hlen : left.length = right.length) :
    ((pairReversed join left right).map μ).sum =
      (left.map μ).sum + (right.map μ).sum := by
  have hzip : ∀ xs ys : List β, xs.length = ys.length →
      ((List.zipWith join xs ys).map μ).sum =
        (xs.map μ).sum + (ys.map μ).sum := by
    intro xs
    induction xs with
    | nil =>
        intro ys hys
        have hnil : ys = [] := List.length_eq_zero_iff.mp hys.symm
        simp [hnil]
    | cons x xs ih =>
        intro ys hys
        cases ys with
        | nil => simp at hys
        | cons y ys =>
            simp only [List.zipWith_cons_cons, List.map_cons, List.sum_cons,
              hμ, ih ys (by simpa using hys)]
            abel
  have hrev : (right.reverse.map μ).sum = (right.map μ).sum :=
    ((List.reverse_perm right).map μ).sum_eq
  rw [pairReversed, hzip left right.reverse (by simpa using hlen), hrev]

section Spread

variable {G : Type v} [AddCommGroup G] [LinearOrder G] [IsOrderedAddMonoid G]

/-- The weights of any two bins of a row differ by at most `bound`. -/
def SpreadLe (weight : β → G) (bound : G) (row : List β) : Prop :=
  ∀ x ∈ row, ∀ y ∈ row, weight x - weight y ≤ bound

/-- Pairing heavy with light never spreads the row further than the wider of
its two halves: of two joined bins, one half descends while the other
ascends. -/
theorem spreadLe_pairReversed {join : β → β → β} {weight : β → G}
    (hweight : ∀ x y, weight (join x y) = weight x + weight y) {bound : G}
    {left right : List β} (hlen : left.length = right.length)
    (hleft : left.Pairwise (fun x y => weight y ≤ weight x))
    (hright : right.Pairwise (fun x y => weight y ≤ weight x))
    (hspreadLeft : SpreadLe weight bound left)
    (hspreadRight : SpreadLe weight bound right) :
    SpreadLe weight bound (pairReversed join left right) := by
  have hmono : ∀ {row : List β},
      row.Pairwise (fun x y => weight y ≤ weight x) →
      ∀ {i j : Nat} (hi : i < row.length) (hj : j < row.length), i ≤ j →
        weight row[j] ≤ weight row[i] := by
    intro row hrow i j hi hj hij
    rcases Nat.lt_or_eq_of_le hij with hlt | rfl
    · exact List.pairwise_iff_getElem.mp hrow i j hi hj hlt
    · exact le_rfl
  intro x hx y hy
  obtain ⟨i, hi, hi', rfl⟩ := mem_pairReversed hlen hx
  obtain ⟨j, hj, hj', rfl⟩ := mem_pairReversed hlen hy
  rw [hweight, hweight, add_sub_add_comm]
  rcases Nat.le_total i j with hij | hji
  · have hdown := hspreadLeft _ (List.getElem_mem hi) _ (List.getElem_mem hj)
    have hup : weight right[right.length - 1 - i] ≤
        weight right[right.length - 1 - j] :=
      hmono hright hj' hi' (by omega)
    calc weight left[i] - weight left[j] + _
        ≤ bound + 0 := add_le_add hdown (sub_nonpos.mpr hup)
      _ = bound := add_zero bound
  · have hdown := hspreadRight _ (List.getElem_mem hi') _
      (List.getElem_mem hj')
    have hup : weight left[i] ≤ weight left[j] := hmono hleft hj hi hji
    calc weight left[i] - weight left[j] + _
        ≤ 0 + bound := add_le_add (sub_nonpos.mpr hup) hdown
      _ = bound := zero_add bound

omit [IsOrderedAddMonoid G] in
theorem SpreadLe.perm {weight : β → G} {bound : G} {row row' : List β}
    (hperm : row.Perm row') (hrow : SpreadLe weight bound row) :
    SpreadLe weight bound row' :=
  fun x hx y hy => hrow x (hperm.mem_iff.mpr hx) y (hperm.mem_iff.mpr hy)

end Spread

section Occupancy

/-- No empty bin stands before an occupied one. -/
def OccupiedFirst (occupied : β → Bool) (row : List β) : Prop :=
  row.Pairwise (fun x y => occupied y = true → occupied x = true)

theorem OccupiedFirst.getElem_iff {occupied : β → Bool} {row : List β}
    (hrow : OccupiedFirst occupied row) {i : Nat} (hi : i < row.length) :
    occupied row[i] = true ↔ i < row.countP occupied := by
  induction row generalizing i with
  | nil => simp at hi
  | cons bin row ih =>
      have hbin := (List.pairwise_cons.mp hrow).1
      have htail := (List.pairwise_cons.mp hrow).2
      by_cases hocc : occupied bin = true
      · rw [List.countP_cons_of_pos hocc]
        cases i with
        | zero => simp [hocc]
        | succ i =>
            simp only [List.getElem_cons_succ]
            rw [ih htail (by simpa using hi)]
            omega
      · have hnone : ∀ x ∈ bin :: row, ¬ occupied x = true := by
          intro x hx hxocc
          rcases List.mem_cons.mp hx with rfl | hx
          · exact hocc hxocc
          · exact hocc (hbin x hx hxocc)
        have hzero : (bin :: row).countP occupied = 0 :=
          List.countP_eq_zero.mpr hnone
        rw [hzero]
        simpa using hnone _ (List.getElem_mem hi)

private theorem countP_range_or (n p t : Nat) (hp : p ≤ n) (ht : t ≤ n) :
    (List.range n).countP (fun i => decide (i < p) || decide (t ≤ i)) =
      min n (p + (n - t)) := by
  have hbelow : ∀ m, (List.range m).countP
      (fun i => decide (i < p) || decide (t ≤ i)) =
        min m p + (m - max t p) := by
    intro m
    induction m with
    | zero => simp
    | succ m ih =>
        rw [List.range_succ, List.countP_append, ih, List.countP_singleton]
        by_cases hm : m < p
        · simp only [hm, decide_true, Bool.true_or, if_true]
          omega
        · by_cases htm : t ≤ m
          · simp only [hm, htm, decide_true, decide_false, Bool.or_true,
              if_true]
            omega
          · simp [hm, htm]
            omega
  rw [hbelow n]
  omega

/-- Occupied bins of two rows go to different bins as long as there is room:
the first row fills from the front, the second one from the back. -/
theorem countP_pairReversed {join : β → β → β} {occupied : β → Bool}
    (hocc : ∀ x y, occupied (join x y) = (occupied x || occupied y))
    {left right : List β} (hlen : left.length = right.length)
    (hleft : OccupiedFirst occupied left)
    (hright : OccupiedFirst occupied right) :
    (pairReversed join left right).countP occupied =
      min left.length (left.countP occupied + right.countP occupied) := by
  let p := left.countP occupied
  let q := right.countP occupied
  have hp : p ≤ left.length := List.countP_le_length
  have hq : q ≤ right.length := List.countP_le_length
  have hmap : (pairReversed join left right).map occupied =
      (List.range left.length).map
        (fun i => decide (i < p) || decide (left.length - q ≤ i)) := by
    apply List.ext_getElem
    · simp [length_pairReversed join hlen]
    · intro i hi hi'
      have hil : i < left.length := by simpa using hi'
      have hir : right.length - 1 - i < right.length := by omega
      simp only [List.getElem_map, List.getElem_range]
      rw [getElem_pairReversed join (by simpa using hi) hil hir, hocc]
      congr 1
      · rw [Bool.eq_iff_iff, hleft.getElem_iff hil]
        simp [p]
      · rw [Bool.eq_iff_iff, hright.getElem_iff hir, decide_eq_true_iff]
        omega
  calc (pairReversed join left right).countP occupied
      = ((pairReversed join left right).map occupied).countP id := by
        rw [List.countP_map]; rfl
    _ = (List.range left.length).countP
        (fun i => decide (i < p) || decide (left.length - q ≤ i)) := by
        rw [hmap, List.countP_map]; rfl
    _ = min left.length (p + (left.length - (left.length - q))) :=
        countP_range_or _ _ _ hp (Nat.sub_le _ _)
    _ = min left.length (p + q) := by
        rw [Nat.sub_sub_self (hlen ▸ hq)]

end Occupancy

end Pairing

section Reduction

variable {σ : Type u}

/-- Take an element no other one is smaller than out of a pool. -/
def popMin (lt : σ → σ → Bool) : List σ → Option (σ × List σ)
  | [] => none
  | x :: xs =>
      match popMin lt xs with
      | none => some (x, [])
      | some (y, rest) => if lt y x then some (y, x :: rest) else some (x, y :: rest)

theorem popMin_eq_none_iff {lt : σ → σ → Bool} {pool : List σ} :
    popMin lt pool = none ↔ pool = [] := by
  cases pool with
  | nil => simp [popMin]
  | cons x xs =>
      simp only [popMin, reduceCtorEq, iff_false]
      cases popMin lt xs with
      | none => simp
      | some popped => by_cases h : lt popped.1 x <;> simp [h]

theorem popMin_perm {lt : σ → σ → Bool} {pool rest : List σ} {x : σ}
    (hpop : popMin lt pool = some (x, rest)) : pool.Perm (x :: rest) := by
  induction pool generalizing x rest with
  | nil => simp [popMin] at hpop
  | cons head tail ih =>
      simp only [popMin] at hpop
      cases htail : popMin lt tail with
      | none =>
          rw [htail] at hpop
          obtain ⟨rfl, rfl⟩ : head = x ∧ [] = rest := by simpa using hpop
          rw [popMin_eq_none_iff.mp htail]
      | some popped =>
          obtain ⟨y, others⟩ := popped
          rw [htail] at hpop
          have hperm := (ih htail).cons head
          by_cases hlt : lt y head = true
          · obtain ⟨rfl, rfl⟩ : y = x ∧ head :: others = rest := by
              simpa [hlt] using hpop
            exact hperm.trans (List.Perm.swap y head others)
          · obtain ⟨rfl, rfl⟩ : head = x ∧ y :: others = rest := by
              simpa [hlt] using hpop
            exact hperm

/-- Join the two least elements of the pool until one is left; every round
shortens the pool by one, so its length is fuel enough. -/
def reducePool (lt : σ → σ → Bool) (join : σ → σ → σ) :
    Nat → List σ → List σ
  | 0, pool => pool
  | fuel + 1, pool =>
      match popMin lt pool with
      | none => pool
      | some (first, rest) =>
          match popMin lt rest with
          | none => pool
          | some (second, others) =>
              reducePool lt join fuel (join first second :: others)

/-- One round: either the pool has at most one element, or two of its
elements make room for their join. -/
theorem reducePool_succ_cases (lt : σ → σ → Bool) (join : σ → σ → σ)
    (fuel : Nat) (pool : List σ) :
    (pool.length ≤ 1 ∧ reducePool lt join (fuel + 1) pool = pool) ∨
      ∃ first second others, pool.Perm (first :: second :: others) ∧
        reducePool lt join (fuel + 1) pool =
          reducePool lt join fuel (join first second :: others) := by
  cases hfirst : popMin lt pool with
  | none =>
      left
      rw [popMin_eq_none_iff.mp hfirst]
      simp [reducePool, popMin]
  | some popped =>
      obtain ⟨first, rest⟩ := popped
      have hperm := popMin_perm hfirst
      cases hsecond : popMin lt rest with
      | none =>
          left
          have hrest := popMin_eq_none_iff.mp hsecond
          refine ⟨?_, by simp [reducePool, hfirst, hsecond]⟩
          rw [hperm.length_eq, hrest]
          simp
      | some popped' =>
          obtain ⟨second, others⟩ := popped'
          right
          refine ⟨first, second, others, ?_, by
            simp [reducePool, hfirst, hsecond]⟩
          exact hperm.trans ((popMin_perm hsecond).cons first)

theorem reducePool_length {lt : σ → σ → Bool} {join : σ → σ → σ}
    {fuel : Nat} {pool : List σ} (hfuel : pool.length ≤ fuel)
    (hpool : pool ≠ []) : (reducePool lt join fuel pool).length = 1 := by
  induction fuel generalizing pool with
  | zero =>
      exact absurd (List.length_eq_zero_iff.mp (Nat.le_zero.mp hfuel)) hpool
  | succ fuel ih =>
      rcases reducePool_succ_cases lt join fuel pool with
        ⟨hlen, heq⟩ | ⟨first, second, others, hperm, heq⟩
      · rw [heq]
        have hpos := List.length_pos_iff.mpr hpool
        omega
      · rw [heq]
        have hlen := hperm.length_eq
        simp only [List.length_cons] at hlen
        exact ih (by simp only [List.length_cons]; omega) (by simp)

/-- The induction rule of the reduction: what every element has and `join`
keeps, the result has. -/
theorem reducePool_forall {lt : σ → σ → Bool} {join : σ → σ → σ}
    {P : σ → Prop} (hjoin : ∀ a b, P a → P b → P (join a b))
    {fuel : Nat} {pool : List σ} (hpool : ∀ a ∈ pool, P a) :
    ∀ a ∈ reducePool lt join fuel pool, P a := by
  induction fuel generalizing pool with
  | zero => exact hpool
  | succ fuel ih =>
      rcases reducePool_succ_cases lt join fuel pool with
        ⟨_, heq⟩ | ⟨first, second, others, hperm, heq⟩
      · rw [heq]
        exact hpool
      · rw [heq]
        apply ih
        have hall : ∀ a ∈ first :: second :: others, P a :=
          fun a ha => hpool a (hperm.mem_iff.mpr ha)
        intro a ha
        rcases List.mem_cons.mp ha with rfl | ha
        · exact hjoin first second (hall first (by simp))
            (hall second (by simp))
        · exact hall a (by simp [ha])

/-- A quantity that `join` adds up is the same before and after. -/
theorem reducePool_sum {M : Type v} [AddCommMonoid M] {lt : σ → σ → Bool}
    {join : σ → σ → σ} {μ : σ → M} (hμ : ∀ a b, μ (join a b) = μ a + μ b)
    (fuel : Nat) (pool : List σ) :
    ((reducePool lt join fuel pool).map μ).sum = (pool.map μ).sum := by
  induction fuel generalizing pool with
  | zero => rfl
  | succ fuel ih =>
      rcases reducePool_succ_cases lt join fuel pool with
        ⟨_, heq⟩ | ⟨first, second, others, hperm, heq⟩
      · rw [heq]
      · rw [heq, ih, (hperm.map μ).sum_eq]
        simp only [List.map_cons, List.sum_cons, hμ, add_assoc]

end Reduction

end Differencing
