/-
Arrays of any number of axes, read at index lists: slices and concatenation
along one axis.
-/
import Mathlib.Algebra.Order.Ring.Nat
import Mathlib.Tactic.Ring

namespace SelfDistillation

/-- Position on axis `d`. -/
def pos (idx : List Nat) (d : Nat) : Nat := idx.getD d 0

/-- One position for each axis, each below its size. -/
def InBounds (shape idx : List Nat) : Prop :=
  idx.length = shape.length ∧ ∀ d < shape.length, pos idx d < pos shape d

instance (shape idx : List Nat) : Decidable (InBounds shape idx) :=
  inferInstanceAs (Decidable (_ ∧ _))

/-- An entry for each index in bounds. -/
structure NdArray (α : Type) where
  shape : List Nat
  get? : List Nat → Option α
  isSome_get? : ∀ idx, (get? idx).isSome = true ↔ InBounds shape idx

section Indices

variable {shape idx : List Nat} {d e k m : Nat}

theorem pos_set_self (h : d < idx.length) : pos (idx.set d k) d = k := by
  rw [pos, List.getD_eq_getElem?_getD, List.getElem?_set_self h,
    Option.getD_some]

theorem pos_set_of_ne (h : d ≠ e) : pos (idx.set d k) e = pos idx e := by
  rw [pos, pos, List.getD_eq_getElem?_getD, List.getElem?_set_ne h,
    List.getD_eq_getElem?_getD]

theorem set_pos (idx : List Nat) (d : Nat) : idx.set d (pos idx d) = idx := by
  apply List.ext_getElem?
  intro e
  rw [List.getElem?_set]
  split
  · rename_i heq
    subst heq
    split
    · rename_i hlt
      rw [pos, List.getD_eq_getElem?_getD, List.getElem?_eq_getElem hlt]
      rfl
    · rename_i hge
      rw [List.getElem?_eq_none (Nat.le_of_not_lt hge)]
  · rfl

/-- In bounds on the axes other than `d`. -/
def OffAxis (d : Nat) (shape idx : List Nat) : Prop :=
  idx.length = shape.length ∧
    ∀ e < shape.length, e ≠ d → pos idx e < pos shape e

theorem inBounds_iff (hd : d < shape.length) :
    InBounds shape idx ↔ OffAxis d shape idx ∧ pos idx d < pos shape d := by
  constructor
  · rintro ⟨hlength, hpos⟩
    exact ⟨⟨hlength, fun e he _ => hpos e he⟩, hpos d hd⟩
  · rintro ⟨⟨hlength, hpos⟩, hat⟩
    refine ⟨hlength, fun e he => ?_⟩
    by_cases heq : e = d
    · rw [heq]
      exact hat
    · exact hpos e he heq

theorem offAxis_set_shape :
    OffAxis d (shape.set d k) idx ↔ OffAxis d shape idx := by
  rw [OffAxis, OffAxis, List.length_set]
  refine and_congr_right fun _ => forall₂_congr fun e _ => ?_
  exact forall_congr' fun hne => by rw [pos_set_of_ne (Ne.symm hne)]

theorem offAxis_set_index :
    OffAxis d shape (idx.set d k) ↔ OffAxis d shape idx := by
  rw [OffAxis, OffAxis, List.length_set]
  refine and_congr_right fun _ => forall₂_congr fun e _ => ?_
  exact forall_congr' fun hne => by rw [pos_set_of_ne (Ne.symm hne)]

theorem inBounds_set_shape (hd : d < shape.length) :
    InBounds (shape.set d m) idx ↔ OffAxis d shape idx ∧ pos idx d < m := by
  rw [inBounds_iff (by rwa [List.length_set]), offAxis_set_shape,
    pos_set_self hd]

theorem inBounds_set_index (hd : d < shape.length) :
    InBounds shape (idx.set d k) ↔ OffAxis d shape idx ∧ k < pos shape d := by
  rw [inBounds_iff hd, offAxis_set_index]
  refine and_congr_right fun h => ?_
  rw [pos_set_self (h.1 ▸ hd)]

end Indices

namespace NdArray

variable {α β : Type} {d : Nat}

/-- `x.size(d)` -/
def size (x : NdArray α) (d : Nat) : Nat := pos x.shape d

theorem get?_eq_none {x : NdArray α} {idx : List Nat}
    (h : ¬ InBounds x.shape idx) : x.get? idx = none := by
  rw [← Option.not_isSome_iff_eq_none, x.isSome_get?]
  exact h

/-- Arrays of one shape that agree in bounds are one. -/
theorem ext_inBounds {x y : NdArray α} (hshape : x.shape = y.shape)
    (hget : ∀ idx, InBounds x.shape idx → x.get? idx = y.get? idx) :
    x = y := by
  have heq : x.get? = y.get? := by
    funext idx
    by_cases hin : InBounds x.shape idx
    · exact hget idx hin
    · rw [get?_eq_none hin, get?_eq_none (hshape ▸ hin)]
  obtain ⟨shape, get?, hsome⟩ := x
  obtain ⟨shape', get?', hsome'⟩ := y
  simp only at hshape heq
  subst hshape heq
  rfl

/-- `f` of each entry. -/
def map (f : α → β) (x : NdArray α) : NdArray β where
  shape := x.shape
  get? idx := (x.get? idx).map f
  isSome_get? idx := by rw [Option.isSome_map, x.isSome_get?]

/-- Sizes of the axes before and after one along which values lie. -/
structure Layout where
  before : List Nat
  after : List Nat

namespace Layout

def axis (l : Layout) : Nat := l.before.length

def shape (l : Layout) (count : Nat) : List Nat := l.before ++ count :: l.after

theorem axis_lt (l : Layout) (count : Nat) :
    l.axis < (l.shape count).length := by
  rw [axis, shape, List.length_append, List.length_cons]
  omega

theorem pos_shape (l : Layout) (count : Nat) :
    pos (l.shape count) l.axis = count := by
  rw [pos, shape, axis, List.getD_eq_getElem?_getD,
    List.getElem?_append_right (Nat.le_refl _), Nat.sub_self,
    List.getElem?_cons_zero, Option.getD_some]

theorem set_shape (l : Layout) (count count' : Nat) :
    (l.shape count).set l.axis count' = l.shape count' := by
  rw [shape, shape, axis, List.set_append_right _ _ (Nat.le_refl _),
    Nat.sub_self, List.set_cons_zero]

/-- Each value gives the entries at its position on the axis. -/
def along (l : Layout) (values : List (List Nat → α)) : NdArray α where
  shape := l.shape values.length
  get? idx :=
    if InBounds (l.shape values.length) idx then
      values[pos idx l.axis]?.map fun value => value (idx.set l.axis 0)
    else none
  isSome_get? idx := by
    by_cases hin : InBounds (l.shape values.length) idx
    · have hlt := hin.2 l.axis (l.axis_lt _)
      rw [l.pos_shape] at hlt
      simp [hin, hlt]
    · simp [hin]

@[simp] theorem shape_along (l : Layout) (values : List (List Nat → α)) :
    (l.along values).shape = l.shape values.length := rfl

end Layout

/-- `torch.full(shape, a)` -/
def full (shape : List Nat) (a : α) : NdArray α where
  shape := shape
  get? idx := if InBounds shape idx then some a else none
  isSome_get? idx := by
    split
    · simp_all
    · simp_all

/-- `x[start:stop]` on axis `d`, as far as the axis goes. -/
def slice (d start stop : Nat) (x : NdArray α) : NdArray α where
  shape := x.shape.set d (min stop (x.size d) - start)
  get? idx :=
    if d < x.shape.length then
      if pos idx d < min stop (x.size d) - start then
        x.get? (idx.set d (start + pos idx d))
      else none
    else x.get? idx
  isSome_get? idx := by
    by_cases hd : d < x.shape.length
    · rw [if_pos hd, inBounds_set_shape hd]
      split
      · rename_i hlt
        rw [x.isSome_get?, inBounds_set_index hd]
        refine and_congr_right fun _ => ?_
        simp only [size] at hlt ⊢
        omega
      · rename_i hge
        simp [hge]
    · rw [if_neg hd, x.isSome_get?, List.set_eq_of_length_le (by omega)]

/-- Of one shape but for axis `d`. -/
def Fits (d : Nat) (x y : NdArray α) : Prop :=
  d < x.shape.length ∧ y.shape = x.shape.set d (y.size d)

instance (d : Nat) (x y : NdArray α) : Decidable (Fits d x y) :=
  inferInstanceAs (Decidable (_ ∧ _))

/-- `y` behind `x` on axis `d`. -/
def append (d : Nat) (x y : NdArray α) (h : Fits d x y) : NdArray α where
  shape := x.shape.set d (x.size d + y.size d)
  get? idx := if pos idx d < x.size d then x.get? idx
    else y.get? (idx.set d (pos idx d - x.size d))
  isSome_get? idx := by
    have hd : d < x.shape.length := h.1
    rw [inBounds_set_shape hd]
    split
    · rename_i hlt
      rw [x.isSome_get?, inBounds_iff hd]
      refine and_congr_right fun _ => ?_
      simp only [size] at hlt ⊢
      omega
    · rename_i hge
      rw [y.isSome_get?, h.2, inBounds_set_index (by rwa [List.length_set]),
        offAxis_set_shape, pos_set_self hd]
      refine and_congr_right fun _ => ?_
      simp only [size] at hge ⊢
      omega

@[simp] theorem shape_append {x y : NdArray α} (h : Fits d x y) :
    (append d x y h).shape = x.shape.set d (x.size d + y.size d) := rfl

/-- `torch.cat(xs, dim=d)` -/
def cat? (d : Nat) : List (NdArray α) → Option (NdArray α)
  | [] => none
  | [x] => if d < x.shape.length then some x else none
  | x :: xs =>
      (cat? d xs).bind fun y => if h : Fits d x y then some (append d x y h)
        else none

theorem cat?_cons_of_some {x y : NdArray α} {xs : List (NdArray α)}
    (hne : xs ≠ []) (hy : cat? d xs = some y) (h : Fits d x y) :
    cat? d (x :: xs) = some (append d x y h) := by
  cases xs with
  | nil => exact absurd rfl hne
  | cons next xs =>
      simp only [cat?, hy, Option.bind_some, dif_pos h]

theorem lt_of_cat? {x y : NdArray α} {xs : List (NdArray α)}
    (hy : cat? d (x :: xs) = some y) : d < x.shape.length := by
  cases xs with
  | nil =>
      rw [cat?] at hy
      split at hy
      · assumption
      · cases hy
  | cons next xs =>
      rw [cat?, Option.bind_eq_some_iff] at hy
      · obtain ⟨rest, -, hrest⟩ := hy
        split at hrest
        · rename_i hfits
          exact hfits.1
        · cases hrest
      · exact List.cons_ne_nil _ _

section Slices

variable {x y : NdArray α} {start stop : Nat}

@[simp] theorem shape_slice :
    (x.slice d start stop).shape =
      x.shape.set d (min stop (x.size d) - start) := rfl

theorem size_slice (hd : d < x.shape.length) :
    (x.slice d start stop).size d = min stop (x.size d) - start := by
  rw [size, shape_slice, pos_set_self hd]

theorem get?_slice {idx : List Nat} (hd : d < x.shape.length)
    (hidx : pos idx d < min stop (x.size d) - start) :
    (x.slice d start stop).get? idx =
      x.get? (idx.set d (start + pos idx d)) := by
  simp only [slice, hd, hidx, if_true]

/-- The whole axis. -/
theorem slice_all (hd : d < x.shape.length) (hstop : x.size d ≤ stop) :
    x.slice d 0 stop = x := by
  have hsize : min stop (x.size d) - 0 = pos x.shape d := by
    rw [Nat.min_eq_right hstop, Nat.sub_zero, size]
  apply ext_inBounds
  · rw [shape_slice, hsize, set_pos]
  · intro idx hin
    rw [shape_slice, inBounds_set_shape hd] at hin
    rw [get?_slice hd hin.2, Nat.zero_add, set_pos]

theorem fits_slices {middle : Nat} (hd : d < x.shape.length) :
    Fits d (x.slice d start middle) (x.slice d middle stop) := by
  refine ⟨by rwa [shape_slice, List.length_set], ?_⟩
  rw [shape_slice, shape_slice, List.set_set, size_slice hd]

theorem append_slices {middle : Nat} (hd : d < x.shape.length)
    (hstart : start ≤ middle) (hmiddle : middle ≤ stop) :
    append d (x.slice d start middle) (x.slice d middle stop)
      (fits_slices hd) = x.slice d start stop := by
  have hshape : min middle (x.size d) - start +
      (min stop (x.size d) - middle) = min stop (x.size d) - start := by
    omega
  apply ext_inBounds
  · rw [shape_append, shape_slice, List.set_set, size_slice hd, size_slice hd,
      hshape, shape_slice]
  · intro idx hin
    have hin' : InBounds (x.shape.set d (min stop (x.size d) - start)) idx := by
      rwa [shape_append, shape_slice, List.set_set, size_slice hd, size_slice hd,
        hshape] at hin
    rw [inBounds_set_shape hd] at hin'
    have hidx : d < idx.length := hin'.1.1 ▸ hd
    have hpos := hin'.2
    rw [get?_slice hd hpos]
    simp only [append, size_slice hd]
    split
    · rename_i hlt
      rw [get?_slice hd hlt]
    · rename_i hge
      rw [get?_slice hd (by rw [pos_set_self hidx]; omega),
        pos_set_self hidx, List.set_set]
      congr 2
      omega

theorem slice_append_left (h : Fits d x y) :
    (append d x y h).slice d 0 (x.size d) = x := by
  have hd : d < (append d x y h).shape.length := by
    rw [shape_append, List.length_set]
    exact h.1
  have hsize : (append d x y h).size d = x.size d + y.size d := by
    rw [size, shape_append, pos_set_self h.1]
  have hmin : min (x.size d) (x.size d + y.size d) - 0 = pos x.shape d := by
    rw [Nat.min_eq_left (Nat.le_add_right _ _), Nat.sub_zero, size]
  apply ext_inBounds
  · rw [shape_slice, shape_append, hsize, List.set_set, hmin, set_pos]
  · intro idx hin
    have hlt : pos idx d < x.size d := by
      rw [shape_slice, inBounds_set_shape hd, hsize, hmin] at hin
      exact hin.2
    rw [get?_slice hd (by rwa [hsize, hmin]), Nat.zero_add, set_pos, append]
    exact if_pos hlt

theorem Layout.slice_along (l : Layout) (values : List (List Nat → α)) :
    (l.along values).slice l.axis start stop =
      l.along ((values.take stop).drop start) := by
  have hd : l.axis < (l.along values).shape.length := l.axis_lt _
  have hsize : (l.along values).size l.axis = values.length := l.pos_shape _
  have hlength : ((values.take stop).drop start).length =
      min stop values.length - start := by
    rw [List.length_drop, List.length_take]
  have hshape : ((l.along values).slice l.axis start stop).shape =
      l.shape (min stop values.length - start) := by
    rw [shape_slice, hsize]
    exact l.set_shape _ _
  apply ext_inBounds
  · rw [hshape, l.shape_along, hlength]
  · intro idx hin
    rw [hshape] at hin
    have hlt := hin.2 l.axis (l.axis_lt _)
    rw [l.pos_shape] at hlt
    have hidx : l.axis < idx.length := hin.1 ▸ l.axis_lt _
    have hin' : InBounds (l.shape values.length)
        (idx.set l.axis (start + pos idx l.axis)) := by
      rw [inBounds_set_index (l.axis_lt _), l.pos_shape]
      rw [← l.set_shape values.length, inBounds_set_shape (l.axis_lt _)] at hin
      exact ⟨hin.1, by omega⟩
    rw [get?_slice hd (by rwa [hsize]), Layout.along, Layout.along]
    simp only [hin', if_true, hlength, hin, pos_set_self hidx, List.set_set]
    rw [List.getElem?_drop, List.getElem?_take_of_lt (by omega)]

theorem map_slice (f : α → β) :
    (x.slice d start stop).map f = (x.map f).slice d start stop := by
  have hshape : ((x.slice d start stop).map f).shape =
      ((x.map f).slice d start stop).shape := rfl
  apply ext_inBounds hshape
  intro idx _
  by_cases hd : d < x.shape.length
  · by_cases hlt : pos idx d < min stop (pos x.shape d) - start
    · simp only [map, slice, size, hd, hlt, if_true]
    · simp only [map, slice, size, hd, hlt, if_true, if_false, Option.map_none]
  · simp only [map, slice, hd, if_false]

/-- Pieces of the lengths given, one behind the other. -/
def pieces (d : Nat) (x : NdArray α) : Nat → List Nat → List (NdArray α)
  | _, [] => []
  | start, count :: counts =>
      x.slice d start (start + count) :: pieces d x (start + count) counts

/-- Pieces of one length. -/
theorem pieces_replicate (start n k : Nat) :
    pieces d x start (List.replicate n k) = (List.range n).map fun i =>
      x.slice d (start + i * k) (start + (i + 1) * k) := by
  induction n generalizing start with
  | zero => rfl
  | succ n ih =>
      rw [List.replicate_succ, pieces, ih, List.range_succ_eq_map,
        List.map_cons, List.map_map]
      congr 1
      · rw [Nat.zero_mul, Nat.add_zero, Nat.zero_add, Nat.one_mul]
      · apply List.map_congr_left
        intro i _
        simp only [Function.comp_apply, Nat.succ_eq_add_one, Nat.add_mul,
          Nat.one_mul]
        congr 1 <;> omega

theorem map_pieces (f : α → β) (start : Nat) (counts : List Nat) :
    (pieces d x start counts).map (map f) =
      pieces d (x.map f) start counts := by
  induction counts generalizing start with
  | nil => rfl
  | cons count counts ih =>
      rw [pieces, pieces, List.map_cons, ih, map_slice]

theorem length_pieces (start : Nat) (counts : List Nat) :
    (pieces d x start counts).length = counts.length := by
  induction counts generalizing start with
  | nil => rfl
  | cons count counts ih => rw [pieces, List.length_cons, ih, List.length_cons]

/-- The pieces of a part of the axis make that part. -/
theorem cat?_pieces (hd : d < x.shape.length) {counts : List Nat}
    (hne : counts ≠ []) (start : Nat) :
    cat? d (pieces d x start counts) =
      some (x.slice d start (start + counts.sum)) := by
  induction counts generalizing start with
  | nil => exact absurd rfl hne
  | cons count counts ih =>
      have hslice : d < (x.slice d start (start + count)).shape.length := by
        rwa [shape_slice, List.length_set]
      cases counts with
      | nil =>
          rw [pieces, pieces, cat?, if_pos hslice, List.sum_singleton]
      | cons next counts =>
          have hrest := ih (List.cons_ne_nil _ _) (start + count)
          have hpieces : pieces d x (start + count) (next :: counts) ≠ [] :=
            List.cons_ne_nil _ _
          rw [pieces, cat?_cons_of_some hpieces hrest (fits_slices hd),
            append_slices hd (Nat.le_add_right _ _) (Nat.le_add_right _ _),
            Nat.add_assoc, ← List.sum_cons]

theorem Layout.cat?_along (l : Layout) (xs ys : List (List Nat → α)) :
    cat? l.axis [l.along xs, l.along ys] = some (l.along (xs ++ ys)) := by
  have hd : l.axis < (l.along (xs ++ ys)).shape.length := l.axis_lt _
  have hsize : (l.along (xs ++ ys)).size l.axis = (xs ++ ys).length :=
    l.pos_shape _
  have hpieces := cat?_pieces hd (List.cons_ne_nil xs.length [ys.length]) 0
  rw [pieces, pieces, pieces, l.slice_along, l.slice_along,
    slice_all hd (by rw [hsize]; simp)] at hpieces
  simpa [List.take_append, List.drop_append] using hpieces

end Slices

section Uniform

variable {shape : List Nat} {xs : List (NdArray α)}

/-- Arrays of one shape, one behind the other on axis `d`. -/
theorem exists_cat? (hne : xs ≠ []) (hshape : ∀ x ∈ xs, x.shape = shape)
    (hd : d < shape.length) :
    ∃ y, cat? d xs = some y ∧
      y.shape = shape.set d (xs.length * pos shape d) ∧
      ∀ idx, InBounds y.shape idx →
        y.get? idx = xs[pos idx d / pos shape d]?.bind
          fun x => x.get? (idx.set d (pos idx d % pos shape d)) := by
  induction xs with
  | nil => exact absurd rfl hne
  | cons x xs ih =>
      obtain ⟨hx, hxs⟩ := List.forall_mem_cons.mp hshape
      have hdx : d < x.shape.length := hx ▸ hd
      cases xs with
      | nil =>
          refine ⟨x, by rw [cat?, if_pos hdx], ?_, fun idx hin => ?_⟩
          · rw [List.length_singleton, Nat.one_mul, set_pos, hx]
          · have hlt := hin.2 d hdx
            rw [hx] at hlt
            rw [Nat.div_eq_of_lt hlt, Nat.mod_eq_of_lt hlt, set_pos]
            rfl
      | cons next xs =>
          obtain ⟨y, hy, hyshape, hget⟩ := ih (List.cons_ne_nil _ _) hxs
          have hysize : y.size d = (xs.length + 1) * pos shape d := by
            rw [size, hyshape, pos_set_self hd, List.length_cons]
          have hxsize : x.size d = pos shape d := by rw [size, hx]
          have hfits : Fits d x y :=
            ⟨hdx, by rw [hysize, hyshape, hx, List.length_cons]⟩
          refine ⟨append d x y hfits, ?_, ?_, fun idx hin => ?_⟩
          · exact cat?_cons_of_some (List.cons_ne_nil _ _) hy hfits
          · rw [shape_append, hx, hxsize, hysize, List.length_cons,
              List.length_cons, Nat.succ_mul (_ + 1), Nat.add_comm]
          · have hin' : InBounds (shape.set d
                (pos shape d + (xs.length + 1) * pos shape d)) idx := by
              rwa [shape_append, hx, hxsize, hysize] at hin
            rw [inBounds_set_shape hd] at hin'
            have hidx : d < idx.length := hin'.1.1 ▸ hd
            simp only [append, hxsize]
            split
            · rename_i hlt
              rw [Nat.div_eq_of_lt hlt, Nat.mod_eq_of_lt hlt, set_pos]
              rfl
            · rename_i hge
              have hpos : 0 < pos shape d := by
                by_contra hzero
                have hzero' : pos shape d = 0 := by omega
                rw [hzero', Nat.mul_zero] at hin'
                omega
              rw [hget _ (by
                rw [hyshape, inBounds_set_shape hd, offAxis_set_index,
                  pos_set_self hidx, List.length_cons]
                exact ⟨hin'.1, by omega⟩), pos_set_self hidx, List.set_set,
                Nat.div_eq_sub_div hpos (Nat.le_of_not_lt hge),
                Nat.mod_eq_sub_mod (Nat.le_of_not_lt hge)]
              rfl

/-- Each array is a piece of the whole. -/
theorem slice_of_cat? (hshape : ∀ x ∈ xs, x.shape = shape)
    (hd : d < shape.length) {y : NdArray α} (hy : cat? d xs = some y) {i : Nat}
    {x : NdArray α} (hx : xs[i]? = some x) :
    y.slice d (i * pos shape d) ((i + 1) * pos shape d) = x := by
  have hne : xs ≠ [] := by
    rintro rfl
    cases hx
  obtain ⟨y', hy', hyshape, hget⟩ := exists_cat? hne hshape hd
  cases hy.symm.trans hy'
  have hi := (List.getElem?_eq_some_iff.mp hx).1
  have hxshape := hshape x (List.mem_of_getElem? hx)
  have hsize : y.size d = xs.length * pos shape d := by
    rw [size, hyshape, pos_set_self hd]
  have hle : (i + 1) * pos shape d ≤ y.size d :=
    hsize ▸ Nat.mul_le_mul_right _ hi
  have hcount : min ((i + 1) * pos shape d) (y.size d) - i * pos shape d =
      pos shape d := by
    rw [Nat.min_eq_left hle, Nat.succ_mul, Nat.add_sub_cancel_left]
  have hdy : d < y.shape.length := by rwa [hyshape, List.length_set]
  apply ext_inBounds
  · rw [shape_slice, hcount, hyshape, List.set_set, set_pos, hxshape]
  · intro idx hin
    rw [shape_slice, hcount, hyshape, List.set_set, set_pos] at hin
    obtain ⟨hoff, hlt⟩ := (inBounds_iff hd).mp hin
    have hidx : d < idx.length := hoff.1 ▸ hd
    have hpos : 0 < pos shape d := Nat.lt_of_le_of_lt (Nat.zero_le _) hlt
    have hin' : InBounds y.shape
        (idx.set d (i * pos shape d + pos idx d)) := by
      rw [hyshape, inBounds_set_shape hd, offAxis_set_index,
        pos_set_self hidx, ← hsize]
      refine ⟨hoff, Nat.lt_of_lt_of_le ?_ hle⟩
      rw [Nat.succ_mul]
      omega
    have hdiv : (i * pos shape d + pos idx d) / pos shape d = i := by
      rw [Nat.add_comm, Nat.add_mul_div_right _ _ hpos, Nat.div_eq_of_lt hlt,
        Nat.zero_add]
    have hmod : (i * pos shape d + pos idx d) % pos shape d = pos idx d := by
      rw [Nat.add_comm, Nat.add_mul_mod_self_right, Nat.mod_eq_of_lt hlt]
    rw [get?_slice hdy (by rwa [hcount]), hget _ hin', pos_set_self hidx,
      hdiv, hmod, hx, Option.bind_some, List.set_set, set_pos]

end Uniform

section Padding

variable {x : NdArray α} {n : Nat}

/-- Axis `d` cut or filled up with `a` to `n` positions. -/
def padTo (d n : Nat) (a : α) (x : NdArray α) : NdArray α where
  shape := x.shape.set d n
  get? idx := if InBounds (x.shape.set d n) idx then some ((x.get? idx).getD a)
    else none
  isSome_get? idx := by
    split
    · simp_all
    · simp_all

@[simp] theorem shape_padTo (a : α) :
    (x.padTo d n a).shape = x.shape.set d n := rfl

theorem padTo_size (a : α) : x.padTo d (x.size d) a = x := by
  have hshape : x.shape.set d (x.size d) = x.shape := set_pos _ _
  apply ext_inBounds hshape
  intro idx hin
  rw [shape_padTo, hshape] at hin
  obtain ⟨b, hb⟩ := Option.isSome_iff_exists.mp ((x.isSome_get? idx).mpr hin)
  simp only [padTo, hshape, if_pos hin, hb, Option.getD_some]

/-- What was there comes back by cutting the axis again. -/
theorem slice_padTo (hd : d < x.shape.length) (hle : x.size d ≤ n) (a : α) :
    (x.padTo d n a).slice d 0 (x.size d) = x := by
  have hd' : d < (x.padTo d n a).shape.length := by
    rwa [shape_padTo, List.length_set]
  have hsize : (x.padTo d n a).size d = n := pos_set_self hd
  have hmin : min (x.size d) n - 0 = x.size d := by omega
  apply ext_inBounds
  · rw [shape_slice, hsize, hmin, shape_padTo, List.set_set]
    exact set_pos _ _
  · intro idx hin
    rw [shape_slice, hsize, hmin, shape_padTo, List.set_set, size,
      set_pos] at hin
    have hlt : pos idx d < x.size d := hin.2 d hd
    have hin' : InBounds (x.shape.set d n) idx := by
      rw [inBounds_set_shape hd]
      exact ⟨((inBounds_iff hd).mp hin).1, Nat.lt_of_lt_of_le hlt hle⟩
    obtain ⟨b, hb⟩ := Option.isSome_iff_exists.mp ((x.isSome_get? idx).mpr hin)
    rw [get?_slice hd' (by rw [hsize, hmin]; exact hlt), Nat.zero_add, set_pos]
    simp only [padTo, if_pos hin', hb, Option.getD_some]

end Padding

end NdArray

end SelfDistillation
