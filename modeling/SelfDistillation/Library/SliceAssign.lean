/-
Tensors by their first axis: slices, assignments to slices with broadcasting,
and loops that write a buffer piece by piece and may fail.
-/
import SelfDistillation.Library.Blocks
import SelfDistillation.Library.Chunks

universe u v

/-- A tensor by its size along the first axis and its entries. -/
structure Vec (α : Type u) where
  size : ℕ
  get : ℕ → α

namespace Vec

variable {α : Type u} {β : Type v}

def map (f : α → β) (x : Vec α) : Vec β := ⟨x.size, fun p => f (x.get p)⟩

def ofList (fill : α) (xs : List α) : Vec α where
  size := xs.length
  get p := xs.getD p fill

def toList (x : Vec α) : List α := (List.range x.size).map x.get

/-- `x[start:stop]` -/
def slice (x : Vec α) (start stop : ℕ) : Vec α where
  size := min stop x.size - min start x.size
  get p := x.get (min start x.size + p)

/-- `x[start:stop] = src`, where `src` has the size of the slice or one
entry. -/
def assign? (x : Vec α) (start stop : ℕ) (src : Vec α) : Option (Vec α) :=
  let size := (x.slice start stop).size
  if src.size = size then
    some ⟨x.size, fun p =>
      if start ≤ p ∧ p < start + size then src.get (p - start) else x.get p⟩
  else if src.size = 1 then
    some ⟨x.size, fun p =>
      if start ≤ p ∧ p < start + size then src.get 0 else x.get p⟩
  else none

section Slices

variable {x y src : Vec α} {start stop p : ℕ}

theorem size_slice (hstop : stop ≤ x.size) :
    (x.slice start stop).size = stop - start := by
  simp only [slice]
  omega

theorem get_slice (hstart : start ≤ x.size) :
    (x.slice start stop).get p = x.get (start + p) := by
  rw [slice, min_eq_left hstart]

theorem assign?_isSome : (x.assign? start stop src).isSome ↔
    src.size = (x.slice start stop).size ∨ src.size = 1 := by
  rw [assign?]
  split
  · simp [*]
  · split <;> simp [*]

/-- What an assignment leaves. -/
structure Assigned (x : Vec α) (start stop : ℕ) (src y : Vec α) : Prop where
  size : y.size = x.size
  outside : ∀ p, p < start ∨ stop ≤ p → y.get p = x.get p
  inside : ∀ q, start + q < stop → q < src.size →
    y.get (start + q) = src.get q

theorem assigned_of_assign? (hstart : start ≤ stop) (hstop : stop ≤ x.size)
    (h : x.assign? start stop src = some y) : Assigned x start stop src y := by
  have hsize : (x.slice start stop).size = stop - start := size_slice hstop
  have hend : start + (stop - start) = stop := Nat.add_sub_of_le hstart
  rw [assign?, hsize, hend] at h
  split at h
  · obtain rfl := Option.some.inj h
    refine ⟨rfl, fun p hp => if_neg (by omega), fun q hq hlt => ?_⟩
    change (if _ then _ else _) = _
    rw [if_pos (by omega), Nat.add_sub_cancel_left]
  · split at h
    · obtain rfl := Option.some.inj h
      refine ⟨rfl, fun p hp => if_neg (by omega), fun q hq hlt => ?_⟩
      obtain rfl : q = 0 := by omega
      exact if_pos (by omega)
    · cases h

end Slices

end Vec

namespace TryLoop

variable {σ : Type u} {ε : Type v}

/-- `for k in range(n)`, over a state, until an exception. -/
def tryRange (n : ℕ) (init : σ) (body : ℕ → σ → Except ε σ) : Except ε σ :=
  match n with
  | 0 => .ok init
  | n + 1 => (tryRange n init body).bind (body n)

/-- A computation returns exactly when `fits` holds, and then with a
`result`. -/
structure ReturnsIff (x : Except ε σ) (fits : Prop) (result : σ → Prop) :
    Prop where
  iff : (∃ s, x = .ok s) ↔ fits
  post : ∀ s, x = .ok s → result s

variable {init s : σ} {body : ℕ → σ → Except ε σ} {n : ℕ}

/-- A loop that returns has kept its invariant, and each pass has returned. -/
theorem tryRange_invariant (P : ℕ → σ → Prop) (hinit : P 0 init)
    (hbody : ∀ k < n, ∀ s s', P k s → body k s = .ok s' → P (k + 1) s')
    (h : tryRange n init body = .ok s) :
    P n s ∧ ∀ k < n, ∃ t t', P k t ∧ body k t = .ok t' := by
  induction n generalizing s with
  | zero =>
      cases h
      exact ⟨hinit, fun k hk => absurd hk (Nat.not_lt_zero k)⟩
  | succ n ih =>
      cases hloop : tryRange n init body with
      | error e => rw [tryRange, hloop] at h; cases h
      | ok t =>
          rw [tryRange, hloop] at h
          obtain ⟨ht, hpasses⟩ :=
            ih (fun k hk => hbody k (hk.trans n.lt_succ_self)) hloop
          refine ⟨hbody n n.lt_succ_self t s ht h, fun k hk => ?_⟩
          rcases Nat.lt_succ_iff_lt_or_eq.mp hk with hk | rfl
          · exact hpasses k hk
          · exact ⟨t, s, ht, h⟩

/-- A loop whose passes all return. -/
theorem exists_tryRange (P : ℕ → σ → Prop) (hinit : P 0 init)
    (hbody : ∀ k < n, ∀ s, P k s → ∃ s', body k s = .ok s' ∧ P (k + 1) s') :
    ∃ s, tryRange n init body = .ok s ∧ P n s := by
  induction n with
  | zero => exact ⟨init, rfl, hinit⟩
  | succ n ih =>
      obtain ⟨t, ht, hP⟩ := ih fun k hk => hbody k (hk.trans n.lt_succ_self)
      obtain ⟨s, hs, hP'⟩ := hbody n n.lt_succ_self t hP
      exact ⟨s, by rw [tryRange, ht]; exact hs, hP'⟩

/-- A loop whose passes return exactly when they should: it returns when all
passes should, and keeps its invariant. -/
theorem tryRange_spec (P : ℕ → σ → Prop) (fits : ℕ → Prop) (hinit : P 0 init)
    (hbody : ∀ k < n, ∀ s, P k s →
      ReturnsIff (body k s) (fits k) (P (k + 1))) :
    ReturnsIff (tryRange n init body) (∀ k < n, fits k) (P n) := by
  have hinv := fun (s : σ) => tryRange_invariant (s := s) P hinit
    fun k hk t t' ht => (hbody k hk t ht).post t'
  refine ⟨⟨?_, fun hfits => ?_⟩, fun s hs => (hinv s hs).1⟩
  · rintro ⟨s, hs⟩ k hk
    obtain ⟨t, t', ht, hpass⟩ := (hinv s hs).2 k hk
    exact (hbody k hk t ht).iff.mp ⟨t', hpass⟩
  · obtain ⟨s, hs, -⟩ := exists_tryRange P hinit fun k hk t ht => by
      obtain ⟨t', ht'⟩ := (hbody k hk t ht).iff.mpr (hfits k hk)
      exact ⟨t', ht', (hbody k hk t ht).post t' ht'⟩
    exact ⟨s, hs⟩

end TryLoop

namespace Buffer

open Chunks Blocks TryLoop

variable {α : Type u} {ε : Type v}

/-- `dst.copy_(src)`: a source of one entry is repeated. -/
def copy? (dst src : List α) : Option (List α) :=
  if src.length = dst.length then some src
  else match src with
    | [x] => some (List.replicate dst.length x)
    | _ => none

/-- `buf[start:stop].copy_(src)` -/
def copyAt? (buf : List α) (start stop : ℕ) (src : List α) :
    Option (List α) :=
  (copy? (window buf start stop) src).map fun part =>
    buf.take start ++ part ++ buf.drop stop

variable {buf rest src : List α} {start stop n m k : ℕ}

theorem copy?_of_length_eq {dst : List α} (h : src.length = dst.length) :
    copy? dst src = some src := if_pos h

/-- What follows the pieces written so far gives way to the next piece. -/
theorem copyAt?_block (hlen : buf.length = k * m) (hsrc : src.length = m)
    (hrest : m ≤ rest.length) :
    copyAt? (buf ++ rest) (k * m) ((k + 1) * m) src =
      some (buf ++ src ++ rest.drop m) := by
  have hstop : (k + 1) * m = buf.length + m := by
    rw [Nat.succ_mul, hlen]
  have hwindow : window (buf ++ rest) (k * m) ((k + 1) * m) =
      rest.take m := by
    rw [window, hstop, ← hlen, List.take_length_add_append,
      List.drop_left]
  have hcopy : copy? (rest.take m) src = some src :=
    copy?_of_length_eq (by rw [hsrc, List.length_take, min_eq_left hrest])
  rw [copyAt?, hwindow, hcopy, hstop, ← hlen]
  simp only [Option.map_some, List.take_left, List.drop_length_add_append]

/-- A loop that writes its pieces one after the other leaves them, and the
rest of the buffer. -/
theorem tryRange_copyAt {piece : ℕ → List α}
    {body : ℕ → List α → Except ε (List α)}
    (hpiece : ∀ k < n, (piece k).length = m) (hroom : n * m ≤ buf.length)
    (hbody : ∀ k < n, ∀ s s' : List α, s.length = buf.length →
      copyAt? s (k * m) ((k + 1) * m) (piece k) = some s' →
      body k s = .ok s') :
    tryRange n buf body = .ok (blocks n piece ++ buf.drop (n * m)) := by
  have hloop : ∃ s, tryRange n buf body = .ok s ∧
      s = blocks n piece ++ buf.drop (n * m) := exists_tryRange
    (fun k s => s = blocks k piece ++ buf.drop (k * m)) (by simp [blocks])
    fun k hk s hs => by
      have hpieces : (blocks k piece).length = k * m :=
        length_blocks fun i hi => hpiece i (hi.trans hk)
      have hle : (k + 1) * m ≤ buf.length :=
        (Nat.mul_le_mul_right m hk).trans hroom
      have hrest : m ≤ (buf.drop (k * m)).length := by
        rw [List.length_drop]
        rw [Nat.succ_mul] at hle
        omega
      refine ⟨_, hbody k hk s _ ?_ ?_, rfl⟩
      · rw [hs, List.length_append, hpieces, List.length_drop]
        rw [Nat.succ_mul] at hle
        omega
      · rw [hs, copyAt?_block hpieces (hpiece k hk) hrest, blocks_succ,
          List.drop_drop, ← Nat.succ_mul]
  obtain ⟨s, hs, rfl⟩ := hloop
  exact hs

end Buffer
