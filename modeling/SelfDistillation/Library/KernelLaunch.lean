/-
Kernels over a memory of addresses: the program instances of a launch grid run
one after the other, in any order, and each stores to and adds at addresses.
-/
import Mathlib

namespace KernelLaunch

universe u v

/-- What an instance does to the memory. -/
inductive Access (α : Type u) (β : Type v)
  | store (address : α) (value : β)
  | atomicAdd (address : α) (value : β)

namespace Access

variable {α : Type u} {β : Type v}

def address : Access α β → α
  | store a _ => a
  | atomicAdd a _ => a

@[simp] theorem address_store (a : α) (v : β) :
    (store a v : Access α β).address = a := rfl

end Access

/-- The order in which the instances of a grid run. -/
structure ProgramOrder (grid : ℕ) where
  order : List ℕ
  perm : order.Perm (List.range grid)

namespace ProgramOrder

variable {grid : ℕ}

/-- One instance after the other, the first of them last. -/
def firstLast (hgrid : 0 < grid) : ProgramOrder grid where
  order := List.range' 1 (grid - 1) ++ [0]
  perm := by
    obtain ⟨n, rfl⟩ := Nat.exists_eq_add_one_of_ne_zero hgrid.ne'
    rw [List.range_eq_range', List.range'_succ, Nat.add_sub_cancel]
    exact List.perm_append_comm

def ascending (grid : ℕ) : ProgramOrder grid := ⟨List.range grid, .refl _⟩

variable (run : ProgramOrder grid)

theorem mem_iff {pid : ℕ} : pid ∈ run.order ↔ pid < grid := by
  rw [run.perm.mem_iff, List.mem_range]

theorem nodup : run.order.Nodup := run.perm.nodup_iff.mpr List.nodup_range

theorem sum_map {β : Type v} [AddCommMonoid β] (f : ℕ → β) :
    (run.order.map f).sum = ∑ pid ∈ Finset.range grid, f pid := by
  rw [(run.perm.map f).sum_eq]
  rfl

end ProgramOrder

section Memory

variable {α : Type u} {β : Type v} [DecidableEq α] [AddCommMonoid β]

/-- The memory after one access. -/
def perform (mem : α → β) : Access α β → α → β
  | .store a v => Function.update mem a v
  | .atomicAdd a v => Function.update mem a (mem a + v)

/-- The memory after a sequence of accesses. -/
def performAll (mem : α → β) (accesses : List (Access α β)) : α → β :=
  accesses.foldl perform mem

/-- A kernel: what an instance does, from the memory it finds. -/
abbrev Kernel (α : Type u) (β : Type v) :=
  ℕ → (α → β) → List (Access α β)

/-- The memory after the instances have run in the given order. -/
def launch (kernel : Kernel α β) {grid : ℕ} (run : ProgramOrder grid)
    (mem : α → β) : α → β :=
  run.order.foldl (fun mem pid => performAll mem (kernel pid mem)) mem

variable {mem : α → β} {xs : List (Access α β)} {a : α}

theorem perform_of_ne {x : Access α β} (h : x.address ≠ a) :
    perform mem x a = mem a := by
  cases x with
  | store b v => exact Function.update_of_ne h.symm v mem
  | atomicAdd b v => exact Function.update_of_ne h.symm _ mem

theorem performAll_append (ys : List (Access α β)) :
    performAll mem (xs ++ ys) = performAll (performAll mem xs) ys :=
  List.foldl_append

theorem performAll_of_ne (h : ∀ x ∈ xs, x.address ≠ a) :
    performAll mem xs a = mem a := by
  induction xs generalizing mem with
  | nil => rfl
  | cons x xs ih =>
      change performAll (perform mem x) xs a = mem a
      rw [ih fun y hy => h y (List.mem_cons_of_mem x hy)]
      exact perform_of_ne (h x List.mem_cons_self)

/-- An address where all accesses store the same value. -/
theorem performAll_of_stores {v : β}
    (h : ∀ x ∈ xs, x.address = a → x = .store a v)
    (hmem : mem a = v ∨ .store a v ∈ xs) : performAll mem xs a = v := by
  induction xs generalizing mem with
  | nil => exact hmem.resolve_right List.not_mem_nil
  | cons x xs ih =>
      change performAll (perform mem x) xs a = v
      apply ih fun y hy => h y (List.mem_cons_of_mem x hy)
      by_cases hx : x.address = a
      · rw [h x List.mem_cons_self hx]
        left
        exact Function.update_self a v mem
      · rw [perform_of_ne hx]
        refine hmem.imp id fun hv => (List.mem_cons.mp hv).resolve_left ?_
        rintro rfl
        exact hx rfl

/-- The accesses to an address, if there are any, store one value. -/
def StoresOnly (a : α) (v : β) (xs : List (Access α β)) : Prop :=
  ∀ x ∈ xs, x.address = a → x = .store a v

omit [DecidableEq α] [AddCommMonoid β] in
theorem StoresOnly.append {v : β} {ys : List (Access α β)}
    (hxs : StoresOnly a v xs) (hys : StoresOnly a v ys) :
    StoresOnly a v (xs ++ ys) := fun x hx =>
  (List.mem_append.mp hx).elim (hxs x) (hys x)

omit [DecidableEq α] [AddCommMonoid β] in
theorem StoresOnly.of_ne {v : β} (h : ∀ x ∈ xs, x.address ≠ a) :
    StoresOnly a v xs := fun x hx ha => absurd ha (h x hx)

/-- What is added at an address. -/
def added (a : α) : Access α β → β
  | .store _ _ => 0
  | .atomicAdd b v => if b = a then v else 0

/-- An address where nothing is stored. -/
theorem performAll_of_adds
    (h : ∀ x ∈ xs, x.address = a → ∃ v, x = .atomicAdd a v) :
    performAll mem xs a = mem a + (xs.map (added a)).sum := by
  induction xs generalizing mem with
  | nil => exact (add_zero _).symm
  | cons x xs ih =>
      change performAll (perform mem x) xs a = _
      rw [ih fun y hy => h y (List.mem_cons_of_mem x hy), List.map_cons,
        List.sum_cons, ← add_assoc]
      congr 1
      by_cases hx : x.address = a
      · obtain ⟨v, rfl⟩ := h x List.mem_cons_self hx
        simp [perform, added]
      · rw [perform_of_ne hx]
        cases x with
        | store b v => simp [added]
        | atomicAdd b v => simp [added, show b ≠ a from hx]

theorem sum_added_flatMap (f : ℕ → List (Access α β)) (order : List ℕ) :
    ((order.flatMap f).map (added a)).sum =
      (order.map fun pid => ((f pid).map (added a)).sum).sum := by
  induction order with
  | nil => rfl
  | cons pid order ih =>
      rw [List.flatMap_cons, List.map_append, List.sum_append, ih,
        List.map_cons, List.sum_cons]

theorem sum_added_flatMap_range (f : ℕ → List (Access α β)) (n : ℕ) :
    (((List.range n).flatMap f).map (added a)).sum =
      ∑ i ∈ Finset.range n, ((f i).map (added a)).sum :=
  sum_added_flatMap f (List.range n)

theorem sum_added_of_ne (h : ∀ x ∈ xs, x.address ≠ a) :
    (xs.map (added a)).sum = 0 := by
  apply List.sum_eq_zero
  intro v hv
  obtain ⟨x, hx, rfl⟩ := List.mem_map.mp hv
  cases x with
  | store b v => rfl
  | atomicAdd b v => exact if_neg (h _ hx)

theorem launch_of_order {kernel : Kernel α β} (owner : α → Option ℕ)
    (hreads : ∀ pid mem mem', (∀ a, owner a = some pid → mem a = mem' a) →
      kernel pid mem = kernel pid mem')
    (hwrites : ∀ pid mem, ∀ x ∈ kernel pid mem,
      ∀ q, owner x.address = some q → q = pid)
    {order : List ℕ} (hnodup : order.Nodup) (mem : α → β) :
    order.foldl (fun mem pid => performAll mem (kernel pid mem)) mem =
      performAll mem (order.flatMap fun pid => kernel pid mem) := by
  induction order generalizing mem with
  | nil => rfl
  | cons pid order ih =>
      obtain ⟨hpid, hnodup⟩ := List.nodup_cons.mp hnodup
      rw [List.foldl_cons, ih hnodup, List.flatMap_cons, performAll_append]
      congr 1
      apply List.flatMap_congr
      intro q hq
      apply hreads
      intro a ha
      apply performAll_of_ne
      rintro x hx rfl
      have hqp := hwrites pid mem x hx q ha
      exact hpid (hqp ▸ hq)

/-- Where no instance reads what another one writes, the order of the launch is
only an order of the accesses. -/
theorem launch_eq_performAll {kernel : Kernel α β} (owner : α → Option ℕ)
    (hreads : ∀ pid mem mem', (∀ a, owner a = some pid → mem a = mem' a) →
      kernel pid mem = kernel pid mem')
    (hwrites : ∀ pid mem, ∀ x ∈ kernel pid mem,
      ∀ q, owner x.address = some q → q = pid)
    {grid : ℕ} (run : ProgramOrder grid) (mem : α → β) :
    launch kernel run mem =
      performAll mem (run.order.flatMap fun pid => kernel pid mem) :=
  launch_of_order owner hreads hwrites run.nodup mem

end Memory

section Lanes

variable {α : Type u} {β : Type v}

/-- `tl.store(ptrs, values, mask)` -/
def storeLanes (lanes : ℕ) (ptrs : ℕ → α) (values : ℕ → β)
    (mask : ℕ → Bool) : List (Access α β) :=
  ((List.range lanes).filter mask).map fun j => .store (ptrs j) (values j)

theorem mem_storeLanes {lanes : ℕ} {ptrs : ℕ → α} {values : ℕ → β}
    {mask : ℕ → Bool} {x : Access α β} :
    x ∈ storeLanes lanes ptrs values mask ↔
      ∃ j < lanes, mask j ∧ x = .store (ptrs j) (values j) := by
  simp only [storeLanes, List.mem_map, List.mem_filter, List.mem_range]
  constructor
  · rintro ⟨j, ⟨hj, hmask⟩, rfl⟩
    exact ⟨j, hj, hmask, rfl⟩
  · rintro ⟨j, hj, hmask, rfl⟩
    exact ⟨j, ⟨hj, hmask⟩, rfl⟩

/-- `tl.atomic_add(ptrs, values, mask)` -/
def atomicAddLanes (lanes : ℕ) (ptrs : ℕ → α) (values : ℕ → β)
    (mask : ℕ → Bool) : List (Access α β) :=
  ((List.range lanes).filter mask).map fun j => .atomicAdd (ptrs j) (values j)

theorem exists_of_mem_atomicAddLanes {lanes : ℕ} {ptrs : ℕ → α}
    {values : ℕ → β} {mask : ℕ → Bool} {x : Access α β}
    (hx : x ∈ atomicAddLanes lanes ptrs values mask) :
    ∃ v, x = .atomicAdd x.address v := by
  obtain ⟨j, -, rfl⟩ := List.mem_map.mp hx
  exact ⟨values j, rfl⟩

theorem sum_added_atomicAddLanes [DecidableEq α] [AddCommMonoid β]
    (lanes : ℕ) (ptrs : ℕ → α) (values : ℕ → β) (mask : ℕ → Bool) (a : α) :
    ((atomicAddLanes lanes ptrs values mask).map (added a)).sum =
      ∑ j ∈ Finset.range lanes,
        if mask j ∧ ptrs j = a then values j else 0 := by
  induction lanes with
  | zero => rfl
  | succ lanes ih =>
      rw [Finset.sum_range_succ, ← ih, atomicAddLanes, List.range_succ,
        List.filter_append, List.map_append, List.map_append, List.sum_append,
        atomicAddLanes]
      congr 1
      cases hmask : mask lanes <;> simp [hmask, added]

/-- `tl.load(ptr, mask, other)` -/
def load (mem : α → β) (ptr : α) (mask : Bool) (other : β) : β :=
  if mask then mem ptr else other

end Lanes

section Loops

variable {σ : Type u}

/-- `for k in range(0, n)`, over the state its body updates. -/
def forRange (n : ℕ) (init : σ) (body : ℕ → σ → σ) : σ :=
  match n with
  | 0 => init
  | n + 1 => body n (forRange n init body)

/-- What every pass of a loop keeps. -/
theorem forRange_invariant {init : σ} {body : ℕ → σ → σ} (P : ℕ → σ → Prop)
    (hinit : P 0 init) {n : ℕ}
    (hbody : ∀ k < n, ∀ s, P k s → P (k + 1) (body k s)) :
    P n (forRange n init body) := by
  induction n with
  | zero => exact hinit
  | succ n ih =>
      exact hbody n n.lt_succ_self _
        (ih fun k hk => hbody k (hk.trans n.lt_succ_self))

end Loops

section Blocks

variable {β : Type v} [AddCommMonoid β]

/-- Blocks one after the other. -/
theorem sum_blocks (f : ℕ → β) (blocks lanes : ℕ) :
    ∑ pid ∈ Finset.range blocks, ∑ j ∈ Finset.range lanes,
      f (pid * lanes + j) = ∑ i ∈ Finset.range (blocks * lanes), f i := by
  induction blocks with
  | zero => simp
  | succ blocks ih =>
      rw [Finset.sum_range_succ, ih, Nat.succ_mul, Finset.sum_range_add]

/-- Blocks that cover a range, the last of them cut. -/
theorem sum_blocks_masked (f : ℕ → β) {blocks lanes stop : ℕ}
    (hstop : stop ≤ blocks * lanes) :
    ∑ n ∈ Finset.range blocks, ∑ j ∈ Finset.range lanes,
      (if n * lanes + j < stop then f (n * lanes + j) else 0) =
        ∑ i ∈ Finset.range stop, f i := by
  rw [sum_blocks (fun i => if i < stop then f i else 0), ← Finset.sum_filter]
  congr 1
  ext i
  rw [Finset.mem_filter, Finset.mem_range, Finset.mem_range]
  exact ⟨fun h => h.2, fun h => ⟨h.trans_le hstop, h⟩⟩

/-- The one lane of the one block that has a place. -/
theorem sum_place (f : ℕ → ℕ → β) {blocks lanes c : ℕ}
    (hc : c < blocks * lanes) :
    ∑ n ∈ Finset.range blocks, ∑ j ∈ Finset.range lanes,
      (if n * lanes + j = c then f n j else 0) = f (c / lanes) (c % lanes) := by
  have hlanes : 0 < lanes := Nat.pos_of_mul_pos_left (Nat.zero_lt_of_lt hc)
  have hiff : ∀ n, ∀ j < lanes,
      n * lanes + j = c ↔ n = c / lanes ∧ j = c % lanes := by
    intro n j hj
    constructor
    · rintro rfl
      rw [Nat.mul_comm, Nat.mul_add_div hlanes, Nat.mul_add_mod,
        Nat.div_eq_of_lt hj, Nat.mod_eq_of_lt hj]
      exact ⟨rfl, rfl⟩
    · rintro ⟨rfl, rfl⟩
      exact Nat.div_add_mod' c lanes
  rw [Finset.sum_eq_single (c / lanes), Finset.sum_eq_single (c % lanes)]
  · rw [if_pos (Nat.div_add_mod' c lanes)]
  · intro j hj hne
    exact if_neg fun h => hne ((hiff _ j (Finset.mem_range.mp hj)).mp h).2
  · exact fun h => absurd (Finset.mem_range.mpr (Nat.mod_lt c hlanes)) h
  · intro n _ hne
    exact Finset.sum_eq_zero fun j hj =>
      if_neg fun h => hne ((hiff n j (Finset.mem_range.mp hj)).mp h).1
  · intro h
    have hlt : c / lanes < blocks :=
      Nat.div_lt_of_lt_mul (by rwa [Nat.mul_comm])
    exact absurd (Finset.mem_range.mpr hlt) h

/-- The lanes of a block that are not past the end. -/
theorem sum_masked (f : ℕ → β) (start lanes stop : ℕ) :
    ∑ j ∈ Finset.range lanes, (if start + j < stop then f (start + j) else 0) =
      ∑ c ∈ Finset.Ico (min start stop) (min (start + lanes) stop), f c := by
  induction lanes with
  | zero => simp
  | succ lanes ih =>
      rw [Finset.sum_range_succ, ih]
      by_cases h : start + lanes < stop
      · have hlow : min start stop = start := by omega
        have hmid : min (start + lanes) stop = start + lanes := by omega
        have hhigh : min (start + (lanes + 1)) stop = start + lanes + 1 := by
          omega
        rw [if_pos h, hlow, hmid, hhigh, Finset.sum_Ico_succ_top (by omega)]
      · have hhigh : min (start + (lanes + 1)) stop =
            min (start + lanes) stop := by omega
        rw [if_neg h, add_zero, hhigh]

end Blocks

section Adds

variable {α : Type u} {β : Type v} [DecidableEq α] [AddCommMonoid β]

/-- Rows of lanes, added block by block, at one address: the lane that has it,
in the row that has it. -/
theorem sum_added_rows (addr : ℕ → ℕ → α)
    (hinj : ∀ i k i' k', addr i k = addr i' k' ↔ i = i' ∧ k = k')
    {blocks lanes κ : ℕ} (hκ : κ < blocks * lanes) (rows start c : ℕ)
    (values : ℕ → ℕ → ℕ → β) (mask : ℕ → ℕ → ℕ → Bool)
    (hmask : ∀ k < blocks, ∀ j, start + j = c → ∀ kk < lanes,
      mask k j kk = true) :
    ∑ k ∈ Finset.range blocks, (((List.range rows).flatMap fun j =>
        atomicAddLanes lanes (fun kk => addr (start + j) (k * lanes + kk))
          (values k j) (mask k j)).map (added (addr c κ))).sum =
      ∑ j ∈ Finset.range rows,
        if start + j = c then values (κ / lanes) j (κ % lanes) else 0 := by
  have hlane : ∀ k ∈ Finset.range blocks,
      (((List.range rows).flatMap fun j =>
        atomicAddLanes lanes (fun kk => addr (start + j) (k * lanes + kk))
          (values k j) (mask k j)).map (added (addr c κ))).sum =
      ∑ j ∈ Finset.range rows, ∑ kk ∈ Finset.range lanes,
        if k * lanes + kk = κ then
          if start + j = c then values k j kk else 0
        else 0 := by
    intro k hk
    rw [sum_added_flatMap_range]
    refine Finset.sum_congr rfl fun j _ => ?_
    rw [sum_added_atomicAddLanes]
    refine Finset.sum_congr rfl fun kk hkk => ?_
    by_cases hj : start + j = c
    · have hm := hmask k (Finset.mem_range.mp hk) j hj kk
        (Finset.mem_range.mp hkk)
      simp only [hinj, hm, hj, true_and, if_true]
    · simp only [hinj, hj, false_and, and_false, if_false, ite_self]
  rw [Finset.sum_congr rfl hlane, Finset.sum_comm]
  refine Finset.sum_congr rfl fun j _ => ?_
  exact sum_place (fun k kk => if start + j = c then values k j kk else 0) hκ

end Adds

end KernelLaunch
