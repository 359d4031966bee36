/-
Packing the entries of a list that a mask selects, putting packed entries
back, and the same for the rows of a table written one after the other.
-/
import Mathlib

namespace Packing

universe u v

variable {α : Type u} {β : Type v}

/-- The indices a mask selects. -/
def nonzero (mask : List Bool) : List Nat :=
  (List.range mask.length).filter fun k => mask.getD k false

/-- The entries at the given indices. -/
def gather (xs : List α) (indices : List Nat) : List α :=
  indices.filterMap (xs[·]?)

/-- A list of `size` fills with the values written at the indices. -/
def scatter (fill : α) (size : Nat) (indices : List Nat) (values : List α) :
    List α :=
  (indices.zip values).foldl (fun out entry => out.set entry.1 entry.2)
    (List.replicate size fill)

/-- The entries a mask selects. -/
def pack : List Bool → List α → List α
  | true :: mask, x :: xs => x :: pack mask xs
  | false :: mask, _ :: xs => pack mask xs
  | _, _ => []

/-- The values at the selected places, the fill everywhere else. -/
def unpack (fill : α) : List Bool → List α → List α
  | [], _ => []
  | true :: mask, value :: values => value :: unpack fill mask values
  | true :: mask, [] => fill :: unpack fill mask []
  | false :: mask, values => fill :: unpack fill mask values

section Indices

theorem nonzero_cons (b : Bool) (mask : List Bool) :
    nonzero (b :: mask) =
      (if b then [0] else []) ++ (nonzero mask).map (· + 1) := by
  have htail : ((List.range mask.length).map Nat.succ).filter
      (fun k => (b :: mask).getD k false) = (nonzero mask).map (· + 1) := by
    rw [List.filter_map, nonzero]
    rfl
  rw [nonzero, List.length_cons, List.range_succ_eq_map, List.filter_cons,
    htail]
  cases b <;> rfl

theorem gather_cons_map_succ (x : α) (xs : List α) (indices : List Nat) :
    gather (x :: xs) (indices.map (· + 1)) = gather xs indices := by
  rw [gather, List.filterMap_map, gather]
  rfl

/-- Gathering the selected indices is packing. -/
theorem gather_nonzero {mask : List Bool} {xs : List α}
    (hlen : xs.length = mask.length) :
    gather xs (nonzero mask) = pack mask xs := by
  induction mask generalizing xs with
  | nil => rfl
  | cons b mask ih =>
      obtain _ | ⟨x, xs⟩ := xs
      · simp at hlen
      · have hrest := ih (Nat.succ.inj hlen)
        rw [nonzero_cons, gather, List.filterMap_append, ← gather, ← gather,
          gather_cons_map_succ, hrest]
        cases b <;> rfl

theorem foldl_set_map_succ (x : α) (entries : List (Nat × α))
    (out : List α) :
    (entries.map fun entry => (entry.1 + 1, entry.2)).foldl
        (fun out entry => out.set entry.1 entry.2) (x :: out) =
      x :: entries.foldl (fun out entry => out.set entry.1 entry.2) out := by
  induction entries generalizing out with
  | nil => rfl
  | cons entry entries ih =>
      simp only [List.map_cons, List.foldl_cons, List.set_cons_succ]
      exact ih _

theorem zip_map_succ (indices : List Nat) (values : List α) :
    (indices.map (· + 1)).zip values =
      (indices.zip values).map fun entry => (entry.1 + 1, entry.2) := by
  rw [List.zip_map_left]
  rfl

/-- Writing at the selected indices is unpacking. -/
theorem scatter_nonzero (fill : α) (mask : List Bool) (values : List α) :
    scatter fill mask.length (nonzero mask) values =
      unpack fill mask values := by
  induction mask generalizing values with
  | nil => simp [scatter, nonzero, unpack]
  | cons b mask ih =>
      have hrest := ih values
      cases b with
      | false =>
          rw [unpack, ← hrest, scatter, nonzero_cons]
          simp only [Bool.false_eq_true, if_false, List.nil_append,
            List.length_cons, List.replicate_succ, zip_map_succ,
            foldl_set_map_succ]
          rfl
      | true =>
          obtain _ | ⟨value, values⟩ := values
          · rw [unpack, ← hrest]
            simp [scatter, List.replicate_succ]
          · rw [unpack, ← ih values, scatter, nonzero_cons]
            simp only [if_true, List.cons_append, List.nil_append,
              List.length_cons, List.replicate_succ, List.zip_cons_cons,
              List.foldl_cons, List.set_cons_zero, zip_map_succ,
              foldl_set_map_succ]
            rfl

theorem nonzero_eq_nil_iff {mask : List Bool} :
    nonzero mask = [] ↔ mask.count true = 0 := by
  induction mask with
  | nil => simp [nonzero]
  | cons b mask ih => cases b <;> simp [nonzero_cons, ih]

end Indices

section Lists

theorem length_pack {mask : List Bool} {xs : List α}
    (hlen : xs.length = mask.length) :
    (pack mask xs).length = mask.count true := by
  induction mask generalizing xs with
  | nil => simp [pack]
  | cons b mask ih =>
      obtain _ | ⟨x, xs⟩ := xs
      · simp at hlen
      · cases b <;> simp [pack, ih (Nat.succ.inj hlen)]

@[simp] theorem length_unpack (fill : α) (mask : List Bool)
    (values : List α) : (unpack fill mask values).length = mask.length := by
  induction mask generalizing values with
  | nil => rfl
  | cons b mask ih =>
      obtain _ | ⟨value, values⟩ := values <;> cases b <;> simp [unpack, ih]

theorem pack_append {mask mask' : List Bool} {xs xs' : List α}
    (hlen : xs.length = mask.length) :
    pack (mask ++ mask') (xs ++ xs') = pack mask xs ++ pack mask' xs' := by
  induction mask generalizing xs with
  | nil =>
      have hnil : xs = [] := List.length_eq_zero_iff.mp hlen
      subst hnil
      rfl
  | cons b mask ih =>
      obtain _ | ⟨x, xs⟩ := xs
      · simp at hlen
      · cases b <;> simp [pack, ih (Nat.succ.inj hlen)]

theorem unpack_append (fill : α) {mask mask' : List Bool}
    {values values' : List α} (hlen : values.length = mask.count true) :
    unpack fill (mask ++ mask') (values ++ values') =
      unpack fill mask values ++ unpack fill mask' values' := by
  induction mask generalizing values with
  | nil =>
      have hnil : values = [] := List.length_eq_zero_iff.mp hlen
      subst hnil
      rfl
  | cons b mask ih =>
      cases b with
      | false =>
          have hlen' : values.length = mask.count true := by simpa using hlen
          simp [unpack, ih hlen']
      | true =>
          obtain _ | ⟨value, values⟩ := values
          · simp at hlen
          · have hlen' : values.length = mask.count true := by
              simpa using hlen
            simp [unpack, ih hlen']

theorem pack_zip {mask : List Bool} {xs : List α} {ys : List β}
    (hlen : xs.length = ys.length) :
    pack mask (xs.zip ys) = (pack mask xs).zip (pack mask ys) := by
  induction mask generalizing xs ys with
  | nil => simp [pack]
  | cons b mask ih =>
      obtain _ | ⟨x, xs⟩ := xs <;> obtain _ | ⟨y, ys⟩ := ys
      · simp [pack]
      · simp at hlen
      · simp at hlen
      · cases b <;> simp [pack, ih (Nat.succ.inj hlen)]

theorem take_zipIdx (xs : List α) (start k : Nat) :
    (xs.zipIdx start).take k = (xs.take k).zipIdx start := by
  apply List.ext_getElem?
  intro j
  simp only [List.getElem?_take, List.getElem?_zipIdx]
  split <;> rfl

theorem pack_sublist (mask : List Bool) (xs : List α) :
    (pack mask xs).Sublist xs := by
  induction mask generalizing xs with
  | nil => exact List.nil_sublist xs
  | cons b mask ih =>
      obtain _ | ⟨x, xs⟩ := xs
      · cases b <;> exact List.Sublist.slnil
      · cases b with
        | false => exact (ih xs).cons x
        | true => exact (ih xs).cons_cons x

theorem pack_map (p : α → Bool) (xs : List α) :
    pack (xs.map p) xs = xs.filter p := by
  induction xs with
  | nil => rfl
  | cons x xs ih => cases hx : p x <;> simp [pack, hx, ih]

/-- A mask that selects what a predicate selects is that predicate, place by
place. -/
theorem pack_eq_filter_iff {p : α → Bool} {mask : List Bool} {xs : List α}
    (hlen : xs.length = mask.length) :
    pack mask xs = xs.filter p ↔ mask = xs.map p := by
  refine ⟨fun h => ?_, fun h => h ▸ pack_map p xs⟩
  induction mask generalizing xs with
  | nil => simpa using hlen
  | cons b mask ih =>
      obtain _ | ⟨x, xs⟩ := xs
      · simp at hlen
      · have hrest : xs.length = mask.length := Nat.succ.inj hlen
        cases b with
        | true =>
            have hx : p x = true := by
              have hmem : x ∈ (x :: xs).filter p := h ▸ List.mem_cons_self
              exact (List.mem_filter.mp hmem).2
            rw [List.filter_cons_of_pos hx] at h
            rw [List.map_cons, hx, ← ih hrest (List.cons.inj h).2]
        | false =>
            cases hx : p x with
            | false =>
                rw [List.filter_cons_of_neg (by simp [hx])] at h
                rw [List.map_cons, hx, ← ih hrest h]
            | true =>
                -- all that is packed satisfies the predicate, and `x` is extra
                have hsub := (pack_sublist mask xs).filter p
                have hall : (pack mask xs).filter p = pack mask xs := by
                  rw [List.filter_eq_self]
                  intro y hy
                  have hmem : y ∈ (x :: xs).filter p := h ▸ hy
                  exact (List.mem_filter.mp hmem).2
                rw [hall] at hsub
                rw [List.filter_cons_of_pos hx] at h
                have hle := hsub.length_le
                have heq := congrArg List.length h
                rw [pack, List.length_cons] at heq
                omega

/-- Packing, computing place by place and putting back. -/
theorem unpack_map_pack (fill : β) (f : α → β) {mask : List Bool}
    {xs : List α} (hlen : xs.length = mask.length) :
    unpack fill mask ((pack mask xs).map f) =
      List.zipWith (fun b x => if b then f x else fill) mask xs := by
  induction mask generalizing xs with
  | nil => simp [unpack]
  | cons b mask ih =>
      obtain _ | ⟨x, xs⟩ := xs
      · simp at hlen
      · cases b <;> simp [pack, unpack, ih (Nat.succ.inj hlen)]

theorem pack_replicate_true {n : Nat} {xs : List α} (hlen : xs.length = n) :
    pack (List.replicate n true) xs = xs := by
  subst hlen
  induction xs with
  | nil => rfl
  | cons x xs ih => simpa [List.replicate_succ, pack] using ih

theorem pack_replicate_false (n : Nat) (xs : List α) :
    pack (List.replicate n false) xs = [] := by
  induction n generalizing xs with
  | zero => rfl
  | succ n ih =>
      obtain _ | ⟨x, xs⟩ := xs
      · rfl
      · simpa [List.replicate_succ, pack] using ih xs

/-- The place of an index among the selected ones. -/
def rank (mask : List Bool) (s : Nat) : Nat := (mask.take s).count true

theorem rank_succ_of_true {mask : List Bool} {s : Nat}
    (hs : mask[s]? = some true) : rank mask (s + 1) = rank mask s + 1 := by
  simp [rank, List.take_add_one, hs]

theorem rank_lt_count {mask : List Bool} {s : Nat}
    (hs : mask[s]? = some true) : rank mask s < mask.count true := by
  calc rank mask s
      < rank mask (s + 1) := by rw [rank_succ_of_true hs]; omega
    _ ≤ mask.count true := (List.take_sublist (s + 1) mask).count_le true

theorem pack_take {mask : List Bool} {xs : List α} (s : Nat)
    (hlen : xs.length = mask.length) :
    pack (mask.take s) (xs.take s) = (pack mask xs).take (rank mask s) := by
  have hlen' : (xs.take s).length = (mask.take s).length := by simp [hlen]
  calc pack (mask.take s) (xs.take s)
      = (pack (mask.take s) (xs.take s) ++
          pack (mask.drop s) (xs.drop s)).take (rank mask s) :=
        (List.take_left' (length_pack hlen')).symm
    _ = (pack mask xs).take (rank mask s) := by
        rw [← pack_append hlen', List.take_append_drop, List.take_append_drop]

theorem getElem?_pack {mask : List Bool} {xs : List α} {s : Nat}
    (hs : mask[s]? = some true) :
    (pack mask xs)[rank mask s]? = xs[s]? := by
  induction mask generalizing xs s with
  | nil => simp at hs
  | cons b mask ih =>
      obtain _ | ⟨x, xs⟩ := xs
      · cases b <;> simp [pack]
      · obtain _ | s := s
        · have hb : b = true := by simpa using hs
          subst hb
          simp [pack, rank]
        · have hrest : (pack mask xs)[rank mask s]? = xs[s]? :=
            ih (by simpa using hs)
          cases b <;> simpa [pack, rank] using hrest

theorem getElem?_unpack_of_true (fill : α) {mask : List Bool}
    {values : List α} {s : Nat} (hs : mask[s]? = some true)
    (hlen : values.length = mask.count true) :
    (unpack fill mask values)[s]? = values[rank mask s]? := by
  induction mask generalizing values s with
  | nil => simp at hs
  | cons b mask ih =>
      cases b with
      | false =>
          obtain _ | s := s
          · simp at hs
          · have hrest : (unpack fill mask values)[s]? =
                values[rank mask s]? :=
              ih (by simpa using hs) (by simpa using hlen)
            simpa [unpack, rank] using hrest
      | true =>
          obtain _ | ⟨value, values⟩ := values
          · simp at hlen
          · obtain _ | s := s
            · simp [unpack, rank]
            · have hrest : (unpack fill mask values)[s]? =
                  values[rank mask s]? :=
                ih (by simpa using hs) (by simpa using hlen)
              simpa [unpack, rank] using hrest

theorem getElem?_unpack_of_false (fill : α) {mask : List Bool}
    {values : List α} {s : Nat} (hs : mask[s]? = some false) :
    (unpack fill mask values)[s]? = some fill := by
  induction mask generalizing values s with
  | nil => simp at hs
  | cons b mask ih =>
      obtain _ | s := s
      · have hb : b = false := by simpa using hs
        subst hb
        simp [unpack]
      · have hs' : mask[s]? = some false := by simpa using hs
        obtain _ | ⟨value, values⟩ := values <;> cases b <;>
          simpa [unpack] using ih hs'

end Lists

section Contiguous

/-- No gap in front of a selected entry. -/
def Contiguous (mask : List Bool) : Prop :=
  mask.Pairwise fun earlier later => later = true → earlier = true

instance : DecidablePred Contiguous := fun mask =>
  inferInstanceAs (Decidable (mask.Pairwise _))

theorem Contiguous.take_eq_replicate {mask : List Bool}
    (h : Contiguous mask) {t : Nat} (ht : mask[t]? = some true) :
    mask.take t = List.replicate t true := by
  obtain ⟨hlt, htrue⟩ := List.getElem?_eq_some_iff.mp ht
  rw [List.eq_replicate_iff, List.length_take]
  refine ⟨by omega, ?_⟩
  intro c hc
  obtain ⟨k, hk, rfl⟩ := List.mem_take_iff_getElem.mp hc
  exact List.pairwise_iff_getElem.mp h k t (by omega) hlt (by omega) htrue

theorem Contiguous.rank_eq {mask : List Bool} (h : Contiguous mask) {t : Nat}
    (ht : mask[t]? = some true) : rank mask t = t := by
  rw [rank, h.take_eq_replicate ht, List.count_replicate_self]

theorem Contiguous.getElem?_zero {mask : List Bool} (h : Contiguous mask)
    (hmem : true ∈ mask) : mask[0]? = some true := by
  obtain ⟨t, ht⟩ := List.mem_iff_getElem?.mp hmem
  obtain _ | t := t
  · exact ht
  · rw [← List.getElem?_take_of_lt (Nat.succ_pos t), h.take_eq_replicate ht,
      List.getElem?_replicate_of_lt (Nat.succ_pos t)]

/-- A gap pushes some selected entry behind the number of selected ones. -/
theorem contiguous_of_lt_count {mask : List Bool}
    (h : ∀ t : Nat, mask[t]? = some true → t < mask.count true) :
    Contiguous mask := by
  have hrest : (mask.drop (mask.count true)).count true = 0 := by
    rw [List.count_eq_zero]
    intro hmem
    obtain ⟨k, hk⟩ := List.mem_iff_getElem?.mp hmem
    rw [List.getElem?_drop] at hk
    have hlt := h _ hk
    omega
  have hsplit := congrArg (List.count true)
    (List.take_append_drop (mask.count true) mask)
  rw [List.count_append, hrest, Nat.add_zero] at hsplit
  have hall : ∀ c ∈ mask.take (mask.count true), true = c := by
    refine List.count_eq_length.mp ?_
    have hle := List.length_take_le (mask.count true) mask
    have hcount : (mask.take (mask.count true)).count true ≤ _ :=
      List.count_le_length
    omega
  rw [Contiguous, ← List.take_append_drop (mask.count true) mask,
    List.pairwise_append]
  refine ⟨?_, ?_, fun c hc _ _ _ => (hall c hc).symm⟩
  · exact List.pairwise_of_forall_mem_list fun c hc _ _ _ => (hall c hc).symm
  · refine List.pairwise_of_forall_mem_list fun _ _ c hc htrue => ?_
    subst htrue
    exact absurd hc (List.count_eq_zero.mp hrest)

/-- A gap shows at two neighbours. -/
theorem exists_gap_of_not_contiguous {mask : List Bool}
    (h : ¬ Contiguous mask) :
    ∃ t, mask[t]? = some false ∧ mask[t + 1]? = some true := by
  induction mask with
  | nil => exact absurd List.Pairwise.nil h
  | cons c mask ih =>
      by_cases hmask : Contiguous mask
      · have hhead : ¬ ∀ later ∈ mask, later = true → c = true :=
          fun hall => h (List.pairwise_cons.mpr ⟨hall, hmask⟩)
        push Not at hhead
        obtain ⟨later, hlater, rfl, hc⟩ := hhead
        obtain _ | ⟨d, mask⟩ := mask
        · cases hlater
        · have hd : d = true := by
            rcases List.mem_cons.mp hlater with heq | hmem
            · exact heq.symm
            · exact (List.pairwise_cons.mp hmask).1 true hmem rfl
          exact ⟨0, by simpa using hc, by simp [hd]⟩
      · obtain ⟨t, hfalse, htrue⟩ := ih hmask
        exact ⟨t + 1, by simpa using hfalse, by simpa using htrue⟩

end Contiguous

section Rows

variable {ι : Type} {mask : ι → List Bool}

theorem pack_flatMap {xs : ι → List α}
    (hlen : ∀ i, (xs i).length = (mask i).length) (is : List ι) :
    pack (is.flatMap mask) (is.flatMap xs) =
      is.flatMap fun i => pack (mask i) (xs i) := by
  induction is with
  | nil => rfl
  | cons i is ih => rw [List.flatMap_cons, List.flatMap_cons,
      pack_append (hlen i), ih, List.flatMap_cons]

theorem unpack_flatMap (fill : α) {values : ι → List α}
    (hlen : ∀ i, (values i).length = (mask i).count true) (is : List ι) :
    unpack fill (is.flatMap mask) (is.flatMap values) =
      is.flatMap fun i => unpack fill (mask i) (values i) := by
  induction is with
  | nil => rfl
  | cons i is ih => rw [List.flatMap_cons, List.flatMap_cons,
      unpack_append fill (hlen i), ih, List.flatMap_cons]

theorem zip_flatMap {xs : ι → List α} {ys : ι → List β}
    (hlen : ∀ i, (xs i).length = (ys i).length) (is : List ι) :
    (is.flatMap xs).zip (is.flatMap ys) =
      is.flatMap fun i => (xs i).zip (ys i) := by
  induction is with
  | nil => rfl
  | cons i is ih => rw [List.flatMap_cons, List.flatMap_cons,
      List.zip_append (hlen i), ih, List.flatMap_cons]

/-- The rows of a table, one after the other. -/
def flattenRows {b : Nat} (rows : Fin b → List α) : List α :=
  (List.finRange b).flatMap rows

/-- Row `i` of a flattened table with rows of length `size`. -/
def rowOf (size : Nat) (flat : List α) (i : Nat) : List α :=
  (flat.drop (i * size)).take size

theorem flattenRows_succ {b : Nat} (rows : Fin (b + 1) → List α) :
    flattenRows rows = rows 0 ++ flattenRows fun i => rows i.succ := by
  rw [flattenRows, List.finRange_succ, List.flatMap_cons, List.flatMap_map,
    flattenRows]

theorem length_flattenRows {b size : Nat} {rows : Fin b → List α}
    (hrows : ∀ i, (rows i).length = size) :
    (flattenRows rows).length = b * size := by
  induction b with
  | zero => simp [flattenRows]
  | succ b ih =>
      rw [flattenRows_succ, List.length_append, hrows,
        ih fun i => hrows i.succ, Nat.succ_mul, Nat.add_comm]

theorem rowOf_flattenRows {b size : Nat} {rows : Fin b → List α}
    (hrows : ∀ i, (rows i).length = size) (i : Fin b) :
    rowOf size (flattenRows rows) i = rows i := by
  induction b with
  | zero => exact i.elim0
  | succ b ih =>
      rw [flattenRows_succ]
      refine Fin.cases ?_ (fun j => ?_) i
      · simp [rowOf, List.take_left' (hrows 0)]
      · have hdrop : (rows 0 ++ flattenRows fun i => rows i.succ).drop
            ((j.succ : Nat) * size) =
              (flattenRows fun i => rows i.succ).drop (j * size) := by
          rw [Fin.val_succ, Nat.succ_mul, Nat.add_comm, ← List.drop_drop,
            List.drop_left' (hrows 0)]
        rw [rowOf, hdrop]
        exact ih (fun i => hrows i.succ) j

theorem getElem?_flattenRows {b size : Nat} {rows : Fin b → List α}
    (hrows : ∀ i, (rows i).length = size) (i : Fin b) {s : Nat}
    (hs : s < size) :
    (flattenRows rows)[i * size + s]? = (rows i)[s]? := by
  rw [← rowOf_flattenRows hrows i, rowOf, List.getElem?_take_of_lt hs,
    List.getElem?_drop]

end Rows

end Packing
