/-
The order of last use: the distinct keys of an access log, the most recently
used first, and the first entries of that order.
-/
import Mathlib

namespace RecentUse

universe u v

variable {κ : Type u} {α : Type v} [DecidableEq κ]

/-- An entry used now goes to the front. -/
def use (entries : List (κ × α)) (e : κ × α) : List (κ × α) :=
  e :: entries.filter fun x => x.1 ≠ e.1

/-- The distinct keys of a log with their last values. -/
def recent (log : List (κ × α)) : List (κ × α) := log.foldl use []

theorem recent_append_singleton (log : List (κ × α)) (e : κ × α) :
    recent (log ++ [e]) = use (recent log) e := by
  rw [recent, List.foldl_append]
  rfl

theorem mem_keys_filter {entries : List (κ × α)} {k k' : κ} :
    k ∈ (entries.filter fun x => x.1 ≠ k').map Prod.fst ↔
      k ≠ k' ∧ k ∈ entries.map Prod.fst := by
  simp only [List.mem_map, List.mem_filter, decide_eq_true_eq]
  constructor
  · rintro ⟨x, ⟨hx, hne⟩, rfl⟩
    exact ⟨hne, x, hx, rfl⟩
  · rintro ⟨hne, x, hx, rfl⟩
    exact ⟨x, ⟨hx, hne⟩, rfl⟩

theorem nodup_use {entries : List (κ × α)} (e : κ × α)
    (h : (entries.map Prod.fst).Nodup) :
    ((use entries e).map Prod.fst).Nodup := by
  rw [use, List.map_cons, List.nodup_cons]
  refine ⟨fun hmem => (mem_keys_filter.mp hmem).1 rfl, ?_⟩
  exact (List.filter_sublist.map Prod.fst).nodup h

theorem nodup_recent (log : List (κ × α)) :
    ((recent log).map Prod.fst).Nodup := by
  induction log using List.reverseRecOn with
  | nil => exact List.nodup_nil
  | append_singleton log e ih =>
      rw [recent_append_singleton]
      exact nodup_use e ih

theorem mem_of_mem_recent {log : List (κ × α)} {e : κ × α}
    (h : e ∈ recent log) : e ∈ log := by
  induction log using List.reverseRecOn with
  | nil => exact h
  | append_singleton log e' ih =>
      rw [recent_append_singleton, use, List.mem_cons] at h
      rw [List.mem_append, List.mem_singleton]
      rcases h with rfl | h
      · exact .inr rfl
      · exact .inl (ih (List.mem_filter.mp h).1)

theorem filter_cons_of_ne {x : κ × α} {k : κ} (h : x.1 ≠ k)
    (entries : List (κ × α)) :
    ((x :: entries).filter fun y => y.1 ≠ k) =
      x :: entries.filter fun y => y.1 ≠ k :=
  List.filter_cons_of_pos (by simpa using h)

theorem filter_eq_self_of_notMem {entries : List (κ × α)} {k : κ}
    (h : k ∉ entries.map Prod.fst) :
    (entries.filter fun x => x.1 ≠ k) = entries :=
  List.filter_eq_self.mpr fun x hx => decide_eq_true fun heq =>
    h (heq ▸ List.mem_map.mpr ⟨x, hx, rfl⟩)

/-- An entry stands behind the keys used since, each counted once. -/
theorem exists_recent_eq {k : κ} (a : α) (before : List (κ × α))
    {later : List (κ × α)} (h : ∀ e ∈ later, e.1 ≠ k) :
    ∃ front back, recent (before ++ (k, a) :: later) =
        front ++ (k, a) :: back ∧ k ∉ front.map Prod.fst ∧
      front.length = (later.map Prod.fst).dedup.length := by
  suffices hkeys : ∃ front back, recent (before ++ (k, a) :: later) =
      front ++ (k, a) :: back ∧
      ∀ x, x ∈ front.map Prod.fst ↔ x ∈ later.map Prod.fst by
    obtain ⟨front, back, heq, hmem⟩ := hkeys
    refine ⟨front, back, heq, fun hk => ?_, ?_⟩
    · obtain ⟨e, he, hek⟩ := List.mem_map.mp ((hmem k).mp hk)
      exact h e he hek
    · have hnodup := nodup_recent (before ++ (k, a) :: later)
      rw [heq, List.map_append] at hnodup
      rw [← List.length_map (fun e : κ × α => e.1)]
      refine (List.perm_of_nodup_nodup_toFinset_eq
        (List.Nodup.of_append_left hnodup) (List.nodup_dedup _) ?_).length_eq
      ext x
      rw [List.mem_toFinset, List.mem_toFinset, List.mem_dedup, hmem]
  induction later using List.reverseRecOn with
  | nil =>
      refine ⟨[], (recent before).filter fun x => x.1 ≠ k, ?_, by simp⟩
      rw [recent_append_singleton]
      rfl
  | append_singleton later e ih =>
      have hne : e.1 ≠ k := h e (by simp)
      obtain ⟨front, back, heq, hmem⟩ :=
        ih fun e he => h e (List.mem_append_left _ he)
      refine ⟨use front e, back.filter fun x => x.1 ≠ e.1, ?_, fun x => ?_⟩
      · rw [← List.cons_append, ← List.append_assoc, recent_append_singleton,
          heq, use, List.filter_append, filter_cons_of_ne (Ne.symm hne)]
        rfl
      · rw [use, List.map_cons, List.mem_cons, mem_keys_filter, hmem,
          List.map_append, List.mem_append, List.map_singleton,
          List.mem_singleton]
        by_cases hx : x = e.1 <;> simp [hx]

theorem lookup_take {entries front back : List (κ × α)} {k : κ} {a : α}
    (heq : entries = front ++ (k, a) :: back) (hk : k ∉ front.map Prod.fst)
    {n : Nat} (hn : front.length < n) :
    (entries.take n).lookup k = some a := by
  subst heq
  rw [List.take_append, List.take_of_length_le hn.le, List.lookup_append,
    List.lookup_eq_none_iff.mpr fun e he => by
      simpa using fun h : k = e.1 => hk (h ▸ List.mem_map.mpr ⟨e, he, rfl⟩)]
  obtain ⟨m, hm⟩ : ∃ m, n - front.length = m + 1 :=
    ⟨n - front.length - 1, by omega⟩
  simp [hm]

/-- A key among the first entries that is used again moves to the front of
them. -/
theorem use_take_of_mem {entries : List (κ × α)} {n : Nat} {e : κ × α}
    (hnodup : (entries.map Prod.fst).Nodup)
    (hmem : e.1 ∈ (entries.take n).map Prod.fst) :
    use (entries.take n) e = (use entries e).take n := by
  cases n with
  | zero => simp at hmem
  | succ n =>
      rw [use, use, List.take_succ_cons]
      congr 1
      induction entries generalizing n with
      | nil => simp at hmem
      | cons x xs ih =>
          obtain ⟨hx, hxs⟩ := List.nodup_cons.mp hnodup
          rw [List.take_succ_cons, List.map_cons, List.mem_cons] at hmem
          rw [List.take_succ_cons]
          by_cases hkey : x.1 = e.1
          · have hnot : e.1 ∉ xs.map Prod.fst := hkey ▸ hx
            have hnot' : e.1 ∉ (xs.take n).map Prod.fst := fun h =>
              hnot (List.map_subset _ (List.take_subset n xs) h)
            rw [List.filter_cons_of_neg (by simpa using hkey),
              List.filter_cons_of_neg (by simpa using hkey),
              filter_eq_self_of_notMem hnot, filter_eq_self_of_notMem hnot']
          · have hrest : e.1 ∈ (xs.take n).map Prod.fst :=
              hmem.resolve_left fun h => hkey h.symm
            rw [filter_cons_of_ne hkey, filter_cons_of_ne hkey]
            cases n with
            | zero => simp at hrest
            | succ n =>
                rw [List.take_succ_cons]
                exact congrArg (x :: ·) (ih hxs n hrest)

/-- A key that is not among the first entries pushes the last of them
out. -/
theorem use_take_of_notMem {entries : List (κ × α)} {n : Nat} {e : κ × α}
    (hmem : e.1 ∉ (entries.take n).map Prod.fst) :
    (e :: entries.take n).take n = (use entries e).take n := by
  cases n with
  | zero => rfl
  | succ n =>
      rw [use, List.take_succ_cons, List.take_succ_cons, List.take_take,
        Nat.min_eq_left (Nat.le_succ n)]
      congr 1
      induction entries generalizing n with
      | nil => simp
      | cons x xs ih =>
          rw [List.take_succ_cons, List.map_cons, List.mem_cons, not_or]
            at hmem
          rw [filter_cons_of_ne (Ne.symm hmem.1)]
          cases n with
          | zero => rfl
          | succ n =>
              rw [List.take_succ_cons, List.take_succ_cons]
              exact congrArg (x :: ·) (ih n hmem.2)

end RecentUse
