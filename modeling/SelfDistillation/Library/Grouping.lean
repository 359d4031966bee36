/-
Values collected under their labels: a dictionary of lists that is filled one
value at a time, and what it holds under a label at the end.
-/
import Mathlib

namespace Grouping

universe u v w

variable {κ : Type u} {α : Type v} {ι : Type w} [DecidableEq κ]

/-- `groups[label].append(value)`; a label that is new starts a list. -/
def append (groups : List (κ × List α)) (label : κ) (value : α) :
    List (κ × List α) :=
  match groups with
  | [] => [(label, [value])]
  | (key, values) :: rest =>
      if label = key then (key, values ++ [value]) :: rest
      else (key, values) :: append rest label value

/-- The values of all items, each appended under its label. -/
def collect (label : ι → κ) (value : ι → α) (items : List ι) :
    List (κ × List α) :=
  items.foldl (fun groups i => append groups (label i) (value i)) []

/-- The values of the items with a label, in order. -/
def valuesUnder (label : ι → κ) (value : ι → α) (items : List ι) (key : κ) :
    List α :=
  (items.filter fun i => label i = key).map value

theorem lookup_cons (key first : κ) (values : List α)
    (rest : List (κ × List α)) :
    ((first, values) :: rest).lookup key =
      if key = first then some values else rest.lookup key := by
  rw [List.lookup_cons]
  split <;> simp_all

theorem lookup_append (groups : List (κ × List α)) (label key : κ)
    (value : α) :
    (append groups label value).lookup key =
      if key = label then some (((groups.lookup key).getD []) ++ [value])
      else groups.lookup key := by
  induction groups with
  | nil => simp [append, lookup_cons]
  | cons group rest ih =>
      obtain ⟨first, values⟩ := group
      rw [append]
      by_cases hlabel : label = first
      · rw [if_pos hlabel, lookup_cons, lookup_cons, hlabel]
        by_cases hkey : key = first <;> simp [hkey]
      · rw [if_neg hlabel, lookup_cons, lookup_cons, ih]
        by_cases hkey : key = first
        · have hne : first ≠ label := Ne.symm hlabel
          simp [hkey, hne]
        · simp [hkey]

theorem valuesUnder_append_singleton (label : ι → κ) (value : ι → α)
    (items : List ι) (i : ι) (key : κ) :
    valuesUnder label value (items ++ [i]) key =
      valuesUnder label value items key ++
        if label i = key then [value i] else [] := by
  rw [valuesUnder, List.filter_append, List.map_append]
  by_cases h : label i = key <;> simp [valuesUnder, h]

/-- A label leads to the values of its items, if there are any. -/
theorem lookup_collect (label : ι → κ) (value : ι → α) (items : List ι)
    (key : κ) :
    (collect label value items).lookup key =
      if key ∈ items.map label then some (valuesUnder label value items key)
      else none := by
  induction items using List.reverseRecOn with
  | nil => simp [collect]
  | append_singleton items i ih =>
      have hstep : collect label value (items ++ [i]) =
          append (collect label value items) (label i) (value i) := by
        rw [collect, List.foldl_append, List.foldl_cons, List.foldl_nil,
          collect]
      rw [hstep, lookup_append, ih, valuesUnder_append_singleton]
      by_cases hkey : key = label i
      · by_cases hmem : key ∈ items.map label
        · simp [hkey, hkey ▸ hmem]
        · have hnone : valuesUnder label value items key = [] := by
            rw [valuesUnder, List.map_eq_nil_iff, List.filter_eq_nil_iff]
            intro j hj hlabel
            exact hmem (List.mem_map.mpr ⟨j, hj, by simpa using hlabel⟩)
          have hne : label i ∉ items.map label := hkey ▸ hmem
          rw [hkey] at hnone
          simp [hkey, hnone, hne]
      · have hne : ¬ label i = key := fun h => hkey h.symm
        simp [hkey, hne]

/-- No list of the dictionary is empty. -/
theorem ne_nil_of_mem_append {groups : List (κ × List α)} {label : κ}
    {value : α} (h : ∀ group ∈ groups, group.2 ≠ []) :
    ∀ group ∈ append groups label value, group.2 ≠ [] := by
  induction groups with
  | nil => simp [append]
  | cons group rest ih =>
      obtain ⟨hfirst, hrest⟩ := List.forall_mem_cons.mp h
      rw [append]
      split
      · exact List.forall_mem_cons.mpr ⟨by simp, hrest⟩
      · exact List.forall_mem_cons.mpr ⟨hfirst, ih hrest⟩

theorem ne_nil_of_mem_collect (label : ι → κ) (value : ι → α)
    (items : List ι) :
    ∀ group ∈ collect label value items, group.2 ≠ [] := by
  induction items using List.reverseRecOn with
  | nil => simp [collect]
  | append_singleton items i ih =>
      rw [collect, List.foldl_append, List.foldl_cons, List.foldl_nil]
      exact ne_nil_of_mem_append ih

theorem append_map {keys : List κ} (hnodup : keys.Nodup) (label : κ)
    (value : α) (values : κ → List α) :
    append (keys.map fun key => (key, values key)) label value =
      if label ∈ keys then keys.map fun key =>
        (key, if key = label then values key ++ [value] else values key)
      else keys.map (fun key => (key, values key)) ++ [(label, [value])] := by
  induction keys with
  | nil => rfl
  | cons first rest ih =>
      obtain ⟨hfirst, hrest⟩ := List.nodup_cons.mp hnodup
      rw [List.map_cons, append, ih hrest]
      by_cases hlabel : label = first
      · have hsame : ∀ key ∈ rest, (key, values key) =
            (key, if key = label then values key ++ [value]
              else values key) := by
          intro key hkey
          have hne : key ≠ label := fun h => hfirst (hlabel ▸ h ▸ hkey)
          rw [if_neg hne]
        rw [if_pos hlabel, if_pos (hlabel ▸ List.mem_cons_self),
          List.map_cons, ← hlabel, if_pos rfl, List.map_congr_left hsame]
      · have hne : first ≠ label := Ne.symm hlabel
        by_cases hmem : label ∈ rest
        · simp [hlabel, hmem, hne]
        · simp [hlabel, hmem]

/-- The dictionary has every label once, with the values of its items. -/
theorem exists_collect_eq (label : ι → κ) (value : ι → α) (items : List ι) :
    ∃ keys : List κ, keys.Nodup ∧
      (∀ key, key ∈ keys ↔ key ∈ items.map label) ∧
      collect label value items =
        keys.map fun key => (key, valuesUnder label value items key) := by
  induction items using List.reverseRecOn with
  | nil => exact ⟨[], List.nodup_nil, by simp, rfl⟩
  | append_singleton items i ih =>
      obtain ⟨keys, hnodup, hkeys, heq⟩ := ih
      have hstep : collect label value (items ++ [i]) =
          append (keys.map fun key => (key, valuesUnder label value items key))
            (label i) (value i) := by
        rw [collect, List.foldl_append, List.foldl_cons, List.foldl_nil,
          ← collect, heq]
      rw [append_map hnodup] at hstep
      by_cases hmem : label i ∈ keys
      · refine ⟨keys, hnodup, fun key => ?_, ?_⟩
        · rw [hkeys, List.map_append, List.mem_append]
          have hold := (hkeys (label i)).mp hmem
          constructor
          · exact .inl
          · rintro (h | h)
            · exact h
            · rwa [List.mem_singleton.mp h]
        · rw [hstep, if_pos hmem]
          apply List.map_congr_left
          intro key _
          rw [valuesUnder_append_singleton]
          by_cases hkey : key = label i
          · rw [if_pos hkey, if_pos hkey.symm]
          · rw [if_neg hkey, if_neg (Ne.symm hkey), List.append_nil]
      · have hnew : valuesUnder label value items (label i) = [] := by
          rw [valuesUnder, List.map_eq_nil_iff, List.filter_eq_nil_iff]
          intro j hj hlabel
          apply hmem
          rw [hkeys]
          exact List.mem_map.mpr ⟨j, hj, by simpa using hlabel⟩
        refine ⟨keys ++ [label i], ?_, fun key => by simp [hkeys], ?_⟩
        · rw [List.nodup_append]
          refine ⟨hnodup, List.nodup_singleton _, ?_⟩
          intro key hkey other hother heq
          exact hmem (List.mem_singleton.mp hother ▸ heq ▸ hkey)
        · rw [hstep, if_neg hmem, List.map_append, List.map_singleton,
            valuesUnder_append_singleton, hnew, if_pos rfl, List.nil_append]
          congr 1
          apply List.map_congr_left
          intro key hkey
          have hne : label i ≠ key := fun h => hmem (h ▸ hkey)
          rw [valuesUnder_append_singleton, if_neg hne, List.append_nil]

theorem mem_valuesUnder_id {label : ι → κ} {items : List ι} {key : κ}
    {i : ι} :
    i ∈ valuesUnder label id items key ↔ i ∈ items ∧ label i = key := by
  simp [valuesUnder]

/-- A loop over the groups that changes the rows of a group, each by what it
was, changes a row as the group of the row does. -/
theorem foldl_collect {β : Type w} {step : (ι → β) → List ι → ι → β}
    (hout : ∀ rows group i, i ∉ group → step rows group i = rows i)
    (hlocal : ∀ rows rows' group i, rows i = rows' i →
      step rows group i = step rows' group i)
    (label : ι → κ) {items : List ι} {i : ι} (hi : i ∈ items)
    (rows : ι → β) :
    (collect label id items).foldl (fun rows group => step rows group.2)
        rows i = step rows (valuesUnder label id items (label i)) i := by
  obtain ⟨keys, hnodup, hkeys, heq⟩ := exists_collect_eq label id items
  have hmem : label i ∈ keys := (hkeys _).mpr (List.mem_map_of_mem hi)
  rw [heq, List.foldl_map]
  clear heq hkeys
  -- before the group of the row nothing happens to it, nor after
  have hrest : ∀ (keys : List κ) (rows : ι → β), label i ∉ keys →
      keys.foldl (fun rows key => step rows (valuesUnder label id items key))
        rows i = rows i := by
    intro keys
    induction keys with
    | nil => exact fun _ _ => rfl
    | cons key keys ih =>
        intro rows hnot
        obtain ⟨hkey, hnot⟩ := not_or.mp (List.mem_cons.not.mp hnot)
        rw [List.foldl_cons, ih _ hnot]
        exact hout _ _ _ fun h => hkey (mem_valuesUnder_id.mp h).2
  induction keys generalizing rows with
  | nil => cases hmem
  | cons key keys ih =>
      obtain ⟨hkey, hnodup⟩ := List.nodup_cons.mp hnodup
      rw [List.foldl_cons]
      by_cases hlabel : label i = key
      · rw [hrest _ _ (hlabel ▸ hkey), hlabel]
      · have hmem := (List.mem_cons.mp hmem).resolve_left hlabel
        rw [ih _ hnodup hmem]
        apply hlocal
        exact hout _ _ _ fun h => hlabel (mem_valuesUnder_id.mp h).2

section Fin

variable {n : Nat} {F : Type v} [AddCommMonoid F]

/-- The rows with the label of a row. -/
def members (label : Fin n → κ) (i : Fin n) : Finset (Fin n) :=
  {j | label j = label i}

theorem mem_members_self (label : Fin n → κ) (i : Fin n) :
    i ∈ members label i := by
  simp [members]

theorem card_members_pos (label : Fin n → κ) (i : Fin n) :
    0 < (members label i).card :=
  Finset.card_pos.mpr ⟨i, mem_members_self label i⟩

theorem toFinset_filter_label (label : Fin n → κ) (i : Fin n) :
    ((List.finRange n).filter fun j => label j = label i).toFinset =
      members label i := by
  ext j
  simp [members]

theorem length_valuesUnder (label : Fin n → κ) (value : Fin n → α)
    (i : Fin n) :
    (valuesUnder label value (List.finRange n) (label i)).length =
      (members label i).card := by
  rw [valuesUnder, List.length_map, ← toFinset_filter_label,
    List.toFinset_card_of_nodup ((List.nodup_finRange n).filter _)]

theorem sum_valuesUnder (label : Fin n → κ) (value : Fin n → F)
    (i : Fin n) :
    (valuesUnder label value (List.finRange n) (label i)).sum =
      ∑ j ∈ members label i, value j := by
  rw [valuesUnder, ← toFinset_filter_label,
    List.sum_toFinset _ ((List.nodup_finRange n).filter _)]

end Fin

end Grouping
