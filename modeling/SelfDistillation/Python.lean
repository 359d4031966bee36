/-
The part of Python's behaviour the modelled functions rely on: exceptions,
floor division, stable sorting, the list heap and insertion-ordered
dictionaries.
-/
import Mathlib

namespace SelfDistillation

variable {α β : Type}

/-- The exceptions the modelled functions raise, with the texts the source
gives them. -/
inductive PyErr
  | assertionError (msg : String)
  | attributeError
  | indexError
  | keyError (key : String)
  | runtimeError (msg : String)
  | typeError (msg : String)
  | valueError (msg : String)
  | zeroDivisionError
deriving DecidableEq, Repr

/-- A Python computation: a value, or the exception that ended it. -/
abbrev Py (α : Type) := Except PyErr α

instance [DecidableEq α] : DecidableEq (Py α) := fun left right =>
  match left, right with
  | .ok a, .ok b => decidable_of_iff (a = b) (by simp)
  | .error a, .error b => decidable_of_iff (a = b) (by simp)
  | .ok _, .error _ => isFalse (by simp)
  | .error _, .ok _ => isFalse (by simp)

/-- `assert cond, msg` -/
def pyAssert (cond : Bool) (msg : String) : Py Unit :=
  if cond then .ok () else .error (.assertionError msg)

@[simp] theorem pyAssert_eq_ok {cond : Bool} {msg : String} {r : Unit} :
    pyAssert cond msg = .ok r ↔ cond = true := by
  cases cond <;> simp [pyAssert]

theorem pyAssert_true (msg : String) : pyAssert true msg = .ok () := rfl

/-- The inversion rule every monadic step is taken apart with. -/
theorem bind_eq_ok {x : Py α} {f : α → Py β} {r : β} :
    (x >>= f) = .ok r ↔ ∃ a, x = .ok a ∧ f a = .ok r := by
  cases x with
  | error e => simp [bind, Except.bind]
  | ok a => simp [bind, Except.bind]

theorem ok_bind (a : α) (f : α → Py β) : ((.ok a : Py α) >>= f) = f a := rfl

theorem map_eq_ok {x : Py α} {f : α → β} {r : β} :
    (f <$> x) = .ok r ↔ ∃ a, x = .ok a ∧ f a = r := by
  cases x <;> simp [Functor.map, Except.map]

theorem exists_of_isOk {x : Py α} (h : x.isOk = true) : ∃ a, x = .ok a := by
  cases x with
  | error e => cases h
  | ok a => exact ⟨a, rfl⟩

theorem exists_of_forall₂_right {R : α → β → Prop} {xs : List α}
    {ys : List β} (h : List.Forall₂ R xs ys) {y : β} (hy : y ∈ ys) :
    ∃ x ∈ xs, R x y := by
  obtain ⟨i, hi, rfl⟩ := List.mem_iff_getElem.mp hy
  have hi' : i < xs.length := h.length_eq.symm ▸ hi
  exact ⟨xs[i], List.getElem_mem hi', h.get hi' hi⟩

theorem exists_forall₂_iff {γ : Type} {R : α → β → Prop}
    {S : β → γ → Prop} {xs : List α} {zs : List γ} :
    (∃ ys, List.Forall₂ R xs ys ∧ List.Forall₂ S ys zs) ↔
      List.Forall₂ (fun x z => ∃ y, R x y ∧ S y z) xs zs := by
  constructor
  · rintro ⟨ys, hys, hS⟩
    induction hys generalizing zs with
    | nil =>
        cases hS
        exact .nil
    | cons hR _ ih =>
        obtain ⟨z, zs, hz, hrest, rfl⟩ := List.forall₂_cons_left_iff.mp hS
        exact .cons ⟨_, hR, hz⟩ (ih hrest)
  · intro h
    induction h with
    | nil => exact ⟨[], .nil, .nil⟩
    | cons hxz _ ih =>
        obtain ⟨y, hR, hS⟩ := hxz
        obtain ⟨ys, hRs, hSs⟩ := ih
        exact ⟨y :: ys, .cons hR hRs, .cons hS hSs⟩

theorem getElem?_of_forall₂ {R : α → β → Prop} {xs : List α} {ys : List β}
    (h : List.Forall₂ R xs ys) {i : Nat} {x : α} (hx : xs[i]? = some x) :
    ∃ y, ys[i]? = some y ∧ R x y := by
  obtain ⟨hi, rfl⟩ := List.getElem?_eq_some_iff.mp hx
  have hi' : i < ys.length := h.length_eq ▸ hi
  exact ⟨ys[i], List.getElem?_eq_getElem hi', h.get hi hi'⟩

theorem mapM_eq_ok_iff {f : α → Py β} {xs : List α} {ys : List β} :
    xs.mapM f = .ok ys ↔ List.Forall₂ (fun x y => f x = .ok y) xs ys := by
  induction xs generalizing ys with
  | nil => simp [pure, Except.pure, eq_comm]
  | cons x xs ih =>
      rw [List.mapM_cons, bind_eq_ok]
      simp only [bind_eq_ok, ih, List.forall₂_cons_left_iff]
      constructor
      · rintro ⟨y, hy, zs, hzs, h⟩
        exact ⟨y, zs, hy, hzs, (Except.ok.inj h).symm⟩
      · rintro ⟨y, zs, hy, hzs, rfl⟩
        exact ⟨y, hy, zs, hzs, rfl⟩

theorem mapM_eq_ok_of_forall {f : α → Py β} {g : α → β} {xs : List α}
    (h : ∀ x ∈ xs, f x = .ok (g x)) : xs.mapM f = .ok (xs.map g) := by
  rw [mapM_eq_ok_iff, List.forall₂_map_right_iff, List.forall₂_same]
  exact h

theorem mem_iff_of_mapM {f : α → Py β} {xs : List α}
    {ys : List β} (h : xs.mapM f = .ok ys) (y : β) :
    y ∈ ys ↔ ∃ x ∈ xs, f x = .ok y := by
  have hall := mapM_eq_ok_iff.mp h
  constructor
  · intro hy
    obtain ⟨x, hx, hf⟩ := exists_of_forall₂_right hall hy
    exact ⟨x, hx, hf⟩
  · rintro ⟨x, hx, hf⟩
    obtain ⟨y', hy', hf'⟩ := exists_of_forall₂_right hall.flip hx
    rw [hf] at hf'
    cases hf'
    exact hy'

theorem exists_mapM_eq_ok {f : α → Py β} {xs : List α}
    (h : ∀ x ∈ xs, ∃ y, f x = .ok y) : ∃ ys, xs.mapM f = .ok ys := by
  induction xs with
  | nil => exact ⟨[], rfl⟩
  | cons x xs ih =>
      obtain ⟨⟨y, hy⟩, hrest⟩ := List.forall_mem_cons.mp h
      obtain ⟨ys, hys⟩ := ih hrest
      refine ⟨y :: ys, ?_⟩
      rw [List.mapM_cons, hy, ok_bind, hys]
      rfl

/-- `[f(i) for i in range(n)]` -/
def tabulateM : {n : Nat} → (Fin n → Py α) → Py (Fin n → α)
  | 0, _ => .ok Fin.elim0
  | _ + 1, f => do
      let a ← f 0
      let rest ← tabulateM fun i => f i.succ
      return Fin.cons a rest

theorem tabulateM_eq_ok {n : Nat} {f : Fin n → Py α} {g : Fin n → α} :
    tabulateM f = .ok g ↔ ∀ i, f i = .ok (g i) := by
  induction n with
  | zero => exact ⟨fun _ i => i.elim0, fun _ => by simp [tabulateM, Subsingleton.elim g Fin.elim0]⟩
  | succ n ih =>
      simp only [tabulateM, bind_eq_ok, ih, Fin.forall_fin_succ]
      constructor
      · rintro ⟨a, ha, rest, hrest, heq⟩
        cases heq
        exact ⟨ha, hrest⟩
      · rintro ⟨ha, hrest⟩
        exact ⟨g 0, ha, fun i => g i.succ, hrest,
          congrArg Except.ok (Fin.cons_self_tail g)⟩

theorem forM_eq_ok_iff {f : α → Py Unit} {xs : List α} {r : Unit} :
    forM xs f = .ok r ↔ ∀ x ∈ xs, f x = .ok () := by
  induction xs with
  | nil => simp [pure, Except.pure]
  | cons x xs ih =>
      rw [List.forM_cons, bind_eq_ok, List.forall_mem_cons]
      constructor
      · rintro ⟨_, hx, hxs⟩
        exact ⟨hx, ih.mp hxs⟩
      · rintro ⟨hx, hxs⟩
        exact ⟨(), hx, ih.mpr hxs⟩

/-- Assertions made one after the other all hold, or the first failing one
ends the loop. -/
theorem forM_pyAssert_eq_ok {cond : α → Bool} {msg : α → String}
    {xs : List α} {r : Unit} :
    (forM xs fun x => pyAssert (cond x) (msg x)) = .ok r ↔
      ∀ x ∈ xs, cond x = true := by
  induction xs with
  | nil => simp [pure, Except.pure]
  | cons x xs ih =>
      rw [List.forM_cons, bind_eq_ok]
      simp [ih]

/-- The place of index `i` in a list of `n`, negative ones from the end. -/
def sliceIndex (n : Nat) (i : Int) : Nat :=
  if i < 0 then (i + n).toNat else min i.toNat n

/-- `a // b` on ints. -/
def floorDiv (a b : Int) : Py Int :=
  if b = 0 then .error .zeroDivisionError else .ok (a.fdiv b)

/-- `a % b` on ints. -/
def floorMod (a b : Int) : Py Int :=
  if b = 0 then .error .zeroDivisionError else .ok (a.fmod b)

theorem floorDiv_eq_ok {a b r : Int} :
    floorDiv a b = .ok r ↔ b ≠ 0 ∧ a.fdiv b = r := by
  by_cases h : b = 0 <;> simp [floorDiv, h]

theorem floorMod_eq_ok {a b r : Int} :
    floorMod a b = .ok r ↔ b ≠ 0 ∧ a.fmod b = r := by
  by_cases h : b = 0 <;> simp [floorMod, h]

section Sorting

/-- `sorted(xs)` for elements compared by `lt`: stable. -/
def sorted (lt : α → α → Bool) (xs : List α) : List α :=
  xs.insertionSort (fun a b => lt b a = false)

/-- `sorted(xs, reverse=True)`: stable, every comparison taken the other
way. -/
def sortedReverse (lt : α → α → Bool) (xs : List α) : List α :=
  xs.insertionSort (fun a b => lt a b = false)

theorem sorted_perm (lt : α → α → Bool) (xs : List α) :
    (sorted lt xs).Perm xs :=
  List.perm_insertionSort _ xs

theorem sortedReverse_perm (lt : α → α → Bool) (xs : List α) :
    (sortedReverse lt xs).Perm xs :=
  List.perm_insertionSort _ xs

/-- Comparing by a key of a linear order is all the sorting functions ask of
`lt`. -/
theorem sortedReverse_pairwise {κ : Type} [LinearOrder κ]
    {lt : α → α → Bool} {key : α → κ}
    (hlt : ∀ a b, lt a b = true ↔ key a < key b) (xs : List α) :
    (sortedReverse lt xs).Pairwise (fun a b => lt a b = false) := by
  have hge : ∀ a b, lt a b = false ↔ key b ≤ key a := by
    intro a b
    rw [← not_lt, ← hlt, Bool.not_eq_true]
  have htotal : Std.Total (fun a b : α => lt a b = false) :=
    ⟨fun a b => by simpa only [hge] using le_total (key b) (key a)⟩
  have htrans : IsTrans α (fun a b : α => lt a b = false) :=
    ⟨fun a b c hab hbc => by
      rw [hge] at hab hbc ⊢
      exact hbc.trans hab⟩
  exact List.pairwise_insertionSort _ xs

theorem sorted_pairwise {κ : Type} [LinearOrder κ]
    {lt : α → α → Bool} {key : α → κ}
    (hlt : ∀ a b, lt a b = true ↔ key a < key b) (xs : List α) :
    (sorted lt xs).Pairwise (fun a b => lt b a = false) := by
  have hle : ∀ a b, lt b a = false ↔ key a ≤ key b := by
    intro a b
    rw [← not_lt, ← hlt, Bool.not_eq_true]
  have htotal : Std.Total (fun a b : α => lt b a = false) :=
    ⟨fun a b => by simpa only [hle] using le_total (key a) (key b)⟩
  have htrans : IsTrans α (fun a b : α => lt b a = false) :=
    ⟨fun a b c hab hbc => by
      rw [hle] at hab hbc ⊢
      exact hab.trans hbc⟩
  exact List.pairwise_insertionSort _ xs

end Sorting

/-- A Python `dict` with string keys, in insertion order. -/
structure PyDict (α : Type) where
  entries : List (String × α)
  nodup : (entries.map Prod.fst).Nodup
deriving DecidableEq

namespace PyDict

@[ext] theorem ext {left right : PyDict α}
    (h : left.entries = right.entries) : left = right := by
  cases left
  cases right
  simpa using h

def empty : PyDict α := ⟨[], List.nodup_nil⟩

def keys (d : PyDict α) : List String := d.entries.map Prod.fst

def get? (d : PyDict α) (key : String) : Option α :=
  d.entries.lookup key

/-- `d[key]` -/
def get (d : PyDict α) (key : String) : Py α :=
  match d.get? key with
  | some a => .ok a
  | none => .error (.keyError key)

/-- `{k: f(v) for k, v in d.items()}` -/
def mapVals (f : α → β) (d : PyDict α) : PyDict β where
  entries := d.entries.map fun e => (e.1, f e.2)
  nodup := by simpa [Function.comp_def] using d.nodup

@[simp] theorem mapVals_entries (f : α → β) (d : PyDict α) :
    (d.mapVals f).entries = d.entries.map fun e => (e.1, f e.2) := rfl

@[simp] theorem mapVals_keys (f : α → β) (d : PyDict α) :
    (d.mapVals f).keys = d.keys := by
  simp [keys, Function.comp_def]

/-- `key in d` -/
def contains (d : PyDict α) (key : String) : Bool := decide (key ∈ d.keys)

/-- `d[key] = a` for a key that is not there yet. -/
def insertNew (d : PyDict α) (key : String) (a : α) (hnew : key ∉ d.keys) :
    PyDict α where
  entries := d.entries ++ [(key, a)]
  nodup := by
    rw [List.map_append, List.nodup_append']
    refine ⟨d.nodup, by simp, ?_⟩
    simpa [keys] using hnew

/-- `d[key] = a` -/
def set (d : PyDict α) (key : String) (a : α) : PyDict α :=
  if h : key ∈ d.keys then
    ⟨d.entries.map fun e => (e.1, if e.1 = key then a else e.2), by
      simpa [Function.comp_def] using d.nodup⟩
  else d.insertNew key a h

theorem get?_eq_some_iff {d : PyDict α} {key : String} {a : α} :
    d.get? key = some a ↔ (key, a) ∈ d.entries := by
  obtain ⟨entries, nodup⟩ := d
  simp only [get?]
  induction entries with
  | nil => simp
  | cons e entries ih =>
      obtain ⟨k, b⟩ := e
      simp only [List.map_cons, List.nodup_cons] at nodup
      by_cases hk : key = k
      · subst hk
        have hnot : (key, a) ∉ entries :=
          fun h => nodup.1 (List.mem_map.mpr ⟨_, h, rfl⟩)
        simp [hnot, eq_comm]
      · have hkb : (key == k) = false := by simpa using hk
        simp [List.lookup_cons, hkb, hk, ih nodup.2]

theorem get?_eq_none_iff {d : PyDict α} {key : String} :
    d.get? key = none ↔ key ∉ d.keys := by
  rw [← not_iff_not, not_not, ← ne_eq, Option.ne_none_iff_exists']
  simp only [get?_eq_some_iff, keys, List.mem_map, Prod.exists,
    exists_and_right, exists_eq_right]

theorem get?_set (d : PyDict α) (key key' : String) (a : α) :
    (d.set key a).get? key' = if key' = key then some a else d.get? key' := by
  apply Option.ext
  intro v
  rw [get?_eq_some_iff, set]
  split
  · rename_i hmem
    rw [List.mem_map]
    split
    · rename_i heq
      subst heq
      obtain ⟨e, he, hkey⟩ := List.mem_map.mp hmem
      constructor
      · rintro ⟨e', -, heq⟩
        obtain ⟨hkey', hv⟩ := Prod.ext_iff.mp heq
        simp only at hkey' hv
        rw [if_pos hkey'] at hv
        rw [hv]
      · intro hv
        refine ⟨e, he, Prod.ext hkey ?_⟩
        simpa [hkey] using hv
    · rename_i hne
      rw [get?_eq_some_iff]
      constructor
      · rintro ⟨e, he, heq⟩
        obtain ⟨hkey, hv⟩ := Prod.ext_iff.mp heq
        simp only at hkey hv
        rw [if_neg (hkey ▸ hne)] at hv
        rw [← hkey, ← hv]
        exact he
      · intro he
        exact ⟨_, he, Prod.ext rfl (if_neg hne)⟩
  · rename_i hnew
    rw [insertNew, List.mem_append, List.mem_singleton, Prod.mk.injEq,
      ← get?_eq_some_iff]
    split
    · rename_i heq
      subst heq
      rw [get?_eq_none_iff.mpr hnew]
      simp [eq_comm]
    · rename_i hne
      simp [hne]

theorem get_eq_ok {d : PyDict α} {key : String} {a : α} :
    d.get key = .ok a ↔ (key, a) ∈ d.entries := by
  rw [← get?_eq_some_iff, get]
  cases d.get? key <;> simp

theorem get?_mapVals (f : α → β) (d : PyDict α) (key : String) :
    (d.mapVals f).get? key = (d.get? key).map f := by
  obtain ⟨entries, nodup⟩ := d
  simp only [get?, mapVals_entries]
  clear nodup
  induction entries with
  | nil => rfl
  | cons e entries ih =>
      obtain ⟨k, a⟩ := e
      by_cases hk : (key == k) = true <;> simp [List.lookup_cons, hk, ih]

/-- A dictionary given by its keys. -/
def ofKeys (keys : List String) (hkeys : keys.Nodup) (f : String → α) :
    PyDict α where
  entries := keys.map fun key => (key, f key)
  nodup := by simpa [Function.comp_def] using hkeys

@[simp] theorem ofKeys_keys {keys : List String} (hkeys : keys.Nodup)
    (f : String → α) : (ofKeys keys hkeys f).keys = keys := by
  simp [ofKeys, PyDict.keys, Function.comp_def]

theorem entries_set_of_notMem {d : PyDict α} {key : String} (a : α)
    (hnew : key ∉ d.keys) : (d.set key a).entries = d.entries ++ [(key, a)] := by
  rw [set, dif_neg hnew, insertNew]

theorem length_entries_set (d : PyDict α) (key : String) (a : α) :
    (d.set key a).entries.length =
      d.entries.length + if key ∈ d.keys then 0 else 1 := by
  rw [set]
  split <;> simp [insertNew]

theorem mem_entries_set {d : PyDict α} {key : String} {a : α}
    {e : String × α} (he : e ∈ (d.set key a).entries) :
    e = (key, a) ∨ e ∈ d.entries := by
  rw [← get?_eq_some_iff, get?_set] at he
  split at he
  · rename_i hkey
    exact .inl (Prod.ext hkey (Option.some.inj he).symm)
  · exact .inr (get?_eq_some_iff.mp he)

theorem mapVals_set (f : α → β) (d : PyDict α) (key : String) (a : α) :
    (d.set key a).mapVals f = (d.mapVals f).set key (f a) := by
  ext1
  simp only [set, mapVals_keys]
  split
  · simp only [mapVals_entries, List.map_map, Function.comp_def, apply_ite f]
  · simp [insertNew]

/-- The dictionary `entries` are written into one after the other. -/
def ofList (entries : List (String × α)) : PyDict α :=
  entries.foldl (fun d e => d.set e.1 e.2) empty

theorem ofList_append_singleton (entries : List (String × α))
    (e : String × α) :
    ofList (entries ++ [e]) = (ofList entries).set e.1 e.2 := by
  simp [ofList]

theorem mem_of_mem_ofList {entries : List (String × α)} {e : String × α}
    (he : e ∈ (ofList entries).entries) : e ∈ entries := by
  induction entries using List.reverseRecOn with
  | nil => cases he
  | append_singleton entries x ih =>
      rw [ofList_append_singleton] at he
      rcases mem_entries_set he with rfl | he
      · exact List.mem_append_right _ (List.mem_singleton_self _)
      · exact List.mem_append_left _ (ih he)

/-- Keys written once keep their place and their value. -/
theorem ofList_entries_of_nodup {entries : List (String × α)}
    (hnodup : (entries.map Prod.fst).Nodup) :
    (ofList entries).entries = entries := by
  induction entries using List.reverseRecOn with
  | nil => rfl
  | append_singleton entries e ih =>
      rw [List.map_append, List.map_singleton, List.nodup_append'] at hnodup
      obtain ⟨hnodup, -, hdisjoint⟩ := hnodup
      have hnew : e.1 ∉ (ofList entries).keys := by
        rw [keys, ih hnodup]
        exact fun h => hdisjoint h (List.mem_singleton_self _)
      rw [ofList_append_singleton, entries_set_of_notMem _ hnew, ih hnodup]

theorem length_ofList_le (entries : List (String × α)) :
    (ofList entries).entries.length ≤ entries.length := by
  induction entries using List.reverseRecOn with
  | nil => exact Nat.le_refl 0
  | append_singleton entries e ih =>
      rw [ofList_append_singleton, length_entries_set, List.length_append,
        List.length_singleton]
      split <;> omega

/-- Writing a key again loses an entry. -/
theorem nodup_of_length_le_ofList {entries : List (String × α)}
    (hlength : entries.length ≤ (ofList entries).entries.length) :
    (entries.map Prod.fst).Nodup := by
  induction entries using List.reverseRecOn with
  | nil => exact List.nodup_nil
  | append_singleton entries e ih =>
      have hle := length_ofList_le entries
      rw [ofList_append_singleton, length_entries_set, List.length_append,
        List.length_singleton] at hlength
      split at hlength
      · omega
      · rename_i hnew
        have hnodup := ih (by omega)
        rw [keys, ofList_entries_of_nodup hnodup] at hnew
        rw [List.map_append, List.map_singleton, List.nodup_append']
        exact ⟨hnodup, List.nodup_singleton _, by simpa using hnew⟩

end PyDict

private theorem map_fst_eq_of_forall₂ {f : String → α → Py β}
    {xs : List (String × α)} {ys : List (String × β)}
    (h : List.Forall₂
      (fun x y => (fun b => (x.1, b)) <$> f x.1 x.2 = Except.ok y) xs ys) :
    ys.map Prod.fst = xs.map Prod.fst := by
  induction h with
  | nil => rfl
  | cons hx _ ih =>
      obtain ⟨b, _, rfl⟩ := map_eq_ok.mp hx
      simp [ih]

/-- `{k: f(k, v) for k, v in d.items()}` where computing `f(k, v)` may
raise. -/
def PyDict.mapEntriesM (f : String → α → Py β) (d : PyDict α) :
    Py (PyDict β) :=
  match h : d.entries.mapM (fun e => (fun b => (e.1, b)) <$> f e.1 e.2) with
  | .error e => .error e
  | .ok entries => .ok ⟨entries, by
      rw [map_fst_eq_of_forall₂ (mapM_eq_ok_iff.mp h)]
      exact d.nodup⟩

/-- Keys and their order stay, every value is replaced by its image. -/
theorem PyDict.mapEntriesM_eq_ok {f : String → α → Py β} {d : PyDict α}
    {r : PyDict β} :
    d.mapEntriesM f = .ok r ↔
      List.Forall₂ (fun x y => x.1 = y.1 ∧ f x.1 x.2 = .ok y.2)
        d.entries r.entries := by
  have hmap : d.entries.mapM (fun e => (fun b => (e.1, b)) <$> f e.1 e.2) =
      .ok r.entries ↔
      List.Forall₂ (fun x y => x.1 = y.1 ∧ f x.1 x.2 = .ok y.2)
        d.entries r.entries := by
    rw [mapM_eq_ok_iff]
    constructor <;> intro h <;> apply h.imp <;> intro x y hxy
    · obtain ⟨b, hb, rfl⟩ := map_eq_ok.mp hxy
      exact ⟨rfl, hb⟩
    · exact map_eq_ok.mpr ⟨y.2, hxy.2, Prod.ext hxy.1 rfl⟩
  rw [← hmap]
  unfold mapEntriesM
  split
  · rename_i e he
    simp [he]
  · rename_i entries hentries
    simp [hentries, PyDict.ext_iff]

theorem PyDict.get?_of_mapEntriesM {f : String → α → Py β} {d : PyDict α}
    {r : PyDict β} (h : d.mapEntriesM f = .ok r) (key : String) :
    Option.Rel (fun a b => f key a = .ok b) (d.get? key) (r.get? key) := by
  have hall := PyDict.mapEntriesM_eq_ok.mp h
  obtain ⟨xs, hxs⟩ := d
  obtain ⟨ys, hys⟩ := r
  simp only [get?] at hall ⊢
  clear h hxs hys
  induction hall with
  | nil => exact .none
  | @cons x y xs ys hxy _ ih =>
      obtain ⟨k, a⟩ := x
      obtain ⟨k', b⟩ := y
      obtain ⟨rfl, hf⟩ := hxy
      simp only [List.lookup_cons]
      split
      · rename_i heq
        cases eq_of_beq heq
        exact .some hf
      · exact ih

theorem PyDict.exists_mapEntriesM {f : String → α → Py β} {d : PyDict α}
    (h : ∀ e ∈ d.entries, ∃ b, f e.1 e.2 = .ok b) :
    ∃ r, d.mapEntriesM f = .ok r := by
  obtain ⟨entries, hentries⟩ : ∃ entries : List (String × β), List.Forall₂
      (fun x y => x.1 = y.1 ∧ f x.1 x.2 = .ok y.2) d.entries entries := by
    generalize d.entries = xs at h
    induction xs with
    | nil => exact ⟨[], .nil⟩
    | cons e xs ih =>
        obtain ⟨⟨b, hb⟩, hxs⟩ := List.forall_mem_cons.mp h
        obtain ⟨ys, hys⟩ := ih hxs
        exact ⟨(e.1, b) :: ys, .cons ⟨rfl, hb⟩ hys⟩
  have hkeys : entries.map Prod.fst = d.entries.map Prod.fst := by
    have hall := hentries
    generalize d.entries = xs at hall
    clear hentries
    induction hall with
    | nil => rfl
    | cons hxy _ ih => rw [List.map_cons, List.map_cons, ih, hxy.1]
  exact ⟨⟨entries, hkeys ▸ d.nodup⟩, PyDict.mapEntriesM_eq_ok.mpr hentries⟩

/-- One pass over the items after another replaces each value by the image
of its image. -/
theorem PyDict.exists_mapEntriesM_mapEntriesM {γ : Type}
    {f : String → α → Py β} {g : String → β → Py γ} {d : PyDict α}
    {r : PyDict γ} :
    (∃ items, d.mapEntriesM f = .ok items ∧ items.mapEntriesM g = .ok r) ↔
      List.Forall₂ (fun x z => x.1 = z.1 ∧
        ∃ b, f x.1 x.2 = .ok b ∧ g x.1 b = .ok z.2) d.entries r.entries := by
  constructor
  · rintro ⟨items, hitems, hr⟩
    refine (exists_forall₂_iff.mp ⟨items.entries,
      mapEntriesM_eq_ok.mp hitems, mapEntriesM_eq_ok.mp hr⟩).imp ?_
    rintro x z ⟨y, ⟨hxy, hf⟩, hyz, hg⟩
    exact ⟨hxy.trans hyz, y.2, hf, hxy ▸ hg⟩
  · intro h
    obtain ⟨items, hitems⟩ := exists_mapEntriesM (d := d) (f := f)
      fun e he => by
        obtain ⟨i, hi, rfl⟩ := List.mem_iff_getElem.mp he
        obtain ⟨-, b, hb, -⟩ := h.get hi (h.length_eq ▸ hi)
        exact ⟨b, hb⟩
    refine ⟨items, hitems, mapEntriesM_eq_ok.mpr ?_⟩
    have hitems' := mapEntriesM_eq_ok.mp hitems
    generalize d.entries = xs at h hitems'
    generalize items.entries = ys at hitems'
    generalize r.entries = zs at h
    induction h generalizing ys with
    | nil =>
        cases hitems'
        exact .nil
    | cons hxz _ ih =>
        obtain ⟨y, ys, ⟨hkey, hf⟩, hrest, rfl⟩ :=
          List.forall₂_cons_left_iff.mp hitems'
        obtain ⟨hkey', b, hf', hg⟩ := hxz
        cases hf.symm.trans hf'
        exact .cons ⟨hkey.symm.trans hkey', hkey ▸ hg⟩ (ih ys hrest)

/-- `list_of_dict_to_dict_of_list`: the keys of the first dictionary, each
with the values found under it. -/
def listOfDictToDictOfList (listOfDict : List (PyDict α)) :
    Py (PyDict (List α)) :=
  match listOfDict with
  | [] => .ok PyDict.empty
  | first :: _ => do
      forM listOfDict fun data =>
        forM data.keys fun key =>
          pyAssert (first.contains key)
            s!"Key '{key}' is not present in the keys of the first dictionary in the list."
      return PyDict.ofKeys first.keys first.nodup fun key =>
        listOfDict.filterMap fun data => data.get? key

/-- Merging dictionaries takes the keys of the first, which have to be all
there are. -/
theorem listOfDictToDictOfList_cons_eq_ok {first : PyDict α}
    {rest : List (PyDict α)} {r : PyDict (List α)} :
    listOfDictToDictOfList (first :: rest) = .ok r ↔
      (∀ data ∈ first :: rest, ∀ key ∈ data.keys, key ∈ first.keys) ∧
        r = PyDict.ofKeys first.keys first.nodup fun key =>
          (first :: rest).filterMap fun data => data.get? key := by
  simp only [listOfDictToDictOfList, bind_eq_ok, forM_eq_ok_iff,
    pyAssert_eq_ok, PyDict.contains, decide_eq_true_eq]
  constructor
  · rintro ⟨_, hkeys, hr⟩
    exact ⟨hkeys, (Except.ok.inj hr).symm⟩
  · rintro ⟨hkeys, rfl⟩
    exact ⟨(), hkeys, rfl⟩

end SelfDistillation
