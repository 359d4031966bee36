/-
`karmarkar_karp` and `get_seqlen_balanced_partitions`
(verl/utils/seqlen_balancing.py): the balanced partition is total and well
formed, and no two of its parts differ by more than one item.
-/
import SelfDistillation.Library.Chunks
import SelfDistillation.Library.Differencing
import SelfDistillation.Python

namespace SelfDistillation

open Chunks Differencing

/-- `Set`: the `(idx, val)` items of one partition and the running sum of
their values. -/
structure KKSet where
  sum : Int
  items : List (Nat × Int)
  sum_eq : sum = (items.map Prod.snd).sum
deriving DecidableEq

namespace KKSet

/-- `Set.__init__` -/
def init : KKSet := ⟨0, [], rfl⟩

/-- `Set.add` -/
def add (set : KKSet) (idx : Nat) (val : Int) : KKSet where
  sum := set.sum + val
  items := set.items ++ [(idx, val)]
  sum_eq := by simp [set.sum_eq]

/-- `Set.merge` -/
def merge (set other : KKSet) : KKSet :=
  other.items.foldl (fun acc item => acc.add item.1 item.2) set

/-- Python's order on lists of pairs: the first difference decides. -/
def itemsLt : List (Nat × Int) → List (Nat × Int) → Bool
  | [], [] => false
  | [], _ :: _ => true
  | _ :: _, [] => false
  | (i, v) :: xs, (j, w) :: ys =>
      if i = j then
        if v = w then itemsLt xs ys else decide (v < w)
      else decide (i < j)

/-- `Set.__lt__` -/
def lt (set other : KKSet) : Bool :=
  if set.sum ≠ other.sum then decide (set.sum < other.sum)
  else if set.items.length ≠ other.items.length then
    decide (set.items.length < other.items.length)
  else itemsLt set.items other.items

def occupied (set : KKSet) : Bool := !set.items.isEmpty

theorem items_merge (set other : KKSet) :
    (set.merge other).items = set.items ++ other.items := by
  have hfold : ∀ (items : List (Nat × Int)) (acc : KKSet),
      (items.foldl (fun acc item => acc.add item.1 item.2) acc).items =
        acc.items ++ items := by
    intro items
    induction items with
    | nil => simp
    | cons item items ih =>
        intro acc
        rw [List.foldl_cons, ih]
        simp [add]
  exact hfold other.items set

theorem sum_merge (set other : KKSet) :
    (set.merge other).sum = set.sum + other.sum := by
  rw [(set.merge other).sum_eq, items_merge, set.sum_eq, other.sum_eq]
  simp

theorem occupied_merge (set other : KKSet) :
    (set.merge other).occupied = (set.occupied || other.occupied) := by
  simp only [occupied, items_merge]
  cases set.items <;> simp

/-- The order of `__lt__` as a linear order: sum, then number of items, then
the items themselves. -/
def key (set : KKSet) : Int ×ₗ Nat ×ₗ List (Nat ×ₗ Int) :=
  toLex (set.sum, toLex (set.items.length, set.items.map toLex))

theorem itemsLt_iff (xs ys : List (Nat × Int)) :
    itemsLt xs ys = true ↔
      xs.map (toLex : Nat × Int → Nat ×ₗ Int) < ys.map toLex := by
  induction xs generalizing ys with
  | nil =>
      cases ys with
      | nil => simp [itemsLt]
      | cons y ys => simp [itemsLt]
  | cons x xs ih =>
      cases ys with
      | nil => simp [itemsLt]
      | cons y ys =>
          obtain ⟨i, v⟩ := x
          obtain ⟨j, w⟩ := y
          simp only [itemsLt, List.map_cons, List.cons_lt_cons_iff,
            Prod.Lex.toLex_lt_toLex, EmbeddingLike.apply_eq_iff_eq,
            Prod.mk.injEq, ← ih]
          by_cases hij : i = j
          · by_cases hvw : v = w <;> simp [hij, hvw]
          · simp [hij]

theorem lt_iff_key_lt (set other : KKSet) :
    set.lt other = true ↔ set.key < other.key := by
  simp only [lt, key, Prod.Lex.toLex_lt_toLex]
  by_cases hsum : set.sum = other.sum
  · by_cases hlen : set.items.length = other.items.length
    · simp [hsum, hlen, itemsLt_iff]
    · simp [hsum, hlen]
  · simp [hsum]

theorem sum_le_of_not_lt {set other : KKSet} (h : set.lt other = false) :
    other.sum ≤ set.sum := by
  have hkey : other.key ≤ set.key := by
    rw [← not_lt, ← lt_iff_key_lt, h]
    simp
  rcases Prod.Lex.toLex_le_toLex.mp hkey with hlt | ⟨heq, _⟩
  · exact hlt.le
  · exact heq.le

end KKSet

/-- `State`: `k` sets, always in decreasing order. -/
structure KKState (k : Nat) where
  sets : List KKSet
  length_eq : sets.length = k
  sorted : sets.Pairwise (fun a b => a.lt b = false)
deriving DecidableEq

namespace KKState

variable {k : Nat}

/-- `self.sets = sorted(sets, reverse=True)` -/
def ofSets (sets : List KKSet) (hlen : sets.length = k) : KKState k where
  sets := sortedReverse KKSet.lt sets
  length_eq := by rw [(sortedReverse_perm KKSet.lt sets).length_eq, hlen]
  sorted := sortedReverse_pairwise KKSet.lt_iff_key_lt sets

theorem ofSets_perm (sets : List KKSet) (hlen : sets.length = k) :
    (ofSets sets hlen).sets.Perm sets :=
  sortedReverse_perm KKSet.lt sets

/-- `for i, (idx, seqlen) in enumerate(items): self.sets[i].add(idx, seqlen)` -/
def addItems : List KKSet → List (Nat × Int) → Py (List KKSet)
  | sets, [] => .ok sets
  | [], _ :: _ => .error .indexError
  | set :: sets, item :: items => do
      let rest ← addItems sets items
      return set.add item.1 item.2 :: rest

theorem length_addItems {sets sets' : List KKSet} {items : List (Nat × Int)}
    (h : addItems sets items = .ok sets') : sets'.length = sets.length := by
  induction sets generalizing items sets' with
  | nil =>
      cases items with
      | nil => cases h; rfl
      | cons item items => cases h
  | cons set sets ih =>
      cases items with
      | nil => cases h; rfl
      | cons item items =>
          obtain ⟨rest, hrest, hret⟩ := bind_eq_ok.mp h
          cases hret
          simp [ih hrest]

/-- `State.__init__` -/
def init (k : Nat) (items : List (Nat × Int)) : Py (KKState k) := do
  pyAssert (items.length == 1 || items.length == k)
    s!"{items.length} not in [1, {k}]"
  match h : addItems (List.replicate k KKSet.init) items with
  | .error e => .error e
  | .ok sets => .ok (ofSets sets (by simpa using length_addItems h))

/-- `State.merge` -/
def merge (state other : KKState k) : KKState k :=
  ofSets (pairReversed KKSet.merge state.sets other.sets) (by
    rw [length_pairReversed _ (by rw [state.length_eq, other.length_eq]),
      state.length_eq])

/-- `State.spread` -/
def spread (state : KKState k) : Int :=
  (state.sets.headD KKSet.init).sum - (state.sets.getLastD KKSet.init).sum

/-- `State.__lt__`: the largest spread, then the largest first set, is popped
first. -/
def lt (state other : KKState k) : Bool :=
  if state.spread ≠ other.spread then decide (state.spread > other.spread)
  else (other.sets.headD KKSet.init).lt (state.sets.headD KKSet.init)

/-- `State.get_partitions` -/
def getPartitions (state : KKState k) : List (List Nat) :=
  state.sets.map fun set => set.items.map Prod.fst

/-- All items of a state, whatever set they are in. -/
def contents (state : KKState k) : Multiset (Nat × Int) :=
  (state.sets.map fun set => (set.items : Multiset (Nat × Int))).sum

theorem merge_perm (state other : KKState k) :
    (state.merge other).sets.Perm
      (pairReversed KKSet.merge state.sets other.sets) :=
  ofSets_perm _ _

theorem length_eq_length (state other : KKState k) :
    state.sets.length = other.sets.length := by
  rw [state.length_eq, other.length_eq]

theorem contents_eq_coe (state : KKState k) :
    state.contents = (state.sets.flatMap KKSet.items : List (Nat × Int)) := by
  have hsum : ∀ sets : List KKSet,
      (sets.map fun set => (set.items : Multiset (Nat × Int))).sum =
        (sets.flatMap KKSet.items : List (Nat × Int)) := by
    intro sets
    induction sets with
    | nil => rfl
    | cons set sets ih => simp [ih, Multiset.coe_add]
  exact hsum state.sets

theorem mem_contents {state : KKState k} {item : Nat × Int} :
    item ∈ state.contents ↔ ∃ set ∈ state.sets, item ∈ set.items := by
  rw [contents_eq_coe, Multiset.mem_coe, List.mem_flatMap]

theorem contents_merge (state other : KKState k) :
    (state.merge other).contents = state.contents + other.contents := by
  rw [contents, ((state.merge_perm other).map _).sum_eq]
  apply sum_map_pairReversed
  · intro x y
    rw [KKSet.items_merge, Multiset.coe_add]
  · exact state.length_eq_length other

/-- A set that holds one item. -/
def single (item : Nat × Int) : KKSet := KKSet.init.add item.1 item.2

theorem addItems_replicate (n : Nat) (items : List (Nat × Int)) :
    addItems (List.replicate n KKSet.init) items =
      if items.length ≤ n then
        .ok (items.map single ++ List.replicate (n - items.length) KKSet.init)
      else .error .indexError := by
  induction items generalizing n with
  | nil => cases n <;> rfl
  | cons item items ih =>
      cases n with
      | zero => rfl
      | succ n =>
          rw [List.replicate_succ, addItems, ih]
          by_cases hle : items.length ≤ n
          · simp [hle, bind, Except.bind, pure, Except.pure, single]
          · simp [hle, bind, Except.bind]

/-- What `State.__init__` builds: a set for every item, the rest empty. -/
theorem init_eq_ok {items : List (Nat × Int)} {state : KKState k}
    (h : init k items = .ok state) :
    items.length ≤ k ∧ (items.length = 1 ∨ items.length = k) ∧
      state.sets.Perm (items.map single ++
        List.replicate (k - items.length) KKSet.init) := by
  obtain ⟨_, hassert, hmatch⟩ := bind_eq_ok.mp h
  have hlen : items.length = 1 ∨ items.length = k := by
    simpa using pyAssert_eq_ok.mp hassert
  have hadd := addItems_replicate k items
  split at hmatch
  · cases hmatch
  · rename_i sets hsets
    cases hmatch
    rw [hadd] at hsets
    by_cases hle : items.length ≤ k
    · rw [if_pos hle] at hsets
      cases hsets
      exact ⟨hle, hlen, ofSets_perm _ _⟩
    · rw [if_neg hle] at hsets
      cases hsets

theorem exists_init_eq_ok {items : List (Nat × Int)} (hle : items.length ≤ k)
    (hlen : items.length = 1 ∨ items.length = k) :
    ∃ state : KKState k, init k items = .ok state := by
  have hadd := addItems_replicate k items
  rw [if_pos hle] at hadd
  have hassert : (items.length == 1 || items.length == k) = true := by
    simpa using hlen
  unfold init
  rw [hassert, pyAssert_true]
  simp only [bind, Except.bind]
  split
  · rename_i e he
    rw [hadd] at he
    cases he
  · exact ⟨_, rfl⟩

theorem contents_init {items : List (Nat × Int)} {state : KKState k}
    (h : init k items = .ok state) : state.contents = items := by
  obtain ⟨_, _, hperm⟩ := init_eq_ok h
  have hempty : ∀ n, (List.replicate n KKSet.init).flatMap KKSet.items = [] := by
    intro n
    simp [KKSet.init]
  have hsingle : (items.map single).flatMap KKSet.items = items := by
    simp [List.flatMap_map, single, KKSet.add, KKSet.init]
  rw [contents_eq_coe, Multiset.coe_eq_coe.mpr (hperm.flatMap_right _),
    List.flatMap_append, hsingle, hempty, List.append_nil]

section Invariants

/-- No value in the state is negative. -/
def NonNeg (state : KKState k) : Prop :=
  ∀ item ∈ state.contents, 0 ≤ item.2

theorem NonNeg.sum_nonneg {state : KKState k} (h : state.NonNeg) {set : KKSet}
    (hset : set ∈ state.sets) : 0 ≤ set.sum := by
  rw [set.sum_eq]
  apply List.sum_nonneg
  intro v hv
  obtain ⟨item, hitem, rfl⟩ := List.mem_map.mp hv
  exact h item (mem_contents.mpr ⟨set, hset, hitem⟩)

theorem NonNeg.merge {state other : KKState k} (h : state.NonNeg)
    (h' : other.NonNeg) : (state.merge other).NonNeg := by
  intro item hitem
  rw [contents_merge, Multiset.mem_add] at hitem
  rcases hitem with hitem | hitem
  · exact h item hitem
  · exact h' item hitem

/-- The empty sets are at the low end of the order, also among sets of
sum zero: an occupied set has more items than an empty one. -/
theorem NonNeg.occupiedFirst {state : KKState k} (h : state.NonNeg) :
    OccupiedFirst KKSet.occupied state.sets := by
  apply state.sorted.imp_of_mem
  intro a b ha hb hlt hocc
  by_contra hempty
  have hitems : a.items = [] := by simpa [KKSet.occupied] using hempty
  have hsum : a.sum = 0 := by rw [a.sum_eq, hitems]; rfl
  have hlen : 0 < b.items.length := by
    rw [List.length_pos_iff]
    simpa [KKSet.occupied] using hocc
  have hnonneg := h.sum_nonneg hb
  simp only [KKSet.lt, hsum, hitems, List.length_nil] at hlt
  by_cases hzero : b.sum = 0
  · simp [hzero, hlen.ne, hlen] at hlt
  · simp [Ne.symm hzero] at hlt
    omega

/-- A state with `m` items has `min k m` occupied sets. -/
def Filled (state : KKState k) : Prop :=
  state.sets.countP KKSet.occupied = min k state.contents.card

theorem Filled.merge {state other : KKState k} (hnonneg : state.NonNeg)
    (hnonneg' : other.NonNeg) (h : state.Filled) (h' : other.Filled) :
    (state.merge other).Filled := by
  rw [Filled, (state.merge_perm other).countP_eq,
    countP_pairReversed KKSet.occupied_merge (state.length_eq_length other)
      hnonneg.occupiedFirst hnonneg'.occupiedFirst,
    h, h', contents_merge, Multiset.card_add, state.length_eq]
  omega

theorem filled_of_init {items : List (Nat × Int)} {state : KKState k}
    (h : init k items = .ok state) : state.Filled := by
  obtain ⟨hle, _, hperm⟩ := init_eq_ok h
  have hsingle : (items.map single).countP KKSet.occupied = items.length := by
    rw [List.countP_map, List.countP_eq_length]
    intro item _
    rfl
  have hempty : (List.replicate (k - items.length) KKSet.init).countP
      KKSet.occupied = 0 := by
    rw [List.countP_replicate]
    rfl
  rw [Filled, hperm.countP_eq, List.countP_append, hsingle, hempty,
    contents_init h, Multiset.coe_card]
  omega

/-- The sums of any two sets differ by at most `bound`. -/
def Balanced (bound : Int) (state : KKState k) : Prop :=
  SpreadLe KKSet.sum bound state.sets

theorem Balanced.merge {bound : Int} {state other : KKState k}
    (h : state.Balanced bound) (h' : other.Balanced bound) :
    (state.merge other).Balanced bound := by
  have hsorted : ∀ s : KKState k,
      s.sets.Pairwise (fun x y => y.sum ≤ x.sum) :=
    fun s => s.sorted.imp KKSet.sum_le_of_not_lt
  exact (spreadLe_pairReversed KKSet.sum_merge (state.length_eq_length other)
    (hsorted state) (hsorted other) h h').perm (state.merge_perm other).symm

theorem balanced_of_init {bound : Int} {items : List (Nat × Int)}
    {state : KKState k} (h : init k items = .ok state)
    (hitems : ∀ item ∈ items, 0 ≤ item.2 ∧ item.2 ≤ bound)
    (hbound : 0 ≤ bound) : state.Balanced bound := by
  obtain ⟨_, _, hperm⟩ := init_eq_ok h
  have hrange : ∀ set ∈ state.sets, 0 ≤ set.sum ∧ set.sum ≤ bound := by
    intro set hset
    rcases List.mem_append.mp (hperm.mem_iff.mp hset) with hset | hset
    · obtain ⟨item, hitem, rfl⟩ := List.mem_map.mp hset
      simpa [single, KKSet.add, KKSet.init] using hitems item hitem
    · rw [List.eq_of_mem_replicate hset]
      exact ⟨le_rfl, hbound⟩
  intro x hx y hy
  have hxr := hrange x hx
  have hyr := hrange y hy
  omega

/-- Every set holds the same share of the items. -/
def Even (state : KKState k) : Prop :=
  ∀ set ∈ state.sets, set.items.length * k = state.contents.card

theorem Even.merge {state other : KKState k} (h : state.Even)
    (h' : other.Even) : (state.merge other).Even := by
  intro set hset
  have hmem := (state.merge_perm other).mem_iff.mp hset
  obtain ⟨i, hi, hi', rfl⟩ :=
    mem_pairReversed (state.length_eq_length other) hmem
  rw [KKSet.items_merge, List.length_append, Nat.add_mul,
    h _ (List.getElem_mem hi), h' _ (List.getElem_mem hi'), contents_merge,
    Multiset.card_add]

theorem even_of_init {items : List (Nat × Int)} {state : KKState k}
    (h : init k items = .ok state) (hlen : items.length = k) :
    state.Even := by
  obtain ⟨_, _, hperm⟩ := init_eq_ok h
  intro set hset
  have hmem := hperm.mem_iff.mp hset
  rw [hlen, Nat.sub_self, List.replicate_zero, List.append_nil] at hmem
  obtain ⟨item, _, rfl⟩ := List.mem_map.mp hmem
  rw [contents_init h, Multiset.coe_card, hlen]
  simp [single, KKSet.add, KKSet.init]

end Invariants

end KKState

/-- Tuple order of the `(seqlen, i)` pairs. -/
def seqlenLt (left right : Int × Nat) : Bool :=
  if left.1 = right.1 then decide (left.2 < right.2)
  else decide (left.1 < right.1)

/-- The items each initial state is built from: one sorted item, or
`k_partitions` consecutive ones when the sizes must be equal. -/
def initialItems (sortedSeqlenList : List (Int × Nat)) (k : Nat)
    (equalSize : Bool) : List (List (Nat × Int)) :=
  let items := sortedSeqlenList.map fun entry => (entry.2, entry.1)
  if equalSize then chunksOf k items else items.map fun item => [item]

/-- The `while len(states_pq) > 1` loop.  A state popped from the heap is one
no other state is smaller than; two states with items never compare equal, so
the heap has no freedom in what it pops. -/
def mergeStates {k : Nat} (statesPq : List (KKState k)) : List (KKState k) :=
  reducePool KKState.lt KKState.merge statesPq.length statesPq

/-- `assert len(seqlen_list) % k_partitions == 0` when `equal_size`. -/
def checkDivisible (seqlenList : List Int) (kPartitions : Int)
    (equalSize : Bool) : Py Unit :=
  if equalSize then do
    let rest ← floorMod seqlenList.length kPartitions
    pyAssert (rest == 0) s!"{seqlenList.length} % {kPartitions} != 0"
  else .ok ()

/-- The assertions on the sizes of the final partitions. -/
def checkEqualSizes (seqlenList : List Int) (kPartitions : Int)
    (equalSize : Bool) (partitions : List (List Nat)) : Py Unit :=
  if equalSize then
    forM partitions fun partition =>
      pyAssert ((partition.length : Int) * kPartitions == seqlenList.length)
        s!"{partition.length} * {kPartitions} != {seqlenList.length}"
  else .ok ()

/-- `karmarkar_karp` -/
def karmarkarKarp (seqlenList : List Int) (kPartitions : Int)
    (equalSize : Bool) : Py (List (List Nat)) := do
  let sortedSeqlenList := sorted seqlenLt seqlenList.zipIdx
  checkDivisible seqlenList kPartitions equalSize
  let statesPq ← (initialItems sortedSeqlenList kPartitions.toNat
    equalSize).mapM (KKState.init kPartitions.toNat)
  match mergeStates statesPq with
  | [] => .error .indexError
  | finalState :: _ => do
      checkEqualSizes seqlenList kPartitions equalSize finalState.getPartitions
      return finalState.getPartitions

/-- `sorted(partition)` -/
def sortedPartition (partition : List Nat) : List Nat :=
  sorted (fun a b => decide (a < b)) partition

/-- The loop of `_check_and_sort_partitions`: no partition is empty, and each
is sorted. -/
def sortPartitions (partitions : List (List Nat)) (first : Nat) :
    Py (List (List Nat)) :=
  (partitions.zipIdx first).mapM fun entry => do
    pyAssert (0 < entry.1.length) s!"the {entry.2}-th partition is empty"
    return sortedPartition entry.1

/-- `_check_and_sort_partitions` -/
def checkAndSortPartitions (seqlenList : List Int) (kPartitions : Int)
    (partitions : List (List Nat)) : Py (List (List Nat)) := do
  pyAssert ((partitions.length : Int) == kPartitions)
    s!"{partitions.length} != {kPartitions}"
  let sortedPartitions ← sortPartitions partitions 0
  pyAssert (partitions.flatten.toFinset == Finset.range seqlenList.length) ""
  return sortedPartitions

/-- `get_seqlen_balanced_partitions` -/
def getSeqlenBalancedPartitions (seqlenList : List Int) (kPartitions : Int)
    (equalSize : Bool) : Py (List (List Nat)) := do
  pyAssert ((seqlenList.length : Int) ≥ kPartitions)
    s!"number of items:[{seqlenList.length}] < k_partitions:[{kPartitions}]"
  let partitions ← karmarkarKarp seqlenList kPartitions equalSize
  checkAndSortPartitions seqlenList kPartitions partitions

section FinalState

variable {k : Nat}

/-- The loop ends with one state that holds everything. -/
theorem exists_mergeStates_eq {statesPq : List (KKState k)}
    (hpq : statesPq ≠ []) :
    ∃ finalState, mergeStates statesPq = [finalState] ∧
      finalState.contents = (statesPq.map KKState.contents).sum := by
  have hlen : (mergeStates statesPq).length = 1 :=
    reducePool_length le_rfl hpq
  obtain ⟨finalState, hfinal⟩ := List.length_eq_one_iff.mp hlen
  refine ⟨finalState, hfinal, ?_⟩
  have hsum : ((mergeStates statesPq).map KKState.contents).sum =
      (statesPq.map KKState.contents).sum :=
    reducePool_sum KKState.contents_merge statesPq.length statesPq
  rw [← hsum, hfinal]
  simp

/-- What every initial state has and `merge` keeps, the final state has. -/
theorem mergeStates_forall {statesPq : List (KKState k)}
    {P : KKState k → Prop} (hmerge : ∀ a b, P a → P b → P (a.merge b))
    (hpq : ∀ s ∈ statesPq, P s) {finalState : KKState k}
    (hfinal : mergeStates statesPq = [finalState]) : P finalState :=
  reducePool_forall hmerge hpq finalState (by
    change finalState ∈ mergeStates statesPq
    rw [hfinal]
    exact List.mem_singleton_self finalState)

/-- The `(idx, val)` items of a list of lengths. -/
def indexedItems (seqlenList : List Int) : List (Nat × Int) :=
  seqlenList.zipIdx.map fun entry => (entry.2, entry.1)

theorem mem_indexedItems {seqlenList : List Int} {item : Nat × Int} :
    item ∈ indexedItems seqlenList ↔ seqlenList[item.1]? = some item.2 := by
  obtain ⟨i, v⟩ := item
  simp only [indexedItems, List.mem_map, Prod.exists, Prod.mk.injEq]
  constructor
  · rintro ⟨v', i', hmem, rfl, rfl⟩
    exact List.mem_zipIdx_iff_getElem?.mp hmem
  · intro h
    exact ⟨v, i, List.mem_zipIdx_iff_getElem?.mpr h, rfl, rfl⟩

theorem map_fst_indexedItems (seqlenList : List Int) :
    (indexedItems seqlenList).map Prod.fst = List.range seqlenList.length := by
  simp [indexedItems, Function.comp_def, List.zipIdx_map_snd,
    List.range_eq_range']

theorem flatten_initialItems {sortedSeqlenList : List (Int × Nat)}
    {equalSize : Bool} (hk : 0 < k) :
    (initialItems sortedSeqlenList k equalSize).flatten =
      sortedSeqlenList.map fun entry => (entry.2, entry.1) := by
  cases equalSize with
  | true => exact flatten_chunksOf hk _
  | false =>
      rw [List.map_eq_flatMap]
      simp [initialItems, List.flatMap_def, Function.comp_def]

theorem initialItems_perm (seqlenList : List Int) {equalSize : Bool}
    (hk : 0 < k) :
    (initialItems (sorted seqlenLt seqlenList.zipIdx) k equalSize).flatten.Perm
      (indexedItems seqlenList) := by
  rw [flatten_initialItems hk]
  exact (sorted_perm seqlenLt seqlenList.zipIdx).map _

theorem contents_of_initialItems {groups : List (List (Nat × Int))}
    {statesPq : List (KKState k)}
    (h : groups.mapM (KKState.init k) = .ok statesPq) :
    (statesPq.map KKState.contents).sum =
      (groups.flatten : List (Nat × Int)) := by
  have hall := mapM_eq_ok_iff.mp h
  clear h
  induction hall with
  | nil => rfl
  | cons hinit _ ih =>
      rw [List.map_cons, List.sum_cons, ih, KKState.contents_init hinit,
        List.flatten_cons, Multiset.coe_add]

/-- The states of the queue, the final state and the checks of a call of
`karmarkar_karp` that returns. -/
structure KKRun (seqlenList : List Int) (k : Nat) (equalSize : Bool) where
  statesPq : List (KKState k)
  finalState : KKState k
  init_eq : (initialItems (sorted seqlenLt seqlenList.zipIdx) k
    equalSize).mapM (KKState.init k) = .ok statesPq
  final_eq : mergeStates statesPq = [finalState]

namespace KKRun

variable {seqlenList : List Int} {equalSize : Bool}

theorem statesPq_ne_nil (run : KKRun seqlenList k equalSize) :
    run.statesPq ≠ [] := by
  intro hnil
  have hfinal := run.final_eq
  rw [hnil] at hfinal
  cases hfinal

/-- A state in the queue was initialised from some of the items. -/
theorem exists_init (run : KKRun seqlenList k equalSize) {state : KKState k}
    (hstate : state ∈ run.statesPq) :
    ∃ items ∈ initialItems (sorted seqlenLt seqlenList.zipIdx) k equalSize,
      KKState.init k items = .ok state := by
  have hall := mapM_eq_ok_iff.mp run.init_eq
  obtain ⟨i, hi, rfl⟩ := List.mem_iff_getElem.mp hstate
  have hlen := hall.length_eq
  exact ⟨_, List.getElem_mem (hlen ▸ hi), hall.get (hlen ▸ hi) hi⟩

theorem k_pos (run : KKRun seqlenList k equalSize) : 0 < k := by
  obtain ⟨state, hstate⟩ := List.exists_mem_of_ne_nil _ run.statesPq_ne_nil
  obtain ⟨items, hitems, hinit⟩ := run.exists_init hstate
  obtain ⟨hle, hlen, _⟩ := KKState.init_eq_ok hinit
  rcases hlen with hone | hk
  · omega
  · rcases Nat.eq_zero_or_pos k with hzero | hpos
    · subst hzero
      cases equalSize with
      | true => simp [initialItems, chunksOf] at hitems
      | false =>
          simp only [initialItems, Bool.false_eq_true, if_false,
            List.mem_map] at hitems
          obtain ⟨item, _, rfl⟩ := hitems
          simp at hk
    · exact hpos

/-- Nothing is lost or duplicated on the way to the final state. -/
theorem contents_final (run : KKRun seqlenList k equalSize) :
    run.finalState.contents = (indexedItems seqlenList : List (Nat × Int)) := by
  obtain ⟨finalState, hfinal, hcontents⟩ :=
    exists_mergeStates_eq run.statesPq_ne_nil
  have heq : finalState = run.finalState := by
    have := hfinal.symm.trans run.final_eq
    simpa using this
  rw [← heq, hcontents, contents_of_initialItems run.init_eq]
  exact Multiset.coe_eq_coe.mpr (initialItems_perm seqlenList run.k_pos)

theorem flatten_getPartitions (run : KKRun seqlenList k equalSize) :
    run.finalState.getPartitions.flatten.Perm
      (List.range seqlenList.length) := by
  have hmap : run.finalState.getPartitions.flatten =
      (run.finalState.sets.flatMap KKSet.items).map Prod.fst := by
    rw [KKState.getPartitions, List.flatMap_def, List.map_flatten,
      List.map_map]
    rfl
  have hperm : (run.finalState.sets.flatMap KKSet.items).Perm
      (indexedItems seqlenList) := by
    rw [← Multiset.coe_eq_coe, ← KKState.contents_eq_coe]
    exact run.contents_final
  rw [hmap, ← map_fst_indexedItems]
  exact hperm.map Prod.fst

theorem length_getPartitions (run : KKRun seqlenList k equalSize) :
    run.finalState.getPartitions.length = k := by
  rw [KKState.getPartitions, List.length_map, run.finalState.length_eq]

/-- The induction rule over a run, with the items each state started from. -/
theorem final_of_init (run : KKRun seqlenList k equalSize)
    {P : KKState k → Prop} (hmerge : ∀ a b, P a → P b → P (a.merge b))
    (hinit : ∀ items ∈ initialItems (sorted seqlenLt seqlenList.zipIdx) k
      equalSize, ∀ state, KKState.init k items = .ok state → P state) :
    P run.finalState := by
  apply mergeStates_forall hmerge _ run.final_eq
  intro state hstate
  obtain ⟨items, hitems, heq⟩ := run.exists_init hstate
  exact hinit items hitems state heq

theorem mem_of_mem_initialItems (run : KKRun seqlenList k equalSize)
    {items : List (Nat × Int)}
    (hitems : items ∈ initialItems (sorted seqlenLt seqlenList.zipIdx) k
      equalSize) {item : Nat × Int} (hitem : item ∈ items) :
    item.2 ∈ seqlenList := by
  have hmem : item ∈ indexedItems seqlenList :=
    (initialItems_perm seqlenList run.k_pos).mem_iff.mp
      (List.mem_flatten.mpr ⟨items, hitems, hitem⟩)
  exact List.mem_of_getElem? (mem_indexedItems.mp hmem)

theorem filled_final (run : KKRun seqlenList k equalSize)
    (hnonneg : ∀ l ∈ seqlenList, 0 ≤ l) : run.finalState.Filled := by
  have hboth : run.finalState.NonNeg ∧ run.finalState.Filled := by
    apply run.final_of_init (P := fun s => s.NonNeg ∧ s.Filled)
    · rintro a b ⟨ha, ha'⟩ ⟨hb, hb'⟩
      exact ⟨ha.merge hb, ha'.merge ha hb hb'⟩
    · intro items hitems state hinit
      refine ⟨?_, KKState.filled_of_init hinit⟩
      intro item hitem
      rw [KKState.contents_init hinit, Multiset.mem_coe] at hitem
      exact hnonneg _ (run.mem_of_mem_initialItems hitems hitem)
  exact hboth.2

/-- The differencing guarantee: no two parts differ by more than the largest
single value. -/
theorem balanced_final (run : KKRun seqlenList k equalSize) {bound : Int}
    (hrange : ∀ l ∈ seqlenList, 0 ≤ l ∧ l ≤ bound) (hbound : 0 ≤ bound) :
    run.finalState.Balanced bound := by
  apply run.final_of_init
  · exact fun a b => KKState.Balanced.merge
  · intro items hitems state hinit
    apply KKState.balanced_of_init hinit _ hbound
    intro item hitem
    exact hrange _ (run.mem_of_mem_initialItems hitems hitem)

end KKRun

/-- A call that returns has made a run and returns its final partitions. -/
theorem karmarkarKarp_eq_ok {seqlenList : List Int} {kPartitions : Int}
    {equalSize : Bool} {partitions : List (List Nat)}
    (h : karmarkarKarp seqlenList kPartitions equalSize = .ok partitions) :
    ∃ run : KKRun seqlenList kPartitions.toNat equalSize,
      partitions = run.finalState.getPartitions := by
  obtain ⟨_, _, h⟩ := bind_eq_ok.mp h
  obtain ⟨statesPq, hstates, hreturn⟩ := bind_eq_ok.mp h
  have hne : statesPq ≠ [] := by
    rintro rfl
    cases hreturn
  obtain ⟨finalState, hfinal, _⟩ := exists_mergeStates_eq hne
  refine ⟨⟨statesPq, finalState, hstates, hfinal⟩, ?_⟩
  rw [hfinal] at hreturn
  obtain ⟨_, _, hret⟩ := bind_eq_ok.mp hreturn
  exact (Except.ok.inj hret).symm

section Totality

variable {seqlenList : List Int} {equalSize : Bool}

/-- Every initial state can be built. -/
theorem exists_run (hk : 0 < k) (hkn : k ≤ seqlenList.length)
    (hdvd : equalSize = true → k ∣ seqlenList.length) :
    Nonempty (KKRun seqlenList k equalSize) := by
  let groups := initialItems (sorted seqlenLt seqlenList.zipIdx) k equalSize
  have hitems : ((sorted seqlenLt seqlenList.zipIdx).map
      fun entry => (entry.2, entry.1)).length = seqlenList.length := by
    rw [List.length_map, (sorted_perm seqlenLt _).length_eq,
      List.length_zipIdx]
  have hgroup : ∀ items ∈ groups,
      items.length ≤ k ∧ (items.length = 1 ∨ items.length = k) := by
    intro items hmem
    cases equalSize with
    | true =>
        have hlen : items.length = k :=
          length_of_mem_chunksOf hk (by rw [hitems]; exact hdvd rfl) hmem
        omega
    | false =>
        obtain ⟨item, _, rfl⟩ := List.mem_map.mp hmem
        exact ⟨hk, Or.inl rfl⟩
  have hne : groups.flatten ≠ [] := by
    rw [flatten_initialItems hk, ← List.length_pos_iff, hitems]
    omega
  obtain ⟨statesPq, hstates⟩ :
      ∃ statesPq, groups.mapM (KKState.init k) = .ok statesPq := by
    have hall : ∀ gs : List (List (Nat × Int)),
        (∀ items ∈ gs, ∃ s, KKState.init k items = .ok s) →
        ∃ states, gs.mapM (KKState.init k) = .ok states := by
      intro gs
      induction gs with
      | nil => exact fun _ => ⟨[], rfl⟩
      | cons items gs ih =>
          intro h
          obtain ⟨s, hs⟩ := h items List.mem_cons_self
          obtain ⟨states, hstates⟩ :=
            ih fun i hi => h i (List.mem_cons_of_mem items hi)
          refine ⟨s :: states, mapM_eq_ok_iff.mpr (.cons hs ?_)⟩
          exact mapM_eq_ok_iff.mp hstates
    exact hall groups fun items hmem =>
      KKState.exists_init_eq_ok (hgroup items hmem).1 (hgroup items hmem).2
  have hpq : statesPq ≠ [] := by
    rintro rfl
    have hnil := List.forall₂_nil_right_iff.mp (mapM_eq_ok_iff.mp hstates)
    rw [hnil] at hne
    exact hne rfl
  obtain ⟨finalState, hfinal, _⟩ := exists_mergeStates_eq hpq
  exact ⟨⟨statesPq, finalState, hstates, hfinal⟩⟩

theorem KKRun.even_final (run : KKRun seqlenList k true)
    (hdvd : k ∣ seqlenList.length) : run.finalState.Even := by
  apply run.final_of_init
  · exact fun a b => KKState.Even.merge
  · intro items hitems state hinit
    apply KKState.even_of_init hinit
    apply length_of_mem_chunksOf run.k_pos _ hitems
    rw [List.length_map, (sorted_perm seqlenLt _).length_eq,
      List.length_zipIdx]
    exact hdvd

theorem KKRun.length_of_mem_getPartitions (run : KKRun seqlenList k true)
    (hdvd : k ∣ seqlenList.length) {partition : List Nat}
    (hpart : partition ∈ run.finalState.getPartitions) :
    partition.length * k = seqlenList.length := by
  obtain ⟨set, hset, rfl⟩ := List.mem_map.mp hpart
  rw [List.length_map, run.even_final hdvd set hset, run.contents_final,
    Multiset.coe_card, indexedItems, List.length_map, List.length_zipIdx]

/-- With as many items as sets none of the final sets is empty. -/
theorem KKRun.ne_nil_of_mem_getPartitions
    (run : KKRun seqlenList k equalSize) (hkn : k ≤ seqlenList.length)
    (hnonneg : ∀ l ∈ seqlenList, 0 ≤ l) {partition : List Nat}
    (hpart : partition ∈ run.finalState.getPartitions) : partition ≠ [] := by
  obtain ⟨set, hset, rfl⟩ := List.mem_map.mp hpart
  have hcount : run.finalState.sets.countP KKSet.occupied =
      run.finalState.sets.length := by
    rw [run.filled_final hnonneg, run.contents_final, Multiset.coe_card,
      indexedItems, List.length_map, List.length_zipIdx,
      run.finalState.length_eq, Nat.min_eq_left hkn]
  have hocc := List.countP_eq_length.mp hcount set hset
  simpa [KKSet.occupied] using hocc

/-- `karmarkar_karp` raises none of its assertions. -/
theorem exists_karmarkarKarp_eq_ok (hk : 0 < k) (hkn : k ≤ seqlenList.length)
    (hdvd : equalSize = true → k ∣ seqlenList.length) :
    ∃ run : KKRun seqlenList k equalSize,
      karmarkarKarp seqlenList k equalSize =
        .ok run.finalState.getPartitions := by
  obtain ⟨run⟩ := exists_run hk hkn hdvd
  refine ⟨run, ?_⟩
  have hdivisible : checkDivisible seqlenList k equalSize = .ok () := by
    cases equalSize with
    | false => rfl
    | true =>
        obtain ⟨q, hq⟩ := hdvd rfl
        refine bind_eq_ok.mpr ⟨0, floorMod_eq_ok.mpr ⟨by omega, ?_⟩, rfl⟩
        simp [hq]
  have hsizes : checkEqualSizes seqlenList k equalSize
      run.finalState.getPartitions = .ok () := by
    cases equalSize with
    | false => rfl
    | true =>
        refine forM_pyAssert_eq_ok.mpr fun partition hpart => ?_
        rw [beq_iff_eq]
        exact_mod_cast run.length_of_mem_getPartitions (hdvd rfl) hpart
  refine bind_eq_ok.mpr ⟨(), hdivisible, bind_eq_ok.mpr
    ⟨run.statesPq, run.init_eq, ?_⟩⟩
  rw [run.final_eq]
  exact bind_eq_ok.mpr ⟨(), hsizes, rfl⟩

end Totality

end FinalState

section Checked

theorem sortPartitions_eq_ok {partitions sortedPartitions : List (List Nat)}
    {first : Nat} :
    sortPartitions partitions first = .ok sortedPartitions ↔
      (∀ p ∈ partitions, p ≠ []) ∧
        sortedPartitions = partitions.map sortedPartition := by
  induction partitions generalizing first sortedPartitions with
  | nil => simp [sortPartitions, pure, Except.pure, eq_comm]
  | cons p partitions ih =>
      have hcons : sortPartitions (p :: partitions) first = (do
          pyAssert (0 < p.length) s!"the {first}-th partition is empty"
          let rest ← sortPartitions partitions (first + 1)
          return sortedPartition p :: rest) := by
        simp [sortPartitions, List.mapM_cons]
      rw [hcons]
      simp only [bind_eq_ok, pyAssert_eq_ok, ih, decide_eq_true_iff,
        List.length_pos_iff, List.forall_mem_cons, List.map_cons]
      constructor
      · rintro ⟨_, hp, rest, ⟨hrest, rfl⟩, h⟩
        exact ⟨⟨hp, hrest⟩, (Except.ok.inj h).symm⟩
      · rintro ⟨⟨hp, hrest⟩, rfl⟩
        exact ⟨(), hp, _, ⟨hrest, rfl⟩, rfl⟩

theorem checkAndSortPartitions_eq_ok {seqlenList : List Int}
    {kPartitions : Int} {partitions sortedPartitions : List (List Nat)} :
    checkAndSortPartitions seqlenList kPartitions partitions =
        .ok sortedPartitions ↔
      (partitions.length : Int) = kPartitions ∧ (∀ p ∈ partitions, p ≠ []) ∧
        partitions.flatten.toFinset = Finset.range seqlenList.length ∧
        sortedPartitions = partitions.map sortedPartition := by
  simp only [checkAndSortPartitions, bind_eq_ok, pyAssert_eq_ok,
    sortPartitions_eq_ok, beq_iff_eq]
  constructor
  · rintro ⟨_, hlen, sp, ⟨hne, rfl⟩, _, hset, h⟩
    exact ⟨hlen, hne, hset, (Except.ok.inj h).symm⟩
  · rintro ⟨hlen, hne, hset, rfl⟩
    exact ⟨(), hlen, _, ⟨hne, rfl⟩, (), hset, rfl⟩

theorem sortedPartition_perm (partition : List Nat) :
    (sortedPartition partition).Perm partition :=
  sorted_perm _ partition

theorem sortedPartition_pairwise {partition : List Nat}
    (hnodup : partition.Nodup) :
    (sortedPartition partition).Pairwise (· < ·) := by
  have hlt : ∀ a b : Nat, decide (a < b) = true ↔ id a < id b := by simp
  have hle := sorted_pairwise hlt partition
  have hne : (sortedPartition partition).Nodup :=
    (sortedPartition_perm partition).nodup_iff.mpr hnodup
  exact (hle.and hne).imp fun {a b} h => by
    have hnot : ¬ b < a := by simpa using h.1
    omega

theorem flatten_map_perm {partitions : List (List Nat)} :
    (partitions.map sortedPartition).flatten.Perm partitions.flatten := by
  induction partitions with
  | nil => exact .refl _
  | cons p partitions ih => exact (sortedPartition_perm p).append ih

/-- What `get_seqlen_balanced_partitions` returns when it does: the sorted
partitions of a run, none of them empty. -/
theorem getSeqlenBalancedPartitions_eq_ok {seqlenList : List Int}
    {kPartitions : Int} {equalSize : Bool} {partitions : List (List Nat)}
    (h : getSeqlenBalancedPartitions seqlenList kPartitions equalSize =
      .ok partitions) :
    ∃ run : KKRun seqlenList kPartitions.toNat equalSize,
      partitions = run.finalState.getPartitions.map sortedPartition ∧
        (∀ p ∈ partitions, p ≠ []) ∧
        (partitions.length : Int) = kPartitions ∧
        partitions.flatten.Perm (List.range seqlenList.length) := by
  obtain ⟨_, _, h⟩ := bind_eq_ok.mp h
  obtain ⟨parts, hparts, h⟩ := bind_eq_ok.mp h
  obtain ⟨run, rfl⟩ := karmarkarKarp_eq_ok hparts
  obtain ⟨hlen, hne, _, rfl⟩ := checkAndSortPartitions_eq_ok.mp h
  refine ⟨run, rfl, ?_, by simpa using hlen,
    flatten_map_perm.trans run.flatten_getPartitions⟩
  intro p hp
  obtain ⟨p', hp', rfl⟩ := List.mem_map.mp hp
  intro hnil
  apply hne p' hp'
  have hperm := sortedPartition_perm p'
  rw [hnil] at hperm
  exact hperm.symm.eq_nil

/-- Partitions of equal size exist for any values: none can be empty. -/
theorem exists_equalPartitions {seqlenList : List Int} {k : Nat} (hk : 0 < k)
    (hkn : k ≤ seqlenList.length) (hdvd : k ∣ seqlenList.length) :
    ∃ partitions,
      getSeqlenBalancedPartitions seqlenList k true = .ok partitions ∧
      partitions.length = k ∧
      (∀ p ∈ partitions, p.length * k = seqlenList.length) ∧
      partitions.flatten.Perm (List.range seqlenList.length) := by
  obtain ⟨run, hrun⟩ : ∃ run : KKRun seqlenList k true,
      karmarkarKarp seqlenList k true = .ok run.finalState.getPartitions :=
    exists_karmarkarKarp_eq_ok hk hkn fun _ => hdvd
  have hflat := run.flatten_getPartitions
  have hset : run.finalState.getPartitions.flatten.toFinset =
      Finset.range seqlenList.length := by
    rw [List.toFinset_eq_of_perm _ _ hflat, List.toFinset_range]
  have hlen : ∀ p ∈ run.finalState.getPartitions,
      p.length * k = seqlenList.length :=
    fun p hp => run.length_of_mem_getPartitions hdvd hp
  have hne : ∀ p ∈ run.finalState.getPartitions, p ≠ [] := by
    rintro p hp rfl
    have hzero := hlen [] hp
    simp only [List.length_nil, Nat.zero_mul] at hzero
    omega
  refine ⟨run.finalState.getPartitions.map sortedPartition, ?_, ?_, ?_, ?_⟩
  · refine bind_eq_ok.mpr ⟨(), by simpa using hkn, bind_eq_ok.mpr
      ⟨_, hrun, checkAndSortPartitions_eq_ok.mpr ⟨?_, hne, hset, rfl⟩⟩⟩
    rw [run.length_getPartitions]
  · rw [List.length_map, run.length_getPartitions]
  · intro p hp
    obtain ⟨p', hp', rfl⟩ := List.mem_map.mp hp
    rw [(sortedPartition_perm p').length_eq, hlen p' hp']
  · exact flatten_map_perm.trans hflat

/-- Equal sizes are asked for with a divisible number of values only. -/
theorem dvd_of_equalPartitions {seqlenList : List Int} {k : Nat}
    {partitions : List (List Nat)}
    (h : getSeqlenBalancedPartitions seqlenList k true = .ok partitions) :
    k ∣ seqlenList.length := by
  obtain ⟨_, -, h⟩ := bind_eq_ok.mp h
  obtain ⟨_, h, -⟩ := bind_eq_ok.mp h
  obtain ⟨_, hcheck, -⟩ := bind_eq_ok.mp h
  obtain ⟨rest, hrest, hzero⟩ := bind_eq_ok.mp hcheck
  obtain ⟨-, rfl⟩ := floorMod_eq_ok.mp hrest
  by_cases hmod : Int.fmod seqlenList.length k = 0
  · rw [Int.fmod_eq_emod_of_nonneg _ (by omega)] at hmod
    exact_mod_cast Int.dvd_of_emod_eq_zero hmod
  · simp [hmod, pyAssert] at hzero

/-- Of values that are not negative, no assertion fails. -/
theorem exists_balancedRun {seqlenList : List Int} {k : Nat} {equalSize : Bool}
    (hnonneg : ∀ l ∈ seqlenList, 0 ≤ l) (hk : 1 ≤ k)
    (hkn : k ≤ seqlenList.length)
    (hdvd : equalSize = true → k ∣ seqlenList.length) :
    ∃ run : KKRun seqlenList k equalSize,
      getSeqlenBalancedPartitions seqlenList k equalSize =
        .ok (run.finalState.getPartitions.map sortedPartition) := by
  obtain ⟨run, hrun⟩ := exists_karmarkarKarp_eq_ok hk hkn hdvd
  have hset : run.finalState.getPartitions.flatten.toFinset =
      Finset.range seqlenList.length := by
    rw [List.toFinset_eq_of_perm _ _ run.flatten_getPartitions,
      List.toFinset_range]
  refine ⟨run, bind_eq_ok.mpr ⟨(), by simpa using hkn, bind_eq_ok.mpr
    ⟨_, hrun, checkAndSortPartitions_eq_ok.mpr ⟨?_, ?_, hset, rfl⟩⟩⟩⟩
  · rw [run.length_getPartitions]
  · exact fun p hp => run.ne_nil_of_mem_getPartitions hkn hnonneg hp

/-- The balanced partition is total and well formed. -/
theorem getSeqlenBalancedPartitions_wellFormed (seqlenList : List Int)
    (k : Nat) (equalSize : Bool) (hnonneg : ∀ l ∈ seqlenList, 0 ≤ l)
    (hk : 1 ≤ k) (hkn : k ≤ seqlenList.length)
    (hdvd : equalSize = true → k ∣ seqlenList.length) :
    ∃ partitions,
      getSeqlenBalancedPartitions seqlenList k equalSize = .ok partitions ∧
      partitions.length = k ∧
      (∀ p ∈ partitions, p ≠ [] ∧ p.Pairwise (· < ·)) ∧
      partitions.Pairwise List.Disjoint ∧
      (∀ i, (∃ p ∈ partitions, i ∈ p) ↔ i < seqlenList.length) ∧
      (equalSize = true →
        ∀ p ∈ partitions, p.length = seqlenList.length / k) := by
  obtain ⟨run, hcall⟩ := exists_balancedRun hnonneg hk hkn hdvd
  have hflat := run.flatten_getPartitions
  obtain ⟨_, _, hne, _, hperm⟩ := getSeqlenBalancedPartitions_eq_ok hcall
  have hnodup := List.nodup_flatten.mp (hperm.nodup_iff.mpr List.nodup_range)
  have hnodup' := List.nodup_flatten.mp (hflat.nodup_iff.mpr List.nodup_range)
  refine ⟨_, hcall, ?_, ?_, hnodup.2, ?_, ?_⟩
  · rw [List.length_map, run.length_getPartitions]
  · intro p hp
    refine ⟨hne p hp, ?_⟩
    obtain ⟨p', hp', rfl⟩ := List.mem_map.mp hp
    exact sortedPartition_pairwise (hnodup'.1 p' hp')
  · intro i
    rw [← List.mem_flatten, hperm.mem_iff, List.mem_range]
  · rintro rfl p hp
    obtain ⟨p', hp', rfl⟩ := List.mem_map.mp hp
    have hlen := run.length_of_mem_getPartitions (hdvd rfl) hp'
    rw [(sortedPartition_perm p').length_eq, ← hlen,
      Nat.mul_div_cancel _ hk]

theorem getSeqlenBalancedPartitions_wellFormed_ties :
    ∃ partitions,
      getSeqlenBalancedPartitions [0, 0, 3, 3] 2 true = .ok partitions ∧
      partitions.length = 2 ∧
      (∀ p ∈ partitions, p ≠ [] ∧ p.Pairwise (· < ·)) ∧
      partitions.Pairwise List.Disjoint ∧
      (∀ i, (∃ p ∈ partitions, i ∈ p) ↔ i < [(0 : Int), 0, 3, 3].length) ∧
      (true = true →
        ∀ p ∈ partitions, p.length = [(0 : Int), 0, 3, 3].length / 2) :=
  getSeqlenBalancedPartitions_wellFormed [0, 0, 3, 3] 2 true (by decide)
    (by decide) (by decide) (by decide)

end Checked

end SelfDistillation
