/-
`RayResourcePool`, `SubRayResourcePool` and `split_resource_pool` of
verl/single_controller/ray/base.py, and the slots that the ranks of a worker
group over a pool are put on.
-/
import SelfDistillation.Python
import SelfDistillation.Library.Blocks
import SelfDistillation.Library.Ragged
import SelfDistillation.Library.Transition

namespace SelfDistillation.ResourcePool

/-- A placement group of Ray, told apart by when its pool asked for it. -/
structure PlacementGroup where
  id : Nat
  bundleCount : Nat
deriving DecidableEq, Repr

/-- Where a worker runs. -/
structure Slot where
  pg : PlacementGroup
  bundleIndex : Nat
deriving DecidableEq, Repr

/-- What a `SubRayResourcePool` has beside the fields of its parent. -/
structure SubRange where
  startBundleIndex : Nat
  subgroupWorldSize : Nat
deriving DecidableEq, Repr

/-- A `RayResourcePool`, or a `SubRayResourcePool` where `sub` is there. -/
structure RayResourcePool where
  store : List Nat
  pgs : Option (List PlacementGroup)
  sub : Option SubRange
deriving DecidableEq, Repr

namespace RayResourcePool

/-- `RayResourcePool(process_on_nodes)` -/
def new (processOnNodes : List Nat) : RayResourcePool :=
  ⟨processOnNodes, none, none⟩

def worldSize (pool : RayResourcePool) : Nat :=
  match pool.sub with
  | some range => range.subgroupWorldSize
  | none => pool.store.sum

/-- Where a pool starts among the bundles of its placement groups. -/
def start (pool : RayResourcePool) : Nat :=
  match pool.sub with
  | some range => range.startBundleIndex
  | none => 0

end RayResourcePool

section Code

-- The address of the node Ray puts a group on.
variable (nodeIp : PlacementGroup → String)

/-- `sort_placement_group_by_node_ip` -/
def sortPlacementGroupByNodeIp (pgs : List PlacementGroup) :
    List PlacementGroup :=
  sorted (fun a b => decide (nodeIp a < nodeIp b)) pgs

/-- One group a node, in the order of the nodes. -/
def placementGroups (store : List Nat) : List PlacementGroup :=
  store.zipIdx.map fun (processCount, idx) => ⟨idx, processCount⟩

/-- The calls of `placement_group`: Ray refuses a group without bundles. -/
def createPlacementGroups (store : List Nat) : Py (List PlacementGroup) :=
  if 0 ∈ store then .error (.valueError "Bundles must be a non-empty list")
  else .ok (placementGroups store)

/-- `RayResourcePool.get_placement_groups`, with the pool as it leaves it. The
first call keeps the sorted groups and returns the others. -/
def getPlacementGroups (pool : RayResourcePool) :
    Py (List PlacementGroup × RayResourcePool) :=
  match pool.pgs with
  | some pgs => .ok (pgs, pool)
  | none => do
      let pgs ← createPlacementGroups pool.store
      return (pgs,
        { pool with pgs := some (sortPlacementGroupByNodeIp nodeIp pgs) })

/-- `split_size: int | list[int]` -/
inductive SplitSize
  | int (size : Nat)
  | list (sizes : List Nat)
deriving DecidableEq, Repr

def splitSizeList (worldSize : Nat) : SplitSize → Py (List Nat)
  | .int size => do
      let rest ← floorMod worldSize size
      pyAssert (rest = 0) "split_size must be a divisor of world_size"
      return List.replicate (worldSize / size) size
  | .list sizes => .ok sizes

/-- `np.cumsum([start] + sizes[:-1])` -/
def startBundleIdxList (start : Nat) (sizes : List Nat) : List Nat :=
  sizes.dropLast.scanl (· + ·) start

/-- A `split_resource_pool` call: the pool as it leaves it, the groups it was
handed and the sub-pools it returns. -/
structure Split where
  pool : RayResourcePool
  placementGroups : List PlacementGroup
  subPools : List RayResourcePool
deriving DecidableEq, Repr

/-- `split_resource_pool` -/
def splitResourcePool (pool : RayResourcePool) (splitSize : SplitSize) :
    Py Split := do
  let sizes ← splitSizeList pool.worldSize splitSize
  pyAssert (sizes.sum = pool.worldSize) "split_size must sum up to world_size"
  let starts := startBundleIdxList pool.start sizes
  let (pgs, pool) ← getPlacementGroups nodeIp pool
  return ⟨pool, pgs, List.zipWith
    (fun start size => ⟨pool.store, some pgs, some ⟨start, size⟩⟩)
    starts sizes⟩

/-- What `_create_worker` is called with. -/
structure Worker where
  rank : Nat
  pgIdx : Nat
  slot : Slot
deriving DecidableEq, Repr

/-- `rank += 1` before each worker. -/
def numberWorkers (places : List (Nat × Slot)) : List Worker :=
  places.zipIdx.map fun ((pgIdx, slot), rank) => ⟨rank, pgIdx, slot⟩

/-- `xs[i]` for an index that is not negative. -/
def index {α : Type} (xs : List α) (i : Nat) : Py α :=
  match xs[i]? with
  | some a => .ok a
  | none => .error .indexError

variable (namePrefix : String)

/-- The assertion both ways of placing the workers make. -/
def assertBundles (localWorldSize : Nat) (pg : PlacementGroup) : Py Unit :=
  pyAssert (localWorldSize ≤ pg.bundleCount)
    ("when generating for " ++ namePrefix ++ ", for the ")

/-- The workers of one group in `_init_with_resource_pool`. -/
def placeGroup (localWorldSize : Nat) :
    PlacementGroup × Nat → Py (List (Nat × Slot))
  | (pg, pgIdx) => do
      assertBundles namePrefix localWorldSize pg
      return (List.range localWorldSize).map fun localRank =>
        (pgIdx, ⟨pg, localRank⟩)

/-- `RayWorkerGroup._init_with_resource_pool` -/
def initWithResourcePool (pool : RayResourcePool) : Py (List Worker) := do
  let (pgs, pool) ← getPlacementGroups nodeIp pool
  let localWorldSize ← index pool.store 0
  let places ← (sortPlacementGroupByNodeIp nodeIp pgs).zipIdx.mapM
    (placeGroup namePrefix localWorldSize)
  return numberWorkers places.flatten

/-- The worker of one rank in `_init_with_subresource_pool`. -/
def placeRank (pgs : List PlacementGroup) (localWorldSize currRank : Nat) :
    Py (Nat × Slot) := do
  let pg ← index pgs (currRank / localWorldSize)
  assertBundles namePrefix localWorldSize pg
  return (currRank / localWorldSize, ⟨pg, currRank % localWorldSize⟩)

/-- `RayWorkerGroup._init_with_subresource_pool`: the address of the first
slot is asked for before any worker is made. -/
def initWithSubresourcePool (pool : RayResourcePool) (range : SubRange) :
    Py (List Worker) := do
  let (pgs, pool) ← getPlacementGroups nodeIp pool
  let localWorldSize ← index pool.store 0
  let masterIdx ← floorDiv range.startBundleIndex localWorldSize
  let _ ← index pgs masterIdx.toNat
  let places ← (List.range' range.startBundleIndex
    range.subgroupWorldSize).mapM (placeRank namePrefix pgs localWorldSize)
  return numberWorkers places

/-- The workers of a `RayWorkerGroup` over a pool. -/
def initWorkers (pool : RayResourcePool) : Py (List Worker) :=
  match pool.sub with
  | some range => initWithSubresourcePool nodeIp namePrefix pool range
  | none => initWithResourcePool nodeIp namePrefix pool

end Code

section Calls

/-- The pools there are, the first one made by the user and the others by
splitting, with what the calls so far gave. -/
structure State where
  pools : List RayResourcePool
  returned : List (List PlacementGroup)
  splits : List Split
deriving DecidableEq, Repr

inductive Call
  | getPlacementGroups (pool : Nat)
  | splitResourcePool (pool : Nat) (splitSize : SplitSize)
deriving DecidableEq, Repr

variable (nodeIp : PlacementGroup → String)

/-- A call on a pool that is there; `none` where it raises. -/
def step (s : State) : Call → Option State
  | .getPlacementGroups k => do
      let pool ← s.pools[k]?
      let (pgs, pool) ← (getPlacementGroups nodeIp pool).toOption
      return { s with
        pools := s.pools.set k pool, returned := s.returned ++ [pgs] }
  | .splitResourcePool k splitSize => do
      let pool ← s.pools[k]?
      let split ← (splitResourcePool nodeIp pool splitSize).toOption
      return ⟨s.pools.set k split.pool ++ split.subPools,
        s.returned ++ [split.placementGroups], s.splits ++ [split]⟩

/-- Calls on one pool and on the sub-pools it is split into. -/
def system (processOnNodes : List Nat) : Transition.System State Call :=
  ⟨⟨[.new processOnNodes], [], []⟩, step nodeIp⟩

end Calls

section Layout

variable (nodeIp : PlacementGroup → String) (namePrefix : String)

/-- Every bundle of every group. -/
def allSlots (pgs : List PlacementGroup) : List Slot :=
  pgs.flatMap fun pg => (List.range pg.bundleCount).map (Slot.mk pg)

/-- The slots of a pool in the order of its ranks: its workers are made, one
for each rank. A pool without ranks has none. -/
def Places (pool : RayResourcePool) (slots : List Slot) : Prop :=
  slots.length = pool.worldSize ∧ (pool.worldSize = 0 ∨
    ∃ workers, initWorkers nodeIp namePrefix pool = .ok workers ∧
      workers.map Worker.rank = List.range workers.length ∧
      workers.map Worker.slot = slots)

/-- The sub-pools share the slots of the pool out, rank for rank, and the
slots of a pool that is not itself a sub-pool are all bundles of its groups. -/
def Aligned (split : Split) : Prop :=
  ∃ slots parts, Places nodeIp namePrefix split.pool slots ∧
    (split.pool.sub = none → slots.Perm (allSlots split.placementGroups)) ∧
    List.Forall₂ (Places nodeIp namePrefix) split.subPools parts ∧
    parts.flatten.Perm slots ∧
    ∀ (i : Nat) (subPool : RayResourcePool) (part : List Slot),
      split.subPools[i]? = some subPool → parts[i]? = some part →
        split.pool.start ≤ subPool.start ∧ ∀ r < subPool.worldSize,
          part[r]? = slots[subPool.start - split.pool.start + r]?

/-- One order of the groups for every call, and every split aligned. -/
structure Stable (s : State) : Prop where
  sameOrder : ∀ a ∈ s.returned, ∀ b ∈ s.returned, a = b
  aligned : ∀ split ∈ s.splits, Aligned nodeIp namePrefix split

variable {nodeIp namePrefix}

theorem sortPlacementGroupByNodeIp_eq_self_iff {pgs : List PlacementGroup} :
    sortPlacementGroupByNodeIp nodeIp pgs = pgs ↔
      pgs.Pairwise fun a b => nodeIp a ≤ nodeIp b := by
  have hle : ∀ a b : PlacementGroup,
      decide (nodeIp b < nodeIp a) = false ↔ nodeIp a ≤ nodeIp b := by
    intro a b
    rw [decide_eq_false_iff_not, not_lt]
  constructor
  · intro h
    have hpairwise : (sortPlacementGroupByNodeIp nodeIp pgs).Pairwise
        fun a b => decide (nodeIp b < nodeIp a) = false :=
      sorted_pairwise (fun _ _ => decide_eq_true_iff) pgs
    rw [h] at hpairwise
    exact hpairwise.imp fun {a b} hab => (hle a b).mp hab
  · intro h
    apply List.Pairwise.insertionSort_eq
    exact h.imp fun {a b} hab => (hle a b).mpr hab

theorem createPlacementGroups_eq_ok {store : List Nat}
    {pgs : List PlacementGroup} :
    createPlacementGroups store = .ok pgs ↔
      0 ∉ store ∧ placementGroups store = pgs := by
  unfold createPlacementGroups
  split <;> simp [*]

theorem map_rank_numberWorkers (places : List (Nat × Slot)) :
    (numberWorkers places).map Worker.rank =
      List.range (numberWorkers places).length := by
  simp [numberWorkers, Function.comp_def, List.zipIdx_map_snd,
    List.range_eq_range']

theorem map_slot_numberWorkers (places : List (Nat × Slot)) :
    (numberWorkers places).map Worker.slot = places.map Prod.snd := by
  have hcomp : (Worker.slot ∘ fun x : (Nat × Slot) × Nat =>
      (⟨x.2, x.1.1, x.1.2⟩ : Worker)) = Prod.snd ∘ Prod.fst := rfl
  rw [numberWorkers, List.map_map, hcomp, ← List.map_map, List.zipIdx_map_fst]

theorem places_of_eq_ok {pool : RayResourcePool} {slots : List Slot}
    {places : List (Nat × Slot)} (hlength : slots.length = pool.worldSize)
    (hworkers : initWorkers nodeIp namePrefix pool =
      .ok (numberWorkers places))
    (hslots : places.map Prod.snd = slots) :
    Places nodeIp namePrefix pool slots :=
  ⟨hlength, .inr ⟨_, hworkers, map_rank_numberWorkers places,
    (map_slot_numberWorkers places).trans hslots⟩⟩

theorem placeGroup_eq_ok {localWorldSize : Nat}
    {entry : PlacementGroup × Nat} {places : List (Nat × Slot)} :
    placeGroup namePrefix localWorldSize entry = .ok places ↔
      localWorldSize ≤ entry.1.bundleCount ∧
        ((List.range localWorldSize).map fun localRank =>
          (entry.2, Slot.mk entry.1 localRank)) = places := by
  obtain ⟨pg, pgIdx⟩ := entry
  simp only [placeGroup, assertBundles, bind_eq_ok, pyAssert_eq_ok,
    decide_eq_true_eq, exists_and_left]
  constructor
  · rintro ⟨hle, _, hplaces⟩
    exact ⟨hle, Except.ok.inj hplaces⟩
  · rintro ⟨hle, rfl⟩
    exact ⟨hle, (), rfl⟩

end Layout

-- Groups of one size, in an order the sorting keeps.
section Uniform

/-- The slot of a rank where every group has `size` bundles. -/
def slotAt (size rank : Nat) : Slot := ⟨⟨rank / size, size⟩, rank % size⟩

theorem slotAt_mul_add {size j : Nat} (i : Nat) (hj : j < size) :
    slotAt size (i * size + j) = ⟨⟨i, size⟩, j⟩ := by
  rw [slotAt, Nat.mul_comm, Nat.mul_add_div (by omega), Nat.mul_add_mod,
    Nat.div_eq_of_lt hj, Nat.mod_eq_of_lt hj, Nat.add_zero]

theorem placementGroups_replicate (n size : Nat) :
    placementGroups (List.replicate n size) =
      (List.range n).map fun i => ⟨i, size⟩ := by
  have hstore : List.replicate n size = (List.range n).map fun _ => size := by
    rw [List.map_const', List.length_range]
  rw [placementGroups, hstore, Blocks.zipIdx_map_range, List.map_map]
  rfl

theorem allSlots_replicate (n size : Nat) :
    allSlots (placementGroups (List.replicate n size)) =
      (List.range (n * size)).map (slotAt size) := by
  rw [placementGroups_replicate, allSlots, List.flatMap_map,
    Blocks.map_range_mul]
  apply Blocks.blocks_congr
  intro i _
  apply List.map_congr_left
  intro j hj
  exact (slotAt_mul_add i (List.mem_range.mp hj)).symm

theorem bundleCount_of_mem {n size : Nat} {pg : PlacementGroup}
    (hpg : pg ∈ placementGroups (List.replicate n size)) :
    pg.bundleCount = size := by
  rw [placementGroups_replicate] at hpg
  obtain ⟨i, -, rfl⟩ := List.mem_map.mp hpg
  rfl

theorem index_placementGroups_replicate {n size i : Nat} (hi : i < n) :
    index (placementGroups (List.replicate n size)) i = .ok ⟨i, size⟩ := by
  rw [index, placementGroups_replicate, List.getElem?_map,
    List.getElem?_range hi, Option.map_some]

variable {nodeIp : PlacementGroup → String} {namePrefix : String}
  {n size : Nat}

section Starts

theorem zipWith_startBundleIdxList_cons {α : Type} (f : Nat → Nat → α)
    (start len : Nat) (lens : List Nat) :
    List.zipWith f (startBundleIdxList start (len :: lens)) (len :: lens) =
      f start len ::
        List.zipWith f (startBundleIdxList (start + len) lens) lens := by
  cases lens with
  | nil => simp [startBundleIdxList]
  | cons next lens => simp [startBundleIdxList]

/-- Sub-pools start where those before them end. -/
theorem getElem?_zipWith_startBundleIdxList {α : Type} (f : Nat → Nat → α)
    (start : Nat) (lens : List Nat) (i : Nat) :
    (List.zipWith f (startBundleIdxList start lens) lens)[i]? =
      lens[i]?.map fun len => f (start + (lens.take i).sum) len := by
  induction lens generalizing start i with
  | nil => simp
  | cons len lens ih =>
      rw [zipWith_startBundleIdxList_cons]
      cases i with
      | zero => simp
      | succ i =>
          rw [List.getElem?_cons_succ, ih, List.getElem?_cons_succ,
            List.take_succ_cons, List.sum_cons, Nat.add_assoc]

theorem flatten_zipWith_startBundleIdxList (start : Nat) (lens : List Nat) :
    (List.zipWith (fun start len => List.range' start len)
      (startBundleIdxList start lens) lens).flatten =
        List.range' start lens.sum := by
  induction lens generalizing start with
  | nil => simp
  | cons len lens ih =>
      rw [zipWith_startBundleIdxList_cons, List.flatten_cons, ih,
        List.sum_cons, ← List.range'_append_1]

end Starts

/-- A pool that was made with `n` equal nodes, or split off one. -/
structure Good (n size : Nat) (pool : RayResourcePool) : Prop where
  store : pool.store = List.replicate n size
  pgs : pool.pgs = some (placementGroups pool.store) ∨
    pool.pgs = none ∧ pool.sub = none
  bound : pool.start + pool.worldSize ≤ n * size

theorem good_new (n size : Nat) :
    Good n size (.new (List.replicate n size)) where
  store := rfl
  pgs := .inr ⟨rfl, rfl⟩
  bound := by simp [RayResourcePool.new, RayResourcePool.start,
    RayResourcePool.worldSize]

theorem Good.sub {pool : RayResourcePool} (hpool : Good n size pool)
    {sizes : List Nat} (hsum : sizes.sum = pool.worldSize) {i len : Nat}
    (hlen : sizes[i]? = some len) :
    Good n size ⟨pool.store, some (placementGroups pool.store),
      some ⟨pool.start + (sizes.take i).sum, len⟩⟩ where
  store := hpool.store
  pgs := .inl rfl
  bound := by
    have hle : (sizes.take (i + 1)).sum ≤ sizes.sum :=
      List.Sublist.sum_le_sum (List.take_sublist _ _) fun _ _ => Nat.zero_le _
    have hbound := hpool.bound
    rw [Ragged.sum_take_succ hlen] at hle
    simp only [RayResourcePool.start, RayResourcePool.worldSize]
      at hsum hbound ⊢
    omega

/-- The ranks of a pool, counted from the first bundle of its groups. -/
def ranks (pool : RayResourcePool) : List Nat :=
  List.range' pool.start pool.worldSize

theorem placeRank_eq_ok {rank : Nat} (hrank : rank < n * size) :
    placeRank namePrefix (placementGroups (List.replicate n size)) size rank =
      .ok (rank / size, slotAt size rank) := by
  have hi : rank / size < n := Nat.div_lt_of_lt_mul (Nat.mul_comm n size ▸ hrank)
  rw [placeRank, index_placementGroups_replicate hi]
  simp [assertBundles, pyAssert, slotAt, bind, Except.bind, pure, Except.pure]

theorem Good.getPlacementGroups {pool : RayResourcePool}
    (hpool : Good n size pool) (hsize : 0 < size)
    (hsorted : (placementGroups (List.replicate n size)).Pairwise
      fun a b => nodeIp a ≤ nodeIp b) :
    getPlacementGroups nodeIp pool =
      .ok (placementGroups (List.replicate n size),
        { pool with pgs := some (placementGroups pool.store) }) := by
  obtain ⟨store, pgs, sub⟩ := pool
  obtain ⟨hstore, hpgs, -⟩ := hpool
  simp only at hstore hpgs ⊢
  subst hstore
  rcases hpgs with rfl | ⟨rfl, -⟩
  · rfl
  · have hcreate : createPlacementGroups (List.replicate n size) =
        .ok (placementGroups (List.replicate n size)) := by
      rw [createPlacementGroups_eq_ok]
      refine ⟨fun hmem => ?_, rfl⟩
      have hzero := List.eq_of_mem_replicate hmem
      omega
    simp only [ResourcePool.getPlacementGroups, hcreate, ok_bind,
      sortPlacementGroupByNodeIp_eq_self_iff.mpr hsorted]
    rfl

theorem index_replicate_zero (hn : 0 < n) :
    index (List.replicate n size) 0 = .ok size := by
  rw [index, List.getElem?_replicate_of_lt hn]

theorem Good.places_of_root {pool : RayResourcePool}
    (hpool : Good n size pool) (hsize : 0 < size) (hn : 0 < n)
    (hsorted : (placementGroups (List.replicate n size)).Pairwise
      fun a b => nodeIp a ≤ nodeIp b) (hroot : pool.sub = none) :
    Places nodeIp namePrefix pool
      (allSlots (placementGroups (List.replicate n size))) := by
  have hworldSize : pool.worldSize = n * size := by
    simp [RayResourcePool.worldSize, hroot, hpool.store]
  have hplace : ∀ entry ∈ (placementGroups (List.replicate n size)).zipIdx,
      placeGroup namePrefix size entry =
        .ok ((List.range size).map fun localRank =>
          (entry.2, Slot.mk entry.1 localRank)) := by
    intro entry hentry
    rw [placeGroup_eq_ok]
    exact ⟨(bundleCount_of_mem (List.fst_mem_of_mem_zipIdx hentry)).ge, rfl⟩
  have hworkers : initWorkers nodeIp namePrefix pool =
      .ok (numberWorkers
        ((placementGroups (List.replicate n size)).zipIdx.map fun entry =>
          (List.range size).map fun localRank =>
            (entry.2, Slot.mk entry.1 localRank)).flatten) := by
    simp only [initWorkers, hroot, initWithResourcePool,
      hpool.getPlacementGroups hsize hsorted, ok_bind, hpool.store,
      index_replicate_zero hn,
      sortPlacementGroupByNodeIp_eq_self_iff.mpr hsorted,
      mapM_eq_ok_of_forall hplace]
    rfl
  apply places_of_eq_ok _ hworkers
  · have hsnd : (List.map Prod.snd ∘ fun entry : PlacementGroup × Nat =>
          (List.range size).map fun localRank =>
            (entry.2, Slot.mk entry.1 localRank)) =
        (fun pg => (List.range size).map (Slot.mk pg)) ∘ Prod.fst := by
      funext entry
      exact List.map_map
    rw [List.map_flatten, List.map_map, hsnd, ← List.map_map,
      List.zipIdx_map_fst, allSlots, List.flatMap_def]
    congr 1
    apply List.map_congr_left
    intro pg hpg
    rw [bundleCount_of_mem hpg]
  · rw [hworldSize, allSlots_replicate, List.length_map, List.length_range]

theorem placeRanks_eq_ok {start count : Nat}
    (hbound : start + count ≤ n * size) :
    (List.range' start count).mapM (placeRank namePrefix
        (placementGroups (List.replicate n size)) size) =
      .ok ((List.range' start count).map fun rank =>
        (rank / size, slotAt size rank)) := by
  apply mapM_eq_ok_of_forall
  intro rank hrank
  have hlt := (List.mem_range'_1.mp hrank).2
  exact placeRank_eq_ok (by omega)

theorem Good.places_of_sub {pool : RayResourcePool} {range : SubRange}
    (hpool : Good n size pool) (hsize : 0 < size)
    (hsorted : (placementGroups (List.replicate n size)).Pairwise
      fun a b => nodeIp a ≤ nodeIp b) (hsub : pool.sub = some range)
    (hpos : 0 < pool.worldSize) :
    Places nodeIp namePrefix pool ((ranks pool).map (slotAt size)) := by
  have hstart : pool.start = range.startBundleIndex := by
    rw [RayResourcePool.start, hsub]
  have hworldSize : pool.worldSize = range.subgroupWorldSize := by
    rw [RayResourcePool.worldSize, hsub]
  have hbound := hpool.bound
  rw [hstart, hworldSize] at hbound
  rw [hworldSize] at hpos
  have hlt : range.startBundleIndex < n * size := by omega
  have hn : 0 < n := Nat.pos_of_mul_pos_right (Nat.zero_lt_of_lt hlt)
  have hfirst : range.startBundleIndex / size < n :=
    Nat.div_lt_of_lt_mul (Nat.mul_comm n size ▸ hlt)
  have hmaster : floorDiv range.startBundleIndex size =
      .ok ((range.startBundleIndex / size : Nat) : Int) := by
    rw [floorDiv_eq_ok]
    exact ⟨by omega, (Int.ofNat_fdiv _ _).symm⟩
  have hworkers : initWorkers nodeIp namePrefix pool =
      .ok (numberWorkers ((ranks pool).map fun rank =>
        (rank / size, slotAt size rank))) := by
    simp only [initWorkers, hsub, initWithSubresourcePool,
      hpool.getPlacementGroups hsize hsorted, ok_bind, hpool.store,
      index_replicate_zero hn, hmaster, Int.toNat_natCast,
      index_placementGroups_replicate hfirst, placeRanks_eq_ok hbound,
      ranks, hstart, hworldSize]
    rfl
  apply places_of_eq_ok _ hworkers
  · rw [List.map_map]
    rfl
  · rw [List.length_map, ranks, List.length_range']

theorem ranks_of_root {pool : RayResourcePool} (hpool : Good n size pool)
    (hroot : pool.sub = none) : ranks pool = List.range (n * size) := by
  have hworldSize : pool.worldSize = n * size := by
    simp [RayResourcePool.worldSize, hroot, hpool.store]
  rw [ranks, hworldSize, RayResourcePool.start, hroot, List.range_eq_range']

/-- The layout the pools of one size agree on. -/
theorem Good.places {pool : RayResourcePool} (hpool : Good n size pool)
    (hsize : 0 < size)
    (hsorted : (placementGroups (List.replicate n size)).Pairwise
      fun a b => nodeIp a ≤ nodeIp b) :
    Places nodeIp namePrefix pool ((ranks pool).map (slotAt size)) := by
  rcases Nat.eq_zero_or_pos pool.worldSize with hzero | hpos
  · exact ⟨by rw [List.length_map, ranks, List.length_range'], .inl hzero⟩
  cases hsub : pool.sub with
  | some range => exact hpool.places_of_sub hsize hsorted hsub hpos
  | none =>
      have hbound := hpool.bound
      have hn : 0 < n := Nat.pos_of_mul_pos_right (b := size) (by omega)
      rw [ranks_of_root hpool hsub, ← allSlots_replicate]
      exact hpool.places_of_root hsize hn hsorted hsub

theorem Good.cached {pool : RayResourcePool} (hpool : Good n size pool) :
    Good n size { pool with pgs := some (placementGroups pool.store) } :=
  ⟨hpool.store, .inl rfl, hpool.bound⟩

theorem Good.splitResourcePool {pool : RayResourcePool}
    {splitSize : SplitSize} {split : Split} (hpool : Good n size pool)
    (hsize : 0 < size)
    (hsorted : (placementGroups (List.replicate n size)).Pairwise
      fun a b => nodeIp a ≤ nodeIp b)
    (hsplit : splitResourcePool nodeIp pool splitSize = .ok split) :
    ∃ sizes : List Nat, sizes.sum = pool.worldSize ∧
      split = ⟨{ pool with pgs := some (placementGroups pool.store) },
        placementGroups (List.replicate n size),
        List.zipWith (fun start len =>
          ⟨pool.store, some (placementGroups pool.store), some ⟨start, len⟩⟩)
          (startBundleIdxList pool.start sizes) sizes⟩ := by
  unfold ResourcePool.splitResourcePool at hsplit
  obtain ⟨sizes, -, hsplit⟩ := bind_eq_ok.mp hsplit
  obtain ⟨_, hsum, hsplit⟩ := bind_eq_ok.mp hsplit
  rw [hpool.getPlacementGroups hsize hsorted] at hsplit
  refine ⟨sizes, by simpa using hsum, ?_⟩
  rw [← Except.ok.inj hsplit, ← hpool.store]

section SubPools

variable {pool : RayResourcePool} {sizes : List Nat}

/-- The sub-pools of a pool whose groups are there. -/
def subPools (pool : RayResourcePool) (sizes : List Nat) :
    List RayResourcePool :=
  List.zipWith (fun start len =>
    ⟨pool.store, some (placementGroups pool.store), some ⟨start, len⟩⟩)
    (startBundleIdxList pool.start sizes) sizes

theorem getElem?_subPools {i : Nat} {subPool : RayResourcePool} :
    (subPools pool sizes)[i]? = some subPool ↔
      ∃ len, sizes[i]? = some len ∧
        ⟨pool.store, some (placementGroups pool.store),
          some ⟨pool.start + (sizes.take i).sum, len⟩⟩ = subPool := by
  rw [subPools, getElem?_zipWith_startBundleIdxList, Option.map_eq_some_iff]

theorem Good.of_mem_subPools (hpool : Good n size pool)
    (hsum : sizes.sum = pool.worldSize) {subPool : RayResourcePool}
    (hmem : subPool ∈ subPools pool sizes) : Good n size subPool := by
  obtain ⟨i, hi⟩ := List.mem_iff_getElem?.mp hmem
  obtain ⟨len, hlen, rfl⟩ := getElem?_subPools.mp hi
  exact hpool.sub hsum hlen

/-- The ranks of the sub-pools are those of the pool. -/
theorem flatten_ranks_subPools (hsum : sizes.sum = pool.worldSize) :
    ((subPools pool sizes).map ranks).flatten = ranks pool := by
  rw [subPools, List.map_zipWith, ranks, ← hsum]
  exact flatten_zipWith_startBundleIdxList pool.start sizes

theorem getElem?_map_ranks (f : Nat → Slot) {i : Nat}
    (hi : i < pool.worldSize) :
    ((ranks pool).map f)[i]? = some (f (pool.start + i)) := by
  rw [List.getElem?_map, ranks, List.getElem?_range' hi, Nat.one_mul,
    Option.map_some]

end SubPools

theorem Good.aligned {pool : RayResourcePool} {sizes : List Nat}
    (hpool : Good n size pool) (hsize : 0 < size)
    (hsorted : (placementGroups (List.replicate n size)).Pairwise
      fun a b => nodeIp a ≤ nodeIp b)
    (hsum : sizes.sum = pool.worldSize) :
    Aligned nodeIp namePrefix
      ⟨{ pool with pgs := some (placementGroups pool.store) },
        placementGroups (List.replicate n size), subPools pool sizes⟩ := by
  refine ⟨(ranks pool).map (slotAt size),
    (subPools pool sizes).map fun subPool => (ranks subPool).map (slotAt size),
    hpool.cached.places hsize hsorted, ?_, ?_, ?_, ?_⟩
  · intro hroot
    rw [ranks_of_root hpool hroot, allSlots_replicate]
  · rw [List.forall₂_map_right_iff, List.forall₂_same]
    intro subPool hmem
    exact (hpool.of_mem_subPools hsum hmem).places hsize hsorted
  · have hparts : ((subPools pool sizes).map fun subPool =>
        (ranks subPool).map (slotAt size)) =
        ((subPools pool sizes).map ranks).map (List.map (slotAt size)) := by
      rw [List.map_map]
      rfl
    rw [hparts, ← List.map_flatten, flatten_ranks_subPools hsum]
  · intro i subPool part hsub hpart
    rw [List.getElem?_map, hsub, Option.map_some, Option.some_inj] at hpart
    obtain ⟨len, hlen, rfl⟩ := getElem?_subPools.mp hsub
    have hle : (sizes.take (i + 1)).sum ≤ sizes.sum :=
      List.Sublist.sum_le_sum (List.take_sublist _ _) fun _ _ => Nat.zero_le _
    rw [Ragged.sum_take_succ hlen] at hle
    refine ⟨Nat.le_add_right _ _, fun r hr => ?_⟩
    have hr' : r < len := hr
    have hdiff : pool.start + (sizes.take i).sum - pool.start + r =
        (sizes.take i).sum + r := by omega
    have hslot : ((ranks pool).map (slotAt size))[(sizes.take i).sum + r]? =
        some (slotAt size (pool.start + ((sizes.take i).sum + r))) :=
      getElem?_map_ranks (slotAt size) (by omega)
    rw [← hpart, getElem?_map_ranks (slotAt size) hr]
    change _ = ((ranks pool).map (slotAt size))[
      pool.start + (sizes.take i).sum - pool.start + r]?
    rw [hdiff, hslot, ← Nat.add_assoc]
    rfl

/-- What holds after any calls on a pool of equal nodes. -/
structure Kept (nodeIp : PlacementGroup → String) (namePrefix : String)
    (n size : Nat) (s : State) : Prop where
  good : ∀ pool ∈ s.pools, Good n size pool
  returned : ∀ pgs ∈ s.returned,
    pgs = placementGroups (List.replicate n size)
  aligned : ∀ split ∈ s.splits, Aligned nodeIp namePrefix split

theorem Kept.stable {s : State} (hs : Kept nodeIp namePrefix n size s) :
    Stable nodeIp namePrefix s where
  sameOrder := fun a ha b hb => (hs.returned a ha).trans (hs.returned b hb).symm
  aligned := hs.aligned

theorem Kept.step (hsize : 0 < size)
    (hsorted : (placementGroups (List.replicate n size)).Pairwise
      fun a b => nodeIp a ≤ nodeIp b) {s s' : State} {call : Call}
    (hs : Kept nodeIp namePrefix n size s)
    (hstep : step nodeIp s call = some s') :
    Kept nodeIp namePrefix n size s' := by
  cases call with
  | getPlacementGroups k =>
      obtain ⟨pool, hk, hstep⟩ := Option.bind_eq_some_iff.mp hstep
      have hpool := hs.good pool (List.mem_of_getElem? hk)
      rw [hpool.getPlacementGroups hsize hsorted] at hstep
      cases hstep
      refine ⟨?_, ?_, hs.aligned⟩
      · intro pool' hmem
        rcases List.mem_or_eq_of_mem_set hmem with hmem | rfl
        · exact hs.good pool' hmem
        · exact hpool.cached
      · intro pgs hmem
        rcases List.mem_append.mp hmem with hmem | hmem
        · exact hs.returned pgs hmem
        · exact List.mem_singleton.mp hmem
  | splitResourcePool k splitSize =>
      obtain ⟨pool, hk, hstep⟩ := Option.bind_eq_some_iff.mp hstep
      have hpool := hs.good pool (List.mem_of_getElem? hk)
      cases hsplit : splitResourcePool nodeIp pool splitSize with
      | error e =>
          rw [hsplit] at hstep
          cases hstep
      | ok split =>
          obtain ⟨sizes, hsum, rfl⟩ :=
            hpool.splitResourcePool hsize hsorted hsplit
          rw [hsplit] at hstep
          cases hstep
          refine ⟨?_, ?_, ?_⟩
          · intro pool' hmem
            rcases List.mem_append.mp hmem with hmem | hmem
            · rcases List.mem_or_eq_of_mem_set hmem with hmem | rfl
              · exact hs.good pool' hmem
              · exact hpool.cached
            · exact hpool.of_mem_subPools hsum hmem
          · intro pgs hmem
            rcases List.mem_append.mp hmem with hmem | hmem
            · exact hs.returned pgs hmem
            · exact List.mem_singleton.mp hmem
          · intro split hmem
            rcases List.mem_append.mp hmem with hmem | hmem
            · exact hs.aligned split hmem
            · cases List.mem_singleton.mp hmem
              exact hpool.aligned hsize hsorted hsum

theorem kept_of_exec (hsize : 0 < size)
    (hsorted : (placementGroups (List.replicate n size)).Pairwise
      fun a b => nodeIp a ≤ nodeIp b) {calls : List Call} {s : State}
    (hrun : (system nodeIp (List.replicate n size)).exec
      (system nodeIp (List.replicate n size)).initial calls = some s) :
    Kept nodeIp namePrefix n size s := by
  apply Transition.System.invariant (P := Kept nodeIp namePrefix n size)
    (fun s call s' hs hstep => hs.step hsize hsorted hstep) _ hrun
  refine ⟨?_, fun _ h => (List.not_mem_nil h).elim,
    fun _ h => (List.not_mem_nil h).elim⟩
  intro pool hmem
  cases List.mem_singleton.mp hmem
  exact good_new n size

end Uniform

section Necessary

variable {nodeIp : PlacementGroup → String} {namePrefix : String}
  {store : List Nat}

/-- The pool once its groups are there. -/
def cached (nodeIp : PlacementGroup → String) (store : List Nat) :
    RayResourcePool :=
  ⟨store, some (sortPlacementGroupByNodeIp nodeIp (placementGroups store)),
    none⟩

theorem getPlacementGroups_new (hstore : 0 ∉ store) :
    getPlacementGroups nodeIp (.new store) =
      .ok (placementGroups store, cached nodeIp store) := by
  have hcreate := createPlacementGroups_eq_ok.mpr ⟨hstore, rfl⟩
  simp only [getPlacementGroups, RayResourcePool.new, hcreate, ok_bind]
  rfl

theorem step_getPlacementGroups {s : State} {k : Nat}
    {pool pool' : RayResourcePool} {pgs : List PlacementGroup}
    (hk : s.pools[k]? = some pool)
    (hget : getPlacementGroups nodeIp pool = .ok (pgs, pool')) :
    step nodeIp s (.getPlacementGroups k) = some { s with
      pools := s.pools.set k pool', returned := s.returned ++ [pgs] } := by
  rw [step, hk, Option.bind_eq_bind, Option.bind_some, hget]
  rfl

theorem step_splitResourcePool {s : State} {k : Nat} {pool : RayResourcePool}
    {splitSize : SplitSize} {split : Split} (hk : s.pools[k]? = some pool)
    (hsplit : splitResourcePool nodeIp pool splitSize = .ok split) :
    step nodeIp s (.splitResourcePool k splitSize) =
      some ⟨s.pools.set k split.pool ++ split.subPools,
        s.returned ++ [split.placementGroups], s.splits ++ [split]⟩ := by
  rw [step, hk, Option.bind_eq_bind, Option.bind_some, hsplit]
  rfl

/-- Asking twice returns the groups as they were made, then sorted. -/
theorem exec_get_get (hstore : 0 ∉ store) :
    (system nodeIp store).exec (system nodeIp store).initial
        [.getPlacementGroups 0, .getPlacementGroups 0] =
      some ⟨[cached nodeIp store], [placementGroups store,
        sortPlacementGroupByNodeIp nodeIp (placementGroups store)], []⟩ := by
  apply Transition.System.exec_cons_eq_some.mpr
  refine ⟨⟨[cached nodeIp store], [placementGroups store], []⟩, ?_, rfl⟩
  exact step_getPlacementGroups rfl (getPlacementGroups_new hstore)

/-- A split into one sub-pool that has all ranks. -/
theorem exec_split (hstore : 0 ∉ store) :
    ∃ s split, (system nodeIp store).exec (system nodeIp store).initial
        [.splitResourcePool 0 (.list [store.sum])] = some s ∧
      split ∈ s.splits ∧ split.pool = cached nodeIp store := by
  let split : Split := ⟨cached nodeIp store, placementGroups store,
    [⟨store, some (placementGroups store), some ⟨0, store.sum⟩⟩]⟩
  refine ⟨⟨cached nodeIp store :: split.subPools, [placementGroups store],
    [split]⟩, split, ?_, List.mem_singleton_self _, rfl⟩
  apply Transition.System.exec_cons_eq_some.mpr
  refine ⟨_, ?_, rfl⟩
  have hsum : [store.sum].sum = store.sum := by simp
  have hsplit : splitResourcePool nodeIp (.new store) (.list [store.sum]) =
      .ok split := by
    simp only [splitResourcePool, splitSizeList, ok_bind,
      RayResourcePool.worldSize, RayResourcePool.new, hsum, decide_true,
      pyAssert_true]
    rw [← RayResourcePool.new, getPlacementGroups_new hstore]
    rfl
  exact step_splitResourcePool rfl hsplit

theorem bundleCount_eq_of_places {localWorldSize : Nat}
    {entries : List (PlacementGroup × Nat)} {places : List (List (Nat × Slot))}
    (h : List.Forall₂ (fun entry places =>
      placeGroup namePrefix localWorldSize entry = .ok places)
        entries places) :
    places.flatten.length ≤
        (entries.map fun entry => entry.1.bundleCount).sum ∧
      (places.flatten.length =
          (entries.map fun entry => entry.1.bundleCount).sum →
        ∀ entry ∈ entries, entry.1.bundleCount = localWorldSize) := by
  induction h with
  | nil => exact ⟨le_rfl, fun _ _ hmem => (List.not_mem_nil hmem).elim⟩
  | @cons entry group entries places hgroup _ ih =>
      obtain ⟨hle, hplaces⟩ := placeGroup_eq_ok.mp hgroup
      have hlength : group.length = localWorldSize := by
        rw [← hplaces, List.length_map, List.length_range]
      rw [List.flatten_cons, List.length_append, List.map_cons, List.sum_cons,
        hlength]
      refine ⟨by omega, fun heq entry' hmem => ?_⟩
      rcases List.mem_cons.mp hmem with rfl | hmem
      · omega
      · exact ih.2 (by omega) entry' hmem

theorem map_bundleCount_sort (nodeIp : PlacementGroup → String)
    (pgs : List PlacementGroup) :
    ((sortPlacementGroupByNodeIp nodeIp pgs).map
      PlacementGroup.bundleCount).Perm (pgs.map PlacementGroup.bundleCount) :=
  (sorted_perm (fun a b => decide (nodeIp a < nodeIp b)) pgs).map _

theorem map_bundleCount_placementGroups (store : List Nat) :
    (placementGroups store).map PlacementGroup.bundleCount = store := by
  rw [placementGroups, List.map_map]
  exact List.zipIdx_map_fst 0 store

/-- Each rank of a pool has its slot only where the nodes are equal. -/
theorem equal_of_places {slots : List Slot}
    (hplaces : Places nodeIp namePrefix (cached nodeIp store) slots) :
    ∃ size, ∀ count ∈ store, count = size := by
  obtain ⟨hlength, hzero | ⟨workers, hworkers, -, hslots⟩⟩ := hplaces
  · exact ⟨0, fun count hmem => List.sum_eq_zero_iff.mp hzero count hmem⟩
  · unfold initWorkers initWithResourcePool at hworkers
    obtain ⟨_, hget, hworkers⟩ := bind_eq_ok.mp hworkers
    cases hget
    obtain ⟨size, -, hworkers⟩ := bind_eq_ok.mp hworkers
    obtain ⟨places, hplaces, hworkers⟩ := bind_eq_ok.mp hworkers
    cases hworkers
    have hforall := mapM_eq_ok_iff.mp hplaces
    rw [map_slot_numberWorkers] at hslots
    have hflat : places.flatten.length = store.sum := by
      rw [← List.length_map Prod.snd, hslots, hlength]
      rfl
    have hfst : ((sortPlacementGroupByNodeIp nodeIp
        (sortPlacementGroupByNodeIp nodeIp (placementGroups store))).zipIdx.map
          fun entry => entry.1.bundleCount).Perm store := by
      rw [← Function.comp_def PlacementGroup.bundleCount, ← List.map_map,
        List.zipIdx_map_fst]
      have hperm := (map_bundleCount_sort nodeIp _).trans
        (map_bundleCount_sort nodeIp (placementGroups store))
      rwa [map_bundleCount_placementGroups] at hperm
    have hall := (bundleCount_eq_of_places hforall).2
      (hflat.trans hfst.sum_eq.symm)
    refine ⟨size, fun count hmem => ?_⟩
    obtain ⟨entry, hentry, rfl⟩ := List.mem_map.mp (hfst.mem_iff.mpr hmem)
    exact hall entry hentry

/-- No call returns on a pool with an empty node. -/
theorem step_of_zero_mem (hzero : 0 ∈ store) (call : Call) :
    step nodeIp (system nodeIp store).initial call = none := by
  have hget : getPlacementGroups nodeIp (.new store) =
      .error (.valueError "Bundles must be a non-empty list") := by
    have hcreate : createPlacementGroups store =
        .error (.valueError "Bundles must be a non-empty list") :=
      if_pos hzero
    simp only [getPlacementGroups, RayResourcePool.new, hcreate]
    rfl
  cases call with
  | getPlacementGroups k =>
      cases k with
      | zero =>
          rw [step]
          change (getPlacementGroups nodeIp (.new store)).toOption.bind _ = none
          rw [hget]
          rfl
      | succ k => rfl
  | splitResourcePool k splitSize =>
      cases k with
      | zero =>
          rw [step]
          change (splitResourcePool nodeIp (.new store) splitSize).toOption.bind
            _ = none
          cases hsplit : splitResourcePool nodeIp (.new store) splitSize with
          | error e => rfl
          | ok split =>
              unfold splitResourcePool at hsplit
              obtain ⟨_, -, hsplit⟩ := bind_eq_ok.mp hsplit
              obtain ⟨_, -, hsplit⟩ := bind_eq_ok.mp hsplit
              rw [hget] at hsplit
              cases hsplit
      | succ k => rfl

theorem stable_of_zero_mem (hzero : 0 ∈ store) {calls : List Call}
    {s : State} (hrun : (system nodeIp store).exec
      (system nodeIp store).initial calls = some s) :
    Stable nodeIp namePrefix s := by
  cases calls with
  | nil =>
      cases hrun
      exact ⟨fun _ h => (List.not_mem_nil h).elim,
        fun _ h => (List.not_mem_nil h).elim⟩
  | cons call calls =>
      obtain ⟨s', hstep, -⟩ := Transition.System.exec_cons_eq_some.mp hrun
      have hnone : step nodeIp (system nodeIp store).initial call = none :=
        step_of_zero_mem hzero call
      cases hnone.symm.trans hstep

end Necessary

variable {nodeIp : PlacementGroup → String} {namePrefix : String}

/-- The pools stay stable under all calls exactly where the nodes have as many
processes each and Ray puts the groups on them in the order of the addresses;
no call returns where a node has none. -/
theorem stable_iff (processOnNodes : List Nat) :
    (∀ calls s, (system nodeIp processOnNodes).exec
        (system nodeIp processOnNodes).initial calls = some s →
          Stable nodeIp namePrefix s) ↔
      0 ∈ processOnNodes ∨
        (∃ size, ∀ count ∈ processOnNodes, count = size) ∧
          (placementGroups processOnNodes).Pairwise
            fun a b => nodeIp a ≤ nodeIp b := by
  constructor
  · intro hstable
    rw [or_iff_not_imp_left]
    intro hstore
    obtain ⟨s, split, hrun, hmem, hpool⟩ := exec_split hstore
    obtain ⟨slots, _, hplaces, -⟩ := (hstable _ s hrun).aligned split hmem
    have hget := (hstable _ _ (exec_get_get hstore)).sameOrder
      (sortPlacementGroupByNodeIp nodeIp (placementGroups processOnNodes))
      (by simp) _ (List.mem_cons_self ..)
    exact ⟨equal_of_places (hpool ▸ hplaces),
      sortPlacementGroupByNodeIp_eq_self_iff.mp hget⟩
  · intro hcondition calls s hrun
    by_cases hzero : 0 ∈ processOnNodes
    · exact stable_of_zero_mem hzero hrun
    · obtain ⟨⟨size, hequal⟩, hsorted⟩ := hcondition.resolve_left hzero
      have hstore := List.eq_replicate_of_mem hequal
      have hsize : 0 < size ∨ processOnNodes = [] := by
        rcases processOnNodes with _ | ⟨count, counts⟩
        · exact .inr rfl
        · refine .inl (Nat.pos_of_ne_zero fun hsize => hzero ?_)
          rw [← hsize, ← hequal count List.mem_cons_self]
          exact List.mem_cons_self
      rcases hsize with hsize | rfl
      · rw [hstore] at hsorted hrun
        exact (kept_of_exec hsize hsorted hrun).stable
      · exact (kept_of_exec (n := 0) Nat.one_pos hsorted hrun).stable

/-- Two nodes, the second with the lower address: the first split puts its
second sub-pool on group 1, the next split its first one. -/
theorem not_stable_two_nodes :
    ∃ (nodeIp : PlacementGroup → String) (calls : List Call) (s : State),
      (system nodeIp [4, 4]).exec (system nodeIp [4, 4]).initial calls =
          some s ∧
        ¬ Stable nodeIp "" s ∧
        ∀ subPool, subPool ∈ s.splits[0]?.bind (·.subPools[1]?) ∨
            subPool ∈ s.splits[1]?.bind (·.subPools[0]?) →
          Places nodeIp "" subPool ((List.range 4).map (Slot.mk ⟨1, 4⟩)) := by
  let nodeIp : PlacementGroup → String :=
    fun pg => if pg.id = 0 then "10.0.0.2" else "10.0.0.1"
  let calls : List Call :=
    [.splitResourcePool 0 (.int 4), .splitResourcePool 0 (.int 4)]
  let groups : List PlacementGroup := [⟨0, 4⟩, ⟨1, 4⟩]
  let subPool (pgs : List PlacementGroup) (start : Nat) : RayResourcePool :=
    ⟨[4, 4], some pgs, some ⟨start, 4⟩⟩
  let split (pgs : List PlacementGroup) : Split :=
    ⟨⟨[4, 4], some groups.reverse, none⟩, pgs, [subPool pgs 0, subPool pgs 4]⟩
  refine ⟨nodeIp, calls, ⟨[⟨[4, 4], some groups.reverse, none⟩,
      subPool groups 0, subPool groups 4, subPool groups.reverse 0,
      subPool groups.reverse 4], [groups, groups.reverse],
    [split groups, split groups.reverse]⟩, by decide +kernel, ?_, ?_⟩
  · intro hstable
    have hsame := hstable.sameOrder groups (List.mem_cons_self ..)
      groups.reverse (List.mem_cons_of_mem _ (List.mem_singleton_self _))
    revert hsame
    decide
  · rintro pool (hpool | hpool)
    · cases hpool
      have hworkers : initWorkers nodeIp "" (subPool groups 4) =
          .ok (numberWorkers ((List.range 4).map fun i => (1, ⟨⟨1, 4⟩, i⟩))) :=
        by decide +kernel
      exact places_of_eq_ok rfl hworkers rfl
    · cases hpool
      have hworkers : initWorkers nodeIp "" (subPool groups.reverse 0) =
          .ok (numberWorkers ((List.range 4).map fun i => (0, ⟨⟨1, 4⟩, i⟩))) :=
        by decide +kernel
      exact places_of_eq_ok rfl hworkers rfl

end SelfDistillation.ResourcePool
