/-
Merging the shards of an FSDP checkpoint
(verl/model_merger/fsdp_model_merger.py): the state dicts of the ranks hold a
piece of every sharded tensor and a copy of every other one.
-/
import SelfDistillation.TorchOps

namespace SelfDistillation

namespace FsdpModelMerger

open NdArray TorchOps

variable {α β : Type}

inductive Placement
  | replicate
  | partialSum
  | shard (dim : Nat)
deriving DecidableEq, Repr

/-- The shape of `device_mesh.mesh`, and `mesh_dim_names`. -/
structure DeviceMesh where
  meshShape : List Nat
  meshDimNames : List String
deriving DecidableEq, Repr

/-- A value of a rank's state dict. -/
inductive Entry (α : Type)
  | dTensor (localTensor : NdArray α) (deviceMesh : DeviceMesh)
      (placements : List Placement)
  | plain (tensor : NdArray α)

/-- The shape of `np.array(values)`. -/
def npArrayShape (values : List Nat) : List Nat := [values.length]

/-- The mesh of the key that sorts first. -/
def extractDeviceMeshInfo (stateDict : PyDict (Entry α)) (worldSize : Nat) :
    Py DeviceMesh :=
  match (sorted (fun left right => decide (left < right))
    stateDict.keys).head? with
  | none => .error .indexError
  | some pivotKey => do
      match ← stateDict.get pivotKey with
      | .dTensor _ deviceMesh _ => return deviceMesh
      | .plain _ => return ⟨npArrayShape [worldSize], ["fsdp"]⟩

/-- `shape[-1]` and the like. -/
def fromEnd (shape : List Nat) (i : Nat) : Py Nat :=
  match shape.reverse[i - 1]? with
  | some size => .ok size
  | none => .error .indexError

/-- The number of shards and the shape of the mesh. -/
def calculateShardConfiguration (mesh : DeviceMesh) :
    Py (Nat × List Nat) := do
  pyAssert (mesh.meshDimNames == ["fsdp"] ||
    mesh.meshDimNames == ["ddp", "fsdp"]) "Unsupported mesh_dim_names"
  let last ← fromEnd mesh.meshShape 1
  if "tp" ∈ mesh.meshDimNames then do
    let tp ← fromEnd mesh.meshShape 2
    return (last * tp, [tp, last])
  else return (last, [last])

def mergeByPlacement (tensors : List (NdArray α)) :
    Placement → Py (NdArray α)
  | .replicate =>
      match tensors with
      | tensor :: _ => .ok tensor
      | [] => .error .indexError
  | .partialSum =>
      .error (.runtimeError "Partial placement is not supported yet")
  | .shard dim => torchCat dim tensors

/-- The tensors of one key, with the placements of the first of them. -/
structure Collected (β : Type) where
  tensors : List (NdArray β)
  placements : Option (List Placement)

/-- `param_placements[key]` is set, or compared. -/
def Collected.record (collected : Collected β)
    (placements : List Placement) : Py (List Placement) :=
  match collected.placements with
  | none => .ok placements
  | some recorded => do
      pyAssert (recorded == placements) ""
      return recorded

/-- Replicated placement at dp dimension can be discarded. -/
def discardDp (meshDimNames : List String) (placements : List Placement) :
    List Placement :=
  if meshDimNames.head? = some "dp" ∨ meshDimNames.head? = some "ddp"
  then placements.tail else placements

/-- One rank's entry of a key. -/
def Collected.add (bfloat16 : α → β) (meshDimNames : List String)
    (collected : Collected β) : Entry α → Py (Collected β)
  | .dTensor localTensor _ placements => do
      let recorded ← collected.record (discardDp meshDimNames placements)
      return ⟨collected.tensors ++ [localTensor.map bfloat16], some recorded⟩
  | .plain tensor =>
      .ok { collected with
        tensors := collected.tensors ++ [tensor.map bfloat16] }

/-- The shards of one key in order of rank. -/
def collectKey (bfloat16 : α → β) (meshDimNames : List String)
    (shards : List (PyDict (Entry α))) (key : String) : Py (Collected β) :=
  shards.foldlM (fun collected shard => do
    let entry ← shard.get key
    collected.add bfloat16 meshDimNames entry) ⟨[], none⟩

def mergeKey [BEq β] (meshShape : List Nat) (collected : Collected β) :
    Py (NdArray β) :=
  match collected.placements with
  | some placements =>
      if meshShape.length = 1 then
        match placements with
        | [placement] => mergeByPlacement collected.tensors placement
        | _ => .error (.assertionError "")
      else .error (.runtimeError "FSDP + TP is not supported yet")
  | none =>
      match collected.tensors with
      | [] => .error .indexError
      | first :: rest =>
          if rest.all fun t => torchEqual t first then .ok first
          else torchCat 0 (first :: rest)

/-- `_load_and_merge_state_dicts`; `stateDicts` are the files of the ranks. -/
def loadAndMergeStateDicts [BEq β] (bfloat16 : α → β)
    (stateDicts : Nat → PyDict (Entry α)) (totalShards : Nat)
    (meshShape : List Nat) (meshDimNames : List String) :
    Py (PyDict (NdArray β)) :=
  match (List.range totalShards).map stateDicts with
  | [] => .error .indexError
  | first :: rest => do
      let collected ← first.mapEntriesM fun key _ =>
        collectKey bfloat16 meshDimNames (first :: rest) key
      collected.mapEntriesM fun _ => mergeKey meshShape

/-- `merge_and_save` up to the merged state dict. -/
def mergeStateDicts [BEq β] (bfloat16 : α → β)
    (stateDicts : Nat → PyDict (Entry α)) (worldSize : Nat) :
    Py (PyDict (NdArray β)) := do
  let mesh ← extractDeviceMeshInfo (stateDicts 0) worldSize
  let (totalShards, meshShape) ← calculateShardConfiguration mesh
  loadAndMergeStateDicts bfloat16 stateDicts totalShards meshShape
    mesh.meshDimNames

section Saved

/-- What was saved under a key: a tensor cut along an axis into pieces of the
lengths given, one for each fsdp rank, or a tensor every rank has. -/
inductive SavedTensor (α : Type) (fsdpSize : Nat)
  | sharded (dim : Nat) (full : NdArray α) (counts : List Nat)
      (dim_lt : dim < full.shape.length)
      (length_counts : counts.length = fsdpSize)
      (sum_counts : counts.sum = full.size dim)
  | replicated (full : NdArray α)
  | plain (full : NdArray α)

/-- `ddpSize` replicas, when the mesh has such a dimension, of `fsdpSize`
ranks. -/
structure Checkpoint (α : Type) where
  ddpSize : Option Nat
  fsdpSize : Nat
  fsdp_pos : 0 < fsdpSize
  ddp_pos : ∀ size ∈ ddpSize, 0 < size
  saved : PyDict (SavedTensor α fsdpSize)

def SavedTensor.full {fsdpSize : Nat} : SavedTensor α fsdpSize → NdArray α
  | .sharded _ full _ _ _ _ | .replicated full | .plain full => full

namespace Checkpoint

def worldSize (c : Checkpoint α) : Nat := c.ddpSize.getD 1 * c.fsdpSize

def mesh (c : Checkpoint α) : DeviceMesh :=
  match c.ddpSize with
  | none => ⟨[c.fsdpSize], ["fsdp"]⟩
  | some ddpSize => ⟨[ddpSize, c.fsdpSize], ["ddp", "fsdp"]⟩

/-- Every tensor is replicated on the ddp dimension. -/
def placements (c : Checkpoint α) (placement : Placement) : List Placement :=
  match c.ddpSize with
  | none => [placement]
  | some _ => [.replicate, placement]

/-- What a rank saves of a tensor: its piece, by its place in its fsdp
group. -/
def onRank (c : Checkpoint α) (rank : Nat) :
    SavedTensor α c.fsdpSize → Entry α
  | .sharded dim full counts _ _ _ => .dTensor
      ((pieces dim full 0 counts).getD (rank % c.fsdpSize) full) c.mesh
      (c.placements (.shard dim))
  | .replicated full => .dTensor full c.mesh (c.placements .replicate)
  | .plain full => .plain full

def stateDict (c : Checkpoint α) (rank : Nat) : PyDict (Entry α) :=
  c.saved.mapVals (c.onRank rank)

/-- Every tensor whole, cast. -/
def merged (c : Checkpoint α) (bfloat16 : α → β) : PyDict (NdArray β) :=
  c.saved.mapVals fun saved => saved.full.map bfloat16

/-- The tensor whose key sorts first. -/
def pivot (c : Checkpoint α) : Option (SavedTensor α c.fsdpSize) :=
  (sorted (fun left right => decide (left < right))
    c.saved.keys).head?.bind c.saved.get?

/-- When the merger gives a tensor back. Next to a DTensor pivot a plain
tensor of several ranks has to equal itself, which a NaN does not; next to a
plain one only the first rank is read, and no placement is dropped. -/
def MergesTo [BEq β] (c : Checkpoint α) (bfloat16 : α → β) :
    SavedTensor α c.fsdpSize → SavedTensor α c.fsdpSize → Prop
  | .plain _, .plain _ => True
  | .plain _, .sharded dim full counts _ _ _ =>
      c.ddpSize = none ∧ counts.head? = some (full.size dim)
  | .plain _, .replicated _ => c.ddpSize = none
  | _, .plain full =>
      c.fsdpSize = 1 ∨
        torchEqual (full.map bfloat16) (full.map bfloat16) = true
  | _, _ => True

/-- Something is saved, and the merger gives all of it back. -/
def Mergeable [BEq β] (c : Checkpoint α) (bfloat16 : α → β) : Prop :=
  ∃ pivot ∈ c.pivot,
    ∀ item ∈ c.saved.entries, c.MergesTo bfloat16 pivot item.2

end Checkpoint

end Saved

section Collecting

variable {bfloat16 : α → β} {meshDimNames : List String}

theorem collectKey_eq {shards : List (PyDict (Entry α))} {key : String}
    {entries : List (Entry α)}
    (h : List.Forall₂ (fun shard entry => shard.get key = .ok entry)
      shards entries) :
    collectKey bfloat16 meshDimNames shards key =
      entries.foldlM (Collected.add bfloat16 meshDimNames) ⟨[], none⟩ := by
  rw [collectKey]
  generalize (⟨[], none⟩ : Collected β) = collected
  induction h generalizing collected with
  | nil => rfl
  | cons hget _ ih =>
      rw [List.foldlM_cons, List.foldlM_cons, hget, ok_bind]
      apply bind_congr
      exact ih

theorem foldlM_add_dTensor {mesh : DeviceMesh} {placements : List Placement}
    (collected : List (NdArray β)) (locals : List (NdArray α)) :
    (locals.map fun t => Entry.dTensor t mesh placements).foldlM
      (Collected.add bfloat16 meshDimNames)
      ⟨collected, some (discardDp meshDimNames placements)⟩ =
    .ok ⟨collected ++ locals.map (map bfloat16),
      some (discardDp meshDimNames placements)⟩ := by
  induction locals generalizing collected with
  | nil =>
      rw [List.map_nil, List.map_nil, List.append_nil]
      rfl
  | cons t locals ih =>
      have hadd : Collected.add bfloat16 meshDimNames
          ⟨collected, some (discardDp meshDimNames placements)⟩
          (.dTensor t mesh placements) =
          .ok ⟨collected ++ [t.map bfloat16],
            some (discardDp meshDimNames placements)⟩ := by
        simp [Collected.add, Collected.record, pyAssert]
      rw [List.map_cons, List.foldlM_cons, hadd, ok_bind, ih, List.map_cons,
        List.append_assoc, List.singleton_append]

/-- The first rank sets the placements. -/
theorem foldlM_add_dTensors {mesh : DeviceMesh} {placements : List Placement}
    {locals : List (NdArray α)} (hne : locals ≠ []) :
    (locals.map fun t => Entry.dTensor t mesh placements).foldlM
      (Collected.add bfloat16 meshDimNames) ⟨[], none⟩ =
    .ok ⟨locals.map (map bfloat16),
      some (discardDp meshDimNames placements)⟩ := by
  cases locals with
  | nil => exact absurd rfl hne
  | cons t locals =>
      have hadd : Collected.add bfloat16 meshDimNames ⟨[], none⟩
          (.dTensor t mesh placements) =
          .ok ⟨[t.map bfloat16],
            some (discardDp meshDimNames placements)⟩ := rfl
      rw [List.map_cons, List.foldlM_cons, hadd, ok_bind, foldlM_add_dTensor,
        List.map_cons, List.singleton_append]

theorem foldlM_add_plain (collected : List (NdArray β))
    (locals : List (NdArray α)) :
    (locals.map Entry.plain).foldlM
      (Collected.add bfloat16 meshDimNames) ⟨collected, none⟩ =
    .ok ⟨collected ++ locals.map (map bfloat16), none⟩ := by
  induction locals generalizing collected with
  | nil =>
      rw [List.map_nil, List.map_nil, List.append_nil]
      rfl
  | cons t locals ih =>
      have hadd : Collected.add bfloat16 meshDimNames ⟨collected, none⟩
          (.plain t) = .ok ⟨collected ++ [t.map bfloat16], none⟩ := rfl
      rw [List.map_cons, List.foldlM_cons, hadd, ok_bind, ih, List.map_cons,
        List.append_assoc, List.singleton_append]

end Collecting

namespace Checkpoint

variable {c : Checkpoint α} {bfloat16 : α → β} {meshDimNames : List String}
  {total : Nat}

/-- The local tensors of the first ranks. -/
def locals (total : Nat) {fsdpSize : Nat} :
    SavedTensor α fsdpSize → List (NdArray α)
  | .sharded dim full counts _ _ _ => (pieces dim full 0 counts).take total
  | .replicated full | .plain full => List.replicate total full

/-- The placements under which a rank saves a tensor. -/
def savedPlacements (c : Checkpoint α) :
    SavedTensor α c.fsdpSize → Option (List Placement)
  | .sharded dim _ _ _ _ _ => some (c.placements (.shard dim))
  | .replicated _ => some (c.placements .replicate)
  | .plain _ => none

theorem get_stateDict {item : String × SavedTensor α c.fsdpSize}
    (hitem : item ∈ c.saved.entries) (rank : Nat) :
    (c.stateDict rank).get item.1 = .ok (c.onRank rank item.2) := by
  rw [PyDict.get_eq_ok, stateDict, PyDict.mapVals_entries]
  exact List.mem_map_of_mem hitem

theorem range_map_getD {xs : List (NdArray α)} {a : NdArray α} {n : Nat}
    (hlength : xs.length = n) (htotal : total ≤ n) :
    (List.range total).map (fun i => xs.getD (i % n) a) = xs.take total := by
  apply List.ext_getElem
  · rw [List.length_map, List.length_range, List.length_take]
    omega
  · intro i hi _
    rw [List.length_map, List.length_range] at hi
    have hlt : i < n := Nat.lt_of_lt_of_le hi htotal
    rw [List.getElem_map, List.getElem_range, List.getElem_take,
      Nat.mod_eq_of_lt hlt, List.getD_eq_getElem _ _ (hlength ▸ hlt)]

theorem collectKey_stateDict {item : String × SavedTensor α c.fsdpSize}
    (hitem : item ∈ c.saved.entries) (hpos : 0 < total)
    (htotal : total ≤ c.fsdpSize) :
    collectKey bfloat16 meshDimNames
      ((List.range total).map c.stateDict) item.1 =
    .ok ⟨(locals total item.2).map (map bfloat16),
      (c.savedPlacements item.2).map (discardDp meshDimNames)⟩ := by
  obtain ⟨key, saved⟩ := item
  have hentries : List.Forall₂
      (fun shard entry => shard.get key = .ok entry)
      ((List.range total).map c.stateDict)
      ((List.range total).map fun rank => c.onRank rank saved) := by
    rw [List.forall₂_map_left_iff, List.forall₂_map_right_iff,
      List.forall₂_same]
    intro rank _
    exact get_stateDict hitem rank
  rw [collectKey_eq hentries]
  cases saved with
  | sharded dim full counts hdim hcounts hsum =>
      have hlength := (length_pieces (d := dim) (x := full) 0 counts).trans
        hcounts
      have hne : (pieces dim full 0 counts).take total ≠ [] := by
        rw [Ne, List.take_eq_nil_iff, ← List.length_eq_zero_iff, hlength]
        omega
      have hmap := congrArg (List.map fun t =>
        Entry.dTensor t c.mesh (c.placements (.shard dim)))
        (range_map_getD (a := full) hlength htotal)
      rw [List.map_map] at hmap
      exact (congrArg _ hmap).trans (foldlM_add_dTensors hne)
  | replicated full =>
      have hne : List.replicate total full ≠ [] := by
        rw [Ne, List.replicate_eq_nil_iff]
        omega
      have hmap : (List.range total).map (fun rank =>
          c.onRank rank (.replicated full)) = (List.replicate total full).map
          fun t => Entry.dTensor t c.mesh (c.placements .replicate) := by
        rw [List.map_replicate]
        simp [onRank]
      rw [hmap]
      exact foldlM_add_dTensors hne
  | plain full =>
      have hmap : (List.range total).map (fun rank =>
          c.onRank rank (.plain full)) =
          (List.replicate total full).map Entry.plain := by
        rw [List.map_replicate]
        simp [onRank]
      rw [hmap]
      exact foldlM_add_plain [] _

theorem extractDeviceMeshInfo_stateDict {worldSize : Nat} :
    extractDeviceMeshInfo (c.stateDict 0) worldSize =
      match c.pivot with
      | none => .error .indexError
      | some (.plain _) => .ok ⟨[1], ["fsdp"]⟩
      | some _ => .ok c.mesh := by
  rw [extractDeviceMeshInfo, pivot, stateDict, PyDict.mapVals_keys]
  split
  · rename_i hnone
    rw [hnone]
    rfl
  · rename_i key hkey
    have hmem : key ∈ c.saved.keys :=
      (sorted_perm _ _).mem_iff.mp (List.mem_of_mem_head? hkey)
    obtain ⟨item, hitem, rfl⟩ := List.mem_map.mp hmem
    have hget : (c.saved.mapVals (c.onRank 0)).get item.1 =
        .ok (c.onRank 0 item.2) := get_stateDict hitem 0
    have hpivot : c.saved.get? item.1 = some item.2 :=
      PyDict.get?_eq_some_iff.mpr hitem
    rw [hkey, Option.bind_some, hpivot, hget, ok_bind]
    cases item.2 with
    | sharded dim full counts hdim hcounts hsum => rfl
    | replicated full => rfl
    | plain full => rfl

theorem calculateShardConfiguration_mesh :
    calculateShardConfiguration c.mesh =
      .ok (c.fsdpSize, [c.fsdpSize]) := by
  rw [calculateShardConfiguration, mesh]
  cases c.ddpSize with
  | none => rfl
  | some ddpSize => rfl

theorem discardDp_mesh (placement : Placement) :
    discardDp c.mesh.meshDimNames (c.placements placement) =
      [placement] := by
  rw [discardDp, mesh, placements]
  cases c.ddpSize with
  | none => rfl
  | some ddpSize => rfl

theorem discardDp_fsdp {placement other : Placement} :
    discardDp ["fsdp"] (c.placements placement) = [other] ↔
      c.ddpSize = none ∧ placement = other := by
  rw [discardDp, placements]
  cases c.ddpSize with
  | none => simp
  | some ddpSize => simp

end Checkpoint

section Merging

variable [BEq β]

/-- The only placement left decides how a key is merged. -/
theorem mergeKey_placement {size : Nat} {tensors : List (NdArray β)}
    {placements : List Placement} {tensor : NdArray β} :
    mergeKey [size] ⟨tensors, some placements⟩ = .ok tensor ↔
      ∃ placement, placements = [placement] ∧
        mergeByPlacement tensors placement = .ok tensor := by
  rw [mergeKey]
  match placements with
  | [] => simp
  | [placement] => simp
  | _ :: _ :: _ => simp

/-- Copies are not put together when the tensor equals itself. -/
theorem mergeKey_plain {size count : Nat} {tensor : NdArray β} :
    mergeKey [size] ⟨List.replicate (count + 1) tensor, none⟩ =
        .ok tensor ↔
      count + 1 = 1 ∨ torchEqual tensor tensor = true := by
  have hall : ((List.replicate count tensor).all fun t =>
      torchEqual t tensor) = true ↔
      count + 1 = 1 ∨ torchEqual tensor tensor = true := by
    rw [List.all_eq_true]
    simp only [List.mem_replicate]
    by_cases hcount : count = 0
    · simp [hcount]
    · simp [hcount]
  have hmerge : mergeKey [size] ⟨List.replicate (count + 1) tensor, none⟩ =
      if (List.replicate count tensor).all fun t => torchEqual t tensor then
        .ok tensor else torchCat 0 (tensor :: List.replicate count tensor) :=
    rfl
  rw [hmerge]
  split
  · rename_i heq
    exact ⟨fun _ => hall.mp heq, fun _ => rfl⟩
  · rename_i hne
    refine ⟨fun hcat => absurd hcat ?_, fun h => absurd (hall.mpr h) hne⟩
    intro hcat
    have hcat' := torchCat_eq_ok.mp hcat
    have hdim := lt_of_cat? hcat'
    have hsame : ∀ x ∈ tensor :: List.replicate count tensor,
        x.shape = tensor.shape := by
      intro x hx
      rw [← List.replicate_succ] at hx
      rw [List.eq_of_mem_replicate hx]
    obtain ⟨y, hy, hshape, -⟩ :=
      exists_cat? (List.cons_ne_nil _ _) hsame hdim
    cases hcat'.symm.trans hy
    have hsize : tensor.size 0 = (count + 1) * tensor.size 0 := by
      have h := congrArg (fun shape => pos shape 0) hshape
      rw [pos_set_self hdim, List.length_cons, List.length_replicate] at h
      exact h
    have hcount : count ≠ 0 := fun hzero => hne (hall.mpr (by omega))
    have hempty : tensor.size 0 = 0 := by
      by_contra hpos
      have hlt : 1 * tensor.size 0 < (count + 1) * tensor.size 0 :=
        Nat.mul_lt_mul_of_pos_right (by omega) (by omega)
      omega
    exact hne (hall.mpr (.inr (torchEqual_self_of_empty hdim hempty)))

namespace Checkpoint

variable {c : Checkpoint α} {bfloat16 : α → β}

omit [BEq β] in
theorem mergeByPlacement_pieces {dim : Nat} {full : NdArray α}
    (hdim : dim < full.shape.length) {counts : List Nat} (hne : counts ≠ [])
    {tensor : NdArray β} :
    mergeByPlacement ((pieces dim full 0 counts).map (map bfloat16))
        (.shard dim) = .ok tensor ↔
      (full.map bfloat16).slice dim 0 counts.sum = tensor := by
  have hcat := cat?_pieces (x := full.map bfloat16) hdim hne 0
  rw [Nat.zero_add] at hcat
  rw [mergeByPlacement, torchCat_eq_ok, map_pieces, hcat, Option.some_inj]

/-- Next to a DTensor: every rank of a group is read. -/
theorem mergeKey_mesh (saved : SavedTensor α c.fsdpSize) :
    mergeKey [c.fsdpSize]
        ⟨(locals c.fsdpSize saved).map (map bfloat16),
          (c.savedPlacements saved).map (discardDp c.mesh.meshDimNames)⟩ =
        .ok (saved.full.map bfloat16) ↔
      ∀ full, saved = .plain full → c.fsdpSize = 1 ∨
        torchEqual (full.map bfloat16) (full.map bfloat16) = true := by
  obtain ⟨count, hcount⟩ := Nat.exists_eq_add_one.mpr c.fsdp_pos
  cases saved with
  | sharded dim full counts hdim hcounts hsum =>
      have hne : counts ≠ [] := by
        rw [Ne, ← List.length_eq_zero_iff]
        omega
      have hlength := (length_pieces (d := dim) (x := full) 0 counts).trans
        hcounts
      have hwhole : (full.map bfloat16).slice dim 0 counts.sum =
          full.map bfloat16 := slice_all hdim (Nat.le_of_eq hsum.symm)
      rw [savedPlacements, Option.map_some, discardDp_mesh,
        mergeKey_placement, locals, List.take_of_length_le (by omega)]
      refine iff_of_true ⟨_, rfl, ?_⟩ fun _ h => by cases h
      exact (mergeByPlacement_pieces hdim hne).mpr hwhole
  | replicated full =>
      rw [savedPlacements, Option.map_some, discardDp_mesh,
        mergeKey_placement, locals, hcount, List.replicate_succ]
      exact iff_of_true ⟨_, rfl, rfl⟩ fun _ h => by cases h
  | plain full =>
      rw [savedPlacements, locals, List.map_replicate]
      simp only [Option.map_none, SavedTensor.plain.injEq, forall_eq']
      rw [hcount]
      exact mergeKey_plain

/-- Next to a plain tensor: only the first rank is read. -/
theorem mergeKey_single (full : NdArray α) (saved : SavedTensor α c.fsdpSize) :
    mergeKey [1] ⟨(locals 1 saved).map (map bfloat16),
          (c.savedPlacements saved).map (discardDp ["fsdp"])⟩ =
        .ok (saved.full.map bfloat16) ↔
      c.MergesTo bfloat16 (.plain full) saved := by
  cases saved with
  | sharded dim full counts hdim hcounts hsum =>
      have hpos := c.fsdp_pos
      cases counts with
      | nil =>
          rw [List.length_nil] at hcounts
          omega
      | cons count counts =>
          have hone : ((full.map bfloat16).slice dim 0 [count].sum =
              full.map bfloat16) ↔ count = full.size dim := by
            rw [List.sum_cons] at hsum
            rw [List.sum_singleton]
            constructor
            · intro heq
              have hsize := congrArg (fun t => t.size dim) heq
              simp only [size_slice (x := full.map bfloat16) hdim] at hsize
              have hmap : (full.map bfloat16).size dim = full.size dim := rfl
              rw [hmap] at hsize
              omega
            · intro heq
              exact slice_all hdim (Nat.le_of_eq heq.symm)
          rw [savedPlacements, Option.map_some, mergeKey_placement, locals,
            MergesTo, List.head?_cons, Option.some_inj, ← hone,
            ← mergeByPlacement_pieces hdim (List.cons_ne_nil count [])]
          constructor
          · rintro ⟨placement, hplacement, hmerge⟩
            obtain ⟨hnone, rfl⟩ := discardDp_fsdp.mp hplacement
            exact ⟨hnone, hmerge⟩
          · rintro ⟨hnone, hmerge⟩
            exact ⟨_, discardDp_fsdp.mpr ⟨hnone, rfl⟩, hmerge⟩
  | replicated full =>
      rw [savedPlacements, Option.map_some, mergeKey_placement, MergesTo]
      constructor
      · rintro ⟨placement, hplacement, -⟩
        exact (discardDp_fsdp.mp hplacement).1
      · intro hnone
        exact ⟨_, discardDp_fsdp.mpr ⟨hnone, rfl⟩, rfl⟩
  | plain full =>
      exact iff_of_true rfl trivial

theorem mergesTo_of_not_plain {pivot saved : SavedTensor α c.fsdpSize}
    (hpivot : ∀ full, pivot ≠ .plain full) :
    c.MergesTo bfloat16 pivot saved ↔
      ∀ full, saved = .plain full → c.fsdpSize = 1 ∨
        torchEqual (full.map bfloat16) (full.map bfloat16) = true := by
  cases pivot with
  | plain full => exact absurd rfl (hpivot full)
  | sharded dim full counts hdim hcounts hsum =>
      cases saved <;> simp [MergesTo]
  | replicated full => cases saved <;> simp [MergesTo]

/-- One key at a time. -/
theorem loadAndMergeStateDicts_stateDict {total : Nat}
    {meshDimNames : List String} (hpos : 0 < total)
    (htotal : total ≤ c.fsdpSize) :
    loadAndMergeStateDicts bfloat16 c.stateDict total [total] meshDimNames =
        .ok (c.merged bfloat16) ↔
      ∀ item ∈ c.saved.entries,
        mergeKey [total] ⟨(locals total item.2).map (map bfloat16),
          (c.savedPlacements item.2).map (discardDp meshDimNames)⟩ =
        .ok (item.2.full.map bfloat16) := by
  obtain ⟨count, rfl⟩ := Nat.exists_eq_add_one.mpr hpos
  have hshards : (List.range (count + 1)).map c.stateDict =
      c.stateDict 0 :: (List.range count).map (c.stateDict ∘ Nat.succ) := by
    rw [List.range_succ_eq_map, List.map_cons, List.map_map]
  rw [loadAndMergeStateDicts, hshards]
  simp only [← hshards]
  rw [bind_eq_ok, PyDict.exists_mapEntriesM_mapEntriesM, stateDict, merged,
    PyDict.mapVals_entries, PyDict.mapVals_entries,
    List.forall₂_map_left_iff, List.forall₂_map_right_iff,
    List.forall₂_same]
  refine forall₂_congr fun item hitem => ?_
  rw [collectKey_stateDict hitem hpos htotal]
  simp

/-- The merger gives the saved tensors back, cast, exactly when it can merge
every key under what the key that sorts first made it believe. -/
theorem fsdpMerge_reconstructs_iff (c : Checkpoint α) (bfloat16 : α → β) :
    mergeStateDicts bfloat16 c.stateDict c.worldSize =
        .ok (c.merged bfloat16) ↔ c.Mergeable bfloat16 := by
  rw [mergeStateDicts, extractDeviceMeshInfo_stateDict, Mergeable]
  cases hpivot : c.pivot with
  | none => simp [bind, Except.bind]
  | some pivot =>
      simp only [Option.mem_def, Option.some_inj, exists_eq_left']
      have hmesh : (∀ full, pivot ≠ .plain full) →
          ((do
            let (totalShards, meshShape) ←
              calculateShardConfiguration c.mesh
            loadAndMergeStateDicts bfloat16 c.stateDict totalShards meshShape
              c.mesh.meshDimNames) = .ok (c.merged bfloat16) ↔
          ∀ item ∈ c.saved.entries,
            c.MergesTo bfloat16 pivot item.2) := by
        intro hne
        rw [calculateShardConfiguration_mesh, ok_bind,
          loadAndMergeStateDicts_stateDict c.fsdp_pos (Nat.le_refl _)]
        refine forall₂_congr fun item _ => ?_
        rw [mergeKey_mesh, mergesTo_of_not_plain hne]
      cases pivot with
      | sharded dim full counts hdim hcounts hsum =>
          exact hmesh fun _ h => by cases h
      | replicated full => exact hmesh fun _ h => by cases h
      | plain full =>
          apply (loadAndMergeStateDicts_stateDict Nat.one_pos
            c.fsdp_pos).trans
          refine forall₂_congr fun item _ => ?_
          exact mergeKey_single full item.2

end Checkpoint

theorem pos_of_mem_none : ∀ size ∈ (none : Option Nat), 0 < size := by simp

theorem halves_length : ([1, 1] : List Nat).length = 2 := rfl

/-- A buffer that sorts before the one weight of two ranks. -/
def bufferFirst : Checkpoint Nat where
  ddpSize := none
  fsdpSize := 2
  fsdp_pos := Nat.two_pos
  ddp_pos := pos_of_mem_none
  saved := ⟨[("buffer", .plain (NdArray.full [] 7)),
    ("weight", .sharded 0 (NdArray.full [2] 5) [1, 1] Nat.one_pos
      halves_length rfl)],
    by decide⟩

/-- Half of the weight is left out. -/
theorem mergeStateDicts_bufferFirst :
    mergeStateDicts id bufferFirst.stateDict bufferFirst.worldSize ≠
      .ok (bufferFirst.merged id) := by
  intro h
  have hshapes := congrArg (fun merged : Py (PyDict (NdArray Nat)) =>
    merged.map fun d => d.entries.map fun item => item.2.shape) h
  revert hshapes
  decide

end Merging

end FsdpModelMerger

end SelfDistillation
