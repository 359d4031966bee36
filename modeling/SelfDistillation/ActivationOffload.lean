/-
Offloading the activations of a model layer by layer, with a double buffer
(verl/utils/activation_offload.py).
-/
import SelfDistillation.Python
import Mathlib.Algebra.BigOperators.Group.List.Basic

namespace SelfDistillation

namespace ActivationOffload

variable {α : Type}

/-- A tensor: where it lies, and what it holds in row-major order. -/
structure Tensor (α : Type) where
  /-- `untyped_storage().data_ptr()` -/
  dataPtr : Nat
  storageOffset : Nat
  dtype : String
  device : String
  shape : List Nat
  values : List α
  /-- A `FakeTensor` or a `FunctionalTensor`. -/
  stray : Bool
  numel_eq : values.length = shape.prod

/-- Row-major order. -/
def indices : List Nat → List (List Nat)
  | [] => [[]]
  | n :: shape => (List.range n).flatMap fun i => (indices shape).map (i :: ·)

theorem length_indices (shape : List Nat) :
    (indices shape).length = shape.prod := by
  induction shape with
  | nil => rfl
  | cons n shape ih =>
      rw [indices, List.length_flatMap, List.prod_cons]
      simp [ih]

structure Storage (α : Type) where
  dataPtr : Nat
  dtype : String
  device : String
  elements : Nat → α

/-- A view of a storage with its shape, strides and offset. -/
def Storage.asStrided (storage : Storage α) (shape strides : List Nat)
    (storageOffset : Nat) : Tensor α where
  dataPtr := storage.dataPtr
  storageOffset := storageOffset
  dtype := storage.dtype
  device := storage.device
  shape := shape
  values := (indices shape).map fun idx => storage.elements
    (storageOffset + (List.zipWith (fun i stride => i * stride) idx
      strides).sum)
  stray := false
  numel_eq := (List.length_map _).trans (length_indices shape)

abbrev Key := Nat × String

/-- The offset counts elements, the address bytes. -/
def getUniqueTensorKey (tensor : Tensor α) : Key :=
  (tensor.dataPtr + tensor.storageOffset, tensor.dtype)

/-- `tensor.view(shape)` of a contiguous tensor. -/
def Tensor.view (tensor : Tensor α) (shape : List Nat) : Py (Tensor α) :=
  if h : tensor.values.length = shape.prod then
    .ok { tensor with shape := shape, numel_eq := h }
  else .error (.runtimeError
    s!"shape '{shape}' is invalid for input of size {tensor.values.length}")

/-- A contiguous copy in the memory of the host. -/
structure CpuBackup (α : Type) where
  dtype : String
  shape : List Nat
  values : List α
  numel_eq : values.length = shape.prod

/-- The device it came from, and the copy. -/
abbrev Offloaded (α : Type) := String × CpuBackup α

def offload (tensor : Tensor α) : Offloaded α :=
  (tensor.device, ⟨tensor.dtype, tensor.shape, tensor.values, tensor.numel_eq⟩)

/-- The copy back on the device, where the allocator puts it. -/
def reload (state : Offloaded α) (dataPtr : Nat) : Tensor α where
  dataPtr := dataPtr
  storageOffset := 0
  dtype := state.2.dtype
  device := state.1
  shape := state.2.shape
  values := state.2.values
  stray := false
  numel_eq := state.2.numel_eq

section Dict

variable {κ β : Type} [DecidableEq κ]

/-- `entries[key] = value` -/
def dictSet (entries : List (κ × β)) (key : κ) (value : β) : List (κ × β) :=
  if key ∈ entries.map Prod.fst then
    entries.map fun e => if e.1 = key then (key, value) else e
  else entries ++ [(key, value)]

/-- `del entries[key]` -/
def dictDrop (entries : List (κ × β)) (key : κ) : List (κ × β) :=
  entries.filter fun e => e.1 ≠ key

end Dict

abbrev Tag := Nat × Nat

/-- What is kept under a tag: the tensor, or the key of its copy and its
shape. -/
inductive State (α : Type)
  | tensor (tensor : Tensor α)
  | offloaded (key : Key) (shape : List Nat)

/-- What a push gives back: a tag, or the tensor where it is not offloaded. -/
inductive TensorTag (α : Type)
  | tag (tag : Tag)
  | tensor (tensor : Tensor α)

structure Handler (α : Type) where
  numOffloadGroup : Nat
  numLayers : Nat
  layerWindowMap : List Int
  currentGroup : Nat
  tensorCountCurrentGroup : Nat
  tensorTagToState : List (Tag × State α)
  tensorTagToBuf : List (Tag × Option (Tensor α))
  offloadedGroupCount : Nat
  groupOffloadMapping : List (Nat × List (Key × Offloaded α))

/-- The windows, and the `constant` they leave. -/
def layerWindowMapFrom (numOffloadGroup numLayers : Nat) :
    List Int × Int :=
  (List.range numOffloadGroup).foldl (fun acc (i : Nat) =>
    let window : Int :=
      ((numLayers / numOffloadGroup : Nat) : Int) * (i + 1) - 1
    if i < numLayers % numOffloadGroup then
      (acc.1 ++ [window + (i + 1)], (i : Int) + 1)
    else (acc.1 ++ [window + acc.2], acc.2)) ([], 0)

namespace Handler

/-- `AsyncDoubleBufferGroupOffloadHandler(num_offload_group, num_model_group)` -/
def init (numOffloadGroup numModelGroup : Nat) : Handler α where
  numOffloadGroup := numOffloadGroup
  numLayers := numModelGroup
  layerWindowMap := (layerWindowMapFrom numOffloadGroup numModelGroup).1
  currentGroup := 0
  tensorCountCurrentGroup := 0
  tensorTagToState := []
  tensorTagToBuf := []
  offloadedGroupCount := 0
  groupOffloadMapping := []

variable (h : Handler α)

def windowAt (i : Int) : Py Int :=
  match if 0 ≤ i then h.layerWindowMap[i.toNat]? else none with
  | some window => .ok window
  | none => .error (.keyError s!"{i}")

def tensorPush (tensorNeedOffloadingChecker : Tensor α → Bool)
    (tensor : Tensor α) : Py (Handler α × TensorTag α) :=
  if !tensor.stray && tensorNeedOffloadingChecker tensor then
    let tag : Tag := (h.currentGroup, h.tensorCountCurrentGroup)
    if tag ∈ h.tensorTagToState.map Prod.fst then .error (.assertionError "")
    else .ok ({ h with
      tensorCountCurrentGroup := h.tensorCountCurrentGroup + 1
      tensorTagToState := dictSet h.tensorTagToState tag (.tensor tensor)
      tensorTagToBuf :=
        if h.currentGroup < h.numOffloadGroup then
          dictSet h.tensorTagToBuf tag (some tensor)
        else h.tensorTagToBuf }, .tag tag)
  else .ok (h, .tensor tensor)

def tensorPop : TensorTag α → Py (Handler α × Tensor α)
  | .tensor tensor => .ok (h, tensor)
  | .tag tag =>
      match h.tensorTagToState.lookup tag with
      | none => .error (.assertionError "")
      | some (.offloaded _ _) => .error (.assertionError "")
      | some (.tensor tensor) => .ok ({ h with
          tensorTagToState := dictDrop h.tensorTagToState tag
          tensorTagToBuf := dictDrop h.tensorTagToBuf tag }, tensor)

/-- A key has the first tensor found under it. -/
def addKey (mapping : List (Key × Tensor α)) (tensor : Tensor α) :
    List (Key × Tensor α) :=
  if getUniqueTensorKey tensor ∈ mapping.map Prod.fst then mapping
  else mapping ++ [(getUniqueTensorKey tensor, tensor)]

/-- The states of a group become keys. -/
def markGroup (groupToOffload : Nat) : List (Tag × State α) →
    List (Key × Tensor α) → Py (List (Tag × State α) × List (Key × Tensor α))
  | [], mapping => .ok ([], mapping)
  | (tag, state) :: entries, mapping =>
      if tag.1 = groupToOffload then
        match state with
        | .offloaded _ _ => .error (.assertionError "")
        | .tensor tensor => do
            let (entries, mapping) ← markGroup groupToOffload entries
              (addKey mapping tensor)
            return ((tag, .offloaded (getUniqueTensorKey tensor)
              tensor.shape) :: entries, mapping)
      else do
        let (entries, mapping) ← markGroup groupToOffload entries mapping
        return ((tag, state) :: entries, mapping)

def bulkOffloadGroup (groupToOffload : Nat) : Py (Handler α) := do
  let (entries, mapping) ← markGroup groupToOffload h.tensorTagToState []
  return { h with
    tensorTagToState := entries
    groupOffloadMapping := dictSet h.groupOffloadMapping groupToOffload
      (mapping.map fun e => (e.1, offload e.2)) }

/-- The activations of a group are let go. -/
def freeGroup (group : Nat) : Handler α :=
  { h with tensorTagToBuf := h.tensorTagToBuf.map fun e =>
      if e.1.1 = group then (e.1, none) else e }

def synchronizeOnGroupCommitForward (currentGroup : Nat) :
    Py (Handler α) := do
  let h ← if currentGroup = 0 then h.bulkOffloadGroup currentGroup else .ok h
  let window ← h.windowAt h.offloadedGroupCount
  if window = currentGroup then
    let h := h.freeGroup h.offloadedGroupCount
    let h ←
      if (h.offloadedGroupCount : Int) < h.numOffloadGroup - 1 then
        h.bulkOffloadGroup (h.offloadedGroupCount + 1)
      else .ok h
    return { h with offloadedGroupCount := h.offloadedGroupCount + 1 }
  else return h

def onGroupCommitForward : Py (Handler α) := do
  let h ← h.synchronizeOnGroupCommitForward h.currentGroup
  return { h with
    currentGroup := h.currentGroup + 1
    tensorCountCurrentGroup := 0 }

/-- What is back on the device, in place of the keys of a group. -/
def recoverGroup (groupToReload : Nat) (mapping : List (Key × Tensor α)) :
    List (Tag × State α) → Py (List (Tag × State α))
  | [] => .ok []
  | (tag, .offloaded key shape) :: entries => do
      let state ←
        if tag.1 = groupToReload then
          match mapping.lookup key with
          | none => .error (.keyError s!"{key}")
          | some tensor => State.tensor <$> tensor.view shape
        else .ok (.offloaded key shape)
      let entries ← recoverGroup groupToReload mapping entries
      return (tag, state) :: entries
  | (tag, .tensor tensor) :: entries => do
      let entries ← recoverGroup groupToReload mapping entries
      return (tag, .tensor tensor) :: entries

/-- `allocated` is where the allocator puts each copy. -/
def bulkReloadGroup (groupToReload : Nat) (allocated : Key → Nat) :
    Py (Handler α) := do
  if ¬ groupToReload < h.numOffloadGroup then .error (.assertionError "")
  match h.groupOffloadMapping.lookup groupToReload with
  | none => .error (.keyError s!"{groupToReload}")
  | some offloadMapping =>
      let mapping := offloadMapping.map fun e =>
        (e.1, reload e.2 (allocated e.1))
      let entries ← recoverGroup groupToReload mapping h.tensorTagToState
      return { h with
        tensorTagToState := entries
        groupOffloadMapping := dictDrop h.groupOffloadMapping groupToReload }

def onGroupCommitBackward (allocated : Key → Nat) : Py (Handler α) := do
  if h.currentGroup = 0 then .error (.assertionError "")
  let h := { h with currentGroup := h.currentGroup - 1 }
  let window ← h.windowAt ((h.offloadedGroupCount : Int) - 1)
  let h ←
    if window = h.currentGroup then do
      let h ← h.bulkReloadGroup (h.offloadedGroupCount - 1) allocated
      .ok { h with offloadedGroupCount := h.offloadedGroupCount -
        if h.offloadedGroupCount > 1 then 1 else 0 }
    else .ok h
  return if h.currentGroup = 0 then { h with offloadedGroupCount := 0 } else h

end Handler

/-- One layer in one iteration: what its forward pass saves, the order in which
its backward pass wants it, and what lies in the hands of others. -/
structure Layer (α : Type) where
  tensors : List (Tensor α)
  tensorNeedOffloadingChecker : Tensor α → Bool
  order : List Nat
  allocated : Key → Nat
  order_perm : order.Perm (List.range tensors.length)

section Running

/-- The pushes of a forward pass. -/
def saveAll (h : Handler α) (checker : Tensor α → Bool) :
    List (Tensor α) → Py (Handler α × List (TensorTag α))
  | [] => .ok (h, [])
  | tensor :: tensors => do
      let (h, tag) ← h.tensorPush checker tensor
      let (h, tags) ← saveAll h checker tensors
      return (h, tag :: tags)

/-- The pops of a backward pass: each tensor that was pushed with the one that
comes back. -/
def popAll (h : Handler α) : List (Tensor α × TensorTag α) →
    Py (Handler α × List (Tensor α × Tensor α))
  | [] => .ok (h, [])
  | (pushed, tag) :: saved => do
      let (h, popped) ← h.tensorPop tag
      let (h, pairs) ← popAll h saved
      return (h, (pushed, popped) :: pairs)

/-- An iteration: the layers forward one after the other, each with its commit,
and backward in reverse. -/
def iterate (h : Handler α) : List (Layer α) →
    Py (Handler α × List (Tensor α × Tensor α))
  | [] => .ok (h, [])
  | layer :: layers => do
      let (h, tags) ← saveAll h layer.tensorNeedOffloadingChecker layer.tensors
      let h ← h.onGroupCommitForward
      let (h, later) ← iterate h layers
      let h ← h.onGroupCommitBackward layer.allocated
      let (h, pairs) ← popAll h
        (layer.order.filterMap fun i => (layer.tensors.zip tags)[i]?)
      return (h, later ++ pairs)

def iterateAll (h : Handler α) : List (List (Layer α)) →
    Py (Handler α × List (Tensor α × Tensor α))
  | [] => .ok (h, [])
  | layers :: iterations => do
      let (h, pairs) ← iterate h layers
      let (h, later) ← iterateAll h iterations
      return (h, pairs ++ later)

end Running

section Tags

variable {β γ : Type}

/-- Tensors under the tags of a group, numbered from `count` on. -/
def tagged (group : Nat) (f : Tensor α → β) : Nat → List (Tensor α) →
    List (Tag × β)
  | _, [] => []
  | count, tensor :: tensors =>
      ((group, count), f tensor) :: tagged group f (count + 1) tensors

/-- Group after group. -/
def groups (f : Tensor α → β) : Nat → List (List (Tensor α)) →
    List (Tag × β)
  | _, [] => []
  | group, tensors :: saved =>
      tagged group f 0 tensors ++ groups f (group + 1) saved

theorem mem_tagged {group count : Nat} {f : Tensor α → β}
    {tensors : List (Tensor α)} {e : Tag × β}
    (h : e ∈ tagged group f count tensors) :
    e.1.1 = group ∧ count ≤ e.1.2 ∧ e.1.2 < count + tensors.length := by
  induction tensors generalizing count with
  | nil => cases h
  | cons tensor tensors ih =>
      rw [List.length_cons]
      rcases List.mem_cons.mp h with rfl | h
      · exact ⟨rfl, Nat.le_refl _, by simp only []; omega⟩
      · obtain ⟨hgroup, hle, hlt⟩ := ih h
        exact ⟨hgroup, by omega, by omega⟩

theorem mem_groups {group : Nat} {f : Tensor α → β}
    {saved : List (List (Tensor α))} {e : Tag × β}
    (h : e ∈ groups f group saved) :
    group ≤ e.1.1 ∧ e.1.1 < group + saved.length := by
  induction saved generalizing group with
  | nil => cases h
  | cons tensors saved ih =>
      rw [List.length_cons]
      rcases List.mem_append.mp h with h | h
      · have hgroup := (mem_tagged h).1
        omega
      · obtain ⟨hle, hlt⟩ := ih h
        omega

theorem groups_append_singleton (group : Nat) (f : Tensor α → β)
    (saved : List (List (Tensor α))) (tensors : List (Tensor α)) :
    groups f group (saved ++ [tensors]) =
      groups f group saved ++ tagged (group + saved.length) f 0 tensors := by
  induction saved generalizing group with
  | nil => simp [groups]
  | cons front saved ih =>
      have hgroup : group + 1 + saved.length = group + (saved.length + 1) := by
        omega
      rw [List.cons_append, groups, ih, groups, List.length_cons,
        List.append_assoc, hgroup]

theorem keys_tagged (group count : Nat) (f : Tensor α → β)
    (f' : Tensor α → γ) (tensors : List (Tensor α)) :
    (tagged group f count tensors).map Prod.fst =
      (tagged group f' count tensors).map Prod.fst := by
  induction tensors generalizing count with
  | nil => rfl
  | cons tensor tensors ih =>
      rw [tagged, List.map_cons, ih, tagged, List.map_cons]

theorem nodup_keys_tagged (group count : Nat) (f : Tensor α → β)
    (tensors : List (Tensor α)) :
    ((tagged group f count tensors).map Prod.fst).Nodup := by
  induction tensors generalizing count with
  | nil => exact List.nodup_nil
  | cons tensor tensors ih =>
      rw [tagged, List.map_cons, List.nodup_cons]
      refine ⟨fun hmem => ?_, ih (count + 1)⟩
      obtain ⟨e, he, hkey⟩ := List.mem_map.mp hmem
      have hle := (mem_tagged he).2.1
      rw [hkey] at hle
      exact Nat.lt_irrefl count hle

end Tags

section Saving

variable {κ β : Type} [DecidableEq κ]

theorem dictSet_of_notMem {entries : List (κ × β)} {key : κ} (value : β)
    (h : key ∉ entries.map Prod.fst) :
    dictSet entries key value = entries ++ [(key, value)] := by
  rw [dictSet, if_neg h]

/-- What a handler takes charge of. -/
def needed (checker : Tensor α → Bool) (tensors : List (Tensor α)) :
    List (Tensor α) :=
  tensors.filter fun tensor => !tensor.stray && checker tensor

theorem needed_cons (checker : Tensor α → Bool) (tensor : Tensor α)
    (tensors : List (Tensor α)) :
    needed checker (tensor :: tensors) =
      if (!tensor.stray && checker tensor) = true then
        tensor :: needed checker tensors
      else needed checker tensors := by
  rw [needed, List.filter_cons, needed]

def tagsOf (checker : Tensor α → Bool) (group : Nat) :
    Nat → List (Tensor α) → List (TensorTag α)
  | _, [] => []
  | count, tensor :: tensors =>
      if !tensor.stray && checker tensor then
        .tag (group, count) :: tagsOf checker group (count + 1) tensors
      else .tensor tensor :: tagsOf checker group count tensors

/-- Every tag of the group that is in use lies below `count`. -/
def Fresh (group count : Nat) (entries : List (Tag × β)) : Prop :=
  ∀ e ∈ entries, e.1.1 = group → e.1.2 < count

theorem Fresh.notMem {group count : Nat} {entries : List (Tag × β)}
    (h : Fresh group count entries) :
    (group, count) ∉ entries.map Prod.fst := by
  intro hmem
  obtain ⟨e, he, hkey⟩ := List.mem_map.mp hmem
  have hlt := h e he (by rw [hkey])
  rw [hkey] at hlt
  exact Nat.lt_irrefl count hlt

theorem Fresh.append {group count : Nat} {entries : List (Tag × β)}
    (h : Fresh group count entries) (value : β) :
    Fresh group (count + 1) (entries ++ [((group, count), value)]) := by
  intro e he hgroup
  rcases List.mem_append.mp he with he | he
  · exact Nat.lt_succ_of_lt (h e he hgroup)
  · rw [List.mem_singleton.mp he]
    exact Nat.lt_succ_self count

/-- The pushes of a layer. -/
def Handler.saved (h : Handler α) (tensors : List (Tensor α)) : Handler α :=
  { h with
    tensorCountCurrentGroup := h.tensorCountCurrentGroup + tensors.length
    tensorTagToState := h.tensorTagToState ++
      tagged h.currentGroup .tensor h.tensorCountCurrentGroup tensors
    tensorTagToBuf :=
      if h.currentGroup < h.numOffloadGroup then h.tensorTagToBuf ++
        tagged h.currentGroup some h.tensorCountCurrentGroup tensors
      else h.tensorTagToBuf }

theorem tensorPush_needed {h : Handler α} {checker : Tensor α → Bool}
    {tensor : Tensor α} (hneeded : (!tensor.stray && checker tensor) = true)
    (hstate : Fresh h.currentGroup h.tensorCountCurrentGroup
      h.tensorTagToState)
    (hbuf : Fresh h.currentGroup h.tensorCountCurrentGroup
      h.tensorTagToBuf) :
    h.tensorPush checker tensor = .ok (h.saved [tensor],
      .tag (h.currentGroup, h.tensorCountCurrentGroup)) := by
  rw [Handler.tensorPush, if_pos hneeded, if_neg hstate.notMem,
    dictSet_of_notMem _ hstate.notMem, dictSet_of_notMem _ hbuf.notMem]
  rfl

theorem saveAll_eq (checker : Tensor α → Bool) (tensors : List (Tensor α))
    {h : Handler α}
    (hstate : Fresh h.currentGroup h.tensorCountCurrentGroup
      h.tensorTagToState)
    (hbuf : Fresh h.currentGroup h.tensorCountCurrentGroup
      h.tensorTagToBuf) :
    saveAll h checker tensors = .ok (h.saved (needed checker tensors),
      tagsOf checker h.currentGroup h.tensorCountCurrentGroup tensors) := by
  induction tensors generalizing h with
  | nil =>
      rw [saveAll, needed, List.filter_nil, tagsOf, Handler.saved]
      cases h
      simp [tagged]
  | cons tensor tensors ih =>
      by_cases hneeded : (!tensor.stray && checker tensor) = true
      · have hbuf' : Fresh h.currentGroup (h.tensorCountCurrentGroup + 1)
            (h.saved [tensor]).tensorTagToBuf := by
          rw [Handler.saved]
          split
          · exact hbuf.append (some tensor)
          · exact fun e he hgroup => Nat.lt_succ_of_lt (hbuf e he hgroup)
        have hrest := ih (h := h.saved [tensor])
          (hstate.append (.tensor tensor)) hbuf'
        have hsaved : (h.saved [tensor]).saved (needed checker tensors) =
            h.saved (tensor :: needed checker tensors) := by
          simp only [Handler.saved, List.length_cons, List.length_nil, tagged,
            List.append_assoc, List.singleton_append, Nat.zero_add]
          split
          · rw [List.append_assoc]
            simp only [Nat.add_assoc, Nat.add_comm 1,
              List.singleton_append]
          · simp only [Nat.add_assoc, Nat.add_comm 1]
        rw [saveAll, tensorPush_needed hneeded hstate hbuf, ok_bind]
        simp only []
        rw [hrest, hsaved, tagsOf, if_pos hneeded, needed_cons,
          if_pos hneeded]
        rfl
      · rw [saveAll, Handler.tensorPush, if_neg hneeded, ok_bind]
        simp only []
        rw [ih hstate hbuf, tagsOf, if_neg hneeded, needed_cons,
          if_neg hneeded]
        rfl

end Saving

section Windows

/-- A group less than layers: each window is the next layer. -/
theorem layerWindowMapFrom_eq {n : Nat} (hn : 2 ≤ n) :
    (layerWindowMapFrom n (n + 1)).1 =
      (List.range n).map fun (i : Nat) => (i : Int) + 1 := by
  have hdiv : (n + 1) / n = 1 := Nat.div_eq_of_lt_le (by omega) (by omega)
  have hmod : (n + 1) % n = 1 := by
    rw [Nat.add_mod_left, Nat.mod_eq_of_lt (by omega)]
  -- The induction is on how many windows are made; the first leaves 1 behind.
  have hfold : ∀ k, (List.range (k + 1)).foldl (fun (acc : List Int × Int) (i : Nat) =>
      let window : Int := ((1 : Nat) : Int) * (i + 1) - 1
      if i < 1 then (acc.1 ++ [window + (i + 1)], (i : Int) + 1)
      else (acc.1 ++ [window + acc.2], acc.2)) ([], 0) =
      ((List.range (k + 1)).map fun (i : Nat) => (i : Int) + 1, 1) := by
    intro k
    induction k with
    | zero => rfl
    | succ k ih =>
        rw [List.range_succ, List.foldl_append, ih, List.map_append]
        simp
  obtain ⟨k, rfl⟩ : ∃ k, n = k + 1 := ⟨n - 1, by omega⟩
  rw [layerWindowMapFrom, hdiv, hmod, hfold]

/-- A handler between layers. -/
def handlerAt (n current count : Nat) (states : List (Tag × State α))
    (bufs : List (Tag × Option (Tensor α)))
    (mapping : List (Nat × List (Key × Offloaded α))) : Handler α :=
  { (Handler.init n (n + 1) : Handler α) with
    currentGroup := current
    tensorTagToState := states
    tensorTagToBuf := bufs
    offloadedGroupCount := count
    groupOffloadMapping := mapping }

variable {n : Nat}

theorem windowAt_of_lt {h : Handler α} (hn : 2 ≤ n)
    (hmap : h.layerWindowMap = (layerWindowMapFrom n (n + 1)).1) {i : Nat}
    (hi : i < n) : h.windowAt i = .ok ((i : Int) + 1) := by
  have hget : h.layerWindowMap[i]? = some ((i : Int) + 1) := by
    rw [hmap, layerWindowMapFrom_eq hn, List.getElem?_map,
      List.getElem?_range hi]
    rfl
  rw [Handler.windowAt, if_pos (Int.natCast_nonneg i), Int.toNat_natCast,
    hget]

end Windows

section Marking

/-- What stands for an offloaded tensor. -/
def marked (tensor : Tensor α) : State α :=
  .offloaded (getUniqueTensorKey tensor) tensor.shape

theorem markGroup_append {group : Nat} {front back : List (Tag × State α)}
    {mapping : List (Key × Tensor α)}
    (h : ∀ e ∈ front, e.1.1 ≠ group) :
    Handler.markGroup group (front ++ back) mapping =
      (fun result => (front ++ result.1, result.2)) <$>
        Handler.markGroup group back mapping := by
  induction front with
  | nil =>
      rw [List.nil_append]
      exact (id_map _).symm
  | cons e front ih =>
      obtain ⟨tag, state⟩ := e
      have hne : ¬ tag.1 = group := h _ List.mem_cons_self
      rw [List.cons_append, Handler.markGroup.eq_def]
      simp only [if_neg hne, ih fun e he => h e (List.mem_cons_of_mem _ he)]
      cases Handler.markGroup group back mapping <;> rfl

theorem markGroup_tagged (group count : Nat) (tensors : List (Tensor α))
    (mapping : List (Key × Tensor α)) :
    Handler.markGroup group (tagged group .tensor count tensors) mapping =
      .ok (tagged group marked count tensors,
        tensors.foldl Handler.addKey mapping) := by
  induction tensors generalizing count mapping with
  | nil => rfl
  | cons tensor tensors ih =>
      rw [tagged, Handler.markGroup, if_pos rfl]
      simp only [ih]
      rfl

/-- The copies of a group. -/
def copies (tensors : List (Tensor α)) : List (Key × Offloaded α) :=
  (tensors.foldl Handler.addKey []).map fun e => (e.1, offload e.2)

/-- The copies of the groups from one on. -/
def groupCopies : Nat → List (List (Tensor α)) →
    List (Nat × List (Key × Offloaded α))
  | _, [] => []
  | group, tensors :: saved =>
      (group, copies tensors) :: groupCopies (group + 1) saved

theorem groupCopies_append_singleton (group : Nat)
    (saved : List (List (Tensor α))) (tensors : List (Tensor α)) :
    groupCopies group (saved ++ [tensors]) =
      groupCopies group saved ++ [(group + saved.length, copies tensors)] := by
  induction saved generalizing group with
  | nil => rfl
  | cons front saved ih =>
      have hgroup : group + 1 + saved.length = group + (saved.length + 1) := by
        omega
      rw [List.cons_append, groupCopies, ih, groupCopies, List.length_cons,
        List.cons_append, hgroup]

theorem mem_groupCopies {group : Nat} {saved : List (List (Tensor α))}
    {e : Nat × List (Key × Offloaded α)}
    (h : e ∈ groupCopies group saved) : e.1 < group + saved.length := by
  induction saved generalizing group with
  | nil => cases h
  | cons tensors saved ih =>
      rw [List.length_cons]
      rcases List.mem_cons.mp h with rfl | h
      · simp only []
        omega
      · have hlt := ih h
        omega

theorem notMem_groupCopies (group : Nat) (saved : List (List (Tensor α))) :
    group + saved.length ∉ (groupCopies group saved).map Prod.fst := by
  intro hmem
  obtain ⟨e, he, hkey⟩ := List.mem_map.mp hmem
  have hlt := mem_groupCopies he
  omega

/-- The tensors of the current group are copied, those before are as they
are. -/
theorem bulkOffloadGroup_eq (saved : List (List (Tensor α)))
    (tensors : List (Tensor α)) {h : Handler α}
    (hstates : h.tensorTagToState = groups marked 0 saved ++
      tagged saved.length .tensor 0 tensors)
    (hmapping : h.groupOffloadMapping = groupCopies 0 saved) :
    h.bulkOffloadGroup saved.length = .ok { h with
      tensorTagToState := groups marked 0 (saved ++ [tensors])
      groupOffloadMapping := groupCopies 0 (saved ++ [tensors]) } := by
  have hother : ∀ e ∈ groups (α := α) marked 0 saved,
      e.1.1 ≠ saved.length := by
    intro e he
    have hlt := (mem_groups he).2
    omega
  have hnew : saved.length ∉ (groupCopies 0 saved).map Prod.fst := by
    have h := notMem_groupCopies 0 saved
    rwa [Nat.zero_add] at h
  have hmark : Handler.markGroup saved.length h.tensorTagToState [] =
      .ok (groups marked 0 (saved ++ [tensors]),
        tensors.foldl Handler.addKey []) := by
    rw [hstates, markGroup_append hother, markGroup_tagged,
      groups_append_singleton, Nat.zero_add]
    rfl
  rw [Handler.bulkOffloadGroup, hmark, ok_bind]
  simp only []
  rw [hmapping, dictSet_of_notMem _ hnew, groupCopies_append_singleton,
    Nat.zero_add]
  rfl

end Marking

section Forward

variable {n : Nat} {saved : List (List (Tensor α))} {h : Handler α}
  {tensors : List (Tensor α)}

/-- Equal in shape and values. -/
def Same (pushed popped : Tensor α) : Prop :=
  popped.shape = pushed.shape ∧ popped.values = pushed.values

/-- The tags of the layers saved so far. -/
def tagsOfGroups (saved : List (List (Tensor α))) : List Tag :=
  (groups (fun _ => ()) 0 saved).map Prod.fst

def tagsOfGroup (group : Nat) (tensors : List (Tensor α)) : List Tag :=
  (tagged group (fun _ => ()) 0 tensors).map Prod.fst

theorem tagsOfGroups_append_singleton (saved : List (List (Tensor α)))
    (tensors : List (Tensor α)) :
    tagsOfGroups (saved ++ [tensors]) =
      tagsOfGroups saved ++ tagsOfGroup saved.length tensors := by
  rw [tagsOfGroups, groups_append_singleton, List.map_append, Nat.zero_add]
  rfl

/-- Before the forward pass of a layer: all layers before it are offloaded. -/
def Entering (n : Nat) (saved : List (List (Tensor α))) (h : Handler α) :
    Prop :=
  ∃ bufs, bufs.map Prod.fst = tagsOfGroups saved ∧
    h = handlerAt n saved.length (saved.length - 1) (groups marked 0 saved)
      bufs (groupCopies 0 saved)

/-- Before the backward commit of a layer: what it saved is on the device, and
the layers before it are offloaded. -/
def Returning (n : Nat) (saved : List (List (Tensor α)))
    (tensors : List (Tensor α)) (h : Handler α) : Prop :=
  ∃ bufs recovered, List.Forall₂ Same tensors recovered ∧
    bufs.map Prod.fst = tagsOfGroups saved ++
      (if saved.length < n then tagsOfGroup saved.length tensors else []) ∧
    h = handlerAt n (saved.length + 1) (max saved.length 1)
      (groups marked 0 saved ++ tagged saved.length .tensor 0 recovered) bufs
      (groupCopies 0 saved)

theorem forall₂_same_refl (tensors : List (Tensor α)) :
    List.Forall₂ Same tensors tensors := by
  induction tensors with
  | nil => exact .nil
  | cons tensor tensors ih => exact .cons ⟨rfl, rfl⟩ ih

theorem entering_init (n : Nat) :
    Entering n [] (Handler.init n (n + 1) : Handler α) :=
  ⟨[], rfl, rfl⟩

theorem fresh_groups {β : Type} (f : Tensor α → β)
    (saved : List (List (Tensor α))) :
    Fresh saved.length 0 (groups f 0 saved) := by
  intro e he hgroup
  have hlt := (mem_groups he).2
  omega

theorem fresh_bufs {bufs : List (Tag × Option (Tensor α))}
    (hbufs : bufs.map Prod.fst = tagsOfGroups saved) :
    Fresh saved.length 0 bufs := by
  intro e he hgroup
  have hmem : e.1 ∈ tagsOfGroups saved := by
    rw [← hbufs]
    exact List.mem_map_of_mem he
  obtain ⟨e', he', hkey⟩ := List.mem_map.mp hmem
  have hlt := (mem_groups he').2
  rw [hkey] at hlt
  omega

theorem keys_freed (bufs : List (Tag × Option (Tensor α))) (group : Nat) :
    (bufs.map fun e => if e.1.1 = group then (e.1, none) else e).map
      Prod.fst = bufs.map Prod.fst := by
  rw [List.map_map]
  apply List.map_congr_left
  intro e _
  simp only [Function.comp_apply]
  split <;> rfl

theorem keys_bufs_append {bufs : List (Tag × Option (Tensor α))}
    (hbufs : bufs.map Prod.fst = tagsOfGroups saved)
    (tensors : List (Tensor α)) :
    (bufs ++ tagged saved.length some 0 tensors).map Prod.fst =
      tagsOfGroups saved ++ tagsOfGroup saved.length tensors := by
  rw [List.map_append, hbufs, keys_tagged saved.length 0 some (fun _ => ())]
  rfl

/-- The first commit starts the offloading. -/
theorem synchronize_first {offloaded : Handler α} {window : Int}
    (hoffload : h.bulkOffloadGroup 0 = .ok offloaded)
    (hwindow : offloaded.windowAt offloaded.offloadedGroupCount = .ok window)
    (hne : window ≠ 0) :
    h.synchronizeOnGroupCommitForward 0 = .ok offloaded := by
  have hne' : ¬ window = ((0 : Nat) : Int) := hne
  rw [Handler.synchronizeOnGroupCommitForward, if_pos rfl, hoffload, ok_bind]
  beta_reduce
  rw [hwindow, ok_bind, if_neg hne']
  rfl

/-- Later ones let go of the group offloaded before, and offload the next. -/
theorem synchronize_next {offloaded : Handler α} {current : Nat}
    (hcurrent : h.offloadedGroupCount + 1 = current)
    (hwindow : h.windowAt h.offloadedGroupCount = .ok (current : Int))
    (hlt : (h.offloadedGroupCount : Int) < h.numOffloadGroup - 1)
    (hoffload : (h.freeGroup h.offloadedGroupCount).bulkOffloadGroup current =
      .ok offloaded) :
    h.synchronizeOnGroupCommitForward current = .ok { offloaded with
      offloadedGroupCount := offloaded.offloadedGroupCount + 1 } := by
  have hne : current ≠ 0 := by omega
  have hlt' : ((h.freeGroup h.offloadedGroupCount).offloadedGroupCount : Int) <
      (h.freeGroup h.offloadedGroupCount).numOffloadGroup - 1 := hlt
  have hoffload' : (h.freeGroup h.offloadedGroupCount).bulkOffloadGroup
      ((h.freeGroup h.offloadedGroupCount).offloadedGroupCount + 1) =
      .ok offloaded := by
    rw [← hcurrent] at hoffload
    exact hoffload
  rw [Handler.synchronizeOnGroupCommitForward, if_neg hne, ok_bind]
  beta_reduce
  rw [hwindow, ok_bind, if_pos rfl]
  simp only []
  rw [if_pos hlt', hoffload', ok_bind]
  rfl

/-- The last one has nothing left to offload. -/
theorem synchronize_last {current : Nat} (hcurrent : current ≠ 0)
    (hwindow : h.windowAt h.offloadedGroupCount = .ok (current : Int))
    (hle : ¬ (h.offloadedGroupCount : Int) < h.numOffloadGroup - 1) :
    h.synchronizeOnGroupCommitForward current =
      .ok { h.freeGroup h.offloadedGroupCount with
        offloadedGroupCount := h.offloadedGroupCount + 1 } := by
  have hle' : ¬ ((h.freeGroup h.offloadedGroupCount).offloadedGroupCount :
      Int) < (h.freeGroup h.offloadedGroupCount).numOffloadGroup - 1 := hle
  rw [Handler.synchronizeOnGroupCommitForward, if_neg hcurrent, ok_bind]
  beta_reduce
  rw [hwindow, ok_bind, if_pos rfl]
  simp only []
  rw [if_neg hle', ok_bind]
  rfl

theorem commitForward_of_synchronize {next : Handler α}
    (hsync : h.synchronizeOnGroupCommitForward h.currentGroup = .ok next) :
    h.onGroupCommitForward = .ok { next with
      currentGroup := next.currentGroup + 1
      tensorCountCurrentGroup := 0 } := by
  rw [Handler.onGroupCommitForward, hsync]
  rfl

/-- A handler amid a layer, after so many pushes. -/
def pushedAt (n current count : Nat) (states : List (Tag × State α))
    (bufs : List (Tag × Option (Tensor α)))
    (mapping : List (Nat × List (Key × Offloaded α))) (pushed : Nat) :
    Handler α :=
  { handlerAt n current count states bufs mapping with
    tensorCountCurrentGroup := pushed }

theorem saved_handlerAt (current count : Nat) (states : List (Tag × State α))
    (bufs : List (Tag × Option (Tensor α)))
    (mapping : List (Nat × List (Key × Offloaded α))) :
    (handlerAt n current count states bufs mapping).saved tensors =
      pushedAt n current count
        (states ++ tagged current .tensor 0 tensors)
        (if current < n then bufs ++ tagged current some 0 tensors else bufs)
        mapping tensors.length := by
  simp only [Handler.saved, pushedAt, handlerAt, Handler.init, Nat.zero_add]
  rfl

/-- The forward commit of a layer that is offloaded. -/
theorem commitForward_inner (hn : 2 ≤ n) (hlt : saved.length < n)
    (h' : Entering n saved h) :
    ∃ next, (h.saved tensors).onGroupCommitForward = .ok next ∧
      Entering n (saved ++ [tensors]) next := by
  obtain ⟨bufs, hbufs, rfl⟩ := h'
  have hkeys := keys_bufs_append hbufs tensors
  rw [← tagsOfGroups_append_singleton] at hkeys
  rw [saved_handlerAt, if_pos hlt]
  rcases Nat.eq_zero_or_pos saved.length with hzero | hpos
  · obtain rfl := List.length_eq_zero_iff.mp hzero
    have hoffload := bulkOffloadGroup_eq [] tensors
      (h := pushedAt n 0 0 (tagged 0 .tensor 0 tensors)
        (bufs ++ tagged 0 some 0 tensors) [] tensors.length) rfl rfl
    have hwindow := windowAt_of_lt (n := n) (i := 0)
      (h := pushedAt n 0 0 (groups marked 0 [tensors])
        (bufs ++ tagged 0 some 0 tensors) (groupCopies 0 [tensors])
        tensors.length) hn rfl (by omega)
    exact ⟨_, commitForward_of_synchronize
      (synchronize_first hoffload hwindow (by decide)), _, hkeys, rfl⟩
  · have hcount : saved.length - 1 + 1 = saved.length := by omega
    have hwindow := windowAt_of_lt (n := n) (i := saved.length - 1)
      (h := pushedAt n saved.length (saved.length - 1)
        (groups marked 0 saved ++ tagged saved.length .tensor 0 tensors)
        (bufs ++ tagged saved.length some 0 tensors) (groupCopies 0 saved)
        tensors.length) hn rfl (by omega)
    rw [show ((saved.length - 1 : Nat) : Int) + 1 = (saved.length : Nat) by
      omega] at hwindow
    have hoffload := bulkOffloadGroup_eq saved tensors
      (h := (pushedAt n saved.length (saved.length - 1)
        (groups marked 0 saved ++ tagged saved.length .tensor 0 tensors)
        (bufs ++ tagged saved.length some 0 tensors) (groupCopies 0 saved)
        tensors.length).freeGroup (saved.length - 1)) rfl rfl
    refine ⟨_, commitForward_of_synchronize (synchronize_next hcount hwindow
      (show ((saved.length - 1 : Nat) : Int) < (n : Int) - 1 by omega)
      hoffload), _, (keys_freed _ (saved.length - 1)).trans hkeys, ?_⟩
    rw [List.length_append, List.length_singleton, Nat.add_sub_cancel]
    simp only [Handler.freeGroup, pushedAt, handlerAt, Handler.init, hcount]

/-- The forward commit of the last layer, which stays on the device. -/
theorem commitForward_last (hn : 2 ≤ n) (hlast : saved.length = n)
    (h' : Entering n saved h) :
    ∃ next, (h.saved tensors).onGroupCommitForward = .ok next ∧
      Returning n saved tensors next := by
  obtain ⟨bufs, hbufs, rfl⟩ := h'
  have hge : ¬ saved.length < n := by omega
  have hcount : saved.length - 1 + 1 = saved.length := by omega
  rw [saved_handlerAt, if_neg hge]
  have hwindow := windowAt_of_lt (n := n) (i := saved.length - 1)
    (h := pushedAt n saved.length (saved.length - 1)
      (groups marked 0 saved ++ tagged saved.length .tensor 0 tensors)
      bufs (groupCopies 0 saved) tensors.length) hn rfl (by omega)
  rw [show ((saved.length - 1 : Nat) : Int) + 1 = (saved.length : Nat) by
    omega] at hwindow
  refine ⟨_, commitForward_of_synchronize (synchronize_last
    (show saved.length ≠ 0 by omega) hwindow
    (show ¬ ((saved.length - 1 : Nat) : Int) < (n : Int) - 1 by omega)),
    bufs.map fun e => if e.1.1 = saved.length - 1 then (e.1, none) else e,
    tensors, forall₂_same_refl tensors, ?_, ?_⟩
  · rw [if_neg hge, List.append_nil]
    exact (keys_freed _ (saved.length - 1)).trans hbufs
  · rw [show max saved.length 1 = saved.length by omega]
    simp only [Handler.freeGroup, pushedAt, handlerAt, Handler.init, hcount]
    rfl

end Forward

section Lookup

variable {κ β γ : Type} [BEq κ] [LawfulBEq κ]

theorem lookup_of_mem {entries : List (κ × β)} {key : κ} {value : β}
    (hnodup : (entries.map Prod.fst).Nodup) (h : (key, value) ∈ entries) :
    entries.lookup key = some value := by
  obtain ⟨front, back, rfl⟩ := List.append_of_mem h
  rw [List.lookup_eq_some_iff]
  refine ⟨front, back, rfl, fun e he => ?_⟩
  rw [List.map_append, List.map_cons] at hnodup
  have hne := (List.nodup_append.mp hnodup).2.2 e.1 (List.mem_map_of_mem he)
    key List.mem_cons_self
  exact bne_iff_ne.mpr fun heq => hne heq.symm

theorem lookup_map_value (f : κ → β → γ) (entries : List (κ × β)) (key : κ) :
    (entries.map fun e => (e.1, f e.1 e.2)).lookup key =
      (entries.lookup key).map (f key) := by
  induction entries with
  | nil => rfl
  | cons e entries ih =>
      obtain ⟨key', value⟩ := e
      rw [List.map_cons, List.lookup_cons, List.lookup_cons, ih]
      cases h : key == key' with
      | true =>
          rw [beq_iff_eq.mp h]
          rfl
      | false => rfl

theorem lookup_filter_of_pos {entries : List (κ × β)} (keep : κ → Bool)
    {key : κ} (h : keep key = true) :
    (entries.filter fun e => keep e.1).lookup key = entries.lookup key := by
  induction entries with
  | nil => rfl
  | cons e entries ih =>
      obtain ⟨key', value⟩ := e
      rw [List.filter_cons]
      by_cases hkeep : keep key' = true
      · rw [if_pos hkeep, List.lookup_cons, List.lookup_cons, ih]
      · have hne : key ≠ key' := fun heq => hkeep (heq ▸ h)
        rw [if_neg hkeep, ih, List.lookup_cons, beq_eq_false_iff_ne.mpr hne]

end Lookup

section Reloading

variable {n : Nat} {saved : List (List (Tensor α))} {h : Handler α}
  {tensors : List (Tensor α)}

/-- Tensors of one address and dtype hold the same, row by row: a view of the
first of them is as good as each. -/
def Deduplicable (tensors : List (Tensor α)) : Prop :=
  ∀ tensor ∈ tensors, ∀ first, tensors.find? (fun other =>
    getUniqueTensorKey other = getUniqueTensorKey tensor) = some first →
    first.values = tensor.values

theorem lookup_foldl_addKey (mapping : List (Key × Tensor α))
    (tensors : List (Tensor α)) (key : Key) :
    (tensors.foldl Handler.addKey mapping).lookup key =
      (mapping.lookup key).or (tensors.find? fun tensor =>
        getUniqueTensorKey tensor = key) := by
  induction tensors generalizing mapping with
  | nil => rw [List.foldl_nil, List.find?_nil, Option.or_none]
  | cons tensor tensors ih =>
      rw [List.foldl_cons, ih, Handler.addKey, List.find?_cons]
      by_cases hmem : getUniqueTensorKey tensor ∈ mapping.map Prod.fst
      · rw [if_pos hmem]
        by_cases hkey : getUniqueTensorKey tensor = key
        · obtain ⟨e, he, hfst⟩ := List.mem_map.mp hmem
          have hsome : (mapping.lookup key).isSome = true := by
            rw [List.lookup_isSome_iff]
            exact ⟨e, he, beq_iff_eq.mpr (hkey.symm.trans hfst.symm)⟩
          obtain ⟨found, hfound⟩ := Option.isSome_iff_exists.mp hsome
          rw [hfound, Option.some_or, Option.some_or]
        · rw [decide_eq_false hkey]
      · rw [if_neg hmem, List.lookup_append, List.lookup_cons,
          List.lookup_nil, Option.or_assoc]
        by_cases hkey : getUniqueTensorKey tensor = key
        · rw [decide_eq_true hkey, beq_iff_eq.mpr hkey.symm]
          rfl
        · rw [decide_eq_false hkey,
            beq_eq_false_iff_ne.mpr fun heq => hkey heq.symm]
          rfl

/-- The copies of a group, back on the device. -/
def reloaded (allocated : Key → Nat) (copies : List (Key × Offloaded α)) :
    List (Key × Tensor α) :=
  copies.map fun e => (e.1, reload e.2 (allocated e.1))

theorem exists_reloaded (hdedup : Deduplicable tensors) {tensor : Tensor α}
    (hmem : tensor ∈ tensors) (allocated : Key → Nat) :
    ∃ copy, (reloaded allocated (copies tensors)).lookup
        (getUniqueTensorKey tensor) = some copy ∧
      copy.values = tensor.values := by
  have hsome : (tensors.find? fun other =>
      getUniqueTensorKey other = getUniqueTensorKey tensor).isSome = true := by
    rw [List.find?_isSome]
    exact ⟨tensor, hmem, decide_eq_true rfl⟩
  obtain ⟨first, hfirst⟩ := Option.isSome_iff_exists.mp hsome
  refine ⟨reload (offload first) (allocated (getUniqueTensorKey tensor)), ?_,
    hdedup tensor hmem first hfirst⟩
  have hcopies := lookup_map_value
    (fun (_ : Key) (first : Tensor α) => offload first)
    (tensors.foldl Handler.addKey []) (getUniqueTensorKey tensor)
  rw [lookup_foldl_addKey, hfirst] at hcopies
  have hreload := lookup_map_value
    (fun (key : Key) (copy : Offloaded α) => reload copy (allocated key))
    (copies tensors) (getUniqueTensorKey tensor)
  rw [copies, hcopies] at hreload
  exact hreload

theorem view_of_values {copy tensor : Tensor α}
    (hvalues : copy.values = tensor.values) :
    ∃ recovered, copy.view tensor.shape = .ok recovered ∧
      Same tensor recovered := by
  have hnumel : copy.values.length = tensor.shape.prod := by
    rw [hvalues, tensor.numel_eq]
  rw [Tensor.view, dif_pos hnumel]
  exact ⟨_, rfl, rfl, hvalues⟩

/-- Entries of other groups, and tensors, stay. -/
theorem recoverGroup_other {group : Nat} (mapping : List (Key × Tensor α))
    {front : List (Tag × State α)} (back : List (Tag × State α))
    (h : ∀ e ∈ front, e.1.1 ≠ group) :
    Handler.recoverGroup group mapping (front ++ back) =
      (front ++ ·) <$> Handler.recoverGroup group mapping back := by
  induction front with
  | nil =>
      rw [List.nil_append]
      exact (id_map _).symm
  | cons e front ih =>
      obtain ⟨tag, state⟩ := e
      have hne : ¬ tag.1 = group := h _ List.mem_cons_self
      have hrest := ih fun e he => h e (List.mem_cons_of_mem _ he)
      cases state with
      | tensor tensor =>
          rw [List.cons_append, Handler.recoverGroup, hrest]
          cases Handler.recoverGroup group mapping back <;> rfl
      | offloaded key shape =>
          rw [List.cons_append, Handler.recoverGroup, if_neg hne, ok_bind,
            hrest]
          cases Handler.recoverGroup group mapping back <;> rfl

theorem recoverGroup_tensors (group current count : Nat)
    (mapping : List (Key × Tensor α)) (tensors : List (Tensor α)) :
    Handler.recoverGroup group mapping
        (tagged current .tensor count tensors) =
      .ok (tagged current .tensor count tensors) := by
  induction tensors generalizing count with
  | nil => rfl
  | cons tensor tensors ih =>
      rw [tagged, Handler.recoverGroup, ih]
      rfl

/-- The marks of the group become tensors again. -/
theorem recoverGroup_marked {group : Nat} {mapping : List (Key × Tensor α)}
    {back : List (Tag × State α)} {tensors : List (Tensor α)}
    (hcopies : ∀ tensor ∈ tensors, ∃ copy,
      mapping.lookup (getUniqueTensorKey tensor) = some copy ∧
      copy.values = tensor.values)
    (hback : Handler.recoverGroup group mapping back = .ok back)
    (count : Nat) :
    ∃ recovered, List.Forall₂ Same tensors recovered ∧
      Handler.recoverGroup group mapping
          (tagged group marked count tensors ++ back) =
        .ok (tagged group .tensor count recovered ++ back) := by
  induction tensors generalizing count with
  | nil => exact ⟨[], .nil, hback⟩
  | cons tensor tensors ih =>
      obtain ⟨copy, hlookup, hvalues⟩ := hcopies tensor List.mem_cons_self
      obtain ⟨view, hview, hsame⟩ := view_of_values hvalues
      obtain ⟨recovered, hall, hrecover⟩ := ih
        (fun other hmem => hcopies other (List.mem_cons_of_mem _ hmem))
        (count + 1)
      refine ⟨view :: recovered, .cons hsame hall, ?_⟩
      rw [tagged, List.cons_append, marked, Handler.recoverGroup, if_pos rfl]
      simp only [hlookup, hview, hrecover]
      rfl

theorem lookup_groupCopies (saved : List (List (Tensor α)))
    (tensors : List (Tensor α)) :
    (groupCopies 0 (saved ++ [tensors])).lookup saved.length =
      some (copies tensors) := by
  have hnone : (groupCopies 0 saved).lookup saved.length = none := by
    rw [List.lookup_eq_none_iff]
    intro e he
    have hlt := mem_groupCopies he
    exact bne_iff_ne.mpr (by omega)
  rw [groupCopies_append_singleton, List.lookup_append, hnone, Nat.zero_add,
    Option.none_or, List.lookup_cons, beq_self_eq_true]

theorem dictDrop_groupCopies (saved : List (List (Tensor α)))
    (tensors : List (Tensor α)) :
    dictDrop (groupCopies 0 (saved ++ [tensors])) saved.length =
      groupCopies 0 saved := by
  rw [dictDrop, groupCopies_append_singleton, List.filter_append,
    List.filter_eq_self.mpr, Nat.zero_add]
  · simp
  · intro e he
    have hlt := mem_groupCopies he
    exact decide_eq_true (by omega)

/-- The last group that was offloaded comes back. -/
theorem bulkReloadGroup_eq (hlt : saved.length < n)
    (hdedup : Deduplicable tensors) (allocated : Key → Nat)
    (current count : Nat) (bufs : List (Tag × Option (Tensor α)))
    (recovered : List (Tensor α)) :
    ∃ last, List.Forall₂ Same tensors last ∧
      (handlerAt n current count (groups marked 0 (saved ++ [tensors]) ++
          tagged (saved.length + 1) .tensor 0 recovered) bufs
          (groupCopies 0 (saved ++ [tensors]))).bulkReloadGroup saved.length
        allocated =
      .ok (handlerAt n current count (groups marked 0 saved ++
        tagged saved.length .tensor 0 last ++
        tagged (saved.length + 1) .tensor 0 recovered) bufs
        (groupCopies 0 saved)) := by
  have hother : ∀ e ∈ groups (α := α) marked 0 saved,
      e.1.1 ≠ saved.length := by
    intro e he
    have hlt := (mem_groups he).2
    omega
  obtain ⟨last, hsame, hrecover⟩ := recoverGroup_marked
    (fun tensor hmem => exists_reloaded hdedup hmem allocated)
    (recoverGroup_tensors saved.length (saved.length + 1) 0
      (reloaded allocated (copies tensors)) recovered) 0
  refine ⟨last, hsame, ?_⟩
  have hstates : Handler.recoverGroup saved.length
      (reloaded allocated (copies tensors))
      (groups marked 0 (saved ++ [tensors]) ++
        tagged (saved.length + 1) .tensor 0 recovered) =
      .ok (groups marked 0 saved ++ tagged saved.length .tensor 0 last ++
        tagged (saved.length + 1) .tensor 0 recovered) := by
    rw [groups_append_singleton, Nat.zero_add, List.append_assoc,
      recoverGroup_other _ _ hother, hrecover, List.append_assoc]
    rfl
  rw [Handler.bulkReloadGroup]
  simp only [handlerAt, Handler.init, hlt, not_true_eq_false, if_false,
    lookup_groupCopies, dictDrop_groupCopies]
  rw [← reloaded, hstates]
  rfl

end Reloading

section Backward

variable {n : Nat} {saved : List (List (Tensor α))} {h : Handler α}
  {tensors : List (Tensor α)}

/-- What is left when the pops of a layer are over: the start, or the layer
before as it returns. -/
def Returned (n : Nat) (saved : List (List (Tensor α))) (h : Handler α) :
    Prop :=
  (saved = [] ∧ h = Handler.init n (n + 1)) ∨
  ∃ front last, saved = front ++ [last] ∧ Returning n front last h

/-- After the backward commit of a layer: what it saved stands behind what is
left when it is popped. -/
def Popping (n : Nat) (saved : List (List (Tensor α)))
    (tensors : List (Tensor α)) (h : Handler α) : Prop :=
  ∃ front count mapping bufs recovered,
    List.Forall₂ Same tensors recovered ∧
    bufs.map Prod.fst = tagsOfGroups saved ++
      (if saved.length < n then tagsOfGroup saved.length tensors else []) ∧
    (∀ e ∈ front, e.1.1 < saved.length) ∧
    h = handlerAt n saved.length count
      (front ++ tagged saved.length .tensor 0 recovered) bufs mapping ∧
    ∀ rest, rest.map Prod.fst = tagsOfGroups saved →
      Returned n saved (handlerAt n saved.length count front rest mapping)

/-- The backward commit of the layer before. -/
theorem onGroupCommitBackward_handlerAt (current count : Nat)
    (states : List (Tag × State α)) (bufs : List (Tag × Option (Tensor α)))
    (mapping : List (Nat × List (Key × Offloaded α)))
    (allocated : Key → Nat) :
    (handlerAt n (current + 1) count states bufs
        mapping).onGroupCommitBackward allocated = (do
      let window ← (handlerAt n current count states bufs mapping).windowAt
        ((count : Int) - 1)
      let h ←
        if window = (current : Int) then do
          let h ← (handlerAt n current count states bufs
            mapping).bulkReloadGroup (count - 1) allocated
          .ok { h with offloadedGroupCount := h.offloadedGroupCount -
            if h.offloadedGroupCount > 1 then 1 else 0 }
        else .ok (handlerAt n current count states bufs mapping)
      return if h.currentGroup = 0 then { h with offloadedGroupCount := 0 }
        else h) := rfl

theorem commitBackward_first (hn : 2 ≤ n) (h' : Returning n [] tensors h)
    (allocated : Key → Nat) :
    ∃ next, h.onGroupCommitBackward allocated = .ok next ∧
      Popping n [] tensors next := by
  obtain ⟨bufs, recovered, hsame, hbufs, rfl⟩ := h'
  refine ⟨handlerAt n 0 0 (tagged 0 .tensor 0 recovered) bufs [], ?_,
    [], 0, [], bufs, recovered, hsame, hbufs,
    fun _ hmem => absurd hmem List.not_mem_nil, rfl, ?_⟩
  · -- The window of the first group is the second layer.
    have hwindow : (handlerAt n 0 1 (tagged 0 .tensor 0 recovered) bufs
        []).windowAt (((1 : Nat) : Int) - 1) = .ok 1 :=
      windowAt_of_lt hn rfl (by omega : 0 < n)
    refine (onGroupCommitBackward_handlerAt 0 1
      (tagged 0 .tensor 0 recovered) bufs [] allocated).trans ?_
    rw [hwindow, ok_bind]
    rfl
  · intro rest hrest
    refine .inl ⟨rfl, ?_⟩
    rw [List.map_eq_nil_iff.mp hrest]
    rfl

/-- A later layer's backward commit brings the layer before it back. -/
theorem commitBackward_later (hn : 2 ≤ n) {last : List (Tensor α)}
    (hlt : saved.length < n) (hdedup : Deduplicable last)
    (h' : Returning n (saved ++ [last]) tensors h) (allocated : Key → Nat) :
    ∃ next, h.onGroupCommitBackward allocated = .ok next ∧
      Popping n (saved ++ [last]) tensors next := by
  obtain ⟨bufs, recovered, hsame, hbufs, rfl⟩ := h'
  have hlength : (saved ++ [last]).length = saved.length + 1 :=
    List.length_append
  have hmax : max (saved.length + 1) 1 = saved.length + 1 := by omega
  obtain ⟨back, hback, hreload⟩ := bulkReloadGroup_eq hlt hdedup allocated
    (saved.length + 1) (saved.length + 1) bufs recovered
  let front := groups marked 0 saved ++ tagged saved.length .tensor 0 back
  refine ⟨handlerAt n (saved.length + 1) (max saved.length 1)
    (front ++ tagged (saved.length + 1) .tensor 0 recovered) bufs
    (groupCopies 0 saved), ?_, front, max saved.length 1,
    groupCopies 0 saved, bufs, recovered, hsame, hbufs, ?_, ?_, ?_⟩
  · have hwindow : (handlerAt n (saved.length + 1) (saved.length + 1)
        (groups marked 0 (saved ++ [last]) ++
          tagged (saved.length + 1) .tensor 0 recovered) bufs
        (groupCopies 0 (saved ++ [last]))).windowAt
          (((saved.length + 1 : Nat) : Int) - 1) =
        .ok ((saved.length + 1 : Nat) : Int) := by
      have hat := windowAt_of_lt hn (h := handlerAt n (saved.length + 1)
        (saved.length + 1) (groups marked 0 (saved ++ [last]) ++
          tagged (saved.length + 1) .tensor 0 recovered) bufs
        (groupCopies 0 (saved ++ [last]))) rfl hlt
      rw [show ((saved.length + 1 : Nat) : Int) - 1 = (saved.length : Nat) by
        omega, hat]
      rfl
    have hcount : saved.length + 1 - (if saved.length + 1 > 1 then 1 else 0) =
        max saved.length 1 := by
      split <;> omega
    rw [hlength, hmax, onGroupCommitBackward_handlerAt, hwindow, ok_bind,
      if_pos rfl, Nat.add_sub_cancel, hreload]
    simp only [ok_bind, handlerAt, hcount]
    rfl
  · intro e he
    rw [hlength]
    rcases List.mem_append.mp he with he | he
    · have hlt := (mem_groups he).2
      omega
    · have heq := (mem_tagged he).1
      omega
  · rw [hlength]
  · intro rest hrest
    rw [hlength]
    refine .inr ⟨saved, last, rfl, rest, back, hback, ?_, rfl⟩
    rw [hrest, if_pos hlt, tagsOfGroups_append_singleton]

/-- The tags among what the pushes gave. -/
def storedTags (saved : List (Tensor α × TensorTag α)) : List Tag :=
  saved.filterMap fun e =>
    match e.2 with
    | .tag tag => some tag
    | .tensor _ => none

/-- What a tag or a tensor gives back is the same as what was pushed. -/
def GivesBack (states : List (Tag × State α))
    (e : Tensor α × TensorTag α) : Prop :=
  match e.2 with
  | .tensor tensor => Same e.1 tensor
  | .tag tag => ∃ recovered, states.lookup tag = some (.tensor recovered) ∧
      Same e.1 recovered

/-- The handler without some tags. -/
def Handler.without (h : Handler α) (tags : List Tag) : Handler α :=
  { h with
    tensorTagToState := h.tensorTagToState.filter fun e => e.1 ∉ tags
    tensorTagToBuf := h.tensorTagToBuf.filter fun e => e.1 ∉ tags }

theorem filter_dictDrop {β : Type} (entries : List (Tag × β)) (tag : Tag)
    (tags : List Tag) :
    (dictDrop entries tag).filter (fun e => e.1 ∉ tags) =
      entries.filter fun e => e.1 ∉ tag :: tags := by
  rw [dictDrop, List.filter_filter]
  apply List.filter_congr
  intro e _
  simp only [List.mem_cons, not_or, Bool.decide_and, ne_eq, Bool.and_comm]

/-- All pops of a layer, in any order. -/
theorem popAll_eq {saved : List (Tensor α × TensorTag α)}
    (hnodup : (storedTags saved).Nodup)
    (hgives : ∀ e ∈ saved, GivesBack h.tensorTagToState e) :
    ∃ pairs, popAll h saved = .ok (h.without (storedTags saved), pairs) ∧
      ∀ pair ∈ pairs, Same pair.1 pair.2 := by
  induction saved generalizing h with
  | nil =>
      refine ⟨[], ?_, fun _ hmem => absurd hmem List.not_mem_nil⟩
      cases h
      simp [popAll, Handler.without, storedTags]
  | cons e saved ih =>
      obtain ⟨pushed, tag⟩ := e
      have hfirst := hgives _ List.mem_cons_self
      have hrest := fun e hmem => hgives e (List.mem_cons_of_mem _ hmem)
      cases tag with
      | tensor tensor =>
          obtain ⟨pairs, hpairs, hsame⟩ := ih hnodup hrest
          refine ⟨(pushed, tensor) :: pairs, ?_, ?_⟩
          · rw [popAll, Handler.tensorPop, ok_bind]
            simp only []
            rw [hpairs]
            rfl
          · exact List.forall_mem_cons.mpr ⟨hfirst, hsame⟩
      | tag tag =>
          obtain ⟨recovered, hlookup, hsameFirst⟩ := hfirst
          obtain ⟨hnew, hnodupRest⟩ := List.nodup_cons.mp hnodup
          let next : Handler α := { h with
            tensorTagToState := dictDrop h.tensorTagToState tag
            tensorTagToBuf := dictDrop h.tensorTagToBuf tag }
          have hgivesRest : ∀ e ∈ saved,
              GivesBack next.tensorTagToState e := by
            intro e hmem
            obtain ⟨pushed', tag'⟩ := e
            have hold := hrest _ hmem
            cases tag' with
            | tensor tensor => exact hold
            | tag tag' =>
                obtain ⟨recovered', hlookup', hsame'⟩ := hold
                have hne : tag' ≠ tag := fun heq => hnew (heq ▸
                  List.mem_filterMap.mpr ⟨_, hmem, rfl⟩)
                refine ⟨recovered', ?_, hsame'⟩
                rw [← hlookup']
                exact lookup_filter_of_pos
                  (fun key => decide (key ≠ tag)) (decide_eq_true hne)
          obtain ⟨pairs, hpairs, hsame⟩ := ih hnodupRest hgivesRest
          refine ⟨(pushed, recovered) :: pairs, ?_, ?_⟩
          · have hpop : h.tensorPop (.tag tag) = .ok (next, recovered) := by
              rw [Handler.tensorPop, hlookup]
            have hwithout : next.without (storedTags saved) =
                h.without (tag :: storedTags saved) := by
              simp only [Handler.without, next, filter_dictDrop]
            rw [popAll, hpop, ok_bind]
            simp only []
            rw [hpairs, hwithout]
            rfl
          · exact List.forall_mem_cons.mpr ⟨hsameFirst, hsame⟩

theorem storedTags_zip (checker : Tensor α → Bool) (group count : Nat)
    (tensors : List (Tensor α)) :
    storedTags (tensors.zip (tagsOf checker group count tensors)) =
      (tagged group (fun _ => ()) count (needed checker tensors)).map
        Prod.fst := by
  induction tensors generalizing count with
  | nil => rfl
  | cons tensor tensors ih =>
      rw [tagsOf, needed_cons]
      by_cases h : (!tensor.stray && checker tensor) = true
      · rw [if_pos h, if_pos h, tagged, List.map_cons, ← ih]
        rfl
      · rw [if_neg h, if_neg h, ← ih]
        rfl

/-- A tag names the tensor pushed, and what stands for it. -/
theorem givesBack_of_mem {checker : Tensor α → Bool} {group count : Nat}
    {tensors recovered : List (Tensor α)} {states : List (Tag × State α)}
    (hsame : List.Forall₂ Same (needed checker tensors) recovered)
    (hmem : ∀ e ∈ tagged group State.tensor count recovered,
      states.lookup e.1 = some e.2) :
    ∀ e ∈ tensors.zip (tagsOf checker group count tensors),
      GivesBack states e := by
  induction tensors generalizing count recovered with
  | nil => exact fun _ he => absurd he List.not_mem_nil
  | cons tensor tensors ih =>
      rw [needed_cons] at hsame
      rw [tagsOf]
      by_cases h : (!tensor.stray && checker tensor) = true
      · rw [if_pos h] at hsame ⊢
        cases hsame with
        | cons hfirst hrest =>
            rename_i first rest
            rw [tagged, List.forall_mem_cons] at hmem
            rw [List.zip_cons_cons, List.forall_mem_cons]
            exact ⟨⟨first, hmem.1, hfirst⟩, ih hrest hmem.2⟩
      · rw [if_neg h] at hsame ⊢
        rw [List.zip_cons_cons, List.forall_mem_cons]
        exact ⟨⟨rfl, rfl⟩, ih hsame hmem⟩

theorem filterMap_getElem?_perm {β : Type} (xs : List β) {order : List Nat}
    (h : order.Perm (List.range xs.length)) :
    (order.filterMap fun i => xs[i]?).Perm xs := by
  have hrange : (List.range xs.length).filterMap (fun i => xs[i]?) = xs := by
    clear h
    induction xs with
    | nil => rfl
    | cons x xs ih =>
        rw [List.length_cons, List.range_succ_eq_map, List.filterMap_cons,
          List.filterMap_map]
        exact congrArg (x :: ·) ih
  have hperm := h.filterMap fun i => xs[i]?
  rwa [hrange] at hperm

theorem length_tagsOf (checker : Tensor α → Bool) (group count : Nat)
    (tensors : List (Tensor α)) :
    (tagsOf checker group count tensors).length = tensors.length := by
  induction tensors generalizing count with
  | nil => rfl
  | cons tensor tensors ih =>
      rw [tagsOf]
      split
      · rw [List.length_cons, ih, List.length_cons]
      · rw [List.length_cons, ih, List.length_cons]

theorem group_of_mem_tagsOfGroup {group : Nat} {tensors : List (Tensor α)}
    {tag : Tag} (h : tag ∈ tagsOfGroup group tensors) : tag.1 = group := by
  obtain ⟨e, he, rfl⟩ := List.mem_map.mp h
  exact (mem_tagged he).1

theorem group_of_mem_tagsOfGroups {tag : Tag}
    (h : tag ∈ tagsOfGroups saved) : tag.1 < saved.length := by
  obtain ⟨e, he, rfl⟩ := List.mem_map.mp h
  have hlt := (mem_groups he).2
  omega

theorem keys_of_forall₂ {β : Type} (f : Tensor α → β)
    {tensors recovered : List (Tensor α)}
    (h : List.Forall₂ Same tensors recovered) (group count : Nat) :
    (tagged group f count recovered).map Prod.fst =
      (tagged group (fun _ => ()) count tensors).map Prod.fst := by
  induction h generalizing count with
  | nil => rfl
  | cons _ _ ih => rw [tagged, tagged, List.map_cons, List.map_cons, ih]

/-- The backward pass of a layer: everything it saved comes back, and what is
left is as before the layer. -/
theorem popAll_layer {layer : Layer α}
    (h' : Popping n saved
      (needed layer.tensorNeedOffloadingChecker layer.tensors) h) :
    ∃ next pairs, popAll h (layer.order.filterMap fun i =>
        (layer.tensors.zip (tagsOf layer.tensorNeedOffloadingChecker
          saved.length 0 layer.tensors))[i]?) = .ok (next, pairs) ∧
      (∀ pair ∈ pairs, Same pair.1 pair.2) ∧ Returned n saved next := by
  obtain ⟨front, count, mapping, bufs, recovered, hsame, hbufs, hfront, rfl,
    hreturned⟩ := h'
  let checker := layer.tensorNeedOffloadingChecker
  let pushed := layer.tensors.zip
    (tagsOf checker saved.length 0 layer.tensors)
  let popped := layer.order.filterMap fun i => pushed[i]?
  have hlength : pushed.length = layer.tensors.length := by
    rw [List.length_zip, length_tagsOf, Nat.min_self]
  have hperm : popped.Perm pushed :=
    filterMap_getElem?_perm pushed (hlength ▸ layer.order_perm)
  have hstored : (storedTags popped).Perm
      (tagsOfGroup saved.length (needed checker layer.tensors)) :=
    (hperm.filterMap _).trans
      (List.Perm.of_eq (storedTags_zip checker saved.length 0 layer.tensors))
  have hnodup : (storedTags popped).Nodup :=
    hstored.nodup_iff.mpr (nodup_keys_tagged _ _ _ _)
  have hlookup : ∀ e ∈ tagged saved.length State.tensor 0 recovered,
      (front ++ tagged saved.length State.tensor 0 recovered).lookup e.1 =
        some e.2 := by
    intro e he
    have hnone : front.lookup e.1 = none := by
      rw [List.lookup_eq_none_iff]
      intro e' he'
      have hlt := hfront e' he'
      have hgroup := (mem_tagged he).1
      exact bne_iff_ne.mpr fun heq => by
        rw [← heq] at hlt
        omega
    rw [List.lookup_append, hnone, Option.none_or]
    exact lookup_of_mem (nodup_keys_tagged _ _ _ _) he
  have hgives := givesBack_of_mem hsame hlookup
  obtain ⟨pairs, hpairs, hpairsSame⟩ := popAll_eq hnodup
    (h := handlerAt n saved.length count
      (front ++ tagged saved.length State.tensor 0 recovered) bufs mapping)
    fun e hmem => hgives e (hperm.mem_iff.mp hmem)
  refine ⟨_, pairs, hpairs, hpairsSame, ?_⟩
  have hstates : (front ++ tagged saved.length State.tensor 0
      recovered).filter (fun e => e.1 ∉ storedTags popped) = front := by
    rw [List.filter_append, List.filter_eq_self.mpr, List.filter_eq_nil_iff.mpr,
      List.append_nil]
    · intro e he
      have hmem : e.1 ∈ tagsOfGroup saved.length
          (needed checker layer.tensors) := by
        rw [tagsOfGroup, ← keys_of_forall₂ State.tensor hsame]
        exact List.mem_map_of_mem he
      simp only [hstored.mem_iff.mpr hmem, not_true_eq_false, decide_false,
        Bool.false_eq_true, not_false_eq_true]
    · intro e he
      have hlt := hfront e he
      refine decide_eq_true fun hmem => ?_
      have hgroup := group_of_mem_tagsOfGroup (hstored.mem_iff.mp hmem)
      omega
  have hkeys : (bufs.filter fun e => e.1 ∉ storedTags popped).map Prod.fst =
      tagsOfGroups saved := by
    have hmap : (bufs.filter fun e => e.1 ∉ storedTags popped).map Prod.fst =
        (bufs.map Prod.fst).filter fun tag => tag ∉ storedTags popped := by
      rw [List.filter_map]
      rfl
    rw [hmap, hbufs, List.filter_append, List.filter_eq_self.mpr,
      List.filter_eq_nil_iff.mpr, List.append_nil]
    · intro tag htag
      split at htag
      · simp only [hstored.mem_iff.mpr htag, not_true_eq_false, decide_false,
          Bool.false_eq_true, not_false_eq_true]
      · cases htag
    · intro tag htag
      have hlt := group_of_mem_tagsOfGroups htag
      refine decide_eq_true fun hmem => ?_
      have hgroup := group_of_mem_tagsOfGroup (hstored.mem_iff.mp hmem)
      omega
  have hdone := hreturned _ hkeys
  have hwithout : (handlerAt n saved.length count
      (front ++ tagged saved.length .tensor 0 recovered) bufs
      mapping).without (storedTags popped) =
      handlerAt n saved.length count front
        (bufs.filter fun e => e.1 ∉ storedTags popped) mapping := by
    simp only [Handler.without, handlerAt, Handler.init, hstates]
  rw [hwithout]
  exact hdone

end Backward

section Main

variable {n : Nat}

/-- What the handler takes charge of in each layer. -/
def neededOf (layer : Layer α) : List (Tensor α) :=
  needed layer.tensorNeedOffloadingChecker layer.tensors

/-- The saves of a layer. -/
theorem saveAll_entering {saved : List (List (Tensor α))} {h : Handler α}
    (hentering : Entering n saved h) (layer : Layer α) :
    saveAll h layer.tensorNeedOffloadingChecker layer.tensors =
      .ok (h.saved (neededOf layer), tagsOf layer.tensorNeedOffloadingChecker
        saved.length 0 layer.tensors) := by
  obtain ⟨bufs, hbufs, rfl⟩ := hentering
  exact saveAll_eq layer.tensorNeedOffloadingChecker layer.tensors
    (h := handlerAt n saved.length (saved.length - 1) (groups marked 0 saved)
      bufs (groupCopies 0 saved)) (fresh_groups marked saved)
    (fresh_bufs hbufs)

/-- The way back through a layer. -/
theorem backward_returning (hn : 2 ≤ n) {saved : List (List (Tensor α))}
    {h : Handler α} {layer : Layer α}
    (hreturning : Returning n saved (neededOf layer) h)
    (hle : saved.length ≤ n)
    (hdedup : ∀ tensors ∈ saved, Deduplicable tensors) :
    ∃ back next pairs, h.onGroupCommitBackward layer.allocated = .ok back ∧
      popAll back (layer.order.filterMap fun i =>
        (layer.tensors.zip (tagsOf layer.tensorNeedOffloadingChecker
          saved.length 0 layer.tensors))[i]?) = .ok (next, pairs) ∧
      (∀ pair ∈ pairs, Same pair.1 pair.2) ∧ Returned n saved next := by
  have hcommit : ∃ back, h.onGroupCommitBackward layer.allocated = .ok back ∧
      Popping n saved (neededOf layer) back := by
    rcases List.eq_nil_or_concat saved with rfl | ⟨front, last, rfl⟩
    · exact commitBackward_first hn hreturning layer.allocated
    · rw [List.concat_eq_append] at *
      rw [List.length_append, List.length_singleton] at hle
      exact commitBackward_later hn (by omega)
        (hdedup last (by simp)) hreturning layer.allocated
  obtain ⟨back, hback, hpopping⟩ := hcommit
  obtain ⟨next, pairs, hpop, hsame, hreturned⟩ := popAll_layer hpopping
  exact ⟨back, next, pairs, hback, hpop, hsame, hreturned⟩

/-- Entering a layer, it and the layers after it run forward and backward, and
everything they saved comes back: the induction is on the layers that are
left. -/
theorem iterate_entering (hn : 2 ≤ n) (layer : Layer α)
    (layers : List (Layer α)) {saved : List (List (Tensor α))}
    {h : Handler α} (hlength : saved.length + (layers.length + 1) = n + 1)
    (hentering : Entering n saved h)
    (hdedup : ∀ tensors ∈ saved, Deduplicable tensors)
    (hlayers : ∀ other ∈ (layer :: layers).dropLast,
      Deduplicable (neededOf other)) :
    ∃ next pairs, iterate h (layer :: layers) = .ok (next, pairs) ∧
      (∀ pair ∈ pairs, Same pair.1 pair.2) ∧ Returned n saved next := by
  induction layers generalizing layer saved h with
  | nil =>
      rw [List.length_nil] at hlength
      have hforward : ∃ next,
          (h.saved (neededOf layer)).onGroupCommitForward = .ok next ∧
          Returning n saved (neededOf layer) next :=
        commitForward_last hn (by omega) hentering
      obtain ⟨mid, hmid, hreturning⟩ := hforward
      obtain ⟨back, next, pairs, hback, hpop, hsame, hreturned⟩ :=
        backward_returning hn hreturning (by omega) hdedup
      refine ⟨next, pairs, ?_, hsame, hreturned⟩
      rw [iterate, saveAll_entering hentering, ok_bind]
      simp only [hmid, ok_bind, iterate, hback, hpop]
      rfl
  | cons other layers ih =>
      rw [List.length_cons] at hlength
      rw [List.dropLast_cons_of_ne_nil (List.cons_ne_nil other layers),
        List.forall_mem_cons] at hlayers
      have hforward : ∃ next,
          (h.saved (neededOf layer)).onGroupCommitForward = .ok next ∧
          Entering n (saved ++ [neededOf layer]) next :=
        commitForward_inner hn (by omega) hentering
      obtain ⟨mid, hmid, hentering'⟩ := hforward
      have hlength' : (saved ++ [neededOf layer]).length +
          (layers.length + 1) = n + 1 := by
        rw [List.length_append, List.length_singleton]
        omega
      have hdedup' : ∀ tensors ∈ saved ++ [neededOf layer],
          Deduplicable tensors := by
        intro tensors hmem
        rcases List.mem_append.mp hmem with hmem | hmem
        · exact hdedup tensors hmem
        · rw [List.mem_singleton.mp hmem]
          exact hlayers.1
      obtain ⟨later, laterPairs, hlater, hlaterSame, hlaterReturned⟩ :=
        ih other hlength' hentering' hdedup' hlayers.2
      have hreturning : Returning n saved (neededOf layer) later := by
        rcases hlaterReturned with ⟨hnil, -⟩ | ⟨front, last, heq, hreturning⟩
        · exact absurd hnil (by simp)
        · obtain ⟨rfl, hlast⟩ := List.append_inj' heq rfl
          rw [List.cons.inj hlast |>.1]
          exact hreturning
      obtain ⟨back, next, pairs, hback, hpop, hsame, hreturned⟩ :=
        backward_returning hn hreturning (by omega) hdedup
      refine ⟨next, laterPairs ++ pairs, ?_, ?_, hreturned⟩
      · rw [iterate, saveAll_entering hentering, ok_bind]
        simp only [hmid, ok_bind, hlater, hback, hpop]
        rfl
      · intro pair hmem
        rcases List.mem_append.mp hmem with hmem | hmem
        · exact hlaterSame pair hmem
        · exact hsame pair hmem

/-- Every iteration in which two tensors of a layer that is offloaded have one
key only where they hold the same gives back what was saved, and leaves the
handler as it was. -/
theorem iterateAll_transparent (numLayers : Nat) (hlayers : 3 ≤ numLayers)
    (iterations : List (List (Layer α)))
    (hlength : ∀ layers ∈ iterations, layers.length = numLayers)
    (hdedup : ∀ layers ∈ iterations, ∀ layer ∈ layers.dropLast,
      Deduplicable (neededOf layer)) :
    ∃ pairs, iterateAll (Handler.init (numLayers - 1) numLayers) iterations =
        .ok (Handler.init (numLayers - 1) numLayers, pairs) ∧
      ∀ pair ∈ pairs, Same pair.1 pair.2 := by
  obtain ⟨n, rfl⟩ : ∃ n, numLayers = n + 1 := ⟨numLayers - 1, by omega⟩
  have hn : 2 ≤ n := by omega
  rw [Nat.add_sub_cancel]
  induction iterations with
  | nil => exact ⟨[], rfl, fun _ hmem => absurd hmem List.not_mem_nil⟩
  | cons layers iterations ih =>
      rw [List.forall_mem_cons] at hlength hdedup
      obtain ⟨later, hlater, hlaterSame⟩ := ih hdedup.2 hlength.2
      obtain ⟨layer, rest, rfl⟩ : ∃ layer rest, layers = layer :: rest :=
        List.exists_cons_of_length_eq_add_one hlength.1
      have hstart : ([] : List (List (Tensor α))).length +
          (rest.length + 1) = n + 1 := by
        rw [List.length_nil, Nat.zero_add]
        exact hlength.1
      obtain ⟨next, pairs, hpairs, hsame, hreturned⟩ :=
        iterate_entering hn layer rest hstart (entering_init n)
          (fun _ hmem => absurd hmem List.not_mem_nil) hdedup.1
      have hinit : next = Handler.init n (n + 1) := by
        rcases hreturned with ⟨-, hnext⟩ | ⟨front, last, heq, -⟩
        · exact hnext
        · exact absurd heq (by simp)
      refine ⟨pairs ++ later, ?_, ?_⟩
      · rw [iterateAll, hpairs, ok_bind]
        simp only [hinit, hlater]
        rfl
      · intro pair hmem
        rcases List.mem_append.mp hmem with hmem | hmem
        · exact hsame pair hmem
        · exact hlaterSame pair hmem

/-- The numbers from 1 on. -/
def countingStorage : Storage Nat :=
  ⟨1000, "torch.float32", "cuda:0", fun i => i + 1⟩

/-- `[[1, 2], [3, 4]]` -/
def matrix : Tensor Nat := countingStorage.asStrided [2, 2] [2, 1] 0

/-- `[1, 2, 3, 4]` -/
def flatMatrix : Tensor Nat := countingStorage.asStrided [4] [1] 0

/-- `[[1, 3], [2, 4]]` -/
def matrixTransposed : Tensor Nat := countingStorage.asStrided [2, 2] [1, 2] 0

def layerSaving (tensors : List (Tensor Nat)) : Layer Nat where
  tensors := tensors
  tensorNeedOffloadingChecker := fun _ => true
  order := List.range tensors.length
  allocated := fun key => key.1 + 4096
  order_perm := List.Perm.refl _

theorem iterateAll_flatView :
    ∃ pairs, iterateAll (Handler.init 2 3)
        [[layerSaving [matrix, flatMatrix], layerSaving [matrix],
          layerSaving [matrix, matrixTransposed]]] =
        .ok (Handler.init 2 3, pairs) ∧
      ∀ pair ∈ pairs, Same pair.1 pair.2 := by
  apply iterateAll_transparent 3 (Nat.le_refl 3)
  · intro layers hlayers
    rw [List.mem_singleton.mp hlayers]
    rfl
  · intro layers hlayers layer hlayer tensor htensor first hfirst
    rw [List.mem_singleton.mp hlayers] at hlayer
    have hvalues : ∀ layer ∈ [layerSaving [matrix, flatMatrix],
        layerSaving [matrix]], ∀ tensor ∈ neededOf layer,
        tensor.values = [1, 2, 3, 4] := by
      decide
    rw [hvalues layer hlayer tensor htensor,
      hvalues layer hlayer first (List.mem_of_find?_eq_some hfirst)]

/-- A layer that saves a matrix and its transpose, two views with one address:
the transpose comes back as the matrix. -/
theorem transpose_lost :
    ¬ ∀ layers : List (Layer Nat), layers.length = 3 →
      ∃ pairs, iterate (Handler.init 2 3) layers =
          .ok (Handler.init 2 3, pairs) ∧
        ∀ pair ∈ pairs, Same pair.1 pair.2 := by
  intro h
  obtain ⟨pairs, hpairs, hsame⟩ := h [layerSaving [matrix, matrixTransposed],
    layerSaving [matrix], layerSaving [matrix]] rfl
  have hrun : ∃ first second third back, back.values = [1, 2, 3, 4] ∧
      iterate (Handler.init 2 3) [layerSaving [matrix, matrixTransposed],
        layerSaving [matrix], layerSaving [matrix]] =
      .ok (Handler.init 2 3,
        [first, second, third, (matrixTransposed, back)]) :=
    ⟨_, _, _, _, rfl, rfl⟩
  obtain ⟨first, second, third, back, hback, hrun⟩ := hrun
  have heq := Except.ok.inj (hrun.symm.trans hpairs)
  have hmem : (matrixTransposed, back) ∈ pairs := by
    rw [← (Prod.mk.inj heq).2]
    simp
  have hvalues : back.values = [1, 3, 2, 4] := (hsame _ hmem).2
  rw [hback] at hvalues
  exact absurd hvalues (by decide)

end Main

end ActivationOffload

end SelfDistillation
