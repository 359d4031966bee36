/-
`serialize_tensordict` and `deserialize_tensordict` (verl/protocol.py): a
TensorDict goes through plain tuples, each tensor as its bytes.
-/
import SelfDistillation.ByteTensor

namespace SelfDistillation

open Torch

variable {δ : Type} [Torch δ]

/-- The size of a dimension, `none` for the ragged one. -/
def FitsDim (dim : Option Nat) (size : Nat) : Prop := ∀ n ∈ dim, n = size

/-- A jagged nested tensor: the dimensions of its components, of which one
is ragged, and the components. -/
structure Jagged (δ : Type) [Torch δ] where
  dtype : δ
  device : Device
  dims : List (Option Nat)
  components : List (Tensor δ)
  one_ragged : dims.count none = 1
  dtype_eq : ∀ t ∈ components, t.dtype = dtype
  device_eq : ∀ t ∈ components, t.device = device
  fits : ∀ t ∈ components, List.Forall₂ FitsDim dims t.shape

@[ext] theorem Jagged.ext {left right : Jagged δ}
    (hdtype : left.dtype = right.dtype)
    (hdevice : left.device = right.device) (hdims : left.dims = right.dims)
    (hcomponents : left.components = right.components) : left = right := by
  cases left
  cases right
  simp_all

namespace TensorDictPickle

inductive Column (δ : Type) [Torch δ]
  | dense (tensor : Tensor δ)
  | jagged (nested : Jagged δ)

namespace Column

/-- The leading dimension of a nested tensor counts its components. -/
def shape : Column δ → List (Option Nat)
  | .dense t => t.shape.map some
  | .jagged v => some v.components.length :: v.dims

def device : Column δ → Device
  | .dense t => t.device
  | .jagged v => v.device

/-- `value.to(device)` -/
def toDevice (device : Device) : Column δ → Column δ
  | .dense t => .dense { t with device }
  | .jagged v => .jagged
      { v with
        device
        components := v.components.map fun t => { t with device }
        dtype_eq := by simpa using v.dtype_eq
        device_eq := by simp
        fits := by simpa using v.fits }

theorem device_toDevice (device : Device) (column : Column δ) :
    (column.toDevice device).device = device := by
  cases column <;> rfl

theorem toDevice_device (column : Column δ) :
    column.toDevice column.device = column := by
  cases column with
  | dense t => rfl
  | jagged v =>
      refine congrArg Column.jagged (Jagged.ext rfl rfl rfl ?_)
      refine (List.map_congr_left fun t ht => ?_).trans (List.map_id _)
      exact Tensor.ext rfl rfl (v.device_eq t ht).symm rfl

end Column

structure TensorDict (δ : Type) [Torch δ] where
  columns : PyDict (Column δ)
  batchSize : List Nat
  device : Option Device
  batched : ∀ e ∈ columns.entries, batchSize.map some <+: e.2.shape
  device_eq : ∀ d ∈ device, ∀ e ∈ columns.entries, e.2.device = d

@[ext] theorem TensorDict.ext {left right : TensorDict δ}
    (hcolumns : left.columns = right.columns)
    (hbatchSize : left.batchSize = right.batchSize)
    (hdevice : left.device = right.device) : left = right := by
  cases left
  cases right
  simp_all

/-- The columns of a TensorDict with a device are moved to it. -/
def moveTo (device : Option Device) (source : PyDict (Column δ)) :
    PyDict (Column δ) :=
  match device with
  | none => source
  | some d => source.mapVals (Column.toDevice d)

theorem device_moveTo (device : Option Device) (source : PyDict (Column δ)) :
    ∀ d ∈ device, ∀ e ∈ (moveTo device source).entries, e.2.device = d := by
  rintro d hd e he
  cases hd
  obtain ⟨e, -, rfl⟩ := List.mem_map.mp he
  exact Column.device_toDevice d e.2

theorem moveTo_eq_self {device : Option Device} {source : PyDict (Column δ)}
    (h : ∀ d ∈ device, ∀ e ∈ source.entries, e.2.device = d) :
    moveTo device source = source := by
  cases device with
  | none => rfl
  | some d =>
      apply PyDict.ext
      refine (List.map_congr_left fun e he => ?_).trans (List.map_id _)
      rw [← h d rfl e he, Column.toDevice_device]
      rfl

/-- `TensorDict(source=source, batch_size=batch_size, device=device)` -/
def TensorDict.make (source : PyDict (Column δ)) (batchSize : List Nat)
    (device : Option Device) : Py (TensorDict δ) :=
  if h : ∀ e ∈ (moveTo device source).entries,
      batchSize.map some <+: e.2.shape then
    .ok ⟨moveTo device source, batchSize, device, h,
      device_moveTo device source⟩
  else .error (.runtimeError "batch dimension mismatch")

theorem TensorDict.make_eq_ok {source : PyDict (Column δ)}
    {batchSize : List Nat} {device : Option Device} {td : TensorDict δ} :
    TensorDict.make source batchSize device = .ok td ↔
      td.columns = moveTo device source ∧ td.batchSize = batchSize ∧
        td.device = device := by
  unfold TensorDict.make
  constructor
  · intro h
    split_ifs at h
    cases h
    exact ⟨rfl, rfl, rfl⟩
  · rintro ⟨hcolumns, rfl, rfl⟩
    rw [dif_pos (hcolumns ▸ td.batched)]
    exact congrArg Except.ok (TensorDict.ext hcolumns.symm rfl rfl)

/-- What `serialize_single_tensor` returns. -/
structure EncodedTensor where
  dtype : String
  shape : List Nat
  data : List UInt8

/-- An encoded item by the length of its tuple. -/
inductive EncodedItem
  | three (tensor : EncodedTensor)
  | two (layout : String) (data : List EncodedTensor)
  | other (length : Nat)

structure EncodedTensorDict where
  batchSize : List Nat
  device : Option Device
  items : PyDict EncodedItem

/-- `serialize_single_tensor`; only a tensor in host memory has a `numpy()`
view. -/
def serializeSingleTensor (obj : Tensor δ) : Py EncodedTensor :=
  match obj.device with
  | .cpu => .ok ⟨dtypeName obj.dtype, obj.shape, obj.bytes⟩
  | .accelerator name => .error (.typeError
      (s!"can't convert {name} device type tensor to numpy. Use " ++
        "Tensor.cpu() to copy the tensor to host memory first."))

def serializeColumn : Column δ → Py EncodedItem
  | .dense v => EncodedItem.three <$> serializeSingleTensor v
  | .jagged v => do
      let data ← v.components.mapM serializeSingleTensor
      return .two Layout.jagged.name data

/-- `serialize_tensordict` -/
def serializeTensordict (batch : TensorDict δ) : Py EncodedTensorDict := do
  let encodedItems ← batch.columns.mapEntriesM fun _ v => serializeColumn v
  return ⟨batch.batchSize, batch.device, encodedItems⟩

/-- `torch.frombuffer(buffer, dtype=torch.uint8)` -/
def frombuffer (buffer : List UInt8) : Py (List UInt8) :=
  if buffer.isEmpty then
    .error (.valueError "both buffer length (0) and count (-1) must not be 0")
  else .ok buffer

/-- `getattr(torch, name)` -/
def torchAttr (name : String) : Py (TorchAttr δ) :=
  match getattr name with
  | none => .error .attributeError
  | some attr => .ok attr

/-- `getattr(torch, dtype)`, which has to be a dtype. -/
def torchDtype (dtype : String) : Py δ := do
  match ← torchAttr dtype with
  | .dtype dtype => .ok dtype
  | _ => .error (.assertionError "")

/-- `deserialize_single_tensor` -/
def deserializeSingleTensor (arr : EncodedTensor) : Py (Tensor δ) := do
  let torchDtype ← torchDtype arr.dtype
  let bytes ← frombuffer arr.data
  viewBytes .cpu 0 bytes torchDtype arr.shape

/-- The dimensions in which the sizes of the components differ. -/
def differingDims (first : List Nat) (rest : List (List Nat)) : List Nat :=
  (List.range first.length).filter fun d =>
    rest.any fun size => size[d]? ≠ first[d]?

/-- The ragged dimension: the one that differs, else the first. -/
def raggedDim : List Nat → Option Nat
  | [] => some 0
  | [d] => some d
  | _ => none

/-- The dimensions of components that may differ in dimension `d`. -/
def dimsWithRagged (first : List Nat) (d : Nat) : List (Option Nat) :=
  (first.map some).set d none

theorem mem_differingDims {first : List Nat} {rest : List (List Nat)}
    {d : Nat} : d ∈ differingDims first rest ↔
      d < first.length ∧ ∃ size ∈ rest, size[d]? ≠ first[d]? := by
  simp [differingDims]

theorem fits_dimsWithRagged {first size : List Nat} {d : Nat}
    (hlen : size.length = first.length)
    (h : ∀ d' ≠ d, size[d']? = first[d']?) :
    List.Forall₂ FitsDim (dimsWithRagged first d) size := by
  rw [List.forall₂_iff_get]
  refine ⟨by simp [dimsWithRagged, hlen], fun i hi hi' n hn => ?_⟩
  simp only [List.get_eq_getElem, dimsWithRagged, List.getElem_set] at hn ⊢
  split_ifs at hn with hd
  · cases hn
  · have hsame := h i (Ne.symm hd)
    rw [List.getElem?_eq_getElem hi',
      List.getElem?_eq_getElem (hlen ▸ hi')] at hsame
    rw [List.getElem_map] at hn
    exact (Option.some.inj hn).symm.trans (Option.some.inj hsame).symm

theorem count_dimsWithRagged {first : List Nat} {d : Nat}
    (hd : d < first.length) : (dimsWithRagged first d).count none = 1 := by
  rw [dimsWithRagged, List.count_set (by simpa using hd)]
  simp [List.count_eq_zero]

theorem differingDims_raggedDim {first : List Nat} {rest : List (List Nat)}
    {d : Nat} (hpos : first.length ≠ 0)
    (hlen : ∀ size ∈ rest, size.length = first.length)
    (h : raggedDim (differingDims first rest) = some d) :
    d < first.length ∧
      ∀ size ∈ rest, ∀ d' ≠ d, size[d']? = first[d']? := by
  have hmem : ∀ d', d' ∈ differingDims first rest → d' = d := by
    unfold raggedDim at h
    split at h <;> simp_all
  refine ⟨?_, fun size hsize d' hd' => ?_⟩
  · unfold raggedDim at h
    split at h
    · cases h
      exact Nat.pos_of_ne_zero hpos
    · rename_i hdims
      cases h
      exact (mem_differingDims.mp (hdims ▸ List.mem_singleton_self _)).1
    · cases h
  · by_contra hne
    refine hd' (hmem d' (mem_differingDims.mpr ⟨?_, size, hsize, hne⟩))
    by_contra hlt
    rw [List.getElem?_eq_none (by have := hlen size hsize; omega),
      List.getElem?_eq_none (by omega)] at hne
    exact hne rfl

/-- `torch.nested.as_nested_tensor(tensors, layout=torch.jagged)`: the
components agree in all dimensions but one. -/
def jaggedFromList [DecidableEq δ] : List (Tensor δ) → Py (Jagged δ)
  | [] => .error (.runtimeError ("When constructing a nested tensor, all " ++
      "tensors in list must have the same dtype"))
  | t :: ts =>
      if hdtype : ∃ t' ∈ ts, t'.dtype ≠ t.dtype then
        .error (.runtimeError ("When constructing a nested tensor, all " ++
          "tensors in list must have the same dtype"))
      else if hdevice : ∃ t' ∈ ts, t'.device ≠ t.device then
        .error (.runtimeError ("When constructing a nested tensor, all " ++
          "tensors in list must be on the same device"))
      else if hdim : ∃ t' ∈ ts, t'.shape.length ≠ t.shape.length then
        .error (.runtimeError ("When constructing a nested tensor, all " ++
          "tensors in list must have the same dim"))
      else if hzero : t.shape.length = 0 then
        .error (.runtimeError ("Cannot construct a nested tensor from a " ++
          "list of zero-dim tensors"))
      else
        match h : raggedDim (differingDims t.shape (ts.map Tensor.shape)) with
        | none => .error (.runtimeError ("Cannot represent given tensor " ++
            "list as a nested tensor with the jagged layout."))
        | some d =>
            have hlen : ∀ t' ∈ ts, t'.shape.length = t.shape.length := by
              simpa using hdim
            have hsame := differingDims_raggedDim hzero (by simpa using hlen) h
            .ok
              { dtype := t.dtype
                device := t.device
                dims := dimsWithRagged t.shape d
                components := t :: ts
                one_ragged := count_dimsWithRagged hsame.1
                dtype_eq := by simpa using hdtype
                device_eq := by simpa using hdevice
                fits := by
                  intro t' ht'
                  rcases List.mem_cons.mp ht' with rfl | ht'
                  · exact fits_dimsWithRagged rfl fun _ _ => rfl
                  · exact fits_dimsWithRagged (hlen t' ht')
                      (hsame.2 _ (List.mem_map_of_mem ht')) }

theorem map_some_of_fits {dims : List (Option Nat)} {size : List Nat}
    (h : List.Forall₂ FitsDim dims size) (hcount : dims.count none = 0) :
    dims = size.map some := by
  induction h with
  | nil => rfl
  | @cons dim n dims size hfit _ ih =>
      cases dim with
      | none => simp at hcount
      | some m =>
          rw [List.map_cons, hfit m rfl, ih (by simpa using hcount)]

/-- The dimensions of a nested tensor follow from any component and the place
of the ragged one. -/
theorem dims_eq_of_fits {dims : List (Option Nat)} {size : List Nat}
    (h : List.Forall₂ FitsDim dims size) (hcount : dims.count none = 1) :
    dims = dimsWithRagged size (dims.idxOf none) := by
  induction h with
  | nil => simp at hcount
  | @cons dim n dims size hfit hrest ih =>
      cases dim with
      | none =>
          rw [List.idxOf_cons_self]
          exact congrArg (none :: ·)
            (map_some_of_fits hrest (by simpa using hcount))
      | some m =>
          rw [List.idxOf_cons_ne _ (by simp)]
          cases hfit m rfl
          exact congrArg (some n :: ·) (ih (by simpa using hcount))

theorem idxOf_dimsWithRagged {size : List Nat} {d : Nat}
    (hd : d < size.length) : (dimsWithRagged size d).idxOf none = d := by
  induction size generalizing d with
  | nil => cases hd
  | cons n size ih =>
      cases d with
      | zero => exact List.idxOf_cons_self
      | succ d =>
          have h : (dimsWithRagged (n :: size) (d + 1)) =
              some n :: dimsWithRagged size d := rfl
          rw [h, List.idxOf_cons_ne _ (by simp),
            ih (Nat.lt_of_succ_lt_succ hd)]

/-- Components of one nested tensor differ at most in its ragged
dimension. -/
theorem differingDims_of_fits {dims : List (Option Nat)} {first : List Nat}
    {rest : List (List Nat)} (hcount : dims.count none = 1)
    (h : ∀ size ∈ first :: rest, List.Forall₂ FitsDim dims size) :
    differingDims first rest =
      if ∃ size ∈ rest, size ≠ first then [dims.idxOf none] else [] := by
  have hdims : ∀ size ∈ first :: rest,
      dims = dimsWithRagged size (dims.idxOf none) :=
    fun size hsize => dims_eq_of_fits (h size hsize) hcount
  have hmem : ∀ d ∈ differingDims first rest, d = dims.idxOf none := by
    intro d hd
    obtain ⟨hlt, size, hsize, hne⟩ := mem_differingDims.mp hd
    by_contra hother
    refine hne (Option.map_injective (Option.some_injective Nat) ?_)
    have heq := congrArg (·[d]?) ((hdims size
      (List.mem_cons_of_mem _ hsize)).symm.trans
      (hdims first List.mem_cons_self))
    simpa [dimsWithRagged, List.getElem?_set_ne (Ne.symm hother)] using heq
  split_ifs with hdiffer
  · obtain ⟨size, hsize, hne⟩ := hdiffer
    have hfound : ∃ d, d ∈ differingDims first rest := by
      by_contra hnone
      refine hne (List.ext_getElem? fun d => ?_)
      by_contra hd
      refine hnone ⟨d, mem_differingDims.mpr ⟨?_, size, hsize, hd⟩⟩
      by_contra hlt
      have hlen : size.length = first.length :=
        (h size (List.mem_cons_of_mem _ hsize)).length_eq.symm.trans
          (h first List.mem_cons_self).length_eq
      rw [List.getElem?_eq_none (by omega),
        List.getElem?_eq_none (by omega)] at hd
      exact hd rfl
    have hnodup : (differingDims first rest).Nodup :=
      List.nodup_range.filter _
    refine List.perm_singleton.mp ((List.perm_ext_iff_of_nodup hnodup
      (List.nodup_singleton _)).mpr fun d => ?_)
    rw [List.mem_singleton]
    refine ⟨hmem d, fun hd => ?_⟩
    obtain ⟨d', hd'⟩ := hfound
    rw [hd, ← hmem d' hd']
    exact hd'
  · refine List.eq_nil_iff_forall_not_mem.mpr fun d hd => ?_
    obtain ⟨-, size, hsize, hne⟩ := mem_differingDims.mp hd
    exact hdiffer ⟨size, hsize, fun heq => hne (heq ▸ rfl)⟩

section

variable [DecidableEq δ]

theorem components_of_jaggedFromList {ts : List (Tensor δ)} {v : Jagged δ}
    (h : jaggedFromList ts = .ok v) : v.components = ts := by
  unfold jaggedFromList at h
  split at h
  · cases h
  · split_ifs at h
    split at h
    · cases h
    · cases h
      rfl

theorem exists_jaggedFromList {t : Tensor δ} {ts : List (Tensor δ)} {d : Nat}
    (hdtype : ∀ t' ∈ ts, t'.dtype = t.dtype)
    (hdevice : ∀ t' ∈ ts, t'.device = t.device)
    (hlen : ∀ t' ∈ ts, t'.shape.length = t.shape.length)
    (hzero : t.shape.length ≠ 0)
    (hd : raggedDim (differingDims t.shape (ts.map Tensor.shape)) = some d) :
    ∃ v, jaggedFromList (t :: ts) = .ok v ∧ v.dtype = t.dtype ∧
      v.device = t.device ∧ v.dims = dimsWithRagged t.shape d ∧
      v.components = t :: ts := by
  rw [jaggedFromList, dif_neg (by simpa using hdtype),
    dif_neg (by simpa using hdevice), dif_neg (by simpa using hlen),
    dif_neg hzero]
  split
  · rename_i hnone
    rw [hd] at hnone
    cases hnone
  · rename_i d' hd'
    rw [hd] at hd'
    cases hd'
    exact ⟨_, rfl, rfl, rfl, rfl, rfl⟩

/-- The components give a nested tensor back exactly when there is one and
the ragged dimension shows: it is the first, or sizes differ in it. -/
theorem jaggedFromList_components_iff {v : Jagged δ} :
    jaggedFromList v.components = .ok v ↔
      v.components ≠ [] ∧ (v.dims.idxOf none = 0 ∨
        ∃ t ∈ v.components, ∃ t' ∈ v.components, t.shape ≠ t'.shape) := by
  rcases hcomponents : v.components with _ | ⟨t, ts⟩
  · simp [jaggedFromList]
  have hmem : ∀ t' ∈ t :: ts, t' ∈ v.components := fun t' ht' =>
    hcomponents ▸ ht'
  have hfits : ∀ size ∈ t.shape :: ts.map Tensor.shape,
      List.Forall₂ FitsDim v.dims size := by
    rw [← List.map_cons, ← hcomponents]
    simpa using v.fits
  have hdims := dims_eq_of_fits (hfits _ List.mem_cons_self) v.one_ragged
  have hlen : ∀ t' ∈ ts, t'.shape.length = t.shape.length := fun t' ht' =>
    (v.fits t' (hmem t' (List.mem_cons_of_mem _ ht'))).length_eq.symm.trans
      (hfits _ List.mem_cons_self).length_eq
  have hragged : v.dims.idxOf none < t.shape.length := by
    rw [← (hfits _ List.mem_cons_self).length_eq, List.idxOf_lt_length_iff]
    exact List.count_pos_iff.mp (by rw [v.one_ragged]; exact Nat.one_pos)
  have hdiffer : (∃ s ∈ ts.map Tensor.shape, s ≠ t.shape) ↔
      ∃ t' ∈ t :: ts, ∃ t'' ∈ t :: ts, t'.shape ≠ t''.shape := by
    constructor
    · rintro ⟨s, hs, hne⟩
      obtain ⟨t', ht', rfl⟩ := List.mem_map.mp hs
      exact ⟨t', List.mem_cons_of_mem _ ht', t, List.mem_cons_self, hne⟩
    · rintro ⟨t', ht', t'', ht'', hne⟩
      by_contra hsame
      have heq : ∀ t' ∈ t :: ts, t'.shape = t.shape := by
        intro t' ht'
        rcases List.mem_cons.mp ht' with rfl | ht'
        · rfl
        · by_contra h
          exact hsame ⟨_, List.mem_map_of_mem ht', h⟩
      exact hne ((heq t' ht').trans (heq t'' ht'').symm)
  have hdtype : ∀ t' ∈ t :: ts, t'.dtype = v.dtype := fun t' ht' =>
    v.dtype_eq t' (hmem t' ht')
  have hdevice : ∀ t' ∈ t :: ts, t'.device = v.device := fun t' ht' =>
    v.device_eq t' (hmem t' ht')
  have hfrom : ∀ d, raggedDim (differingDims t.shape (ts.map Tensor.shape)) =
      some d → (jaggedFromList (t :: ts) = .ok v ↔
        d = v.dims.idxOf none) := by
    intro d hd
    obtain ⟨v', hv', hdtype', hdevice', hdims', hcomponents'⟩ :=
      exists_jaggedFromList
        (fun t' ht' => (hdtype t' (List.mem_cons_of_mem _ ht')).trans
          (hdtype t List.mem_cons_self).symm)
        (fun t' ht' => (hdevice t' (List.mem_cons_of_mem _ ht')).trans
          (hdevice t List.mem_cons_self).symm)
        hlen (Nat.ne_of_gt (Nat.zero_lt_of_lt hragged)) hd
    have hlt : d < t.shape.length :=
      (differingDims_raggedDim (Nat.ne_of_gt (Nat.zero_lt_of_lt hragged))
        (by simpa using hlen) hd).1
    rw [hv', Except.ok.injEq]
    constructor
    · intro heq
      rw [← heq, hdims', idxOf_dimsWithRagged hlt]
    · intro heq
      refine Jagged.ext (hdtype'.trans (hdtype t List.mem_cons_self))
        (hdevice'.trans (hdevice t List.mem_cons_self)) ?_
        (hcomponents'.trans hcomponents.symm)
      rw [hdims', hdims, heq]
  rw [← hdiffer]
  by_cases h : ∃ s ∈ ts.map Tensor.shape, s ≠ t.shape
  · rw [hfrom (v.dims.idxOf none) (by
      rw [differingDims_of_fits v.one_ragged hfits, if_pos h]; rfl)]
    simp only [h, or_true, and_true]
    simp
  · rw [hfrom 0 (by
      rw [differingDims_of_fits v.one_ragged hfits, if_neg h]; rfl)]
    simp only [h, or_false]
    simp [eq_comm]

/-- `deserialize_tensordict` for one item; `stridedNested` is
`torch.nested.as_nested_tensor` for the strided layout. -/
def deserializeItem (stridedNested : List (Tensor δ) → Py (Column δ)) :
    EncodedItem → Py (Column δ)
  | .three v => Column.dense <$> deserializeSingleTensor v
  | .two layout data => do
      let torchLayout ← torchAttr (δ := δ) layout
      let tensors ← data.mapM deserializeSingleTensor
      match torchLayout with
      | .layout .jagged => Column.jagged <$> jaggedFromList tensors
      | .layout .strided => stridedNested tensors
      | _ => .error (.runtimeError
          "Specified layout is unsupported for nested tensors")
  | .other length => .error (.valueError
      s!"Invalid tensor encoding format, expected length 2 or 3, got {length}")

/-- `deserialize_tensordict` -/
def deserializeTensordict (stridedNested : List (Tensor δ) → Py (Column δ))
    (arr : EncodedTensorDict) : Py (TensorDict δ) := do
  let decodedItems ← arr.items.mapEntriesM fun _ v =>
    deserializeItem stridedNested v
  TensorDict.make decodedItems arr.batchSize arr.device

omit [DecidableEq δ] in
theorem serializeSingleTensor_eq_ok {t : Tensor δ} {arr : EncodedTensor} :
    serializeSingleTensor t = .ok arr ↔
      t.device = .cpu ∧ arr = ⟨dtypeName t.dtype, t.shape, t.bytes⟩ := by
  unfold serializeSingleTensor
  split
  · rename_i hdevice
    simp [hdevice, eq_comm]
  · rename_i name hdevice
    simp [hdevice]

omit [DecidableEq δ] in
/-- A tensor comes back exactly when it has an element: an empty buffer is
refused. -/
theorem deserializeSingleTensor_encoded {t : Tensor δ} {t' : Tensor δ}
    (hdevice : t.device = .cpu) :
    deserializeSingleTensor ⟨dtypeName t.dtype, t.shape, t.bytes⟩ = .ok t' ↔
      t.numel ≠ 0 ∧ t' = t := by
  have hdtype : torchDtype (dtypeName t.dtype) = .ok t.dtype := by
    rw [torchDtype, torchAttr, getattr_dtypeName]
    rfl
  rw [deserializeSingleTensor, hdtype, ok_bind]
  by_cases hempty : t.bytes = []
  · have hnumel := Tensor.bytes_eq_nil_iff.mp hempty
    simp [frombuffer, hempty, hnumel, bind, Except.bind]
  · have hnumel := mt Tensor.bytes_eq_nil_iff.mpr hempty
    have hview := viewBytes_bytes t 0
    rw [if_pos (Nat.dvd_zero _), hdevice] at hview
    have hbuffer : frombuffer t.bytes = .ok t.bytes := by
      rw [frombuffer, if_neg (by simpa using hempty)]
    simp only [hbuffer, ok_bind, hview, Except.ok.injEq]
    exact ⟨fun h => ⟨hnumel, h.symm⟩, fun h => h.2.symm⟩

/-- What it takes for a column to come back. -/
def Column.Survives : Column δ → Prop
  | .dense t => t.device = .cpu ∧ t.numel ≠ 0
  | .jagged v => v.components ≠ [] ∧
      (∀ t ∈ v.components, t.device = .cpu ∧ t.numel ≠ 0) ∧
      (v.dims.idxOf none = 0 ∨
        ∃ t ∈ v.components, ∃ t' ∈ v.components, t.shape ≠ t'.shape)

omit [DecidableEq δ] in
theorem mapM_serialize_deserialize {ts ts' : List (Tensor δ)} :
    (∃ data, ts.mapM serializeSingleTensor = .ok data ∧
      data.mapM deserializeSingleTensor = .ok ts') ↔
      (∀ t ∈ ts, t.device = .cpu ∧ t.numel ≠ 0) ∧ ts' = ts := by
  simp only [mapM_eq_ok_iff, exists_forall₂_iff]
  have hone : ∀ t t' : Tensor δ, (∃ arr, serializeSingleTensor t = .ok arr ∧
      deserializeSingleTensor arr = .ok t') ↔
      (t.device = .cpu ∧ t.numel ≠ 0) ∧ t' = t := by
    intro t t'
    simp only [serializeSingleTensor_eq_ok]
    constructor
    · rintro ⟨arr, ⟨hdevice, rfl⟩, h⟩
      obtain ⟨hnumel, heq⟩ := (deserializeSingleTensor_encoded hdevice).mp h
      exact ⟨⟨hdevice, hnumel⟩, heq⟩
    · rintro ⟨⟨hdevice, hnumel⟩, heq⟩
      exact ⟨_, ⟨hdevice, rfl⟩,
        (deserializeSingleTensor_encoded hdevice).mpr ⟨hnumel, heq⟩⟩
  simp only [hone]
  constructor
  · intro h
    induction h with
    | nil => simp
    | cons hhead _ ih =>
        obtain ⟨hok, rfl⟩ := hhead
        exact ⟨List.forall_mem_cons.mpr ⟨hok, ih.1⟩, congrArg _ ih.2⟩
  · rintro ⟨hok, rfl⟩
    exact List.forall₂_same.mpr fun t ht => ⟨hok t ht, rfl⟩

variable (stridedNested : List (Tensor δ) → Py (Column δ))

theorem roundtrip_dense {t : Tensor δ} {column' : Column δ} :
    (∃ item, serializeColumn (.dense t) = .ok item ∧
      deserializeItem stridedNested item = .ok column') ↔
      (t.device = .cpu ∧ t.numel ≠ 0) ∧ column' = .dense t := by
  simp only [serializeColumn, map_eq_ok, serializeSingleTensor_eq_ok]
  constructor
  · rintro ⟨_, ⟨_, ⟨hdevice, rfl⟩, rfl⟩, h⟩
    obtain ⟨t', ht', rfl⟩ := map_eq_ok.mp h
    obtain ⟨hnumel, rfl⟩ := (deserializeSingleTensor_encoded hdevice).mp ht'
    exact ⟨⟨hdevice, hnumel⟩, rfl⟩
  · rintro ⟨⟨hdevice, hnumel⟩, rfl⟩
    refine ⟨_, ⟨_, ⟨hdevice, rfl⟩, rfl⟩, map_eq_ok.mpr ⟨t, ?_, rfl⟩⟩
    exact (deserializeSingleTensor_encoded hdevice).mpr ⟨hnumel, rfl⟩

theorem deserializeItem_jagged_eq_ok {data : List EncodedTensor}
    {column : Column δ} :
    deserializeItem stridedNested (.two Layout.jagged.name data) =
      .ok column ↔
      ∃ ts, data.mapM deserializeSingleTensor = .ok ts ∧
        ∃ v, jaggedFromList ts = .ok v ∧ column = .jagged v := by
  have hlayout : torchAttr (δ := δ) Layout.jagged.name =
      .ok (.layout .jagged) := by
    rw [torchAttr, getattr_layoutName]
  rw [deserializeItem, hlayout, ok_bind]
  simp only [bind_eq_ok, map_eq_ok, eq_comm (a := column)]

theorem roundtrip_jagged {v : Jagged δ} {column' : Column δ} :
    (∃ item, serializeColumn (.jagged v) = .ok item ∧
      deserializeItem stridedNested item = .ok column') ↔
      (∀ t ∈ v.components, t.device = .cpu ∧ t.numel ≠ 0) ∧
        ∃ v', jaggedFromList v.components = .ok v' ∧
          column' = .jagged v' := by
  simp only [serializeColumn, bind_eq_ok]
  constructor
  · rintro ⟨_, ⟨data, hdata, hitem⟩, h⟩
    cases hitem
    obtain ⟨ts, hts, hv'⟩ := (deserializeItem_jagged_eq_ok _).mp h
    obtain ⟨hok, rfl⟩ := mapM_serialize_deserialize.mp ⟨data, hdata, hts⟩
    exact ⟨hok, hv'⟩
  · rintro ⟨hok, hv'⟩
    obtain ⟨data, hdata, hts⟩ := mapM_serialize_deserialize.mpr ⟨hok, rfl⟩
    exact ⟨_, ⟨data, hdata, rfl⟩,
      (deserializeItem_jagged_eq_ok _).mpr ⟨_, hts, hv'⟩⟩

/-- A column comes back exactly when it survives. -/
theorem roundtrip_column_iff {column : Column δ} :
    (∃ item, serializeColumn column = .ok item ∧
      deserializeItem stridedNested item = .ok column) ↔
      column.Survives := by
  cases column with
  | dense t => simp [roundtrip_dense, Column.Survives]
  | jagged v =>
      rw [roundtrip_jagged, Column.Survives, and_left_comm,
        ← jaggedFromList_components_iff]
      simp

/-- A column that is decoded at all lies in host memory, as it did. -/
theorem device_of_roundtrip {column column' : Column δ}
    (h : ∃ item, serializeColumn column = .ok item ∧
      deserializeItem stridedNested item = .ok column') :
    column.device = .cpu ∧ column'.device = .cpu := by
  cases column with
  | dense t =>
      obtain ⟨⟨hdevice, -⟩, rfl⟩ := (roundtrip_dense _).mp h
      exact ⟨hdevice, hdevice⟩
  | jagged v =>
      obtain ⟨hok, v', hv', rfl⟩ := (roundtrip_jagged _).mp h
      have hcomponents := components_of_jaggedFromList hv'
      cases hv : v.components with
      | nil =>
          rw [hv] at hv'
          cases hv'
      | cons t ts =>
          have ht : t ∈ v.components := hv ▸ List.mem_cons_self
          have hcpu := (hok t ht).1
          exact ⟨(v.device_eq t ht).symm.trans hcpu,
            (v'.device_eq t (hcomponents ▸ ht)).symm.trans hcpu⟩

theorem roundtrip_eq_ok {td td' : TensorDict δ} :
    (serializeTensordict td >>= deserializeTensordict stridedNested) =
      .ok td' ↔
      ∃ decoded : PyDict (Column δ),
        List.Forall₂ (fun x z => x.1 = z.1 ∧
          ∃ item, serializeColumn x.2 = .ok item ∧
            deserializeItem stridedNested item = .ok z.2)
          td.columns.entries decoded.entries ∧
        TensorDict.make decoded td.batchSize td.device = .ok td' := by
  simp only [serializeTensordict, deserializeTensordict, bind_eq_ok,
    ← PyDict.exists_mapEntriesM_mapEntriesM (f := fun _ => serializeColumn)
      (g := fun _ => deserializeItem stridedNested)]
  constructor
  · rintro ⟨_, ⟨items, hitems, harr⟩, decoded, hdecoded, hmake⟩
    cases harr
    exact ⟨decoded, ⟨items, hitems, hdecoded⟩, hmake⟩
  · rintro ⟨decoded, ⟨items, hitems, hdecoded⟩, hmake⟩
    exact ⟨_, ⟨items, hitems, rfl⟩, decoded, hdecoded, hmake⟩

/-- A TensorDict comes back as it was exactly when each of its columns
survives: it lies in host memory, no tensor or component is empty, a nested
tensor has components, and its ragged dimension is the first or shows in
their sizes. -/
theorem deserialize_serialize_iff (td : TensorDict δ) :
    (serializeTensordict td >>= deserializeTensordict stridedNested) =
      .ok td ↔ ∀ e ∈ td.columns.entries, e.2.Survives := by
  rw [roundtrip_eq_ok]
  constructor
  · rintro ⟨decoded, hdecoded, hmake⟩
    obtain ⟨hcolumns, -, -⟩ := TensorDict.make_eq_ok.mp hmake
    have hsame : moveTo td.device decoded = decoded := by
      refine moveTo_eq_self fun d hd z hz => ?_
      obtain ⟨x, hx, -, hxz⟩ := exists_of_forall₂_right hdecoded hz
      obtain ⟨hcpu, hcpu'⟩ := device_of_roundtrip stridedNested hxz
      rw [hcpu', ← hcpu, td.device_eq d hd x hx]
    rw [← hsame, ← hcolumns] at hdecoded
    intro e he
    exact (roundtrip_column_iff stridedNested).mp
      (List.forall₂_same.mp hdecoded e he).2
  · intro h
    refine ⟨td.columns, List.forall₂_same.mpr fun e he =>
      ⟨rfl, (roundtrip_column_iff stridedNested).mpr (h e he)⟩,
      TensorDict.make_eq_ok.mpr ⟨?_, rfl, rfl⟩⟩
    exact (moveTo_eq_self td.device_eq).symm

end

/-- Two samples without any token. -/
def noTokens : TensorDict Dtype where
  columns := PyDict.empty.set "responses"
    (.dense ⟨.int64, [2, 0], .cpu, [], rfl⟩)
  batchSize := [2]
  device := none
  batched := by simp [PyDict.set, PyDict.insertNew, PyDict.empty, PyDict.keys,
    Column.shape]
  device_eq := by simp

/-- A tensor with zero elements is serialized but not read back. -/
theorem deserialize_serialize_noTokens :
    (serializeTensordict noTokens >>=
      deserializeTensordict (δ := Dtype) fun _ => .error .attributeError) =
      .error (.valueError
        "both buffer length (0) and count (-1) must not be 0") := rfl

end TensorDictPickle

end SelfDistillation
