/-
Nested tensors in PyTorch's jagged layout: how `torch.nested.as_nested_tensor`
makes them, and what padding and cutting again leaves of their components.
-/
import SelfDistillation.TensorDictPickle
import SelfDistillation.Library.NdArray
import SelfDistillation.Library.Ragged

namespace SelfDistillation.TensorDictRows

open TensorDictPickle (differingDims raggedDim)

section Nested

/-- A nested tensor in the jagged layout: components of one shape but for
dimension `raggedIdx`, counted without the batch. -/
structure NestedTensor (α : Type) where
  components : List (NdArray α)
  raggedIdx : Nat
  nonempty : components ≠ []
  fits : ∀ x ∈ components, ∀ y ∈ components, NdArray.Fits raggedIdx x y

variable {α : Type}

theorem fits_of_agree {x y : NdArray α} {d : Nat} (hd : d < x.shape.length)
    (hlength : y.shape.length = x.shape.length)
    (h : ∀ e, e ≠ d → y.shape[e]? = x.shape[e]?) : NdArray.Fits d x y := by
  refine ⟨hd, List.ext_getElem? fun e => ?_⟩
  rw [List.getElem?_set]
  split
  · rename_i heq
    subst heq
    rw [NdArray.size, pos, List.getD_eq_getElem?_getD,
      List.getElem?_eq_getElem (hlength ▸ hd), Option.getD_some]
  · rename_i hne
    exact h e (Ne.symm hne)

theorem getElem?_of_fits {x y : NdArray α} {d e : Nat}
    (h : NdArray.Fits d x y) (hne : e ≠ d) : y.shape[e]? = x.shape[e]? := by
  rw [h.2, List.getElem?_set_ne (Ne.symm hne)]

theorem length_of_fits {x y : NdArray α} {d : Nat} (h : NdArray.Fits d x y) :
    y.shape.length = x.shape.length := by
  rw [h.2, List.length_set]

/-- `torch.nested.as_nested_tensor(tensors, layout=torch.jagged)`: the ragged
dimension is the one the shapes differ in, the first where they do not. -/
def asNestedTensor : List (NdArray α) → Py (NestedTensor α)
  | [] => .error (.runtimeError
      "Cannot construct a nested tensor from an empty tensor list")
  | t :: ts =>
      if hdim : ∃ t' ∈ ts, t'.shape.length ≠ t.shape.length then
        .error (.runtimeError ("When constructing a nested tensor, all " ++
          "tensors in list must have the same dim"))
      else if hzero : t.shape.length = 0 then
        .error (.runtimeError ("Cannot construct a nested tensor from a " ++
          "list of zero-dim tensors"))
      else
        match h : raggedDim (differingDims t.shape
            (ts.map NdArray.shape)) with
        | none => .error (.runtimeError ("Cannot represent given tensor " ++
            "list as a nested tensor with the jagged layout."))
        | some d => .ok
            { components := t :: ts
              raggedIdx := d
              nonempty := List.cons_ne_nil t ts
              fits := by
                have hlength : ∀ t' ∈ t :: ts,
                    t'.shape.length = t.shape.length := by
                  simpa using hdim
                obtain ⟨hd, hsame⟩ := TensorDictPickle.differingDims_raggedDim
                  hzero (by simpa using hdim) h
                have hagree : ∀ t' ∈ t :: ts, ∀ e, e ≠ d →
                    t'.shape[e]? = t.shape[e]? := by
                  intro t' ht' e he
                  rcases List.mem_cons.mp ht' with rfl | ht'
                  · rfl
                  · exact hsame _ (List.mem_map_of_mem ht') e he
                intro x hx y hy
                exact fits_of_agree (hlength x hx ▸ hd)
                  ((hlength y hy).trans (hlength x hx).symm) fun e he =>
                    (hagree y hy e he).trans (hagree x hx e he).symm }

theorem components_of_asNestedTensor {tensors : List (NdArray α)}
    {nt : NestedTensor α} (h : asNestedTensor tensors = .ok nt) :
    nt.components = tensors := by
  cases tensors with
  | nil => cases h
  | cons t ts =>
      rw [asNestedTensor] at h
      split at h
      · cases h
      split at h
      · cases h
      split at h
      · cases h
      · cases h
        rfl

/-- Shapes that differ in one dimension at most. -/
theorem exists_asNestedTensor {tensors : List (NdArray α)} {d : Nat}
    (hne : tensors ≠ [])
    (hfits : ∀ x ∈ tensors, ∀ y ∈ tensors, NdArray.Fits d x y) :
    ∃ nt, asNestedTensor tensors = .ok nt := by
  obtain ⟨t, ts, rfl⟩ := List.exists_cons_of_ne_nil hne
  have ht : t ∈ t :: ts := List.mem_cons_self
  have hdim : ¬ ∃ t' ∈ ts, t'.shape.length ≠ t.shape.length := by
    rintro ⟨t', ht', hlength⟩
    exact hlength (length_of_fits (hfits t ht t' (List.mem_cons_of_mem t ht')))
  have hzero : t.shape.length ≠ 0 := by
    have hd := (hfits t ht t ht).1
    omega
  have hmem : ∀ e ∈ differingDims t.shape (ts.map NdArray.shape), e = d := by
    intro e he
    obtain ⟨-, shape, hshape, hdiffers⟩ :=
      TensorDictPickle.mem_differingDims.mp he
    obtain ⟨t', ht', rfl⟩ := List.mem_map.mp hshape
    by_contra hne
    exact hdiffers (getElem?_of_fits
      (hfits t ht t' (List.mem_cons_of_mem t ht')) hne)
  have hnodup : (differingDims t.shape (ts.map NdArray.shape)).Nodup :=
    List.nodup_range.filter _
  rw [asNestedTensor, dif_neg hdim, dif_neg hzero]
  split
  · rename_i hnone
    exfalso
    generalize differingDims t.shape (ts.map NdArray.shape) = dims at *
    match dims with
    | [] => cases hnone
    | [_] => cases hnone
    | e :: e' :: _ =>
        have he := hmem e (by simp)
        have he' := hmem e' (by simp)
        simp [he, he'] at hnodup
  · exact ⟨_, rfl⟩

namespace NestedTensor

/-- `nt.offsets()` -/
def offsets (nt : NestedTensor α) : List Nat :=
  Ragged.offsets (nt.components.map (NdArray.size · nt.raggedIdx))

/-- `nt.offsets().diff().tolist()` -/
def lengths (nt : NestedTensor α) : List Nat := Ragged.diff nt.offsets

theorem lengths_eq (nt : NestedTensor α) :
    nt.lengths = nt.components.map (NdArray.size · nt.raggedIdx) :=
  Ragged.diff_offsets _

/-- The length all components are filled up to. -/
def maxLength (nt : NestedTensor α) : Nat := nt.lengths.max?.getD 0

/-- The rows of `nt.to_padded_tensor(0)`. -/
def toPaddedTensor [Zero α] (nt : NestedTensor α) : List (NdArray α) :=
  nt.components.map (NdArray.padTo nt.raggedIdx nt.maxLength 0)

theorem size_le_maxLength {nt : NestedTensor α} {x : NdArray α}
    (hx : x ∈ nt.components) : x.size nt.raggedIdx ≤ nt.maxLength := by
  have hmem : x.size nt.raggedIdx ∈ nt.lengths :=
    nt.lengths_eq ▸ List.mem_map_of_mem hx
  obtain ⟨m, hm⟩ := Option.ne_none_iff_exists'.mp
    (mt List.max?_eq_none_iff.mp (List.ne_nil_of_mem hmem))
  rw [maxLength, hm, Option.getD_some]
  exact (List.max?_eq_some_iff.mp hm).2 _ hmem

/-- The parts of a padded row that the fallback cuts out are the components:
the first dimension is cut, wherever the ragged one is. -/
def CutsBack (nt : NestedTensor α) : Prop :=
  nt.raggedIdx = 0 ∨ ∀ x ∈ nt.components,
    x.size nt.raggedIdx = nt.maxLength ∧ x.size 0 ≤ x.size nt.raggedIdx

theorem cutsBack_iff [Zero α] {nt : NestedTensor α} :
    nt.CutsBack ↔ ∀ x ∈ nt.components,
      (x.padTo nt.raggedIdx nt.maxLength 0).slice 0 0
        (x.size nt.raggedIdx) = x := by
  constructor
  · rintro (hzero | hfull) x hx
    · have hd := (nt.fits x hx x hx).1
      have hle := size_le_maxLength hx
      rw [hzero] at hd hle ⊢
      exact NdArray.slice_padTo hd hle 0
    · obtain ⟨hmax, hle⟩ := hfull x hx
      rw [← hmax, NdArray.padTo_size]
      exact NdArray.slice_all
        (Nat.zero_lt_of_lt (nt.fits x hx x hx).1) hle
  · intro h
    rw [CutsBack, or_iff_not_imp_left]
    intro hragged x hx
    have hd := (nt.fits x hx x hx).1
    have hshape := congrArg NdArray.shape (h x hx)
    rw [NdArray.shape_slice, NdArray.shape_padTo] at hshape
    constructor
    · have hpos := congrArg (pos · nt.raggedIdx) hshape
      simp only [pos_set_of_ne (Ne.symm hragged), pos_set_self hd] at hpos
      exact hpos.symm
    · have hpos := congrArg (pos · 0) hshape
      rw [pos_set_self (by rw [List.length_set]; omega)] at hpos
      change _ = x.size 0 at hpos
      omega

end NestedTensor

end Nested

end SelfDistillation.TensorDictRows
