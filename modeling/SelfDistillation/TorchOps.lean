/-
What the modelled functions call of torch on tensors of any number of axes.
-/
import SelfDistillation.Library.NdArray
import SelfDistillation.Python

namespace SelfDistillation

namespace TorchOps

open NdArray

variable {α β : Type}

/-- `torch.cat(tensors, dim=dim)` -/
def torchCat (dim : Nat) (tensors : List (NdArray α)) : Py (NdArray α) :=
  match cat? dim tensors with
  | some tensor => .ok tensor
  | none => .error (.runtimeError "Sizes of tensors must match")

theorem torchCat_eq_ok {dim : Nat} {tensors : List (NdArray α)}
    {tensor : NdArray α} :
    torchCat dim tensors = .ok tensor ↔ cat? dim tensors = some tensor := by
  rw [torchCat]
  cases cat? dim tensors <;> simp

/-- Every index in bounds. -/
def indices : List Nat → List (List Nat)
  | [] => [[]]
  | size :: shape => (List.range size).flatMap fun i =>
      (indices shape).map (i :: ·)

/-- `torch.equal(t, s)`, by the numbers' own equality: NaN is not equal to
itself. -/
def torchEqual [BEq α] (t s : NdArray α) : Bool :=
  t.shape == s.shape &&
    (indices t.shape).all fun idx => t.get? idx == s.get? idx

theorem inBounds_of_mem_indices {shape idx : List Nat}
    (h : idx ∈ indices shape) : InBounds shape idx := by
  induction shape generalizing idx with
  | nil =>
      rw [indices, List.mem_singleton] at h
      subst h
      exact ⟨rfl, fun d hd => absurd hd (Nat.not_lt_zero d)⟩
  | cons size shape ih =>
      rw [indices, List.mem_flatMap] at h
      obtain ⟨i, hi, h⟩ := h
      obtain ⟨rest, hrest, rfl⟩ := List.mem_map.mp h
      obtain ⟨hlength, hpos⟩ := ih hrest
      refine ⟨congrArg (· + 1) hlength, fun d hd => ?_⟩
      cases d with
      | zero => exact List.mem_range.mp hi
      | succ d => exact hpos d (Nat.lt_of_succ_lt_succ hd)

/-- A tensor without entries equals itself, whatever its numbers are. -/
theorem torchEqual_self_of_empty [BEq α] {t : NdArray α} {d : Nat}
    (hd : d < t.shape.length) (hsize : t.size d = 0) :
    torchEqual t t = true := by
  rw [torchEqual, beq_self_eq_true, Bool.true_and, List.all_eq_true]
  intro idx hidx
  have hlt := (inBounds_of_mem_indices hidx).2 d hd
  rw [size] at hsize
  omega

end TorchOps

end SelfDistillation
