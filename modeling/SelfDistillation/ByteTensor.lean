/-
Tensors by their bytes: dtypes of a width, the byte view of a tensor and the
views of a byte buffer that torch allows.
-/
import SelfDistillation.Python

namespace SelfDistillation

inductive Layout
  | strided
  | jagged
deriving DecidableEq, Repr

/-- `str(layout).removeprefix("torch.")` -/
def Layout.name : Layout → String
  | .strided => "strided"
  | .jagged => "jagged"

inductive Device
  | cpu
  | accelerator (name : String)
deriving DecidableEq, Repr

/-- What a name in `torch` stands for. -/
inductive TorchAttr (δ : Type)
  | dtype (dtype : δ)
  | layout (layout : Layout)
  | other

/-- The dtypes of torch: their widths in bytes and their names. -/
class Torch (δ : Type) where
  itemsize : δ → Nat
  itemsize_pos : ∀ dtype, 0 < itemsize dtype
  /-- `str(dtype).removeprefix("torch.")` -/
  dtypeName : δ → String
  /-- `getattr(torch, name)` -/
  getattr : String → Option (TorchAttr δ)
  getattr_dtypeName : ∀ dtype, getattr (dtypeName dtype) = some (.dtype dtype)
  getattr_layoutName : ∀ layout : Layout,
    getattr layout.name = some (.layout layout)

/-- The dtypes of whole bytes that the trainer uses. -/
inductive Dtype
  | bool
  | uint8
  | int32
  | int64
  | float16
  | bfloat16
  | float32
  | float64
deriving DecidableEq, Repr

def Dtype.all : List (String × Dtype) :=
  [("bool", .bool), ("uint8", .uint8), ("int32", .int32), ("int64", .int64),
    ("float16", .float16), ("bfloat16", .bfloat16), ("float32", .float32),
    ("float64", .float64)]

def Dtype.width : Dtype → Nat
  | .bool | .uint8 => 1
  | .float16 | .bfloat16 => 2
  | .int32 | .float32 => 4
  | .int64 | .float64 => 8

instance : Torch Dtype where
  itemsize := Dtype.width
  itemsize_pos dtype := by cases dtype <;> decide
  dtypeName
    | .bool => "bool"
    | .uint8 => "uint8"
    | .int32 => "int32"
    | .int64 => "int64"
    | .float16 => "float16"
    | .bfloat16 => "bfloat16"
    | .float32 => "float32"
    | .float64 => "float64"
  getattr name := match name with
    | "strided" => some (.layout .strided)
    | "jagged" => some (.layout .jagged)
    | name => (Dtype.all.lookup name).map .dtype
  getattr_dtypeName dtype := by cases dtype <;> rfl
  getattr_layoutName layout := by cases layout <;> rfl

open Torch

/-- A dense tensor, its elements in row-major order as bytes. -/
structure Tensor (δ : Type) [Torch δ] where
  dtype : δ
  shape : List Nat
  device : Device
  bytes : List UInt8
  length_bytes : bytes.length = itemsize dtype * shape.prod

variable {δ : Type} [Torch δ]

@[ext] theorem Tensor.ext {left right : Tensor δ}
    (hdtype : left.dtype = right.dtype) (hshape : left.shape = right.shape)
    (hdevice : left.device = right.device)
    (hbytes : left.bytes = right.bytes) : left = right := by
  cases left
  cases right
  simp_all

/-- `tensor.numel()` -/
def Tensor.numel (t : Tensor δ) : Nat := t.shape.prod

theorem Tensor.bytes_eq_nil_iff {t : Tensor δ} :
    t.bytes = [] ↔ t.numel = 0 := by
  have hpos := itemsize_pos t.dtype
  rw [← List.length_eq_zero_iff, t.length_bytes, Nat.mul_eq_zero, numel]
  omega

/-- `view(dtype).view(shape)` of `bytes`, a `uint8` tensor that starts at
`offset` of its storage. -/
def viewBytes (device : Device) (offset : Nat) (bytes : List UInt8)
    (dtype : δ) (shape : List Nat) : Py (Tensor δ) :=
  if bytes.length % itemsize dtype ≠ 0 then
    .error (.runtimeError
      s!"self.size(-1) must be divisible by {itemsize dtype}")
  else if offset % itemsize dtype ≠ 0 then
    .error (.runtimeError
      s!"self.storage_offset() must be divisible by {itemsize dtype}")
  else if h : bytes.length = itemsize dtype * shape.prod then
    .ok ⟨dtype, shape, device, bytes, h⟩
  else .error (.runtimeError
    s!"shape '{shape}' is invalid for input of size {bytes.length}")

/-- The bytes of a tensor can be viewed as the tensor exactly where they
start at a multiple of its item size. -/
theorem viewBytes_bytes (t : Tensor δ) (offset : Nat) :
    viewBytes t.device offset t.bytes t.dtype t.shape =
      if itemsize t.dtype ∣ offset then .ok t
      else .error (.runtimeError
        s!"self.storage_offset() must be divisible by {itemsize t.dtype}") := by
  have hsize : t.bytes.length % itemsize t.dtype = 0 := by
    rw [t.length_bytes, Nat.mul_mod_right]
  rw [viewBytes, if_neg (not_not.mpr hsize), dif_pos t.length_bytes]
  by_cases h : itemsize t.dtype ∣ offset
  · rw [if_neg (not_not.mpr (Nat.mod_eq_zero_of_dvd h)), if_pos h]
  · rw [if_pos (fun hmod => h (Nat.dvd_of_mod_eq_zero hmod)), if_neg h]

end SelfDistillation
