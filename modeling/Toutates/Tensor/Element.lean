/-
# Element types, shapes and tensors

The part of the `ort` crate's vocabulary that the tensor code of
`src/tensor/batched_tensor.rs` is written in: the element types of a tensor, its
shape, and its data.

A tensor holds its data as bytes, row-major.  The macros of `batched_tensor.rs`
view it as a slice of a Rust type and then as bytes again (`bytemuck`), so
element `j` of a tensor read as a type of `w` bytes is the bytes
`j * w .. (j + 1) * w`.  Two matches choose the Rust type from the element type,
and they differ: `value_as_byte_slice` reads `Bool`, `copy_at_from_bytes` does not
write it (`readWidth`, `copyWidth`).
-/

import Mathlib.Algebra.Order.Ring.Int
import Toutates.Basis.Overwrite

namespace Toutates

/-- `ort::value::TensorElementType`. -/
inductive TensorElementType where
  | float32 | uint8 | int8 | uint16 | int16 | int32 | int64 | string | bool | float16 | float64
  | uint32 | uint64 | bfloat16 | complex64 | complex128 | float8E4M3FN | float8E4M3FNUZ
  | float8E5M2 | float8E5M2FNUZ | uint4 | int4 | undefined
deriving DecidableEq

namespace TensorElementType

/-- The size in bytes of the Rust type that `value_as_byte_slice` reads elements
of this type as, where it has an arm for it. -/
def readWidth : TensorElementType → Option ℕ
  | float32 => some 4
  | uint8 => some 1
  | int8 => some 1
  | uint16 => some 2
  | int16 => some 2
  | int32 => some 4
  | int64 => some 8
  | bool => some 1
  | float64 => some 8
  | uint32 => some 4
  | uint64 => some 8
  | _ => none

/-- The size in bytes of the Rust type that `copy_at_from_bytes` writes elements
of this type as, where it has an arm for it: the arms of `readWidth` without
`Bool`. -/
def copyWidth : TensorElementType → Option ℕ
  | float32 => some 4
  | uint8 => some 1
  | int8 => some 1
  | uint16 => some 2
  | int16 => some 2
  | int32 => some 4
  | int64 => some 8
  | float64 => some 8
  | uint32 => some 4
  | uint64 => some 8
  | _ => none

/-- Elements that can be read have a byte. -/
theorem readWidth_pos {t : TensorElementType} {w : ℕ} (h : t.readWidth = some w) : 0 < w := by
  cases t <;> simp_all [readWidth] <;> omega

/-- Every type that is written is read, at the same size. -/
theorem readWidth_of_copyWidth {t : TensorElementType} {w : ℕ} (h : t.copyWidth = some w) :
    t.readWidth = some w := by
  cases t <;> simp_all [readWidth, copyWidth]

end TensorElementType

/-- `x as usize` for an `i64`. -/
def asUsize (x : ℤ) : ℕ := (x % (2 ^ 64 : ℤ)).toNat

/-- A number that is not negative is itself. -/
theorem asUsize_of_nonneg {x : ℤ} (h₀ : 0 ≤ x) (h : x < 2 ^ 63) : asUsize x = x.toNat := by
  rw [asUsize, Int.emod_eq_of_lt h₀ (by omega)]

/-- `Shape::num_elements`: the product of the dimensions, `0` when one of them is
dynamic. -/
def numElements (shape : List ℤ) : ℕ :=
  if shape.any (· < 0) then 0 else shape.foldr (fun d n => d.toNat * n) 1

/-- A shape whose dimension 0 is not dynamic has that many rows. -/
theorem numElements_cons (n : ℕ) (dims : List ℤ) : numElements ((n : ℤ) :: dims) = n * numElements dims := by
  have hn : ¬ (n : ℤ) < 0 := by omega
  by_cases hdims : dims.any (· < 0) = true
  · simp only [numElements, List.any_cons, hdims, Bool.or_true, if_true, Nat.mul_zero]
  · simp only [numElements, List.any_cons, hdims, hn, decide_false, Bool.or_false, Bool.false_eq_true,
      if_false, List.foldr_cons, Int.toNat_natCast]

/-- A tensor: element type, shape, and its data as bytes.  Where its elements can
be read as bytes at all, there are as many as the shape says. -/
structure DynTensor where
  dataType : TensorElementType
  shape : List ℤ
  data : List UInt8
  data_length : ∀ w, dataType.readWidth = some w → data.length = numElements shape * w
deriving DecidableEq

/-- Why a request that reached the ring could not be answered. -/
inductive InferError where
  | ringFull
  | unsupportedDataType
  | sessionRun (message : String)
deriving DecidableEq

/-- `InferError::message`. -/
def InferError.message : InferError → String
  | ringFull => "Ring buffer full"
  | unsupportedDataType => "Unsupported tensor data type"
  | sessionRun s => s

/-- The places where the code panics instead of returning. -/
inductive Panic where
  | inputIndex | shapeIndex | emptyShape | emptyRange | zeroDim0 | sliceRange | tensorRange
  | copyLength | rawIndex | inputSet | deadlineSet | queueStartSet | execStartSet | execEndSet
  | outputSet | batchNotWritten | tooManyWritten | outputRange | outputIndex | noReservation
  | traceUnwrap
deriving DecidableEq

/-- What a fallible function of the request path does: panic, return an error, or
return a value. -/
inductive Attempt (ε β : Type) where
  | panicked (site : Panic)
  | err (e : ε)
  | ok (b : β)
deriving DecidableEq

/-- The `?` operator. -/
def Attempt.bind {ε β γ : Type} (a : Attempt ε β) (f : β → Attempt ε γ) : Attempt ε γ :=
  match a with
  | .panicked site => .panicked site
  | .err e => .err e
  | .ok b => f b

/-- Either the code behind `a.bind f` returns through `f` or it does not get there. -/
theorem Attempt.bind_eq_ok {ε β γ : Type} {a : Attempt ε β} {f : β → Attempt ε γ} {c : γ} :
    a.bind f = .ok c ↔ ∃ b, a = .ok b ∧ f b = .ok c := by
  cases a <;> simp [Attempt.bind]

/-- An error comes from the first part or, behind it, from the second. -/
theorem Attempt.bind_eq_err {ε β γ : Type} {a : Attempt ε β} {f : β → Attempt ε γ} {e : ε} :
    a.bind f = .err e ↔ a = .err e ∨ ∃ b, a = .ok b ∧ f b = .err e := by
  cases a <;> simp [Attempt.bind]

end Toutates
