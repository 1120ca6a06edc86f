/-
# Rows

A batch is a list of rows, and so is an input of a request.  A copy of rows of the model's size
puts the request's rows into the slots of the reservation, one by one, and leaves the other slots
alone (`Copy.row_of_ok`, `Copy.row_of_ok_of_notMem`).
-/

import Toutates.Tensor.Isolation

namespace Toutates

open Basis

variable {batchSize : ℕ}

/-- Row `k` of a tensor that can be written. -/
def BatchableTensor.row (t : BatchableTensor batchSize) (k : ℕ) : List UInt8 :=
  segment t.innerTensor.data (k * t.rowBytes) t.rowBytes

/-- Row `r` of an input of a request, where a row has so many bytes. -/
def TensorBytes.row (t : TensorBytes) (rowBytes r : ℕ) : List UInt8 := segment t.data (r * rowBytes) rowBytes

namespace Copy

variable {c : Copy batchSize} {tensor : TensorBytes} {dim0 : ℤ} {dims : List ℤ} {t' : BatchableTensor batchSize}

/-- A copy does not change the bytes of a row. -/
theorem rowBytes_of_ok (hok : c.result = .ok t') : t'.rowBytes = c.t.rowBytes := by
  obtain ⟨htype, hshape⟩ := BatchableTensor.copyInput_frame hok
  rw [BatchableTensor.rowBytes, BatchableTensor.rowBytes, BatchableTensor.tensorSize, BatchableTensor.tensorSize,
    htype, hshape]

/-- A copy that returns is of an element type that has an arm. -/
theorem supported_of_ok (hok : c.result = .ok t') : c.t.dataType.copyWidth.isSome := by
  unfold result BatchableTensor.copyInput at hok
  split at hok
  · cases hok
  · split at hok
    · cases hok
    · obtain ⟨w, hw, -⟩ := BatchableTensor.copyAtFromBytes_of_ok hok
      rw [hw]
      rfl

/-- What a copy that returns leaves in the tensor. -/
theorem data_of_ok (hi : c.data[c.i]? = some tensor) (hshape : tensor.shape = dim0 :: dims)
    (hok : c.result = .ok t') :
    c.slot * c.t.rowBytes + (tensor.slice (asUsize dim0) c.start c.stop).length ≤ c.t.innerTensor.data.length ∧
      t'.innerTensor.data =
        overwrite c.t.innerTensor.data (c.slot * c.t.rowBytes) (tensor.slice (asUsize dim0) c.start c.stop) := by
  obtain ⟨-, hle, hrun⟩ := run_ok hi hshape hok
  obtain ⟨t₁, ht₁, hdata⟩ := hrun c.t.innerTensor.data rfl
  obtain rfl : t₁ = t' := Attempt.ok.inj (ht₁.symm.trans hok)
  exact ⟨hle, hdata⟩

variable (hi : c.data[c.i]? = some tensor) (hshape : tensor.shape = dim0 :: dims) (hok : c.result = .ok t')
  (hbytes : tensor.bytesPerIndex (asUsize dim0) = c.t.rowBytes)

include hi hshape hok hbytes

/-- The slots of a reservation get the request's rows. -/
theorem row_of_ok {r : ℕ} (hr : r < c.stop - c.start) :
    t'.row (c.slot + r) = tensor.row c.t.rowBytes (c.start + r) := by
  obtain ⟨hle, hdata⟩ := data_of_ok hi hshape hok
  have hlen := (run_ok hi hshape hok).1
  have hrow : r * c.t.rowBytes + c.t.rowBytes ≤ (c.stop - c.start) * c.t.rowBytes := by
    rw [← Nat.succ_mul]
    exact Nat.mul_le_mul_right _ hr
  rw [hbytes] at hlen
  rw [BatchableTensor.row, rowBytes_of_ok hok, hdata, Nat.add_mul, segment_overwrite_inside hle (by rwa [hlen]),
    TensorBytes.slice, hbytes, segment_segment hrow, TensorBytes.row, Nat.add_mul]

/-- The other slots keep theirs. -/
theorem row_of_ok_of_notMem {k : ℕ} (hk : k < c.slot ∨ c.slot + (c.stop - c.start) ≤ k) : t'.row k = c.t.row k := by
  obtain ⟨hle, hdata⟩ := data_of_ok hi hshape hok
  have hlen := (run_ok hi hshape hok).1
  rw [hbytes] at hlen
  rw [BatchableTensor.row, BatchableTensor.row, rowBytes_of_ok hok, hdata]
  refine segment_overwrite_outside hle ?_
  rw [hlen]
  rcases hk with hk | hk
  · left
    rw [← Nat.succ_mul]
    exact Nat.mul_le_mul_right _ hk
  · right
    rw [← Nat.add_mul]
    exact Nat.mul_le_mul_right _ hk

end Copy

end Toutates
