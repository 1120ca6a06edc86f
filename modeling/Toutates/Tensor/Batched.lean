/-
# The tensors that requests share

`src/tensor/batched_tensor.rs`.  A `BatchableTensor` is one model input of one
batch: `batch_size` rows, each a whole input of one request row, and requests
copy their rows into the slots they reserved.  A `TensorBytes` is an input as a
request sends it: a declared shape and the raw bytes.

Three lengths meet here and nothing in this file compares them: the rows a
request declares (`shape[0]`), the bytes it sends (`data`), and the row size of
the model's tensor (`single_tensor_shape`).  `slice_dim0` divides the second by
the first, and `copy_tensor_slice_from_bytes!` writes whatever that gives at an
offset computed from the third.

On the way back, `value_as_byte_slice` cuts the rows of one request out of the
tensor that a whole batch produced.
-/

import Toutates.Tensor.Element

namespace Toutates

open Basis

/-- `DataType` of the protocol, as far as the request path carries it. -/
inductive DataType where
  | typeInvalid | typeBool | typeUint8 | typeUint16 | typeUint32 | typeUint64 | typeInt8
  | typeInt16 | typeInt32 | typeInt64 | typeFp16 | typeFp32 | typeFp64 | typeString | typeBf16
deriving DecidableEq

/-- `DataType::from_str`. -/
def DataType.fromStr : String → DataType
  | "INVALID" => .typeInvalid
  | "BOOL" => .typeBool
  | "INT8" => .typeInt8
  | "UINT8" => .typeUint8
  | "INT16" => .typeInt16
  | "UINT16" => .typeUint16
  | "INT32" => .typeInt32
  | "UINT32" => .typeUint32
  | "INT64" => .typeInt64
  | "UINT64" => .typeUint64
  | "FP16" => .typeFp16
  | "BF16" => .typeBf16
  | "FP32" => .typeFp32
  | "FP64" => .typeFp64
  | "STRING" => .typeString
  | _ => .typeInvalid

/-- One input of a request: the declared element type and shape, and the raw
bytes. -/
structure TensorBytes where
  dataType : DataType
  shape : List ℤ
  data : List UInt8
deriving DecidableEq

namespace TensorBytes

/-- The bytes that the declared dimension 0 gives each row. -/
def bytesPerIndex (t : TensorBytes) (dim0 : ℕ) : ℕ := t.data.length / dim0

/-- `TensorBytes::slice_dim0`: the bytes of rows `start .. stop`. -/
def sliceDim0 (t : TensorBytes) (start stop : ℕ) : Except Panic (List UInt8) :=
  match t.shape with
  | [] => .error .emptyShape
  | d :: _ =>
    let dim0Size := asUsize d
    if ¬ start < stop then .error .emptyRange
    else if dim0Size = 0 then .error .zeroDim0
    else
      let byteStart := start * t.bytesPerIndex dim0Size
      let byteEnd := stop * t.bytesPerIndex dim0Size
      if t.data.length < byteEnd then .error .sliceRange
      else .ok (segment t.data byteStart (byteEnd - byteStart))

/-- A slice that is returned has its length: rows times bytes per row. -/
theorem length_of_sliceDim0 {t : TensorBytes} {start stop : ℕ} {src : List UInt8}
    (h : t.sliceDim0 start stop = .ok src) :
    ∃ d dims, t.shape = d :: dims ∧ start < stop ∧ asUsize d ≠ 0 ∧
      stop * t.bytesPerIndex (asUsize d) ≤ t.data.length ∧
      src = segment t.data (start * t.bytesPerIndex (asUsize d))
        ((stop - start) * t.bytesPerIndex (asUsize d)) ∧
      src.length = (stop - start) * t.bytesPerIndex (asUsize d) := by
  unfold sliceDim0 at h
  split at h
  · simp at h
  · rename_i d dims hs
    simp only at h
    split_ifs at h with h₁ h₂ h₃
    obtain rfl := Except.ok.inj h
    have hlt : start < stop := h₁
    have hle := Nat.le_of_not_lt h₃
    rw [← Nat.sub_mul]
    refine ⟨d, dims, hs, hlt, h₂, hle, rfl, ?_⟩
    rw [length_segment, Nat.min_eq_left]
    rw [Nat.sub_mul]
    omega

/-- Rows that the tensor declares are sliced out of whatever bytes it has. -/
theorem sliceDim0_ok {t : TensorBytes} {d : ℤ} {dims : List ℤ} {start stop : ℕ}
    (hshape : t.shape = d :: dims) (hlt : start < stop) (hle : stop ≤ asUsize d) :
    ∃ src, t.sliceDim0 start stop = .ok src := by
  have hdim : asUsize d ≠ 0 := by omega
  have hdata : stop * t.bytesPerIndex (asUsize d) ≤ t.data.length :=
    (Nat.mul_le_mul_right _ hle).trans (Nat.mul_div_le _ _)
  simp only [sliceDim0, hshape, hlt, not_true_eq_false, if_false, hdim, Nat.not_lt_of_le hdata]
  exact ⟨_, rfl⟩

end TensorBytes

/-- One model input of one batch: a tensor of `batchSize` rows, the shape of one
row with dimension 0 set to 1, and the element type they share. -/
structure BatchableTensor (batchSize : ℕ) where
  innerTensor : DynTensor
  dataType : TensorElementType
  singleTensorShape : List ℤ
  tag_eq : innerTensor.dataType = dataType
  shape_eq : ∃ dims : List ℤ, (∀ d ∈ dims, 0 ≤ d) ∧
    innerTensor.shape = (batchSize : ℤ) :: dims ∧ singleTensorShape = 1 :: dims
deriving DecidableEq

namespace BatchableTensor

variable {batchSize : ℕ}

/-- Elements per row: `single_tensor_shape.num_elements()`. -/
def tensorSize (t : BatchableTensor batchSize) : ℕ := numElements t.singleTensorShape

/-- A batch has the elements of all of its rows. -/
theorem numElements_inner (t : BatchableTensor batchSize) :
    numElements t.innerTensor.shape = batchSize * t.tensorSize := by
  obtain ⟨dims, -, hi, hs⟩ := t.shape_eq
  have hone : numElements t.singleTensorShape = 1 * numElements dims := by
    rw [hs]
    exact numElements_cons 1 dims
  rw [tensorSize, hone, hi, numElements_cons, Nat.one_mul]

/-- The data of a tensor that can be read has `batchSize` rows. -/
theorem data_length (t : BatchableTensor batchSize) {w : ℕ} (h : t.dataType.readWidth = some w) :
    t.innerTensor.data.length = batchSize * (t.tensorSize * w) := by
  rw [t.innerTensor.data_length w (by rw [t.tag_eq, h]), numElements_inner, Nat.mul_assoc]

/-- The tensor with other data of the same length. -/
def withData (t : BatchableTensor batchSize) (data : List UInt8)
    (h : data.length = t.innerTensor.data.length) : BatchableTensor batchSize where
  innerTensor := { t.innerTensor with
    data := data
    data_length := fun w hw => h.trans (t.innerTensor.data_length w hw) }
  dataType := t.dataType
  singleTensorShape := t.singleTensorShape
  tag_eq := t.tag_eq
  shape_eq := t.shape_eq

/-- New data are the data. -/
@[simp] theorem withData_data (t : BatchableTensor batchSize) (data : List UInt8)
    (h : data.length = t.innerTensor.data.length) : (t.withData data h).innerTensor.data = data := rfl

/-- A source of whole elements that ends inside the tensor ends inside its data. -/
theorem copy_in_data {w : ℕ} (t : BatchableTensor batchSize) (hw : t.dataType.copyWidth = some w)
    {slot : ℕ} {src : List UInt8}
    (h₁ : ¬ numElements t.innerTensor.shape < slot * t.tensorSize + src.length / w)
    (h₂ : ¬ src.length / w * w ≠ src.length) :
    slot * t.tensorSize * w + src.length ≤ t.innerTensor.data.length := by
  rw [t.data_length (TensorElementType.readWidth_of_copyWidth hw), ← Nat.mul_assoc,
    ← t.numElements_inner, ← not_not.1 h₂, ← Nat.add_mul]
  exact Nat.mul_le_mul_right w (Nat.le_of_not_lt h₁)

/-- `copy_tensor_slice_from_bytes!` for a Rust type of `w` bytes: the source goes
to the elements from `slot * tensor_size` on, as many as it has bytes for.  The
element range has to end inside the tensor, and `copy_from_slice` wants the
lengths in bytes equal. -/
def copyTensorSliceFromBytes (w : ℕ) (t : BatchableTensor batchSize)
    (hw : t.dataType.copyWidth = some w) (slot : ℕ) (src : List UInt8) :
    Attempt InferError (BatchableTensor batchSize) :=
  if h₁ : numElements t.innerTensor.shape < slot * t.tensorSize + src.length / w then
    .panicked .tensorRange
  else if h₂ : src.length / w * w ≠ src.length then .panicked .copyLength
  else .ok (t.withData (overwrite t.innerTensor.data (slot * t.tensorSize * w) src)
    (length_overwrite (copy_in_data t hw h₁ h₂)))

/-- `BatchableTensor::copy_at_from_bytes`. -/
def copyAtFromBytes (t : BatchableTensor batchSize) (slot : ℕ) (src : List UInt8) :
    Attempt InferError (BatchableTensor batchSize) :=
  match hw : t.dataType.copyWidth with
  | some w => t.copyTensorSliceFromBytes w hw slot src
  | none => .err .unsupportedDataType

/-- The body of the loop over the model inputs in `insert_tensors_at`, for input
`i`: rows `start .. stop` of the request's `i`-th tensor go to the slots from
`slot` on. -/
def copyInput (t : BatchableTensor batchSize) (data : List TensorBytes) (i start stop slot : ℕ) :
    Attempt InferError (BatchableTensor batchSize) :=
  match data[i]? with
  | none => .panicked .inputIndex
  | some tensor =>
    match tensor.sliceDim0 start stop with
    | .error site => .panicked site
    | .ok slice => t.copyAtFromBytes slot slice

/-- A copy leaves the element type and the shape of a row. -/
theorem copyInput_frame {t t' : BatchableTensor batchSize} {data : List TensorBytes} {i start stop slot : ℕ}
    (h : t.copyInput data i start stop slot = .ok t') :
    t'.dataType = t.dataType ∧ t'.singleTensorShape = t.singleTensorShape := by
  unfold copyInput at h
  split at h
  · cases h
  · split at h
    · cases h
    · unfold copyAtFromBytes at h
      split at h
      · unfold copyTensorSliceFromBytes at h
        split_ifs at h
        obtain rfl := Attempt.ok.inj h
        exact ⟨rfl, rfl⟩
      · cases h

end BatchableTensor

end Toutates
