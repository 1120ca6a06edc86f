/-
# Cutting a response out of the batches it was executed in

`value_as_byte_slice` of `src/tensor/batched_tensor.rs`, and the bodies of
`WriteReservation::get_result` and `InferenceResponse::get_data` of
`src/tensor/supertensor.rs` once the output cells they wait for are set.

A request of `n` rows holds one reservation for every batch its rows fell in.  A
reservation knows the slots it took in that batch (`start .. stop`) and finds the
outputs of the whole batch in its cell.  `get_data` walks over the reservations in
order, appends what each one cuts out of every output (`extendOutputs`) and adds
up dimension 0 of the shapes (`mergeMetadata`).
-/

import Toutates.Tensor.Batched

namespace Toutates

open Basis

/-- `SessionValues`: the outputs of one batch, in model order. -/
abbrev SessionValues := List DynTensor

/-- The element type and shape that `get_data` reports for an output. -/
abbrev Metadata := TensorElementType × List ℤ

/-- `as_byte_slice!` for a Rust type of `w` bytes: elements `start .. stop`. -/
def asByteSlice (w : ℕ) (v : DynTensor) (start stop : ℕ) : Attempt InferError (List UInt8) :=
  if start ≤ stop ∧ stop ≤ numElements v.shape then
    .ok (segment v.data (start * w) ((stop - start) * w))
  else .panicked .outputRange

/-- `value_as_byte_slice`. -/
def valueAsByteSlice (v : DynTensor) (start stop : ℕ) : Attempt InferError (List UInt8) :=
  match v.dataType.readWidth with
  | some w => asByteSlice w v start stop
  | none => .err .unsupportedDataType

/-- The loop of `get_result` over the outputs of a batch, from output `i` on:
`data[i].extend_from_slice(slice)` and the metadata. -/
def extendOutputs (start stop : ℕ) :
    SessionValues → ℕ → List (List UInt8) → List Metadata →
      Attempt InferError (List (List UInt8) × List Metadata)
  | [], _, data, metadatas => .ok (data, metadatas)
  | v :: vs, i, data, metadatas =>
    (valueAsByteSlice v start stop).bind fun slice =>
      match data[i]? with
      | none => .panicked .outputIndex
      | some d =>
        extendOutputs start stop vs (i + 1) (data.set i (d ++ slice)) (metadatas ++ [(v.dataType, v.shape)])

/-- `get_result` of a reservation of slots `start .. stop`, once its output cell
holds the result of the batch. -/
def getResult (start stop : ℕ) (result : Except InferError SessionValues) (data : List (List UInt8)) :
    Attempt InferError (List (List UInt8) × List Metadata) :=
  match result with
  | .error e => .err e
  | .ok values =>
    let data := if data.isEmpty then values.map (fun _ => []) else data
    extendOutputs start stop values 0 data []

/-- `metadatas.0[i].1[0] += shape[0]`, for every output `i` of a later batch. -/
def mergeMetadata : List Metadata → ℕ → List Metadata → Attempt InferError (List Metadata)
  | [], _, acc => .ok acc
  | (_, shape) :: rest, i, acc =>
    match acc[i]?, shape with
    | some (t, d :: dims), e :: _ => mergeMetadata rest (i + 1) (acc.set i (t, (d + e) :: dims))
    | _, _ => .panicked .outputIndex

/-- One turn of the loop of `get_data`: the bytes and the metadata so far, and a
reservation whose batch has this result. -/
def getDataStep (start stop : ℕ) (result : Except InferError SessionValues)
    (data : List (List UInt8)) (metadatas : Option (List Metadata)) :
    Attempt InferError (List (List UInt8) × List Metadata) :=
  (getResult start stop result data).bind fun (data, batchMetadatas) =>
    match metadatas with
    | none => .ok (data, batchMetadatas)
    | some acc => (mergeMetadata batchMetadatas 0 acc).bind fun acc => .ok (data, acc)

/-- A reservation of a response and the result that its batch left in the cell. -/
structure Delivery where
  start : ℕ
  stop : ℕ
  result : Except InferError SessionValues

/-- `InferenceResponse::get_data` over the rest of the reservations. -/
def getDataFrom : List Delivery → List (List UInt8) → Option (List Metadata) →
    Attempt InferError (List (List UInt8) × List Metadata)
  | [], data, some metadatas => .ok (data, metadatas)
  | [], _, none => .panicked .noReservation
  | d :: ds, data, metadatas =>
    (getDataStep d.start d.stop d.result data metadatas).bind fun (data, metadatas) =>
      getDataFrom ds data (some metadatas)

/-- `InferenceResponse::get_data` into an empty vector, as `model_infer` calls it. -/
def getData (ds : List Delivery) : Attempt InferError (List (List UInt8) × List Metadata) :=
  getDataFrom ds [] none

end Toutates
