/-
# From a gRPC request to the ring

`TritonService::model_infer` of `src/grpc/mod.rs` up to its call of `infer`.  A request names
a model and lists its inputs with a name, an element type and a shape; the bytes of the
inputs come in a list of their own.  `model_infer` finds the model, checks the shape of every
input against the model's except for dimension 0, which only has to be positive, brings the
inputs into the order of the model, and hands them to the ring with the bytes that stand at
their place in the request.
-/

import Mathlib.Data.List.Sort
import Toutates.Ring.Thread

namespace Toutates

/-- `pajamax::status::Code`, as far as `model_infer` returns it. -/
inductive Code where
  | notFound | invalidArgument | resourceExhausted | internal
deriving DecidableEq

/-- `pajamax::status::Status`. -/
structure Status where
  code : Code
  message : String
deriving DecidableEq

/-- `infer_error_to_status`. -/
def inferErrorToStatus (err : InferError) : Status where
  code :=
    match err with
    | .ringFull => .resourceExhausted
    | _ => .internal
  message := err.message

/-- `ModelInput` of `model_config.input`: its name and its dimensions. -/
structure ModelInput where
  name : String
  dims : List ℤ

/-- `ModelProxy`, as far as `model_infer` reads it on the way to the ring: the inputs of
`model_config`, and the order that `model_metadata.input_set` gives a name. -/
structure ModelProxy where
  input : List ModelInput
  order : String → Option ℕ

/-- `InferInputTensor`; the dimensions are `i64`. -/
structure InferInputTensor where
  name : String
  datatype : String
  shape : List ℤ
  shape_lt : ∀ d ∈ shape, -2 ^ 63 ≤ d ∧ d < 2 ^ 63

/-- `ModelInferRequest`, as far as `model_infer` reads it on the way to the ring. -/
structure ModelInferRequest where
  modelName : String
  inputs : List InferInputTensor
  rawInputContents : List (List UInt8)

/-- The loop over the dimensions of an input and of the model, from dimension `i` on. -/
def validateDims (name : String) : ℕ → List ℤ → List ℤ → Except Status Unit
  | i, reqDim :: reqShape, modelDim :: modelShape =>
    if i = 0 then
      if reqDim ≤ 0 then
        .error ⟨.invalidArgument, "Input '" ++ name ++ "' batch size must be positive, got " ++ toString reqDim⟩
      else validateDims name (i + 1) reqShape modelShape
    else if reqDim ≠ modelDim then
      .error ⟨.invalidArgument, "Input '" ++ name ++ "' dimension " ++ toString i ++ " mismatch: expected " ++
        toString modelDim ++ ", got " ++ toString reqDim⟩
    else validateDims name (i + 1) reqShape modelShape
  | _, _, _ => .ok ()

/-- The checks of one input of a request. -/
def validateInput (proxy : ModelProxy) (reqInput : InferInputTensor) : Except Status Unit :=
  match proxy.input.find? fun i => i.name == reqInput.name with
  | none => .error ⟨.invalidArgument, "Unknown input '" ++ reqInput.name ++ "' in request"⟩
  | some modelInput =>
    if reqInput.shape.length ≠ modelInput.dims.length then
      .error ⟨.invalidArgument, "Input '" ++ reqInput.name ++ "' shape rank mismatch: expected " ++
        toString modelInput.dims.length ++ ", got " ++ toString reqInput.shape.length⟩
    else validateDims reqInput.name 0 reqInput.shape modelInput.dims

/-- The loop over the inputs of a request. -/
def validateInputs (proxy : ModelProxy) : List InferInputTensor → Except Status Unit
  | [] => .ok ()
  | i :: is =>
    match validateInput proxy i with
    | .error status => .error status
    | .ok () => validateInputs proxy is

/-- `ordered_inputs`: the inputs with their places in the request, sorted by the order of the
model, those of equal order as they come. -/
def orderedInputs (proxy : ModelProxy) (inputs : List InferInputTensor) : List (InferInputTensor × ℕ) :=
  inputs.zipIdx.insertionSort fun a b =>
    (proxy.order a.1.name).getD 0 ≤ (proxy.order b.1.name).getD 0

/-- The loop that fills `inputs`: an input with the bytes at its place in the request. -/
def tensorBytes (raw : List (List UInt8)) : List (InferInputTensor × ℕ) → Attempt Status (List TensorBytes)
  | [] => .ok []
  | (reqInput, i) :: rest =>
    match raw[i]? with
    | none => .panicked .rawIndex
    | some data =>
      (tensorBytes raw rest).bind fun tensors =>
        .ok (⟨DataType.fromStr reqInput.datatype, reqInput.shape, data⟩ :: tensors)

/-- `model_infer` up to its call of `infer`: the tensors it calls it with. -/
def modelInfer (models : String → Option ModelProxy) (request : ModelInferRequest) :
    Attempt Status (List TensorBytes) :=
  match models request.modelName with
  | none => .err ⟨.notFound, "Model " ++ request.modelName ++ " not found"⟩
  | some proxy =>
    match validateInputs proxy request.inputs with
    | .error status => .err status
    | .ok () =>
      if request.inputs.all fun i => (proxy.order i.name).isSome then
        tensorBytes request.rawInputContents (orderedInputs proxy request.inputs)
      else .panicked .inputSet

/-! ### What validation is good for -/

/-- Dimension 0 of an input that passes is positive. -/
theorem validateDims_pos {name : String} {d : ℤ} {reqShape : List ℤ} {m : ℤ} {modelShape : List ℤ}
    (h : validateDims name 0 (d :: reqShape) (m :: modelShape) = .ok ()) : 0 < d := by
  rw [validateDims, if_pos rfl] at h
  by_contra hd
  rw [if_pos (Int.not_lt.1 hd)] at h
  cases h

/-- An input that is accepted has a row. -/
theorem validateInput_pos {proxy : ModelProxy} {reqInput : InferInputTensor}
    (h : validateInput proxy reqInput = .ok ()) : ∀ d ∈ reqInput.shape.head?, 0 < d := by
  intro d hd
  unfold validateInput at h
  split at h
  · cases h
  · rename_i modelInput _
    split_ifs at h with hrank
    obtain ⟨dims, hshape⟩ : ∃ dims, reqInput.shape = d :: dims := List.head?_eq_some_iff.1 hd
    rw [hshape] at h hrank
    cases hm : modelInput.dims with
    | nil => simp [hm] at hrank
    | cons m modelShape =>
      rw [hm] at h
      exact validateDims_pos h

/-- All inputs of a request that is accepted have a row. -/
theorem validateInputs_pos {proxy : ModelProxy} {inputs : List InferInputTensor}
    (h : validateInputs proxy inputs = .ok ()) : ∀ i ∈ inputs, ∀ d ∈ i.shape.head?, 0 < d := by
  induction inputs with
  | nil => exact fun i hi => absurd hi List.not_mem_nil
  | cons i is ih =>
    rw [validateInputs] at h
    split at h
    · cases h
    · rename_i hi
      intro j hj
      rcases List.mem_cons.1 hj with rfl | hj
      · exact validateInput_pos hi
      · exact ih h j hj

/-- Every tensor comes from an input of the request. -/
theorem shape_of_tensorBytes {raw : List (List UInt8)} {inputs : List (InferInputTensor × ℕ)}
    {tensors : List TensorBytes} (h : tensorBytes raw inputs = .ok tensors) :
    ∀ t ∈ tensors, ∃ a ∈ inputs, t.shape = a.1.shape := by
  induction inputs generalizing tensors with
  | nil =>
    obtain rfl := Attempt.ok.inj h
    exact fun t ht => absurd ht List.not_mem_nil
  | cons a rest ih =>
    obtain ⟨reqInput, i⟩ := a
    rw [tensorBytes] at h
    split at h
    · cases h
    · obtain ⟨ts, hts, hok⟩ := Attempt.bind_eq_ok.1 h
      obtain rfl := Attempt.ok.inj hok
      intro t ht
      rcases List.mem_cons.1 ht with rfl | ht
      · exact ⟨_, List.mem_cons_self, rfl⟩
      · obtain ⟨a, ha, hshape⟩ := ih hts t ht
        exact ⟨a, List.mem_cons_of_mem _ ha, hshape⟩

/-- The tensors that `model_infer` calls `infer` with are the inputs of a `Request`. -/
theorem rows_pos_of_modelInfer {models : String → Option ModelProxy} {request : ModelInferRequest}
    {tensors : List TensorBytes} (h : modelInfer models request = .ok tensors) :
    ∀ t ∈ tensors, ∀ d ∈ t.shape.head?, 0 < d ∧ d < 2 ^ 63 := by
  intro t ht d hd
  unfold modelInfer at h
  split at h
  · cases h
  · rename_i proxy _
    split at h
    · cases h
    · rename_i hvalid
      split_ifs at h
      obtain ⟨a, ha, hshape⟩ := shape_of_tensorBytes h t ht
      have hmem : a.1 ∈ request.inputs := by
        have hzip := (List.perm_insertionSort _ _).mem_iff.1 ha
        exact List.fst_mem_of_mem_zipIdx hzip
      rw [hshape] at hd
      exact ⟨validateInputs_pos hvalid a.1 hmem d hd,
        (a.1.shape_lt d (List.mem_of_mem_head? hd)).2⟩

/-- The request that `infer` is called with. -/
def Request.ofModelInfer {models : String → Option ModelProxy} {request : ModelInferRequest}
    {tensors : List TensorBytes} (h : modelInfer models request = .ok tensors) : Request :=
  ⟨tensors, rows_pos_of_modelInfer h⟩

end Toutates
