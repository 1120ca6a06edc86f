/-
# The shape of an input, in the places that keep it

`ModelRuntimeManager::load_model` and `build_gpu_bound_spec` of `src/model_runtime/manager.rs`,
`SuperTensorBuffer::new_with_overrides` of `src/tensor/supertensor.rs` and `BatchableTensor::new`
of `src/tensor/batched_tensor.rs`, as far as they turn the shapes that a session lists and the
shapes that the configuration overrides into the shapes that the model is served with.

The configuration can give an input a shape of its own (`input_shapes`).  The metadata and the
tensors on the GPU take it for the shape of the model; the buffer keeps the shape of the model and
takes the dimensions behind the first one by one, as far as both shapes have them (`mergeFrom`).
The three agree exactly when both shapes have as many dimensions (`row_shapes_agree_iff`).

Building the sessions and running them to warm them up is code of the `ort` crate; what it makes of
the tensors is a parameter.
-/

import Toutates.Basis.Fallible
import Toutates.Grpc.Binding
import Toutates.Ring.Copying

namespace Toutates

open Basis

/-- `ort::value::ValueType`. -/
inductive ValueType where
  | tensor (ty : TensorElementType) (shape : List ℤ)
  | sequence | map | optional

/-- An input or an output that a session lists. -/
structure SessionOutlet where
  name : String
  dtype : ValueType

/-- `Session`, as far as it is asked for its inputs and outputs. -/
structure Session where
  inputs : List SessionOutlet
  outputs : List SessionOutlet

/-- `AllocatorKind`. -/
inductive AllocatorKind where
  | cpu | cudaPinned | cuda
deriving DecidableEq

/-- `ModelRepositoryConfig`, as far as `load_model` places the tensors by it. -/
structure ModelRepositoryConfig where
  batchSize : ℕ
  capacity : ℕ
  numExecutors : ℕ
  allocator : AllocatorKind
  inputShapes : String → Option (List ℤ)
  outputShapes : String → Option (List ℤ)

/-- Why a model is not loaded: the panics of `load_model`, and what the `ort` crate reports. -/
inductive LoadFailure where
  /-- "Capacity is not power of 2: {capacity}" -/
  | capacity (capacity : ℕ)
  /-- "Batch size is not power of 2: {capacity}"; the number is the capacity here too. -/
  | batchSize (capacity : ℕ)
  /-- "Shape is not dynamic" -/
  | notDynamic
  /-- "Batch shape contains a dimension that is dynamic and not the batching dimension {batch_shape:?}" -/
  | dynamicDimension (batchShape : List ℤ)
  /-- An index into a shape without dimensions. -/
  | emptyShape
  /-- `todo!()` or `unwrap()` for an input or an output that is no tensor. -/
  | notATensor
  /-- `sessions[0]` without sessions. -/
  | noSession
  /-- `LoadError::SuperTensorBuild`. -/
  | superTensorBuild
  /-- `GpuBoundIo::new` or a run of the warm-up. -/
  | warmup
deriving DecidableEq

/-! ### The tensors of the buffer -/

/-- The tensor that `DynTensor::new` allocates; what its memory holds is nobody's business. -/
def DynTensor.allocate (ty : TensorElementType) (shape : List ℤ) : DynTensor where
  dataType := ty
  shape := shape
  data := List.replicate (numElements shape * ty.readWidth.getD 0) 0
  data_length w hw := by rw [List.length_replicate, hw, Option.getD_some]

/-- `BatchableTensor::new`. -/
def BatchableTensor.new (ty : TensorElementType) (shape : List ℤ) (batchSize : ℕ) :
    Except LoadFailure (BatchableTensor batchSize) :=
  match shape with
  | [] => .error .emptyShape
  | batchDim :: dims =>
    if batchDim ≠ -1 then .error .notDynamic
    else if hstatic : ∀ d ∈ dims, 0 ≤ d then
      .ok {
        innerTensor := DynTensor.allocate ty (batchSize :: dims)
        dataType := ty
        singleTensorShape := 1 :: dims
        tag_eq := rfl
        shape_eq := ⟨dims, hstatic, rfl, rfl⟩ }
    else .error (.dynamicDimension (batchSize :: dims))

/-- The loop over an override, from dimension `i` on: the dimensions from `first` on replace those
of the shape, as far as it has them. -/
def mergeFrom (first : ℕ) : ℕ → List ℤ → List ℤ → List ℤ
  | i, dim :: shape, overrideDim :: overrideShape =>
    (if first ≤ i then overrideDim else dim) :: mergeFrom first (i + 1) shape overrideShape
  | _, shape, _ => shape

/-- `effective_shape` of `new_with_overrides`. -/
def effectiveShape (override : Option (List ℤ)) (shape : List ℤ) : List ℤ :=
  match override with
  | some overrideShape => mergeFrom 1 0 shape overrideShape
  | none => shape

/-- The tensor of one input of one batch. -/
def batchedInputTensor (batchSize : ℕ) (shapeOverrides : String → Option (List ℤ)) (input : SessionOutlet) :
    Except LoadFailure (BatchableTensor batchSize) :=
  match input.dtype with
  | .tensor ty shape => BatchableTensor.new ty (effectiveShape (shapeOverrides input.name) shape) batchSize
  | _ => .error .notATensor

/-- `SuperTensorBuffer::new_with_overrides`, as far as the tensors of one batch; every batch gets
the same. -/
def newWithOverrides (capacity batchSize : ℕ) (inputs : List SessionOutlet)
    (shapeOverrides : String → Option (List ℤ)) : Except LoadFailure (List (BatchableTensor batchSize)) :=
  if ¬ isPowerOfTwo capacity then .error (.capacity capacity)
  else if ¬ isPowerOfTwo batchSize then .error (.batchSize capacity)
  else inputs.mapM (batchedInputTensor batchSize shapeOverrides)

/-! ### Metadata and tensors on the GPU -/

/-- An input of `model_config`. -/
def modelInput (inputShapes : String → Option (List ℤ)) (input : SessionOutlet) : Except LoadFailure ModelInput :=
  match input.dtype with
  | .tensor _ shape => .ok ⟨input.name, (inputShapes input.name).getD shape⟩
  | _ => .error .notATensor

/-- `ModelOutput`, as far as an override reaches it. -/
structure ModelOutput where
  name : String
  dims : List ℤ

/-- An output of `model_config`; every output has to be a tensor here, whatever the allocator. -/
def modelOutput (outputShapes : String → Option (List ℤ)) (output : SessionOutlet) : Except LoadFailure ModelOutput :=
  match output.dtype with
  | .tensor _ shape => .ok ⟨output.name, mergeFrom 0 0 shape ((outputShapes output.name).getD [])⟩
  | _ => .error .notATensor

/-- An entry of `GpuBoundIoSpec`. -/
structure GpuTensor where
  name : String
  dtype : TensorElementType
  shape : List ℤ

/-- `GpuBoundIoSpec`. -/
structure GpuBoundIoSpec where
  inputs : List GpuTensor
  outputs : List GpuTensor

/-- An entry of the specification, when the shape before the batch dimension is set is `dims shape`
for the shape of the model. -/
def gpuTensor (batchSize : ℕ) (dims : List ℤ → List ℤ) (outlet : SessionOutlet) : Except LoadFailure GpuTensor :=
  match outlet.dtype with
  | .tensor ty shape =>
    match dims shape with
    | [] => .error .emptyShape
    | _ :: rest => .ok ⟨outlet.name, ty, batchSize :: rest⟩
  | _ => .error .superTensorBuild

/-- `build_gpu_bound_spec`: an override is the shape of an input, and is merged into the shape of
an output. -/
def buildGpuBoundSpec (session : Session) (batchSize : ℕ) (inputShapes outputShapes : String → Option (List ℤ)) :
    Except LoadFailure GpuBoundIoSpec := do
  let inputs ← session.inputs.mapM fun input => gpuTensor batchSize (inputShapes input.name).getD input
  let outputs ← session.outputs.mapM fun output =>
    gpuTensor batchSize (fun shape => mergeFrom 0 0 shape ((outputShapes output.name).getD [])) output
  return ⟨inputs, outputs⟩

/-! ### Loading -/

/-- What a model is served with. -/
structure Served (batchSize : ℕ) where
  inputTensors : List (BatchableTensor batchSize)
  output : List ModelOutput
  proxy : ModelProxy
  gpuSpec : Option GpuBoundIoSpec

/-- `gpu_spec` of `load_model`. -/
def gpuSpecOf (session : Session) (config : ModelRepositoryConfig) : Except LoadFailure (Option GpuBoundIoSpec) :=
  match config.allocator with
  | .cuda => (buildGpuBoundSpec session config.batchSize config.inputShapes config.outputShapes).map some
  | _ => .ok none

/-- `ModelRuntimeManager::load_model`; `warmup` says whether the sessions run on these tensors. -/
def ModelRuntimeManager.loadModel (session : Session) (config : ModelRepositoryConfig)
    (warmup : List (BatchableTensor config.batchSize) → Option GpuBoundIoSpec → Bool) :
    Except LoadFailure (Served config.batchSize) :=
  if config.numExecutors = 0 then .error .noSession
  else do
    let inputTensors ← newWithOverrides config.capacity config.batchSize session.inputs config.inputShapes
    let input ← session.inputs.mapM (modelInput config.inputShapes)
    let output ← session.outputs.mapM (modelOutput config.outputShapes)
    let proxy ← (Toutates.loadModel input).elim (.error .emptyShape) .ok
    let gpuSpec ← gpuSpecOf session config
    if warmup inputTensors gpuSpec then .ok ⟨inputTensors, output, proxy, gpuSpec⟩ else .error .warmup

/-! ### The dimensions of an override -/

/-- Merging keeps the rank of the model. -/
theorem length_mergeFrom (first i : ℕ) (shape override : List ℤ) :
    (mergeFrom first i shape override).length = shape.length := by
  induction shape generalizing i override with
  | nil => rfl
  | cons dim shape ih =>
    cases override with
    | nil => rfl
    | cons overrideDim override => rw [mergeFrom, List.length_cons, List.length_cons, ih]

/-- An override of the same rank replaces all dimensions from `first` on. -/
theorem mergeFrom_eq_override {first i : ℕ} (hi : first ≤ i) {shape override : List ℤ}
    (hlen : override.length = shape.length) : mergeFrom first i shape override = override := by
  induction shape generalizing i override with
  | nil =>
    rw [List.length_nil, List.length_eq_zero_iff] at hlen
    rw [hlen]
    rfl
  | cons dim shape ih =>
    obtain ⟨overrideDim, override, rfl⟩ := List.exists_cons_of_length_eq_add_one hlen
    rw [mergeFrom, if_pos hi, ih (Nat.le_succ_of_le hi) (Nat.succ.inj hlen)]

/-- The buffer and the metadata agree on the dimensions behind the first one exactly when the override
has as many. -/
theorem tail_effectiveShape_iff {shape override : List ℤ} (hshape : shape ≠ []) (hoverride : override ≠ []) :
    (effectiveShape (some override) shape).tail = override.tail ↔ override.length = shape.length := by
  obtain ⟨dim, shape, rfl⟩ := List.exists_cons_of_ne_nil hshape
  obtain ⟨overrideDim, override, rfl⟩ := List.exists_cons_of_ne_nil hoverride
  rw [effectiveShape, mergeFrom, List.tail_cons, List.tail_cons, List.length_cons, List.length_cons]
  constructor
  · intro h
    rw [← h, length_mergeFrom]
  · exact fun h => mergeFrom_eq_override le_rfl (Nat.succ.inj h)

/-! ### One input -/

section Input

variable {batchSize : ℕ} {overrides : String → Option (List ℤ)} {input : SessionOutlet}

/-- A tensor of the buffer has the dimensions of the effective shape. -/
theorem of_batchedInputTensor {t : BatchableTensor batchSize}
    (h : batchedInputTensor batchSize overrides input = .ok t) :
    ∃ ty shape, input.dtype = .tensor ty shape ∧ shape ≠ [] ∧
      (⟨ty, (effectiveShape (overrides input.name) shape).tail⟩ : Outlet).Of t := by
  unfold batchedInputTensor at h
  cases hdtype : input.dtype with
  | tensor ty shape =>
    rw [hdtype] at h
    simp only [BatchableTensor.new] at h
    split at h
    · cases h
    · rename_i batchDim dims heffective
      split_ifs at h with hdynamic hstatic
      obtain rfl := Except.ok.inj h
      refine ⟨ty, shape, rfl, ?_, rfl, by rw [heffective]; rfl⟩
      rintro rfl
      unfold effectiveShape at heffective
      split at heffective
      · cases heffective
      · cases heffective
  | sequence => rw [hdtype] at h; cases h
  | map => rw [hdtype] at h; cases h
  | optional => rw [hdtype] at h; cases h

/-- The dimensions of an input are the override, if there is one. -/
theorem of_modelInput {m : ModelInput} (h : modelInput overrides input = .ok m) {ty : TensorElementType}
    {shape : List ℤ} (hdtype : input.dtype = .tensor ty shape) : m.dims = (overrides input.name).getD shape := by
  rw [modelInput, hdtype] at h
  obtain rfl := Except.ok.inj h
  rfl

/-- An output is a tensor, and keeps its name. -/
theorem of_modelOutput {output : SessionOutlet} {o : ModelOutput} (h : modelOutput overrides output = .ok o) :
    ∃ ty shape, output.dtype = .tensor ty shape ∧
      o = ⟨output.name, mergeFrom 0 0 shape ((overrides output.name).getD [])⟩ := by
  unfold modelOutput at h
  split at h
  · rename_i ty shape hdtype
    exact ⟨ty, shape, hdtype, (Except.ok.inj h).symm⟩
  · cases h

/-- A tensor on the GPU has the dimensions of a row. -/
theorem of_gpuTensor {e : GpuTensor} {dims : List ℤ → List ℤ} (h : gpuTensor batchSize dims input = .ok e)
    {ty : TensorElementType} {shape : List ℤ} (hdtype : input.dtype = .tensor ty shape) :
    e.shape.tail = (dims shape).tail := by
  rw [gpuTensor, hdtype] at h
  simp only at h
  split at h
  · cases h
  · rename_i heq
    obtain rfl := Except.ok.inj h
    rw [heq]
    rfl

end Input

/-- Dimensions that pass the checks are those of the model. -/
theorem eq_of_validateDims {name : String} {i : ℕ} {reqShape modelShape : List ℤ} (hi : i ≠ 0)
    (hlen : reqShape.length = modelShape.length) (h : validateDims name i reqShape modelShape = .ok ()) :
    reqShape = modelShape := by
  induction reqShape generalizing i modelShape with
  | nil => exact (List.length_eq_zero_iff.1 hlen.symm).symm
  | cons reqDim reqShape ih =>
    obtain ⟨modelDim, modelShape, rfl⟩ := List.exists_cons_of_length_eq_add_one hlen.symm
    rw [validateDims, if_neg hi] at h
    split_ifs at h with hdim
    rw [not_not.1 hdim, ih (Nat.succ_ne_zero i) (Nat.succ.inj hlen) h]

/-- An input that is accepted has the dimensions of a row of the model. -/
theorem tail_eq_of_validateInput {proxy : ModelProxy} {reqInput : InferInputTensor} {m : ModelInput}
    (hfind : proxy.input.find? (fun i => i.name == reqInput.name) = some m)
    (h : validateInput proxy reqInput = .ok ()) : reqInput.shape.tail = m.dims.tail := by
  rw [validateInput, hfind] at h
  simp only at h
  split_ifs at h with hrank
  have hlen := not_not.1 hrank
  cases hreq : reqInput.shape with
  | nil =>
    rw [hreq, List.length_nil] at hlen
    rw [List.length_eq_zero_iff.1 hlen.symm]
  | cons reqDim reqShape =>
    rw [hreq] at hlen h
    obtain ⟨modelDim, modelShape, hm⟩ := List.exists_cons_of_length_eq_add_one hlen.symm
    rw [hm] at hlen h ⊢
    rw [validateDims, if_pos rfl] at h
    split_ifs at h with hpos
    exact eq_of_validateDims (by decide) (Nat.succ.inj hlen) h

/-! ### All inputs -/

/-- Input `i` has one row shape wherever it is kept: behind the batch dimension, `model_infer` checks
requests against the dimensions of the rows of the buffer, and the tensor on the GPU has them too.
So a row of a request that passes the checks has as many elements as a slot. -/
structure Served.RowAgrees {batchSize : ℕ} (served : Served batchSize) (i : ℕ) : Prop where
  shapes : ∃ m t, served.proxy.input[i]? = some m ∧ served.inputTensors[i]? = some t ∧
    m.dims.tail = t.singleTensorShape.tail ∧
    ∀ spec, served.gpuSpec = some spec → ∃ e, spec.inputs[i]? = some e ∧ e.shape.tail = t.singleTensorShape.tail
  slot : ∀ m t reqInput, served.proxy.input[i]? = some m → served.inputTensors[i]? = some t →
    served.proxy.input.find? (fun i => i.name == reqInput.name) = some m →
    validateInput served.proxy reqInput = .ok () → numElements (1 :: reqInput.shape.tail) = t.tensorSize

section Load

variable {session : Session} {config : ModelRepositoryConfig}
  {warmup : List (BatchableTensor config.batchSize) → Option GpuBoundIoSpec → Bool} {served : Served config.batchSize}

/-- What `load_model` goes through. -/
theorem ModelRuntimeManager.loadModel_eq_ok_iff : loadModel session config warmup = .ok served ↔
    config.numExecutors ≠ 0 ∧
    newWithOverrides config.capacity config.batchSize session.inputs config.inputShapes = .ok served.inputTensors ∧
    (∃ input, session.inputs.mapM (modelInput config.inputShapes) = .ok input ∧
      Toutates.loadModel input = some served.proxy) ∧
    session.outputs.mapM (modelOutput config.outputShapes) = .ok served.output ∧
    gpuSpecOf session config = .ok served.gpuSpec ∧ warmup served.inputTensors served.gpuSpec = true := by
  unfold loadModel
  constructor
  · intro h
    split_ifs at h with hsessions
    obtain ⟨inputTensors, hbuffer, h⟩ := Fallible.bind_eq_ok_iff.1 h
    obtain ⟨input, hinput, h⟩ := Fallible.bind_eq_ok_iff.1 h
    obtain ⟨output, houtput, h⟩ := Fallible.bind_eq_ok_iff.1 h
    obtain ⟨proxy, hproxy, h⟩ := Fallible.bind_eq_ok_iff.1 h
    obtain ⟨gpuSpec, hgpu, h⟩ := Fallible.bind_eq_ok_iff.1 h
    split_ifs at h with hwarmup
    obtain rfl := Except.ok.inj h
    exact ⟨hsessions, hbuffer, ⟨input, hinput, Fallible.elim_eq_ok_iff.1 hproxy⟩, houtput, hgpu, hwarmup⟩
  · rintro ⟨hsessions, hbuffer, ⟨input, hinput, hproxy⟩, houtput, hgpu, hwarmup⟩
    rw [if_neg hsessions]
    refine Fallible.bind_eq_ok_iff.2 ⟨_, hbuffer, ?_⟩
    refine Fallible.bind_eq_ok_iff.2 ⟨_, hinput, ?_⟩
    refine Fallible.bind_eq_ok_iff.2 ⟨_, houtput, ?_⟩
    refine Fallible.bind_eq_ok_iff.2 ⟨_, Fallible.elim_eq_ok_iff.2 hproxy, ?_⟩
    refine Fallible.bind_eq_ok_iff.2 ⟨_, hgpu, ?_⟩
    exact if_pos hwarmup

/-- What a model that is loaded is made of, input by input. -/
theorem of_loadModel (h : ModelRuntimeManager.loadModel session config warmup = .ok served) :
    List.Forall₂ (fun input t => batchedInputTensor config.batchSize config.inputShapes input = .ok t) session.inputs
      served.inputTensors ∧
    List.Forall₂ (fun input m => modelInput config.inputShapes input = .ok m) session.inputs served.proxy.input ∧
    (∀ m ∈ served.proxy.input, m.dims ≠ []) ∧
    ∀ spec, served.gpuSpec = some spec →
      List.Forall₂ (fun input e => gpuTensor config.batchSize (config.inputShapes input.name).getD input = .ok e)
        session.inputs spec.inputs := by
  obtain ⟨-, hbuffer, ⟨input, hinput, hproxy⟩, -, hgpu, -⟩ := ModelRuntimeManager.loadModel_eq_ok_iff.1 h
  obtain ⟨heq, hne⟩ := eq_of_loadModel hproxy
  unfold newWithOverrides at hbuffer
  split_ifs at hbuffer
  refine ⟨Fallible.mapM_eq_ok_iff.1 hbuffer, ?_, ?_, fun spec hspec => ?_⟩
  · rw [heq]
    exact Fallible.mapM_eq_ok_iff.1 hinput
  · rw [heq]
    exact hne
  · rw [hspec, gpuSpecOf] at hgpu
    split at hgpu
    · obtain ⟨spec', hbuild, hsome⟩ := Fallible.map_eq_ok_iff.1 hgpu
      obtain rfl := Option.some.inj hsome
      obtain ⟨inputs, hinputs, hbuild⟩ := Fallible.bind_eq_ok_iff.1 hbuild
      obtain ⟨outputs, -, hbuild⟩ := Fallible.bind_eq_ok_iff.1 hbuild
      obtain rfl := Except.ok.inj hbuild
      exact Fallible.mapM_eq_ok_iff.1 hinputs
    · cases hgpu

/-- The outputs of a model that is loaded are tensors, and keep their names. -/
theorem outputs_of_loadModel (h : ModelRuntimeManager.loadModel session config warmup = .ok served) :
    (∀ output ∈ session.outputs, ∃ ty shape, output.dtype = .tensor ty shape) ∧
      served.output.map ModelOutput.name = session.outputs.map SessionOutlet.name := by
  obtain ⟨-, -, -, houtput, -⟩ := ModelRuntimeManager.loadModel_eq_ok_iff.1 h
  have houtputs := Fallible.mapM_eq_ok_iff.1 houtput
  constructor
  · intro outlet houtlet
    obtain ⟨o, -, ho⟩ := Fallible.exists_mem_of_forall₂ houtputs.flip houtlet
    obtain ⟨ty, shape, hdtype, -⟩ := of_modelOutput ho
    exact ⟨ty, shape, hdtype⟩
  · rw [← List.forall₂_eq_eq_eq, List.forall₂_map_left_iff, List.forall₂_map_right_iff]
    refine houtputs.flip.imp fun o outlet ho => ?_
    obtain ⟨-, -, -, rfl⟩ := of_modelOutput ho
    rfl

section Place

variable {i : ℕ} {input : SessionOutlet} {m : ModelInput} {t : BatchableTensor config.batchSize}

/-- The metadata and the buffer have the same rows exactly when the override has the rank of the
model's shape. -/
theorem tail_dims_iff (hmodel : modelInput config.inputShapes input = .ok m)
    (htensor : batchedInputTensor config.batchSize config.inputShapes input = .ok t) (hne : m.dims ≠ []) :
    m.dims.tail = t.singleTensorShape.tail ↔ ∀ ty shape override, input.dtype = .tensor ty shape →
      config.inputShapes input.name = some override → override.length = shape.length := by
  obtain ⟨ty, shape, hdtype, hshape, hof⟩ := of_batchedInputTensor htensor
  have hdims := of_modelInput hmodel hdtype
  rw [hof.singleTensorShape, List.tail_cons]
  cases hoverride : config.inputShapes input.name with
  | none =>
    rw [hdims, hoverride]
    simp [effectiveShape]
  | some override =>
    rw [hoverride, Option.getD_some] at hdims
    rw [hdims, eq_comm, tail_effectiveShape_iff hshape (hdims ▸ hne)]
    constructor
    · rintro hlen ty' shape' override' hdtype' hoverride'
      obtain ⟨rfl, rfl⟩ := ValueType.tensor.inj (hdtype.symm.trans hdtype')
      obtain rfl := Option.some.inj hoverride'
      exact hlen
    · exact fun hlen => hlen ty shape override hdtype rfl

/-- All paths agree when the metadata and the buffer do: the GPU has the rows of the metadata. -/
theorem rowAgrees_iff (h : ModelRuntimeManager.loadModel session config warmup = .ok served)
    (hi : session.inputs[i]? = some input) (hm : served.proxy.input[i]? = some m)
    (ht : served.inputTensors[i]? = some t) (hmodel : modelInput config.inputShapes input = .ok m)
    (htensor : batchedInputTensor config.batchSize config.inputShapes input = .ok t) :
    served.RowAgrees i ↔ m.dims.tail = t.singleTensorShape.tail := by
  obtain ⟨-, -, -, hgpu⟩ := of_loadModel h
  obtain ⟨ty, shape, hdtype, -, hof⟩ := of_batchedInputTensor htensor
  constructor
  · rintro ⟨⟨m', t', hm', ht', heq, -⟩, -⟩
    obtain rfl := Option.some.inj (hm.symm.trans hm')
    obtain rfl := Option.some.inj (ht.symm.trans ht')
    exact heq
  · intro heq
    refine ⟨⟨m, t, hm, ht, heq, fun spec hspec => ?_⟩, fun m' t' reqInput hm' ht' hfind hvalid => ?_⟩
    · obtain ⟨e, he, hentry⟩ := Fallible.getElem?_of_forall₂ (hgpu spec hspec) hi
      exact ⟨e, he, by rw [of_gpuTensor hentry hdtype, ← heq, of_modelInput hmodel hdtype]⟩
    · obtain rfl := Option.some.inj (hm.symm.trans hm')
      obtain rfl := Option.some.inj (ht.symm.trans ht')
      rw [tail_eq_of_validateInput hfind hvalid, heq, BatchableTensor.tensorSize, hof.singleTensorShape,
        List.tail_cons]

end Place

/-- **All paths agree on the row shape of an input exactly when its override has the rank of the
model's shape.** -/
theorem row_shapes_agree_iff (h : ModelRuntimeManager.loadModel session config warmup = .ok served) {i : ℕ}
    {input : SessionOutlet} (hi : session.inputs[i]? = some input) :
    served.RowAgrees i ↔ ∀ ty shape override, input.dtype = .tensor ty shape →
      config.inputShapes input.name = some override → override.length = shape.length := by
  obtain ⟨hbuffer, hinput, hne, -⟩ := of_loadModel h
  obtain ⟨t, ht, htensor⟩ := Fallible.getElem?_of_forall₂ hbuffer hi
  obtain ⟨m, hm, hmodel⟩ := Fallible.getElem?_of_forall₂ hinput hi
  rw [rowAgrees_iff h hi hm ht hmodel htensor]
  exact tail_dims_iff hmodel htensor (hne m (List.mem_of_getElem? hm))

end Load

/-- A model with one input, of a batch of rows of any number of quadruples. -/
def quadruples : Session := ⟨[⟨"x", .tensor .float32 [-1, -1, 4]⟩], []⟩

/-- A configuration that gives the input a shape, in batches of two rows. -/
def withShape (shape : List ℤ) : ModelRepositoryConfig := ⟨2, 2, 1, .cpu, fun _ => some shape, fun _ => none⟩

/-- Five quadruples a row, spelled out. -/
theorem row_shapes_agree_iff_quadruples :
    ∃ served, ModelRuntimeManager.loadModel quadruples (withShape [-1, 5, 4]) (fun _ _ => true) = .ok served ∧
      served.RowAgrees 0 := by
  obtain ⟨served, hserved⟩ : ∃ served, ModelRuntimeManager.loadModel quadruples (withShape [-1, 5, 4])
      (fun _ _ => true) = .ok served := ⟨_, rfl⟩
  refine ⟨served, hserved, (row_shapes_agree_iff hserved rfl).2 fun ty shape override hdtype hoverride => ?_⟩
  obtain ⟨-, rfl⟩ := ValueType.tensor.inj hdtype
  obtain rfl := Option.some.inj hoverride
  rfl

/-- With an override of two dimensions, requests are checked for rows of five elements and the buffer
has rows of five quadruples. -/
theorem row_shapes_can_disagree :
    ¬ ∀ (session : Session) (config : ModelRepositoryConfig)
      (warmup : List (BatchableTensor config.batchSize) → Option GpuBoundIoSpec → Bool)
      (served : Served config.batchSize), ModelRuntimeManager.loadModel session config warmup = .ok served →
      ∀ i input, session.inputs[i]? = some input → served.RowAgrees i := by
  intro hall
  obtain ⟨served, hserved⟩ : ∃ served, ModelRuntimeManager.loadModel quadruples (withShape [-1, 5])
      (fun _ _ => true) = .ok served := ⟨_, rfl⟩
  obtain ⟨⟨m, t, hm, ht, heq, -⟩, -⟩ := hall _ _ _ served hserved 0 _ rfl
  obtain ⟨hbuffer, hinput, -⟩ := of_loadModel hserved
  obtain ⟨t', ht', htensor⟩ := Fallible.getElem?_of_forall₂ hbuffer (i := 0) rfl
  obtain ⟨m', hm', hmodel⟩ := Fallible.getElem?_of_forall₂ hinput (i := 0) rfl
  obtain rfl := Option.some.inj (hm.symm.trans hm')
  obtain rfl := Option.some.inj (ht.symm.trans ht')
  obtain ⟨ty, shape, hdtype, -, hof⟩ := of_batchedInputTensor htensor
  obtain ⟨rfl, rfl⟩ := ValueType.tensor.inj hdtype
  rw [of_modelInput hmodel rfl, hof.singleTensorShape] at heq
  exact absurd heq (by decide)

end Toutates
