/-
# What a request is answered

The whole way of a request: `model_infer` of a model that `load_model` has loaded, and `infer` and
`get_data` on the ring of that model, which other requests share.

`model_infer` checks the shapes of the inputs but not that every input is there, that they have the same
number of rows, and that their bytes are those of so many rows (`ModelInferRequest.Complete`).  A complete
request is answered with what the model computes from the bytes that it sends under the names of the
inputs, row by row, whatever the order of its inputs, as long as the other requests on the ring have the
rows and the bytes of the model too (`model_infer_rowwise`).
-/

import Toutates.Grpc.Binding
import Toutates.Grpc.Response
import Toutates.Ring.Serving
import Toutates.Runtime.Shapes

namespace Toutates

open Basis

/-! ### The ring of a loaded model -/

section Loaded

variable {session : Session} {config : ModelRepositoryConfig}
  {warmup : List (BatchableTensor config.batchSize) → Option GpuBoundIoSpec → Bool} {served : Served config.batchSize}

/-- What the assertions of `new_with_overrides` let through. -/
theorem pow2_of_loadModel (h : ModelRuntimeManager.loadModel session config warmup = .ok served) :
    isPowerOfTwo config.capacity = true ∧ isPowerOfTwo config.batchSize = true := by
  obtain ⟨-, hbuffer, -⟩ := ModelRuntimeManager.loadModel_eq_ok_iff.1 h
  unfold newWithOverrides at hbuffer
  split_ifs at hbuffer with hcapacity hbatch
  exact ⟨hcapacity, hbatch⟩

/-- The name of an input. -/
def Session.inputName (session : Session) (i : ℕ) : String := (session.inputs.map SessionOutlet.name)[i]?.getD ""

/-- The sizes of the ring. -/
def Served.geometry (h : ModelRuntimeManager.loadModel session config warmup = .ok served)
    (hcapacity : config.capacity < 2 ^ 64) (hbatch : config.batchSize < 2 ^ 64) : Geometry where
  capacity := config.capacity
  batchSize := config.batchSize
  numInputs := served.inputTensors.length
  capacity_lt := hcapacity
  batchSize_lt := hbatch
  capacity_pow2 := (pow2_of_loadModel h).1
  batchSize_pow2 := (pow2_of_loadModel h).2

/-- A model has as many inputs as its buffer. -/
theorem length_input_of_loadModel (h : ModelRuntimeManager.loadModel session config warmup = .ok served) :
    served.proxy.input.length = served.inputTensors.length := by
  obtain ⟨hbuffer, hinput, -⟩ := of_loadModel h
  rw [← hinput.length_eq, hbuffer.length_eq]

/-- The inputs have the names that the session lists. -/
theorem map_name_of_loadModel (h : ModelRuntimeManager.loadModel session config warmup = .ok served) :
    served.proxy.input.map ModelInput.name = session.inputs.map SessionOutlet.name := by
  obtain ⟨-, hinput, -⟩ := of_loadModel h
  rw [eq_comm, ← List.forall₂_eq_eq_eq, List.forall₂_map_left_iff, List.forall₂_map_right_iff]
  refine hinput.imp fun input m hm => ?_
  unfold modelInput at hm
  split at hm
  · obtain rfl := Except.ok.inj hm
    rfl
  · cases hm

/-- The names of the proxy are those of its inputs. -/
theorem proxy_of_loadModel (h : ModelRuntimeManager.loadModel session config warmup = .ok served) :
    served.proxy = ⟨served.proxy.input, inputSet served.proxy.input⟩ := by
  obtain ⟨-, -, ⟨input, -, hproxy⟩, -⟩ := ModelRuntimeManager.loadModel_eq_ok_iff.1 h
  obtain ⟨heq, -⟩ := eq_of_loadModel hproxy
  rw [heq]

end Loaded

/-! ### A complete request -/

variable {g : Geometry}

/-- The bytes that a request sends under a name. -/
def ModelInferRequest.bytes (request : ModelInferRequest) (name : String) : List UInt8 :=
  (request.rawInputContents[request.inputs.findIdx fun i => i.name == name]?).getD []

/-- Row `r` of what a request sends under a name, of rows of so many bytes. -/
def ModelInferRequest.row (request : ModelInferRequest) (name : String) (rowBytes r : ℕ) : List UInt8 :=
  segment (request.bytes name) (r * rowBytes) rowBytes

/-- The request has each input of the model once, and `n` rows of it: what `model_infer` does not check. -/
structure ModelInferRequest.Complete (m : RowModel g) (names : List String) (request : ModelInferRequest)
    (n : ℕ) : Prop where
  nonempty : request.inputs ≠ []
  once : (request.inputs.map InferInputTensor.name).Perm names
  rows : ∀ i ∈ request.inputs, i.shape.head? = some (n : ℤ)
  bytes : ∀ (i : Fin g.numInputs) name, names[i.val]? = some name →
    (request.bytes name).length = n * (m.inputs i).rowBytes

namespace ModelInferRequest.Complete

variable {m : RowModel g} {input : List ModelInput} {request : ModelInferRequest} {n : ℕ}

/-- The place of a name that comes once. -/
theorem findIdx_eq {inputs : List InferInputTensor} (hnodup : (inputs.map InferInputTensor.name).Nodup) {j : ℕ}
    {reqInput : InferInputTensor} (hj : inputs[j]? = some reqInput) :
    (inputs.findIdx fun i => i.name == reqInput.name) = j := by
  obtain ⟨hlt, rfl⟩ := List.getElem?_eq_some_iff.1 hj
  rw [List.findIdx_eq hlt]
  refine ⟨beq_self_eq_true _, fun k hk => beq_eq_false_iff_ne.2 fun heq => hk.ne ?_⟩
  have hk' : k < (inputs.map InferInputTensor.name).length := by
    rw [List.length_map]
    exact hk.trans hlt
  have hj' : j < (inputs.map InferInputTensor.name).length := by rwa [List.length_map]
  refine (@List.Nodup.getElem_inj_iff _ _ hnodup k hk' j hj').1 ?_
  rw [List.getElem_map, List.getElem_map]
  exact heq

section Tensors

variable {models : String → Option ModelProxy} {tensors : List TensorBytes}
  (hnodup : (input.map ModelInput.name).Nodup) (hmodel : models request.modelName = some ⟨input, inputSet input⟩)
  (hinfer : modelInfer models request = .ok tensors)

include hnodup hmodel hinfer

/-- The ring is given, for each input of the model, the bytes that the request sends under its name. -/
theorem tensor (hc : request.Complete m (input.map ModelInput.name) n) {i : ℕ} {modelInput : ModelInput}
    (hi : input[i]? = some modelInput) :
    ∃ t, tensors[i]? = some t ∧ t.data = request.bytes modelInput.name ∧ t.shape.head? = some (n : ℤ) := by
  obtain ⟨-, htensors⟩ := of_modelInfer hmodel hinfer
  obtain ⟨-, hall⟩ := tensorBytes_getElem? htensors
  obtain ⟨⟨reqInput, j⟩, ha, hname⟩ := orderedInputs_of_perm hnodup hc.once hi
  obtain ⟨t, ht, hdata, -, hshape⟩ := hall i _ ha
  have hj : request.inputs[j]? = some reqInput := mem_orderedInputs.1 (List.mem_of_getElem? ha)
  refine ⟨t, ht, ?_, ?_⟩
  · have hplace := findIdx_eq (hc.once.nodup_iff.2 hnodup) hj
    have hname : reqInput.name = modelInput.name := hname
    rw [ModelInferRequest.bytes, ← hname, hplace, hdata, Option.getD_some]
  · rw [hshape]
    exact hc.rows reqInput (List.mem_of_getElem? hj)

/-- The rows of the request are those that it sends under the names of the inputs. -/
theorem row_eq (hc : request.Complete m (input.map ModelInput.name) n) {i : Fin g.numInputs} {modelInput : ModelInput}
    (hi : input[i.val]? = some modelInput) (r : ℕ) :
    (Request.ofModelInfer hinfer).row m r i = request.row modelInput.name (m.inputs i).rowBytes r := by
  obtain ⟨t, ht, hdata, -⟩ := hc.tensor hnodup hmodel hinfer hi
  have ht : (Request.ofModelInfer hinfer).tensors[i.val]? = some t := ht
  rw [Request.row, ht, ModelInferRequest.row, ← hdata]
  rfl

/-- The rows that `infer` reserves. -/
theorem clientBatchSize_eq (hc : request.Complete m (input.map ModelInput.name) n) :
    (Request.ofModelInfer hinfer).clientBatchSize = .ok n := by
  have hlen : input.length = request.inputs.length := by
    have hperm := hc.once.length_eq
    rwa [List.length_map, List.length_map, eq_comm] at hperm
  have hpos : 0 < input.length := by
    rw [hlen]
    exact List.length_pos_iff.2 hc.nonempty
  obtain ⟨t, ht, -, hrows⟩ := hc.tensor hnodup hmodel hinfer (List.getElem?_eq_getElem hpos)
  obtain ⟨dims, hshape⟩ := List.head?_eq_some_iff.1 hrows
  obtain ⟨hn, hlt⟩ := rows_pos_of_modelInfer hinfer t (List.mem_of_getElem? ht) n hrows
  have ht : (Request.ofModelInfer hinfer).tensors[0]? = some t := ht
  rw [Request.clientBatchSize, ht]
  simp only [hshape]
  rw [asUsize_of_nonneg hn.le hlt, Int.toNat_natCast]

/-- What the ring asks of a request, a complete request has. -/
theorem honest (hc : request.Complete m (input.map ModelInput.name) n) (hlen : input.length = g.numInputs) :
    (Request.ofModelInfer hinfer).Honest m := by
  refine ⟨n, hc.clientBatchSize_eq hnodup hmodel hinfer, fun i => ?_⟩
  have hi : input[i.val]? = some input[i.val] := List.getElem?_eq_getElem (i.isLt.trans_eq hlen.symm)
  obtain ⟨t, ht, hdata, hrows⟩ := hc.tensor hnodup hmodel hinfer hi
  obtain ⟨dims, hshape⟩ := List.head?_eq_some_iff.1 hrows
  obtain ⟨hn, hlt⟩ := rows_pos_of_modelInfer hinfer t (List.mem_of_getElem? ht) n hrows
  refine ⟨t, n, dims, ht, hshape, ?_, fun _ => ?_⟩
  · rw [asUsize_of_nonneg hn.le hlt, Int.toNat_natCast]
  · rw [hdata]
    refine hc.bytes i _ ?_
    rw [List.getElem?_map, hi]
    rfl

end Tensors

end ModelInferRequest.Complete

/-! ### The answer -/

/-- **A complete request is answered with the model's rows.**  On a server that has loaded a model and warmed
up its ring, however other honest requests, which fit the ring, and the executors, whose sessions compute
the model, take turns with it: the contents of every output with one element a row are what the model
computes from the rows that the request sends under the names of its inputs. -/
theorem model_infer_rowwise {session : Session} {config : ModelRepositoryConfig}
    {warmup : List (BatchableTensor config.batchSize) → Option GpuBoundIoSpec → Bool} {served : Served config.batchSize}
    (hload : ModelRuntimeManager.loadModel session config warmup = .ok served)
    (hnames : (session.inputs.map SessionOutlet.name).Nodup)
    (hcapacity : config.capacity < 2 ^ 64) (hbatch : config.batchSize < 2 ^ 64)
    {m : RowModel (served.geometry hload hcapacity hbatch)} (hm : ∀ i, (m.inputs i).Of (served.inputTensors.get i))
    {models : String → Option ModelProxy} {request : ModelInferRequest}
    (hmodel : models request.modelName = some served.proxy) {tensors : List TensorBytes}
    (hinfer : modelInfer models request = .ok tensors) {n : ℕ}
    (hc : request.Complete m (session.inputs.map SessionOutlet.name) n)
    {v v₁ w w' : RingWorld (served.geometry hload hcapacity hbatch) ℕ} {i k : ℕ}
    (hv : ServedRing (Serves m) k (fun _ => served.inputTensors.get) v)
    (hfits : Fits _ i v.shared (v.threads i) (.infer (.ofModelInfer hinfer)))
    (hstart : (program (CounterOps.unbounded _)).step v ⟨i, .infer (.ofModelInfer hinfer)⟩ = some v₁)
    (hr : Reach (program (CounterOps.unbounded _)) (InCall m i) v₁ w) {a : Action Choice}
    (hs : (program (CounterOps.unbounded _)).step w a = some w') {data : List (List UInt8)}
    {metadatas : List Metadata} (hlog : w'.log = .answered i data metadatas :: w.log) (outputNames : List String) :
    ∀ o layout, m.outputs[o]? = some layout → numElements layout.dims = 1 →
      (modelInferResponse outputNames data metadatas).rawOutputContents[o]? =
        some ((List.range n).flatMap fun r => m.eval o fun j =>
          request.row (session.inputName j) (m.inputs j).rowBytes r) := by
  intro o layout ho hone
  have hlen := length_input_of_loadModel hload
  rw [← map_name_of_loadModel hload] at hnames hc
  have hproxy : models request.modelName = some ⟨served.proxy.input, inputSet served.proxy.input⟩ :=
    hmodel.trans (congrArg some (proxy_of_loadModel hload))
  have hcall : Serves m i v.shared (v.threads i) (.infer (.ofModelInfer hinfer)) := by
    refine ⟨hfits, fun request' heq => ?_, fun _ _ _ _ heq => by cases heq⟩
    obtain rfl := Choice.infer.inj heq
    exact hc.honest hnames hproxy hinfer hlen
  rw [modelInferResponse, data_of_answered (fun _ => hm) hv hcall hstart hr hs hlog
    (hc.clientBatchSize_eq hnames hproxy hinfer) ho hone]
  refine congrArg some (List.flatMap_congr fun r _ => congrArg (m.eval o) (funext fun j => ?_))
  have hlt : j.val < served.proxy.input.length := j.isLt.trans_eq hlen.symm
  rw [hc.row_eq hnames hproxy hinfer (List.getElem?_eq_getElem hlt), Session.inputName, ← map_name_of_loadModel hload,
    List.getElem?_map, List.getElem?_eq_getElem hlt]
  rfl

/-- A session of `echo`. -/
def echoSession : Session := ⟨[⟨"x", .tensor .uint8 [-1, 1]⟩], [⟨"y", .tensor .uint8 [-1, 1]⟩]⟩

/-- Its configuration, for two batches of one row. -/
def echoConfig : ModelRepositoryConfig := ⟨1, 2, 1, .cpu, fun _ => none, fun _ => none⟩

/-- What the model is served with. -/
def echoServed : Served echoConfig.batchSize :=
  ((ModelRuntimeManager.loadModel echoSession echoConfig fun _ _ => true).toOption).get rfl

/-- The echo model is loaded. -/
theorem echoServed_loaded : ModelRuntimeManager.loadModel echoSession echoConfig (fun _ _ => true) = .ok echoServed :=
  rfl

/-- A request for it, of the byte `7`. -/
def echoRequest : ModelInferRequest := ⟨"echo", [⟨"x", "UINT8", [1, 1], byteShape_lt⟩], [[7]]⟩

/-- The request to it is accepted. -/
theorem echoRequest_ok : modelInfer (fun _ => some echoServed.proxy) echoRequest = .ok [⟨.typeUint8, [1, 1], [7]⟩] := by
  decide

/-- A run in which the request is answered with its byte. -/
theorem model_infer_rowwise_echo : ∃ (v v₁ w w' : RingWorld twoByOne ℕ) (data : List (List UInt8))
    (metadatas : List Metadata), ServedRing (Serves echo) 3 (fun _ => echoServed.inputTensors.get) v ∧
      (program (CounterOps.unbounded twoByOne)).step v ⟨2, .infer (.ofModelInfer echoRequest_ok)⟩ = some v₁ ∧
      Reach (program (CounterOps.unbounded twoByOne)) (InCall echo 2) v₁ w ∧
      (program (CounterOps.unbounded twoByOne)).step w ⟨2, .go⟩ = some w' ∧
      w'.log = .answered 2 data metadatas :: w.log ∧
      (modelInferResponse ["y"] data metadatas).rawOutputContents[0]? = some [7] := by
  have hcomplete : echoRequest.Complete echo (echoSession.inputs.map SessionOutlet.name) 1 :=
    ⟨List.cons_ne_nil _ _, .refl _, by decide, by decide⟩
  have hrun : (runServed echoGuard 3 (fun _ => echoServed.inputTensors.get) []).any (fun v =>
      ((program (CounterOps.unbounded twoByOne)).step v ⟨2, .infer byteRequest⟩).any fun v₁ =>
        ((program (CounterOps.unbounded twoByOne)).runIf echoGuard v₁ echoRun).any fun w =>
          (w.threads 2).recording.isSome &&
            ((program (CounterOps.unbounded twoByOne)).step w ⟨2, .go⟩).isSome) = true := by decide +kernel
  obtain ⟨v, hv, hrun⟩ := (Option.any_eq_true _ _).1 hrun
  obtain ⟨v₁, hstart, hrun⟩ := (Option.any_eq_true _ _).1 hrun
  obtain ⟨w, hr, hw⟩ := (Option.any_eq_true _ _).1 hrun
  have hidle : v.threads 2 = .idle := ServedRing.idle_of_runServed hv fun _ ha => absurd ha List.not_mem_nil
  rw [Bool.and_eq_true] at hw
  obtain ⟨col, hpc⟩ := Option.isSome_iff_exists.1 hw.1
  obtain ⟨w', hs⟩ := Option.isSome_iff_exists.1 hw.2
  obtain ⟨e, ht, hlog⟩ := transition_of_step hs
  rw [show w.threads 2 = _ from Pc.eq_of_recording hpc] at ht
  obtain ⟨metadatas, rfl⟩ := ht.of_recordTrace
  have hinputs : ∀ i, (echo.inputs i).Of (echoServed.inputTensors.get i) := fun i => by
    obtain rfl : i = ⟨0, by decide⟩ := Fin.ext (Nat.lt_one_iff.1 i.isLt)
    exact ⟨rfl, rfl⟩
  have hmodel : (fun _ : String => some echoServed.proxy) echoRequest.modelName = some echoServed.proxy := rfl
  have hserved := ServedRing.of_runServed (fun _ _ _ _ h => (echoGuard_spec h).1) hv
  have hreach := Reach.of_runIf (fun _ _ _ _ => echoGuard_spec) hr
  have hdata := model_infer_rowwise echoServed_loaded (by decide) (by decide) (by decide) (m := echo) hinputs hmodel
    echoRequest_ok hcomplete hserved (by rw [hidle]; rintro _ _ _ ⟨⟩) hstart hreach hs hlog ["y"]
  exact ⟨v, v₁, w, w', _, metadatas, hserved, hstart, hreach, hs, hlog, hdata 0 _ rfl (by decide)⟩

end Toutates
