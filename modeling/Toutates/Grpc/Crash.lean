/-
# When a request kills the server

`model_infer` finds the model, checks the inputs that the request has, and hands them on.  What it
does not check comes up further down, where nobody expects it: the bytes of an input that has none,
an input that is missing, inputs that do not declare the same number of rows, bytes that are not
those of whole rows, and on the way back an output that is shorter than its batch.  A panic there
aborts the process.

The call returns exactly when the model is not loaded, the checks refuse the request, or every copy
that `infer` comes to takes its tensor and what the batches leave can be cut out of their outputs
(`no_crash_iff`).
-/

import Toutates.Grpc.Binding
import Toutates.Grpc.Response
import Toutates.Ring.Crash

namespace Toutates

open Basis

variable {g : Geometry} {α : Type}

namespace ModelInferRequest

variable (request : ModelInferRequest)

/-- An input with its place, and the bytes there. -/
def tensor (a : InferInputTensor × ℕ) : TensorBytes :=
  ⟨DataType.fromStr a.1.datatype, a.1.shape, request.rawInputContents.getD a.2 []⟩

/-- The inputs in the order of the model. -/
def tensors (proxy : ModelProxy) : List TensorBytes := (orderedInputs proxy request.inputs).map request.tensor

/-- The rows that the first of them declares. -/
def rows (proxy : ModelProxy) : ℕ :=
  match request.tensors proxy with
  | [] => 0
  | t :: _ => t.rows

end ModelInferRequest

/-! ### `model_infer` up to its call of `infer` -/

/-- With raw contents for every input the tensors are built. -/
theorem tensorBytes_eq {request : ModelInferRequest} {inputs : List (InferInputTensor × ℕ)}
    (h : ∀ a ∈ inputs, a.2 < request.rawInputContents.length) :
    tensorBytes request.rawInputContents inputs = .ok (inputs.map request.tensor) := by
  induction inputs with
  | nil => rfl
  | cons a rest ih =>
    obtain ⟨reqInput, j⟩ := a
    have hj : request.rawInputContents[j]? = some (request.rawInputContents.getD j []) := by
      have hlt : j < request.rawInputContents.length := h _ List.mem_cons_self
      rw [List.getD_eq_getElem?_getD, List.getElem?_eq_getElem hlt, Option.getD_some]
    rw [tensorBytes]
    simp only [hj]
    rw [ih fun a ha => h a (List.mem_cons_of_mem _ ha)]
    rfl

/-- An input without raw contents is a panic. -/
theorem tensorBytes_panics {raw : List (List UInt8)} {inputs : List (InferInputTensor × ℕ)}
    (h : ∃ a ∈ inputs, raw.length ≤ a.2) : tensorBytes raw inputs = .panicked .rawIndex := by
  induction inputs with
  | nil =>
    obtain ⟨a, ha, -⟩ := h
    exact absurd ha List.not_mem_nil
  | cons b rest ih =>
    obtain ⟨reqInput, j⟩ := b
    rw [tensorBytes]
    cases hj : raw[j]? with
    | none => rfl
    | some data =>
      obtain ⟨a, ha, hle⟩ := h
      rcases List.mem_cons.1 ha with rfl | ha
      · rw [List.getElem?_eq_none hle] at hj
        cases hj
      · simp only
        rw [ih ⟨a, ha, hle⟩]
        rfl

/-- An input that passes the checks is one of the model's, of as many dimensions. -/
theorem validateInputs_known {proxy : ModelProxy} {inputs : List InferInputTensor}
    (h : validateInputs proxy inputs = .ok ()) :
    ∀ i ∈ inputs, ∃ m ∈ proxy.input, m.name = i.name ∧ i.shape.length = m.dims.length := by
  induction inputs with
  | nil => exact fun i hi => absurd hi List.not_mem_nil
  | cons i is ih =>
    rw [validateInputs] at h
    split at h
    · cases h
    · rename_i hvalid
      intro j hj
      rcases List.mem_cons.1 hj with rfl | hj
      · unfold validateInput at hvalid
        split at hvalid
        · cases hvalid
        · rename_i m hfind
          split_ifs at hvalid with hrank
          have hname := List.find?_some (p := fun i : ModelInput => i.name == j.name) hfind
          exact ⟨m, List.mem_of_find?_eq_some hfind, eq_of_beq hname, not_not.1 hrank⟩
      · exact ih h j hj

section Loaded

variable {input : List ModelInput} {proxy : ModelProxy} (hload : loadModel input = some proxy)
  {models : String → Option ModelProxy} {request : ModelInferRequest}
  (hmodel : models request.modelName = some proxy) (hvalid : validateInputs proxy request.inputs = .ok ())

include hload hvalid

/-- Inputs that pass have dimensions, and the first of them is a number of rows. -/
theorem shape_ne_nil_of_valid : ∀ i ∈ request.inputs, i.shape ≠ [] := by
  obtain ⟨rfl, hdims⟩ := eq_of_loadModel hload
  intro i hi hshape
  obtain ⟨m, hm, -, hlen⟩ := validateInputs_known hvalid i hi
  rw [hshape, List.length_nil] at hlen
  exact hdims m hm (List.eq_nil_of_length_eq_zero hlen.symm)

include hmodel

/-- What `infer` is called with, and that the bytes of every input are needed for it. -/
theorem modelInfer_eq : modelInfer models request =
    if request.inputs.length ≤ request.rawInputContents.length then .ok (request.tensors proxy)
    else .panicked .rawIndex := by
  have hset : (request.inputs.all fun i => (proxy.order i.name).isSome) = true := by
    obtain ⟨rfl, -⟩ := eq_of_loadModel hload
    refine List.all_eq_true.2 fun i hi => ?_
    obtain ⟨m, hm, hname, -⟩ := validateInputs_known hvalid i hi
    exact inputSet_isSome_iff.2 ⟨m, hm, hname⟩
  have hbytes : modelInfer models request =
      tensorBytes request.rawInputContents (orderedInputs proxy request.inputs) := by
    unfold modelInfer
    rw [hmodel]
    simp only [hvalid, hset, if_true]
  rw [hbytes]
  split_ifs with hlen
  · refine tensorBytes_eq fun a ha => ?_
    have := (List.getElem?_eq_some_iff.1 (mem_orderedInputs.1 ha)).1
    omega
  · have hlt : request.rawInputContents.length < request.inputs.length := Nat.lt_of_not_le hlen
    exact tensorBytes_panics ⟨(request.inputs[request.rawInputContents.length], request.rawInputContents.length),
      mem_orderedInputs.2 (List.getElem?_eq_getElem hlt), le_rfl⟩

omit hmodel in
/-- The tensors that the ring is given have dimensions and rows. -/
theorem tensors_ok : ∀ t ∈ request.tensors proxy, t.shape ≠ [] ∧ 0 < t.rows := by
  intro t ht
  obtain ⟨a, ha, rfl⟩ := List.mem_map.1 ht
  have hmem : a.1 ∈ request.inputs := List.mem_of_getElem? (mem_orderedInputs.1 ha)
  have hne := shape_ne_nil_of_valid hload hvalid a.1 hmem
  obtain ⟨d, dims, hshape⟩ := List.exists_cons_of_ne_nil hne
  have hd : d ∈ a.1.shape := by rw [hshape]; exact List.mem_cons_self
  have hpos := validateInputs_pos hvalid a.1 hmem d (by rw [hshape]; rfl)
  refine ⟨hne, ?_⟩
  rw [TensorBytes.rows, ModelInferRequest.tensor, hshape, List.headD_cons,
    asUsize_of_nonneg hpos.le (a.1.shape_lt d hd).2]
  omega

omit hmodel in
/-- The rows that `infer` counts. -/
theorem clientBatchSize_eq {r : Request} (hr : r.tensors = request.tensors proxy) (hne : request.inputs ≠ []) :
    r.clientBatchSize = .ok (request.rows proxy) := by
  have hlen : (request.tensors proxy).length = request.inputs.length := by
    rw [ModelInferRequest.tensors, List.length_map, length_orderedInputs]
  have hall := tensors_ok hload hvalid
  rw [ModelInferRequest.rows, Request.clientBatchSize, hr]
  cases htensors : request.tensors proxy with
  | nil =>
    rw [htensors, List.length_nil] at hlen
    exact absurd (List.eq_nil_of_length_eq_zero hlen.symm) hne
  | cons t rest =>
    obtain ⟨d, dims, hshape⟩ := List.exists_cons_of_ne_nil (hall t (by rw [htensors]; exact List.mem_cons_self)).1
    simp only [List.getElem?_cons_zero, hshape, TensorBytes.rows, List.headD_cons]

end Loaded

/-- A request without inputs has no rows. -/
theorem clientBatchSize_of_nil {proxy : ModelProxy} {request : ModelInferRequest} {r : Request}
    (hr : r.tensors = request.tensors proxy) (hnil : request.inputs = []) :
    r.clientBatchSize = .error .inputIndex := by
  have htensors : request.tensors proxy = [] := by
    rw [ModelInferRequest.tensors, orderedInputs, hnil]
    rfl
  rw [Request.clientBatchSize, hr, htensors]
  rfl

/-! ### The whole call -/

/-- `map_err`. -/
def Attempt.mapErr {ε ε' β : Type} (f : ε → ε') : Attempt ε β → Attempt ε' β
  | .panicked site => .panicked site
  | .err e => .err (f e)
  | .ok b => .ok b

namespace TritonService

/-- `model_infer` behind its call of `infer`: what that returned, and `get_data` on the ring `later`,
when the batches of the request have run. -/
def respond (outputNames : List String) (later : SuperTensorBuffer g α) :
    Attempt InferError (List (WriteReservation g)) → Option (Attempt Status ModelInferResponse)
  | .panicked site => some (.panicked site)
  | .err e => some (.err (inferErrorToStatus e))
  | .ok response =>
    (SuperTensorBuffer.getData response later).map fun answer =>
      (answer.1.mapErr inferErrorToStatus).bind fun r => .ok (modelInferResponse outputNames r.1 r.2)

/-- `TritonService::model_infer` from its first line to its last, on the ring `s`. -/
def modelInfer (ops : CounterOps g α) (clock : ℕ → Instant) (models : String → Option ModelProxy)
    (outputNames : List String) (request : ModelInferRequest) (s later : SuperTensorBuffer g α) :
    Option (Attempt Status ModelInferResponse) :=
  match h : Toutates.modelInfer models request with
  | .panicked site => some (.panicked site)
  | .err status => some (.err status)
  | .ok _ => (SuperTensorBuffer.infer ops clock (.ofModelInfer h) s).bind fun call => respond outputNames later call.1

end TritonService

/-- `model_infer` returns: a response or a status, not a panic. -/
def ModelInferReturns (ops : CounterOps g α) (clock : ℕ → Instant) (models : String → Option ModelProxy)
    (outputNames : List String) (request : ModelInferRequest) (s later : SuperTensorBuffer g α) : Prop :=
  ∃ r, TritonService.modelInfer ops clock models outputNames request s later = some r ∧ ∀ site, r ≠ .panicked site

section Returns

variable {ops : CounterOps g α} {clock : ℕ → Instant} {models : String → Option ModelProxy}
  {outputNames : List String} {request : ModelInferRequest} {s later : SuperTensorBuffer g α}

/-- Behind `infer` the call returns if `infer` does, and if `get_data` of its response does. -/
theorem respond_returns_iff {a : Attempt InferError (List (WriteReservation g))} :
    (∃ r, TritonService.respond outputNames later a = some r ∧ ∀ site, r ≠ .panicked site) ↔
      (∀ site, a ≠ .panicked site) ∧
        ∀ response, a = .ok response → SuperTensorBuffer.Survives (SuperTensorBuffer.getData response) later := by
  cases a with
  | panicked site => exact iff_of_false (by rintro ⟨_, ⟨⟩, hnot⟩; exact hnot site rfl) fun h => h.1 site rfl
  | err e => exact iff_of_true ⟨_, rfl, by rintro site ⟨⟩⟩ ⟨by rintro site ⟨⟩, by rintro response ⟨⟩⟩
  | ok response =>
    rw [TritonService.respond]
    constructor
    · rintro ⟨r, hr, hnot⟩
      refine ⟨by rintro site ⟨⟩, ?_⟩
      rintro response' ⟨⟩
      obtain ⟨⟨answer, s'⟩, hget, rfl⟩ := Option.map_eq_some_iff.1 hr
      refine ⟨answer, s', hget, ?_⟩
      rintro site rfl
      exact hnot site rfl
    · rintro ⟨-, hget⟩
      obtain ⟨answer, s', hget, hnot⟩ := hget response rfl
      rw [hget]
      refine ⟨_, rfl, fun site hsite => ?_⟩
      cases answer with
      | panicked site' => exact hnot site' rfl
      | err e => cases hsite
      | ok r => cases hsite

/-- A call that is refused before it comes to the ring returns. -/
theorem modelInferReturns_of_err {status : Status} (hcall : modelInfer models request = .err status) :
    ModelInferReturns ops clock models outputNames request s later := by
  refine ⟨.err status, ?_, by rintro site ⟨⟩⟩
  unfold TritonService.modelInfer
  split <;> rename_i h <;> rw [hcall] at h
  · cases h
  · rw [Attempt.err.inj h]
  · cases h

/-- A call that panics before it comes to the ring does not. -/
theorem not_modelInferReturns {site : Panic} (hcall : modelInfer models request = .panicked site) :
    ¬ ModelInferReturns ops clock models outputNames request s later := by
  rintro ⟨r, hr, hnot⟩
  unfold TritonService.modelInfer at hr
  split at hr <;> rename_i h
  · exact hnot _ (Option.some.inj hr).symm
  · rw [hcall] at h
    cases h
  · rw [hcall] at h
    cases h

/-- A call that comes to the ring goes on there. -/
theorem modelInferReturns_iff {tensors : List TensorBytes} (hcall : modelInfer models request = .ok tensors) :
    ModelInferReturns ops clock models outputNames request s later ↔
      ∃ a s', SuperTensorBuffer.infer ops clock (.ofModelInfer hcall) s = some (a, s') ∧ (∀ site, a ≠ .panicked site) ∧
        ∀ response, a = .ok response → SuperTensorBuffer.Survives (SuperTensorBuffer.getData response) later := by
  have hmodel : TritonService.modelInfer ops clock models outputNames request s later =
      (SuperTensorBuffer.infer ops clock (.ofModelInfer hcall) s).bind
        fun call => TritonService.respond outputNames later call.1 := by
    unfold TritonService.modelInfer
    split <;> rename_i h
    · rw [hcall] at h
      cases h
    · rw [hcall] at h
      cases h
    · obtain rfl := Attempt.ok.inj (hcall.symm.trans h)
      rfl
  rw [ModelInferReturns, hmodel]
  constructor
  · rintro ⟨r, hr, hnot⟩
    obtain ⟨⟨a, s'⟩, hinfer, hrespond⟩ := Option.bind_eq_some_iff.1 hr
    exact ⟨a, s', hinfer, respond_returns_iff.1 ⟨r, hrespond, hnot⟩⟩
  · rintro ⟨a, s', hinfer, hreturns⟩
    obtain ⟨r, hrespond, hnot⟩ : ∃ r, TritonService.respond outputNames later a = some r ∧
        ∀ site, r ≠ .panicked site := respond_returns_iff.2 hreturns
    exact ⟨r, Option.bind_eq_some_iff.2 ⟨(a, s'), hinfer, hrespond⟩, hnot⟩

/-- A request for a model that is not loaded is refused. -/
theorem modelInferReturns_of_notLoaded (hmodel : models request.modelName = none) :
    ModelInferReturns ops clock models outputNames request s later := by
  have hcall : modelInfer models request =
      .err ⟨.notFound, "Model " ++ request.modelName ++ " not found"⟩ := by
    unfold modelInfer
    rw [hmodel]
  exact modelInferReturns_of_err hcall

/-- A request that the checks refuse is answered with their status. -/
theorem modelInferReturns_of_refused {proxy : ModelProxy} (hmodel : models request.modelName = some proxy)
    {status : Status} (hvalid : validateInputs proxy request.inputs = .error status) :
    ModelInferReturns ops clock models outputNames request s later := by
  have hcall : modelInfer models request = .err status := by
    unfold modelInfer
    rw [hmodel]
    simp only [hvalid]
  exact modelInferReturns_of_err hcall

end Returns

/-- The request has inputs, and bytes for all of them, and the copies of its rows to position `h` take
their tensors: those of its first piece, and those of the others if the model has supported types
only; each up to the first input of a type that is not supported.  If all are supported, so that the
batches run, what these leave can be cut out, up to the first failure. -/
structure Accommodated (model : Fin g.numInputs → Outlet) (types : List TensorElementType)
    (results : ℕ → Except InferError SessionValues) (proxy : ModelProxy) (request : ModelInferRequest)
    (h : ℕ) : Prop where
  inputs : request.inputs ≠ []
  bytes : request.inputs.length ≤ request.rawInputContents.length
  copies : ∀ pieces, Pieces g.batchSize h (request.rows proxy) pieces →
    ∀ q ∈ pieces, (q.1 = h ∨ ∀ i, (model i).Supported) → ∀ i, (∀ j < i, (model j).Supported) →
      ∃ t, (request.tensors proxy)[i.val]? = some t ∧
        (model i).Takes g.batchSize t (q.1 - h) (q.1 - h + q.2) (q.1 % g.batchSize)
  outputs : (∀ i, (model i).Supported) → ∀ pieces, Pieces g.batchSize h (request.rows proxy) pieces →
    Cuttable types (pieces.map (pieceDelivery g.batchSize results))

section Accepted

variable {s later : SuperTensorBuffer g Usize} {h t : ℕ} {model : Fin g.numInputs → Outlet}
  {types : List TensorElementType} {results : ℕ → Except InferError SessionValues}
  {models : String → Option ModelProxy} {request : ModelInferRequest}

/-- A request that passes the checks is answered exactly when it is accommodated. -/
theorem modelInferReturns_iff_accommodated (hg : g.slots < 2 ^ 64) (hhead : s.head = wrap h)
    (htail : s.tail = wrap t) (htail_dvd : g.batchSize ∣ t) (htensors : ∀ x i, (model i).Of (s.inputTensors x i))
    (hopen : ∀ q, g.batchSize ∣ q → h ≤ q → q < t + g.slots → s.Unopened (g.cell q))
    (htypes : ∀ q values, results q = .ok values → values.map DynTensor.dataType = types) {input : List ModelInput}
    {proxy : ModelProxy} (hload : loadModel input = some proxy) (hmodel : models request.modelName = some proxy)
    (hvalid : validateInputs proxy request.inputs = .ok ()) (hroom : t ≤ h ∧ h < t + g.slots)
    (hrows : h + request.rows proxy ≤ t + g.slots)
    (hran : ∀ q, h ≤ q → q < h + request.rows proxy →
      (later.states (g.cell q) (s.trackers (g.cell q)).generation).Ran (results q))
    (clock : ℕ → Instant) (outputNames : List String) :
    ModelInferReturns (CounterOps.wrapping g) clock models outputNames request s later ↔
      Accommodated model types results proxy request h := by
  have hfull : ¬ (CounterOps.wrapping g).isFull s.head s.tail = true := by
    rw [hhead, htail, Wrapping.isFull_wrap_of_le hg hroom.1 (by omega), decide_eq_true_eq]
    omega
  have hcall := modelInfer_eq hload hmodel hvalid
  by_cases hlen : request.inputs.length ≤ request.rawInputContents.length
  · rw [if_pos hlen] at hcall
    rw [modelInferReturns_iff hcall]
    by_cases hnil : request.inputs = []
    · refine iff_of_false ?_ fun hacc => hacc.inputs hnil
      rintro ⟨a, s', hinfer, hnot, -⟩
      exact SuperTensorBuffer.not_infer_survives hfull (clientBatchSize_of_nil rfl hnil) ⟨a, s', hinfer, hnot⟩
    · have hn := clientBatchSize_eq hload hvalid (r := .ofModelInfer hcall) rfl hnil
      have hrep := CounterOps.wrapping_represents hg.le
      have hopen' : ∀ q, g.batchSize ∣ q → h ≤ q → q < h + request.rows proxy → s.Unopened (g.cell q) :=
        fun q hq h₁ h₂ => hopen q hq h₁ (h₂.trans_le hrows)
      have hdata := tensors_ok hload hvalid
      have hsurvives := SuperTensorBuffer.infer_survives_iff hrep hhead hfull htail_dvd
        ⟨hroom.1, hrows⟩ htensors hn hdata hopen' clock
      constructor
      · rintro ⟨a, s', hinfer, hnot, hget⟩
        refine ⟨hnil, hlen, hsurvives.1 ⟨a, s', hinfer, hnot⟩, fun hall pieces hpieces => ?_⟩
        cases a with
        | panicked site => exact absurd rfl (hnot site)
        | err e =>
          exact absurd hall (SuperTensorBuffer.infer_of_err hrep hhead hfull htail_dvd ⟨hroom.1, hrows⟩ htensors hn
            hdata hopen' hinfer)
        | ok response =>
          obtain ⟨-, pieces', hpieces', rfl⟩ := SuperTensorBuffer.infer_of_ok hrep hhead hfull htail_dvd
            ⟨hroom.1, hrows⟩ htensors hn hinfer
          obtain rfl := hpieces.unique hpieces'
          exact (SuperTensorBuffer.getData_survives_iff hpieces hran htypes).1 (hget _ rfl)
      · intro hacc
        obtain ⟨a, s', hinfer, hnot⟩ := hsurvives.2 hacc.copies
        refine ⟨a, s', hinfer, hnot, fun response heq => ?_⟩
        rw [heq] at hinfer
        obtain ⟨hall, pieces, hpieces, rfl⟩ := SuperTensorBuffer.infer_of_ok hrep hhead hfull htail_dvd
          ⟨hroom.1, hrows⟩ htensors hn hinfer
        exact (SuperTensorBuffer.getData_survives_iff hpieces hran htypes).2 (hacc.outputs hall pieces hpieces)
  · rw [if_neg hlen] at hcall
    exact iff_of_false (not_modelInferReturns hcall) fun hacc => hlen hacc.bytes

end Accepted

/-- **When no request can crash the server.**  On a ring with room for its rows, whose batches leave
`results` in their cells when they have run: a call of `model_infer` returns a response or a status if
and only if the model is not loaded, the checks refuse the request, or the request is accommodated. -/
theorem no_crash_iff (hg : g.slots < 2 ^ 64) {s : SuperTensorBuffer g Usize} {h t : ℕ} (hhead : s.head = wrap h)
    (htail : s.tail = wrap t) (htail_dvd : g.batchSize ∣ t) {model : Fin g.numInputs → Outlet}
    (htensors : ∀ x i, (model i).Of (s.inputTensors x i))
    (hopen : ∀ q, g.batchSize ∣ q → h ≤ q → q < t + g.slots → s.Unopened (g.cell q))
    {types : List TensorElementType} {results : ℕ → Except InferError SessionValues}
    (htypes : ∀ q values, results q = .ok values → values.map DynTensor.dataType = types)
    {models : String → Option ModelProxy}
    (hloaded : ∀ name proxy, models name = some proxy → ∃ input, loadModel input = some proxy)
    {request : ModelInferRequest} (hroom : t ≤ h ∧ h < t + g.slots)
    (hrows : ∀ proxy, models request.modelName = some proxy → h + request.rows proxy ≤ t + g.slots)
    {later : SuperTensorBuffer g Usize}
    (hran : ∀ proxy, models request.modelName = some proxy → ∀ q, h ≤ q → q < h + request.rows proxy →
      (later.states (g.cell q) (s.trackers (g.cell q)).generation).Ran (results q))
    (clock : ℕ → Instant) (outputNames : List String) :
    ModelInferReturns (CounterOps.wrapping g) clock models outputNames request s later ↔
      models request.modelName = none ∨ ∃ proxy, models request.modelName = some proxy ∧
        ((∃ status, validateInputs proxy request.inputs = .error status) ∨
          Accommodated model types results proxy request h) := by
  cases hmodel : models request.modelName with
  | none => exact iff_of_true (modelInferReturns_of_notLoaded hmodel) (.inl rfl)
  | some proxy =>
    obtain ⟨input, hload⟩ := hloaded _ proxy hmodel
    cases hvalid : validateInputs proxy request.inputs with
    | error status =>
      exact iff_of_true (modelInferReturns_of_refused hmodel hvalid) (.inr ⟨proxy, rfl, .inl ⟨status, hvalid⟩⟩)
    | ok u =>
      rw [modelInferReturns_iff_accommodated hg hhead htail htail_dvd htensors hopen htypes hload hmodel hvalid hroom
        (hrows proxy hmodel) (hran proxy hmodel) clock outputNames]
      constructor
      · exact fun hacc => .inr ⟨proxy, rfl, .inr hacc⟩
      · rintro (hnone | ⟨proxy', heq, hor⟩)
        · cases hnone
        · obtain rfl := Option.some.inj heq
          refine hor.resolve_left fun ⟨status, herror⟩ => ?_
          rw [hvalid] at herror
          cases herror

/-- A model with one input of bytes, one byte a row. -/
def byteInput : List ModelInput := [⟨"x", [-1, 1]⟩]

/-- A new ring for it. -/
def byteRing : SuperTensorBuffer twoByTwo Usize := .new (CounterOps.wrapping twoByTwo) fun _ _ => byteTensor 2

/-- The outputs of a batch of two bytes. -/
def byteOutputs : SessionValues := [⟨.uint8, [2, 1], [7, 9], by rintro w ⟨⟩; rfl⟩]

/-- The ring when its first batch has run. -/
def byteRingRan : SuperTensorBuffer twoByTwo Usize :=
  byteRing.modifyState (twoByTwo.cell 0) 0 fun b =>
    { b with output := some (.ok byteOutputs), executionTrace := ⟨some 0, some 1, some 2⟩ }

/-- A request of one row for it, with these bytes. -/
def byteRow (raw : List (List UInt8)) : ModelInferRequest := ⟨"m", [⟨"x", "UINT8", [1, 1], byteShape_lt⟩], raw⟩

/-- A request with a byte for its row is answered. -/
theorem no_crash_iff_twoByTwo :
    ModelInferReturns (CounterOps.wrapping twoByTwo) (fun _ => 0) (fun _ => loadModel byteInput) ["y"] (byteRow [[7]])
      byteRing byteRingRan := by
  have hrows : ∀ proxy, loadModel byteInput = some proxy → (byteRow [[7]]).rows proxy = 1 ∧
      (byteRow [[7]]).tensors proxy = [⟨.typeUint8, [1, 1], [7]⟩] := by
    intro proxy hload
    obtain ⟨rfl, -⟩ := eq_of_loadModel hload
    exact ⟨by decide, by decide⟩
  refine (@no_crash_iff twoByTwo (by decide) byteRing 0 0 rfl rfl (by decide) (fun _ => ⟨.uint8, [1]⟩)
    (fun _ _ => ⟨rfl, rfl⟩) (fun _ _ _ _ => ⟨rfl, rfl⟩) [.uint8] (fun _ => .ok byteOutputs) ?_ _
    (fun _ _ h => ⟨byteInput, h⟩) _ (by decide) (fun proxy h => by rw [(hrows proxy h).1]; decide) byteRingRan ?_ _ _).2
    (.inr ⟨⟨byteInput, inputSet byteInput⟩, rfl, .inr ?_⟩)
  · intro q values h
    obtain rfl := Except.ok.inj h
    rfl
  · intro proxy h q _ hq
    rw [(hrows proxy h).1, Nat.lt_one_iff] at hq
    subst hq
    exact ⟨rfl, rfl, rfl⟩
  · obtain ⟨hone, htensors⟩ := hrows _ rfl
    have honly : ∀ pieces, Pieces twoByTwo.batchSize 0 ((byteRow [[7]]).rows ⟨byteInput, inputSet byteInput⟩) pieces →
        pieces = [(0, 1)] := by
      intro pieces hpieces
      rw [hone] at hpieces
      exact hpieces.unique (.last (by decide) (by decide))
    refine ⟨by decide, by decide, fun pieces hpieces q hq _ i _ => ⟨⟨.typeUint8, [1, 1], [7]⟩, ?_, ?_⟩,
      fun _ pieces hpieces => ?_⟩
    · rw [htensors]
      obtain rfl : i = ⟨0, by decide⟩ := Fin.fin_one_eq_zero i
      rfl
    · rw [honly pieces hpieces] at hq
      obtain rfl := List.mem_singleton.1 hq
      refine ⟨by decide, fun w hw => ?_, fun w hw => ?_⟩ <;>
        obtain rfl : 1 = w := Option.some.inj hw
      · decide
      · decide
    · rw [honly pieces hpieces]
      refine ⟨List.forall_mem_singleton.2 fun values h => ?_, fun htwo => absurd htwo (by decide)⟩
      obtain rfl := Except.ok.inj h
      exact List.forall_mem_singleton.2 (by decide)

/-- A request that sends its row in another field of the protocol aborts the server. -/
theorem request_can_crash :
    ¬ ModelInferReturns (CounterOps.wrapping twoByTwo) (fun _ => 0) (fun _ => loadModel byteInput) ["y"] (byteRow [])
      byteRing byteRingRan :=
  not_modelInferReturns (show modelInfer (fun _ => loadModel byteInput) (byteRow []) = .panicked .rawIndex by decide)

end Toutates
