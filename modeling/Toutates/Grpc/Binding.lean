/-
# Which tensor goes to which input

`insert_tensors_at` takes the tensors of a request by their places, the `i`-th for the `i`-th input
of the model.  `model_infer` brings the inputs of the request into the order of the model, which
puts every one of them in its place if the request has each input of the model once.  Nothing checks
that it has.
-/

import Toutates.Basis.Table
import Toutates.Grpc.Infer

namespace Toutates

open Basis

/-- `input_set` of a model: where `load_model` found an input of that name. -/
def inputSet (input : List ModelInput) : String → Option ℕ := table (input.zipIdx.map fun a => (a.1.name, a.2))

/-- `load_model`, as far as `model_infer` reads what it returns, for a session with these inputs; it
panics where `input_shape[0]` is out of range. -/
def loadModel (input : List ModelInput) : Option ModelProxy :=
  if input.any fun i => i.dims.isEmpty then none else some ⟨input, inputSet input⟩

/-- What `load_model` makes of the inputs, none of which is of rank 0. -/
theorem eq_of_loadModel {input : List ModelInput} {proxy : ModelProxy} (h : loadModel input = some proxy) :
    proxy = ⟨input, inputSet input⟩ ∧ ∀ i ∈ input, i.dims ≠ [] := by
  unfold loadModel at h
  split_ifs at h with hany
  refine ⟨(Option.some.inj h).symm, fun i hi hdims => hany (List.any_eq_true.2 ⟨i, hi, ?_⟩)⟩
  rw [hdims]
  rfl

/-- The set has the names of the inputs. -/
theorem inputSet_isSome_iff {input : List ModelInput} {name : String} :
    (inputSet input name).isSome ↔ ∃ m ∈ input, m.name = name := by
  rw [inputSet, table_isSome_iff, List.map_map, List.mem_map]
  constructor
  · rintro ⟨⟨m, i⟩, hm, rfl⟩
    exact ⟨m, List.fst_mem_of_mem_zipIdx hm, rfl⟩
  · rintro ⟨m, hm, rfl⟩
    obtain ⟨i, hi⟩ := List.getElem?_of_mem hm
    exact ⟨(m, i), List.mem_zipIdx_iff_getElem?.2 hi, rfl⟩

/-- The place of an input whose name comes once. -/
theorem inputSet_of_getElem? {input : List ModelInput} (hnodup : (input.map ModelInput.name).Nodup) {i : ℕ}
    {m : ModelInput} (hi : input[i]? = some m) : inputSet input m.name = some i := by
  have hkeys : ((input.zipIdx.map fun a => (a.1.name, a.2)).map Prod.fst).Nodup := by
    rw [List.map_map]
    have heq : input.zipIdx.map (Prod.fst ∘ fun a => (a.1.name, a.2)) =
        (input.zipIdx.map Prod.fst).map ModelInput.name := by
      rw [List.map_map]
      rfl
    rwa [heq, List.zipIdx_map_fst]
  exact table_of_mem (a := (m.name, i)) hkeys (List.mem_map.2 ⟨(m, i), List.mem_zipIdx_iff_getElem?.2 hi, rfl⟩)

/-! ### The tensors that `infer` is called with -/

/-- The tensor is the `j`-th input of a request, with the bytes at its place. -/
structure ModelInferRequest.Carries (request : ModelInferRequest) (j : ℕ) (t : TensorBytes) : Prop where
  data : request.rawInputContents[j]? = some t.data
  input : ∃ reqInput, request.inputs[j]? = some reqInput ∧ t.dataType = DataType.fromStr reqInput.datatype ∧
    t.shape = reqInput.shape

/-- The tensors are the raw contents of the inputs, in the given order. -/
theorem tensorBytes_getElem? {raw : List (List UInt8)} {inputs : List (InferInputTensor × ℕ)}
    {tensors : List TensorBytes} (h : tensorBytes raw inputs = .ok tensors) :
    tensors.length = inputs.length ∧ ∀ (k : ℕ) a, inputs[k]? = some a → ∃ t, tensors[k]? = some t ∧
      raw[a.2]? = some t.data ∧ t.dataType = DataType.fromStr a.1.datatype ∧ t.shape = a.1.shape := by
  induction inputs generalizing tensors with
  | nil =>
    obtain rfl := Attempt.ok.inj h
    exact ⟨rfl, fun k a hk => absurd hk (by simp)⟩
  | cons b rest ih =>
    obtain ⟨reqInput, j⟩ := b
    rw [tensorBytes] at h
    split at h
    · cases h
    · rename_i data hdata
      obtain ⟨ts, hts, hok⟩ := Attempt.bind_eq_ok.1 h
      obtain rfl := Attempt.ok.inj hok
      obtain ⟨hlen, hrest⟩ := ih hts
      refine ⟨congrArg Nat.succ hlen, fun k a hk => ?_⟩
      cases k with
      | zero =>
        obtain rfl := Option.some.inj hk
        exact ⟨_, rfl, hdata, rfl, rfl⟩
      | succ k => exact hrest k a hk

/-- What `model_infer` has checked when it calls `infer`. -/
theorem of_modelInfer {models : String → Option ModelProxy} {request : ModelInferRequest} {proxy : ModelProxy}
    {tensors : List TensorBytes} (hmodel : models request.modelName = some proxy)
    (h : modelInfer models request = .ok tensors) :
    (∀ i ∈ request.inputs, (proxy.order i.name).isSome) ∧
      tensorBytes request.rawInputContents (orderedInputs proxy request.inputs) = .ok tensors := by
  unfold modelInfer at h
  rw [hmodel] at h
  simp only at h
  split at h
  · cases h
  · split_ifs at h with hall
    exact ⟨fun i hi => List.all_eq_true.1 hall i hi, h⟩

/-- An entry is an input of the request, with the bytes at its place. -/
theorem mem_orderedInputs {proxy : ModelProxy} {inputs : List InferInputTensor} {a : InferInputTensor × ℕ} :
    a ∈ orderedInputs proxy inputs ↔ inputs[a.2]? = some a.1 := by
  rw [orderedInputs, List.mem_insertionSort, List.mem_zipIdx_iff_getElem?]

/-- Sorting drops no input. -/
theorem length_orderedInputs (proxy : ModelProxy) (inputs : List InferInputTensor) :
    (orderedInputs proxy inputs).length = inputs.length := by
  rw [orderedInputs, List.length_insertionSort, List.length_zipIdx]

/-- The places of the model's inputs, in their order. -/
theorem map_inputSet {input : List ModelInput} (hnodup : (input.map ModelInput.name).Nodup) :
    (input.map ModelInput.name).map (fun name => (inputSet input name).getD 0) = List.range input.length := by
  refine List.ext_getElem? fun k => ?_
  rw [List.getElem?_map, List.getElem?_map]
  cases hk : input[k]? with
  | none =>
    rw [List.getElem?_eq_none (by rw [List.length_range]; exact List.getElem?_eq_none_iff.1 hk)]
    rfl
  | some m =>
    have hlt : k < input.length := (List.getElem?_eq_some_iff.1 hk).1
    rw [List.getElem?_range hlt, Option.map_some, Option.map_some]
    exact congrArg some (congrArg (Option.getD · 0) (inputSet_of_getElem? hnodup hk))

/-- An input's place has its name. -/
theorem name_of_inputSet {input : List ModelInput} (hnodup : (input.map ModelInput.name).Nodup) {name : String}
    (hname : name ∈ input.map ModelInput.name) {i : ℕ} {m : ModelInput} (hi : input[i]? = some m)
    (hplace : (inputSet input name).getD 0 = i) : name = m.name := by
  obtain ⟨m', hm', rfl⟩ := List.mem_map.1 hname
  obtain ⟨i', hi'⟩ := List.getElem?_of_mem hm'
  rw [inputSet_of_getElem? hnodup hi', Option.getD_some] at hplace
  rw [hplace, hi] at hi'
  rw [Option.some.inj hi']

/-- Sorting brings the inputs of the model into its order. -/
theorem orderedInputs_of_perm {input : List ModelInput} (hnodup : (input.map ModelInput.name).Nodup)
    {inputs : List InferInputTensor} (hperm : (inputs.map InferInputTensor.name).Perm (input.map ModelInput.name))
    {i : ℕ} {m : ModelInput} (hi : input[i]? = some m) :
    ∃ a, (orderedInputs ⟨input, inputSet input⟩ inputs)[i]? = some a ∧ a.1.name = m.name := by
  let place : String → ℕ := fun name => (inputSet input name).getD 0
  have hkeys : (inputs.zipIdx.map fun a => place a.1.name).Perm (List.range input.length) := by
    have heq : (inputs.zipIdx.map fun a => place a.1.name) =
        ((inputs.zipIdx.map Prod.fst).map InferInputTensor.name).map place := by
      rw [List.map_map, List.map_map]
      rfl
    rw [heq, List.zipIdx_map_fst, ← map_inputSet hnodup]
    exact hperm.map place
  have hsorted := congrArg (fun l => l[i]?) (map_key_insertionSort hkeys)
  have hlt : i < input.length := (List.getElem?_eq_some_iff.1 hi).1
  simp only [List.getElem?_range hlt, List.getElem?_map] at hsorted
  obtain ⟨a, ha, hplace⟩ := Option.map_eq_some_iff.1 hsorted
  have hordered : a ∈ orderedInputs ⟨input, inputSet input⟩ inputs := List.mem_of_getElem? ha
  have hmem : a.1 ∈ inputs := List.mem_of_getElem? (mem_orderedInputs.1 hordered)
  exact ⟨a, ha, name_of_inputSet hnodup (hperm.mem_iff.1 (List.mem_map_of_mem hmem)) hi hplace⟩

/-- The tensors have the shapes that the request declares. -/
theorem mem_shapes {raw : List (List UInt8)} {proxy : ModelProxy} {inputs : List InferInputTensor}
    {tensors : List TensorBytes} (htensors : tensorBytes raw (orderedInputs proxy inputs) = .ok tensors)
    {shape : List ℤ} : (∃ t ∈ tensors, t.shape = shape) ↔ ∃ i ∈ inputs, i.shape = shape := by
  constructor
  · rintro ⟨t, ht, rfl⟩
    obtain ⟨a, ha, hshape⟩ := shape_of_tensorBytes htensors t ht
    exact ⟨a.1, List.mem_of_getElem? (mem_orderedInputs.1 ha), hshape.symm⟩
  · rintro ⟨i, hi, rfl⟩
    obtain ⟨j, hj⟩ := List.getElem?_of_mem hi
    have hmem : (i, j) ∈ orderedInputs proxy inputs := mem_orderedInputs.2 hj
    obtain ⟨k, hk⟩ := List.getElem?_of_mem hmem
    obtain ⟨t, ht, -, -, hshape⟩ := (tensorBytes_getElem? htensors).2 k _ hk
    exact ⟨t, List.mem_of_getElem? ht, hshape⟩

/-- The tensors have the same number of rows when the inputs of the request have. -/
theorem rows_iff {raw : List (List UInt8)} {proxy : ModelProxy} {inputs : List InferInputTensor}
    {tensors : List TensorBytes} (htensors : tensorBytes raw (orderedInputs proxy inputs) = .ok tensors) :
    (∀ t ∈ tensors, ∀ t' ∈ tensors, t.shape.head? = t'.shape.head?) ↔
      ∀ i ∈ inputs, ∀ j ∈ inputs, i.shape.head? = j.shape.head? := by
  constructor
  · intro hrows i hi j hj
    obtain ⟨t, ht, hti⟩ := (mem_shapes htensors).2 ⟨i, hi, rfl⟩
    obtain ⟨t', ht', htj⟩ := (mem_shapes htensors).2 ⟨j, hj, rfl⟩
    rw [← hti, ← htj]
    exact hrows t ht t' ht'
  · intro hdims t ht t' ht'
    obtain ⟨i, hi, hit⟩ := (mem_shapes htensors).1 ⟨t, ht, rfl⟩
    obtain ⟨j, hj, hjt⟩ := (mem_shapes htensors).1 ⟨t', ht', rfl⟩
    rw [← hit, ← hjt]
    exact hdims i hi j hj

/-- `infer` is called with exactly one tensor for each input of the model, the one of its name with
its bytes, and all tensors have the same number of rows. -/
structure Bound (input : List ModelInput) (request : ModelInferRequest) (tensors : List TensorBytes) : Prop where
  length : tensors.length = input.length
  named : ∀ (i : ℕ) m, input[i]? = some m → ∃ j reqInput t,
    request.inputs[j]? = some reqInput ∧ reqInput.name = m.name ∧
    tensors[i]? = some t ∧ request.Carries j t
  rows : ∀ t ∈ tensors, ∀ t' ∈ tensors, t.shape.head? = t'.shape.head?

/-- A request whose inputs are bound has each input of the model once. -/
theorem Bound.names_perm {input : List ModelInput} (hnodup : (input.map ModelInput.name).Nodup)
    {request : ModelInferRequest} {tensors : List TensorBytes} (h : Bound input request tensors)
    (hlen : tensors.length = request.inputs.length) :
    (request.inputs.map InferInputTensor.name).Perm (input.map ModelInput.name) := by
  have hsub : input.map ModelInput.name ⊆ request.inputs.map InferInputTensor.name := by
    intro name hname
    obtain ⟨m, hm, rfl⟩ := List.mem_map.1 hname
    obtain ⟨i, hi⟩ := List.getElem?_of_mem hm
    obtain ⟨j, reqInput, -, hj, hsame, -⟩ := h.named i m hi
    exact hsame ▸ List.mem_map_of_mem (List.mem_of_getElem? hj)
  refine ((List.subperm_of_subset hnodup hsub).perm_of_length_le ?_).symm
  rw [List.length_map, List.length_map, ← hlen, h.length]

/-- **The inputs are bound to the right tensors exactly when the request has each input of the model
once, and all of them with the same dimension 0.** -/
theorem inputs_bound_iff {input : List ModelInput} (hnodup : (input.map ModelInput.name).Nodup)
    {proxy : ModelProxy} (hload : loadModel input = some proxy) {models : String → Option ModelProxy}
    {request : ModelInferRequest} (hmodel : models request.modelName = some proxy) {tensors : List TensorBytes}
    (h : modelInfer models request = .ok tensors) :
    Bound input request tensors ↔
      (request.inputs.map InferInputTensor.name).Perm (input.map ModelInput.name) ∧
        ∀ i ∈ request.inputs, ∀ j ∈ request.inputs, i.shape.head? = j.shape.head? := by
  obtain ⟨rfl, -⟩ := eq_of_loadModel hload
  obtain ⟨-, htensors⟩ := of_modelInfer hmodel h
  obtain ⟨hlen, hall⟩ := tensorBytes_getElem? htensors
  rw [length_orderedInputs] at hlen
  constructor
  · exact fun hbound => ⟨hbound.names_perm hnodup hlen, (rows_iff htensors).1 hbound.rows⟩
  · rintro ⟨hperm, hdims⟩
    refine ⟨?_, fun i m hi => ?_, (rows_iff htensors).2 hdims⟩
    · have hcount := hperm.length_eq
      rw [List.length_map, List.length_map] at hcount
      rw [hlen, hcount]
    · obtain ⟨⟨reqInput, j⟩, ha, hname⟩ := orderedInputs_of_perm hnodup hperm hi
      obtain ⟨t, ht, hdata, htype, hshape⟩ := hall i _ ha
      have hj : request.inputs[j]? = some reqInput := mem_orderedInputs.1 (List.mem_of_getElem? ha)
      exact ⟨j, reqInput, t, hj, hname, ht, hdata, reqInput, hj, htype, hshape⟩

/-- A model with the inputs `a` and `b` of bytes, one byte a row. -/
def twoInputs : List ModelInput := [⟨"a", [-1, 1]⟩, ⟨"b", [-1, 1]⟩]

/-- The shape of a row of one byte. -/
theorem byteShape_lt : ∀ d ∈ [1, 1], -2 ^ 63 ≤ d ∧ d < (2 : ℤ) ^ 63 := by decide

/-- A request for it with inputs of these names, of one row each, the bytes of which count up. -/
def namedRequest (names : List String) : ModelInferRequest where
  modelName := "m"
  inputs := names.map fun name => ⟨name, "UINT8", [1, 1], byteShape_lt⟩
  rawInputContents := names.zipIdx.map fun a => [UInt8.ofNat a.2]

/-- The inputs in another order are bound all the same. -/
theorem inputs_bound_iff_twoInputs : ∃ tensors,
    modelInfer (fun _ => loadModel twoInputs) (namedRequest ["b", "a"]) = .ok tensors ∧
      Bound twoInputs (namedRequest ["b", "a"]) tensors := by
  have hok : modelInfer (fun _ => loadModel twoInputs) (namedRequest ["b", "a"]) =
      .ok [⟨.typeUint8, [1, 1], [1]⟩, ⟨.typeUint8, [1, 1], [0]⟩] := by decide
  exact ⟨_, hok, (inputs_bound_iff (by decide) rfl rfl hok).2 ⟨by decide, by decide⟩⟩

/-- An input that comes twice is taken for the one that is missing. -/
theorem inputs_can_be_misbound : ∃ tensors,
    modelInfer (fun _ => loadModel twoInputs) (namedRequest ["a", "a"]) = .ok tensors ∧
      tensors.length = twoInputs.length ∧ ¬ Bound twoInputs (namedRequest ["a", "a"]) tensors := by
  refine ⟨[⟨.typeUint8, [1, 1], [0]⟩, ⟨.typeUint8, [1, 1], [1]⟩], by decide, rfl, fun hbound => ?_⟩
  obtain ⟨j, reqInput, -, hj, hname, -⟩ := hbound.named 1 ⟨"b", [-1, 1]⟩ rfl
  have hnames : ∀ i ∈ (namedRequest ["a", "a"]).inputs, i.name = "a" := by decide
  have heq : "a" = "b" := (hnames reqInput (List.mem_of_getElem? hj)).symm.trans hname
  exact absurd heq (by decide)

end Toutates
