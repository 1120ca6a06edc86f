/-
# The shapes of a response

`get_data` reports, for every output, the shape of the tensor that a batch produced, and adds up
dimension 0 of these shapes over the reservations of the response.  `model_infer` puts the result
in an `InferOutputTensor`, next to the bytes of the rows of the request, which are as many as the
request has.

A tensor of a batch has `batch_size` rows, whoever sent them.  So dimension 0 is the rows of all
batches that the request has a part in (`getData_shapes`), and it is the rows of the request where
these are the same (`response_shape_iff_whole_batches`).
-/

import Toutates.Ring.Answers
import Toutates.Ring.ExactlyOnce
import Toutates.Ring.Split
import Toutates.Tensor.Scatter

namespace Toutates

open Basis

variable {g : Geometry}

/-- `DataType::from` of a `TensorElementType`. -/
def DataType.from : TensorElementType → DataType
  | .float32 => .typeFp32
  | .uint8 => .typeUint8
  | .int8 => .typeInt8
  | .uint16 => .typeUint16
  | .int16 => .typeInt16
  | .int32 => .typeInt32
  | .int64 => .typeInt64
  | .string => .typeString
  | .bool => .typeBool
  | .float16 => .typeFp16
  | .float64 => .typeFp64
  | .uint32 => .typeUint32
  | .uint64 => .typeUint64
  | .bfloat16 => .typeBf16
  | _ => .typeInvalid

/-- `DataType::as_str_name`. -/
def DataType.asStrName : DataType → String
  | .typeInvalid => "TYPE_INVALID"
  | .typeBool => "TYPE_BOOL"
  | .typeUint8 => "TYPE_UINT8"
  | .typeUint16 => "TYPE_UINT16"
  | .typeUint32 => "TYPE_UINT32"
  | .typeUint64 => "TYPE_UINT64"
  | .typeInt8 => "TYPE_INT8"
  | .typeInt16 => "TYPE_INT16"
  | .typeInt32 => "TYPE_INT32"
  | .typeInt64 => "TYPE_INT64"
  | .typeFp16 => "TYPE_FP16"
  | .typeFp32 => "TYPE_FP32"
  | .typeFp64 => "TYPE_FP64"
  | .typeString => "TYPE_STRING"
  | .typeBf16 => "TYPE_BF16"

/-- `InferOutputTensor`; its parameters and contents are always empty. -/
structure InferOutputTensor where
  name : String
  datatype : String
  shape : List ℤ
deriving DecidableEq

/-- `outputs` of `model_infer`: what `get_data` reports, zipped with the names of
`model_metadata.output_meta`. -/
def inferOutputTensors (outputMetadata : List Metadata) (outputNames : List String) : List InferOutputTensor :=
  List.zipWith (fun m name => ⟨name, (DataType.from m.1).asStrName, m.2⟩) outputMetadata outputNames

/-- `ModelInferResponse`, as far as it depends on what the ring answers. -/
structure ModelInferResponse where
  outputs : List InferOutputTensor
  rawOutputContents : List (List UInt8)

/-- What `model_infer` returns for the data and the metadata of `get_data`. -/
def modelInferResponse (outputNames : List String) (data : List (List UInt8)) (metadatas : List Metadata) :
    ModelInferResponse :=
  ⟨inferOutputTensors metadatas outputNames, data⟩

/-! ### What `get_data` reports -/

/-- The metadata of an output after `k` reservations. -/
def OutputLayout.reported (batchSize k : ℕ) (o : OutputLayout) : Metadata :=
  (o.dataType, ((k * batchSize : ℕ) : ℤ) :: o.dims)

/-- The first dimensions of an output are added. -/
theorem mergeMetadata_cons {t t' : TensorElementType} {d e : ℤ} {dims es : List ℤ} {rest acc : List Metadata}
    {i : ℕ} (hacc : acc[i]? = some (t', d :: dims)) :
    mergeMetadata ((t, e :: es) :: rest) i acc = mergeMetadata rest (i + 1) (acc.set i (t', (d + e) :: dims)) := by
  simp only [mergeMetadata, hacc]

/-- The metadata of one more batch is added. -/
theorem mergeMetadata_reported (batchSize k : ℕ) (outputs : List OutputLayout) (done : List Metadata) :
    mergeMetadata (outputs.map (OutputLayout.reported batchSize 1)) done.length
      (done ++ outputs.map (OutputLayout.reported batchSize k)) =
      .ok (done ++ outputs.map (OutputLayout.reported batchSize (k + 1))) := by
  induction outputs generalizing done with
  | nil => rfl
  | cons o outputs ih =>
    have hget : (done ++ (o.reported batchSize k :: outputs.map (OutputLayout.reported batchSize k)))[done.length]? =
        some (o.reported batchSize k) := by simp
    have hsum : ((k * batchSize : ℕ) : ℤ) + ((1 * batchSize : ℕ) : ℤ) = (((k + 1) * batchSize : ℕ) : ℤ) := by
      rw [Nat.add_mul, Int.natCast_add]
    have hset : (done ++ (o.reported batchSize k :: outputs.map (OutputLayout.reported batchSize k))).set done.length
        (o.reported batchSize (k + 1)) =
        (done ++ [o.reported batchSize (k + 1)]) ++ outputs.map (OutputLayout.reported batchSize k) := by simp
    have hrest := ih (done ++ [o.reported batchSize (k + 1)])
    rw [List.length_append, List.length_singleton, ← hset] at hrest
    rw [List.map_cons, List.map_cons, OutputLayout.reported, mergeMetadata_cons hget, hsum, List.map_cons]
    exact hrest.trans (by rw [← List.append_cons])

section Shapes

variable {batchSize : ℕ} {outputs : List OutputLayout}

/-- A reservation whose batch succeeded with the outputs of the model. -/
def Delivery.Produced (batchSize : ℕ) (outputs : List OutputLayout) (d : Delivery) : Prop :=
  ∀ values, d.result = .ok values → List.Forall₂ (OutputLayout.Describes batchSize) outputs values

/-- The metadata of a batch are those of its outputs. -/
theorem metadatas_of_describes {values : SessionValues}
    (h : List.Forall₂ (OutputLayout.Describes batchSize) outputs values) :
    (values.map fun v => (v.dataType, v.shape)) = outputs.map (OutputLayout.reported batchSize 1) := by
  induction h with
  | nil => rfl
  | cons hv _ ih => rw [List.map_cons, List.map_cons, ih, OutputLayout.reported, hv.dataType, hv.shape, Nat.one_mul]

/-- Every value adds its type and shape. -/
theorem extendOutputs_metadatas {start stop : ℕ} {vs : SessionValues} {i : ℕ} {data data' : List (List UInt8)}
    {metadatas metadatas' : List Metadata}
    (h : extendOutputs start stop vs i data metadatas = .ok (data', metadatas')) :
    metadatas' = metadatas ++ vs.map fun v => (v.dataType, v.shape) := by
  induction vs generalizing i data metadatas with
  | nil =>
    obtain ⟨-, rfl⟩ := Prod.mk.inj (Attempt.ok.inj h)
    rw [List.map_nil, List.append_nil]
  | cons v vs ih =>
    rw [extendOutputs] at h
    obtain ⟨slice, -, h⟩ := Attempt.bind_eq_ok.1 h
    split at h
    · cases h
    · rw [ih h, List.append_assoc]
      rfl

/-- What one reservation reports. -/
theorem Delivery.Produced.metadatas {d : Delivery} (hd : d.Produced batchSize outputs)
    {data data' : List (List UInt8)} {metadatas : List Metadata}
    (h : getResult d.start d.stop d.result data = .ok (data', metadatas)) :
    metadatas = outputs.map (OutputLayout.reported batchSize 1) := by
  unfold getResult at h
  split at h
  · cases h
  · rename_i values hvalues
    rw [extendOutputs_metadatas h, List.nil_append, metadatas_of_describes (hd values hvalues)]

/-- Each delivery adds the rows of a batch to what is reported. -/
theorem getDataFrom_reported (ds : List Delivery) (hds : ∀ d ∈ ds, d.Produced batchSize outputs) (k : ℕ)
    {data data' : List (List UInt8)} {metadatas : List Metadata}
    (h : getDataFrom ds data (some (outputs.map (OutputLayout.reported batchSize k))) = .ok (data', metadatas)) :
    metadatas = outputs.map (OutputLayout.reported batchSize (k + ds.length)) := by
  induction ds generalizing k data with
  | nil =>
    obtain ⟨-, rfl⟩ := Prod.mk.inj (Attempt.ok.inj h)
    rfl
  | cons d ds ih =>
    obtain ⟨⟨data₁, acc⟩, hstep, h⟩ := Attempt.bind_eq_ok.1 h
    obtain ⟨⟨data₂, batch⟩, hres, hmerge⟩ := Attempt.bind_eq_ok.1 hstep
    obtain rfl := (hds d List.mem_cons_self).metadatas hres
    have hreported := mergeMetadata_reported batchSize k outputs []
    simp only [List.length_nil, List.nil_append] at hreported
    simp only [hreported, Attempt.bind] at hmerge
    obtain ⟨rfl, rfl⟩ := Prod.mk.inj (Attempt.ok.inj hmerge)
    rw [ih (fun d' hd' => hds d' (List.mem_cons_of_mem d hd')) (k + 1) h, List.length_cons]
    congr 2
    omega

/-- **Dimension 0 is the rows of all batches that the response has a part in.** -/
theorem getData_shapes {ds : List Delivery} (hds : ∀ d ∈ ds, d.Produced batchSize outputs)
    {data : List (List UInt8)} {metadatas : List Metadata} (h : getData ds = .ok (data, metadatas)) :
    metadatas = outputs.map (OutputLayout.reported batchSize ds.length) := by
  cases ds with
  | nil => cases h
  | cons d ds =>
    obtain ⟨⟨data₁, acc⟩, hstep, h⟩ := Attempt.bind_eq_ok.1 h
    obtain ⟨⟨data₂, batch⟩, hres, hmerge⟩ := Attempt.bind_eq_ok.1 hstep
    obtain rfl := (hds d List.mem_cons_self).metadatas hres
    obtain ⟨rfl, rfl⟩ := Prod.mk.inj (Attempt.ok.inj hmerge)
    rw [getDataFrom_reported ds (fun d' hd' => hds d' (List.mem_cons_of_mem d hd')) 1 h, List.length_cons,
      Nat.add_comm]

end Shapes

/-! ### Shapes in runs -/

/-- The results that a response found in its cells are of the batches that ran. -/
theorem produced_of_delivered {w : RingWorld g ℕ} (h : Runs (CounterOps.unbounded g) (Fits g) w)
    {outputs : List OutputLayout}
    (hran : ∀ e values, Event.ran e (.ok values) ∈ w.log →
      List.Forall₂ (OutputLayout.Describes g.batchSize) outputs values)
    {response : List (WriteReservation g)} {ds : List Delivery}
    (hds : List.Forall₂ (Delivered w.shared) response ds) : ∀ d ∈ ds, d.Produced g.batchSize outputs := by
  induction hds with
  | nil => exact fun d hd => absurd hd List.not_mem_nil
  | cons hrd _ ih =>
    intro d hd values hvalues
    rcases List.mem_cons.1 hd with rfl | hd
    · exact hran _ values (hvalues ▸ ((executed_once h).output _ _ _ hrd.result).2)
    · exact ih d hd values hvalues

/-- An output is reported under its name. -/
theorem inferOutputTensors_getElem? {metadatas : List Metadata} {names : List String} {j : ℕ} {m : Metadata}
    {name : String} (hm : metadatas[j]? = some m) (hname : names[j]? = some name) :
    (inferOutputTensors metadatas names)[j]? = some ⟨name, (DataType.from m.1).asStrName, m.2⟩ := by
  rw [inferOutputTensors, List.getElem?_zipWith, hm, hname]

/-- **A response has the shape of its request exactly where the request is whole batches.**  In
every run whose accepted requests fit, for a model whose outputs have shape
`[batch_size, d1, ..., dm]`: what a client is answered is what `get_data` makes of the `n` rows that
its request took from position `hd` on, and the shape reported for an output is `[n, d1, ..., dm]`
if and only if these rows start with a batch and end with a batch. -/
theorem response_shape_iff_whole_batches {w : RingWorld g ℕ} (h : Runs (CounterOps.unbounded g) (Fits g) w)
    {outputs : List OutputLayout}
    (hran : ∀ e values, Event.ran e (.ok values) ∈ w.log →
      List.Forall₂ (OutputLayout.Describes g.batchSize) outputs values)
    {i : ℕ} {data : List (List UInt8)} {metadatas : List Metadata}
    (hev : Event.answered i data metadatas ∈ w.log) (names : List String) :
    ∃ hd n response ds, Event.responded i hd n response ∈ w.log ∧ (∃ t, Event.reserved t hd n ∈ w.log) ∧
      0 < n ∧ List.Forall₂ (Delivered w.shared) response ds ∧ getData ds = .ok (data, metadatas) ∧
      ∀ (j : ℕ) o name, outputs[j]? = some o → names[j]? = some name →
        ((∃ datatype, (inferOutputTensors metadatas names)[j]? = some ⟨name, datatype, (n : ℤ) :: o.dims⟩) ↔
          g.batchSize ∣ hd ∧ g.batchSize ∣ n) := by
  obtain ⟨response, ds, ⟨⟨hd, n, hresp⟩, hds⟩, hget⟩ := answered_eq_getData h hev
  rw [List.append_nil] at hresp
  have hpieces := pieces_of_responded h hresp
  refine ⟨hd, n, response, ds, hresp, ((responses_hold h).shared i hd n response hresp).reserved, hpieces.pos,
    hds, hget, fun j o name ho hname => ?_⟩
  have hlen : ds.length = (response.map WriteReservation.span).length := by
    rw [List.length_map, hds.length_eq]
  have hm : metadatas[j]? = some (o.reported g.batchSize ds.length) := by
    rw [getData_shapes (produced_of_delivered h hran hds) hget, List.getElem?_map, ho, Option.map_some]
  rw [inferOutputTensors_getElem? hm hname, ← hpieces.length_mul_eq_iff, ← hlen]
  simp only [OutputLayout.reported, Option.some.injEq, InferOutputTensor.mk.injEq, true_and, List.cons.injEq,
    and_true, exists_eq_left', Int.natCast_inj]

/-- The outputs of a batch that ran. -/
def Event.outputs : Event g ℕ → Option SessionValues
  | .ran _ (.ok values) => some values
  | _ => none

/-- What a client was answered. -/
def Event.answer : Event g ℕ → Option (ℕ × List (List UInt8) × List Metadata)
  | .answered i data metadatas => some (i, data, metadatas)
  | _ => none

/-- The answer that an event shows. -/
theorem Event.of_answer {ev : Event g ℕ} {i : ℕ} {data : List (List UInt8)} {metadatas : List Metadata}
    (h : ev.answer = some (i, data, metadatas)) : ev = .answered i data metadatas := by
  unfold answer at h
  split at h
  · cases h
    rfl
  · cases h

/-- An output of a batch of two rows of a byte. -/
def twoBytes : DynTensor := ⟨.uint8, [2, 1], [7, 0], by decide⟩

/-- A run in a ring of two-slot batches: a client sends one row, the batch is padded and executed,
and the client reads its row. -/
def oneRowOfTwo : List (Action Choice) :=
  reserve 2 byteRequest ++ insertRow 2 ++ claimBatch 0 ++ go 0 6 ++ [⟨0, .timeout⟩] ++ go 0 3 ++
    [⟨0, .clock 1⟩] ++ go 0 3 ++ [⟨0, .ran (.ok [twoBytes])⟩, ⟨0, .clock 2⟩] ++ go 0 6 ++ go 2 4

/-- The client of one row in a batch of two is answered a shape of two rows. -/
theorem response_shape_iff_whole_batches_twoByTwo :
    ∃ (w : RingWorld twoByTwo ℕ) (i : ℕ) (data : List (List UInt8)) (metadatas : List Metadata),
      Event.answered i data metadatas ∈ w.log ∧ metadatas = [(.uint8, [2, 1])] ∧ ∃ hd n, 0 < n ∧
        (∃ t, Event.reserved t hd n ∈ w.log) ∧
        ((∃ datatype, (inferOutputTensors metadatas ["y"])[0]? = some ⟨"y", datatype, [(n : ℤ), 1]⟩) ↔
          2 ∣ hd ∧ 2 ∣ n) := by
  have hrun : (runFresh (CounterOps.unbounded twoByTwo) (fits twoByTwo) (fun _ _ => byteTensor 2) oneRowOfTwo).map
      (fun w => (decide (w.log.filterMap Event.outputs = [[twoBytes]]),
        decide (w.log.filterMap Event.answer = [(2, [[7]], [(.uint8, [2, 1])])]))) = some (true, true) := by
    decide +kernel
  obtain ⟨w, hrun, hw⟩ := world_of_runFresh _ hrun
  obtain ⟨houtputs, hanswers⟩ := Prod.mk.inj hw
  replace houtputs := of_decide_eq_true houtputs
  replace hanswers := of_decide_eq_true hanswers
  have hruns : Runs (CounterOps.unbounded twoByTwo) (Fits twoByTwo) w :=
    Runs.of_runFresh (fun _ _ _ _ => fits_spec) hrun
  have hran : ∀ e values, Event.ran e (.ok values) ∈ w.log →
      List.Forall₂ (OutputLayout.Describes twoByTwo.batchSize) [⟨.uint8, [1], rfl, by decide⟩] values := by
    intro e values hev
    have hmem : values ∈ w.log.filterMap Event.outputs := List.mem_filterMap.2 ⟨_, hev, rfl⟩
    obtain rfl : values = [twoBytes] := List.mem_singleton.1 (houtputs ▸ hmem)
    exact List.Forall₂.cons ⟨rfl, rfl⟩ List.Forall₂.nil
  obtain ⟨ev, hev, hanswer⟩ : ∃ ev ∈ w.log, ev.answer = some (2, [[7]], [(.uint8, [2, 1])]) :=
    List.mem_filterMap.1 (hanswers ▸ List.mem_cons_self)
  obtain rfl := Event.of_answer hanswer
  obtain ⟨hd, n, _, _, -, hres, hn, -, -, hiff⟩ := response_shape_iff_whole_batches hruns hran hev ["y"]
  exact ⟨w, 2, _, _, hev, rfl, hd, n, hn, hres, hiff 0 _ "y" rfl rfl⟩

/-- `get_data` reports two rows for a reservation of one. -/
theorem shape_can_be_of_the_batch :
    ¬ ∀ (batchSize : ℕ) (outputs : List OutputLayout) (ds : List Delivery) (data : List (List UInt8))
      (metadatas : List Metadata), (∀ d ∈ ds, d.Ran batchSize outputs) → getData ds = .ok (data, metadatas) →
        ∀ (j : ℕ) o, outputs[j]? = some o → metadatas[j]?.map Prod.snd =
          some ((((ds.map fun d => d.stop - d.start).sum : ℕ) : ℤ) :: o.dims) := by
  intro hall
  have hran : ∀ d ∈ [(⟨0, 1, .ok [twoBytes]⟩ : Delivery)], d.Ran 2 [⟨.uint8, [1], rfl, by decide⟩] := by
    intro d hd
    obtain rfl := List.mem_singleton.1 hd
    exact ⟨by decide, by decide, _, rfl, List.Forall₂.cons ⟨rfl, rfl⟩ List.Forall₂.nil⟩
  exact absurd (hall 2 _ _ [[7]] [(.uint8, [2, 1])] hran rfl 0 _ rfl) (by decide)

end Toutates
