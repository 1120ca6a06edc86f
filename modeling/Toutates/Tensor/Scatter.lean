/-
# What a client gets back

`get_data` cuts, for every reservation and every output, elements `start .. stop` out of the
tensor that the batch produced.  `start` and `stop` are slots, so the client gets its rows
where a row is one element, and the first elements of the batch's rows elsewhere.

`getData_ok` computes the bytes that `get_data` returns, and
`scatter_correct_iff_one_element_rows` compares them with the rows of the request.
-/

import Mathlib.Algebra.Order.BigOperators.Group.List
import Toutates.Tensor.Output

namespace Toutates

open Basis

namespace DynTensor

/-- The size of one element. -/
def width (v : DynTensor) : ℕ := v.dataType.readWidth.getD 0

/-- The elements of one row. -/
def rowElements (v : DynTensor) : ℕ := numElements v.shape.tail

/-- Elements `start .. stop` of the row-major data. -/
def elements (v : DynTensor) (start stop : ℕ) : List UInt8 :=
  segment v.data (start * v.width) ((stop - start) * v.width)

/-- Rows `start .. stop` of the row-major data. -/
def rows (v : DynTensor) (start stop : ℕ) : List UInt8 :=
  v.elements (start * v.rowElements) (stop * v.rowElements)

/-- Rows are taken one by one. -/
theorem rows_eq_flatMap (v : DynTensor) (start stop : ℕ) :
    v.rows start stop = (List.range (stop - start)).flatMap fun k => v.rows (start + k) (start + k + 1) := by
  have hone : ∀ k, v.rows (start + k) (start + k + 1) =
      segment v.data (start * (v.rowElements * v.width) + k * (v.rowElements * v.width))
        (v.rowElements * v.width) := by
    intro k
    rw [rows, elements, ← Nat.sub_mul, Nat.add_sub_cancel_left, Nat.one_mul, ← Nat.add_mul, Nat.mul_assoc]
  rw [rows, elements, ← Nat.sub_mul, Nat.mul_assoc, Nat.mul_assoc, segment_mul]
  exact List.flatMap_congr fun k _ => (hone k).symm

end DynTensor

/-- One output of a model: its element type, which `value_as_byte_slice` can read, and the
dimensions of a row, which has elements. -/
structure OutputLayout where
  dataType : TensorElementType
  dims : List ℤ
  readable : dataType.readWidth.isSome
  rows_pos : 1 ≤ numElements dims

/-- The bytes of one row. -/
def OutputLayout.rowBytes (o : OutputLayout) : ℕ := numElements o.dims * o.dataType.readWidth.getD 0

/-- A tensor that a batch of `batchSize` rows produces for this output. -/
structure OutputLayout.Describes (batchSize : ℕ) (o : OutputLayout) (v : DynTensor) : Prop where
  dataType : v.dataType = o.dataType
  shape : v.shape = (batchSize : ℤ) :: o.dims

namespace OutputLayout.Describes

variable {batchSize : ℕ} {o : OutputLayout} {v : DynTensor}

/-- The width of a value that is described. -/
theorem readWidth (h : o.Describes batchSize v) : v.dataType.readWidth = some v.width := by
  obtain ⟨w, hw⟩ := Option.isSome_iff_exists.1 o.readable
  rw [DynTensor.width, h.dataType, hw, Option.getD_some]

/-- The width of a value that is described is not 0. -/
theorem width_pos (h : o.Describes batchSize v) : 0 < v.width :=
  TensorElementType.readWidth_pos h.readWidth

/-- The elements of a row are those of its dimensions. -/
theorem rowElements (h : o.Describes batchSize v) : v.rowElements = numElements o.dims := by
  rw [DynTensor.rowElements, h.shape, List.tail_cons]

/-- The bytes of a row are those of its elements. -/
theorem rowBytes (h : o.Describes batchSize v) : v.rowElements * v.width = o.rowBytes := by
  rw [h.rowElements, DynTensor.width, h.dataType, OutputLayout.rowBytes]

/-- A value has the bytes of a whole batch. -/
theorem data_length (h : o.Describes batchSize v) :
    v.data.length = batchSize * (v.rowElements * v.width) := by
  rw [v.data_length _ h.readWidth, h.shape, numElements_cons, h.rowElements, Nat.mul_assoc]

/-- The slice that is taken for slots `start .. stop`. -/
theorem valueAsByteSlice (h : o.Describes batchSize v) {start stop : ℕ} (h₁ : start ≤ stop)
    (h₂ : stop ≤ batchSize) : valueAsByteSlice v start stop = .ok (v.elements start stop) := by
  have hle : stop ≤ numElements v.shape := by
    rw [h.shape, numElements_cons]
    exact h₂.trans (Nat.le_mul_of_pos_right _ o.rows_pos)
  rw [Toutates.valueAsByteSlice, h.readWidth]
  exact if_pos ⟨h₁, hle⟩

/-- Rows that the batch has, complete. -/
theorem length_rows (h : o.Describes batchSize v) {start stop : ℕ} (h₁ : start ≤ stop)
    (h₂ : stop ≤ batchSize) :
    (v.rows start stop).length = (stop - start) * (v.rowElements * v.width) := by
  have hsum : start * (v.rowElements * v.width) + (stop - start) * (v.rowElements * v.width) ≤
      v.data.length := by
    rw [h.data_length, ← Nat.add_mul, Nat.add_sub_cancel' h₁]
    exact Nat.mul_le_mul_right _ h₂
  rw [DynTensor.rows, DynTensor.elements, length_segment, ← Nat.sub_mul, Nat.mul_assoc, Nat.mul_assoc]
  omega

/-- A cut has the bytes of its elements. -/
theorem length_elements (h : o.Describes batchSize v) {start stop : ℕ} (h₁ : start ≤ stop)
    (h₂ : stop ≤ batchSize) : (v.elements start stop).length = (stop - start) * v.width := by
  have hrow : 1 ≤ v.rowElements := by
    rw [h.rowElements]
    exact o.rows_pos
  have hsum : start * v.width + (stop - start) * v.width ≤ v.data.length := by
    rw [h.data_length, ← Nat.add_mul, Nat.add_sub_cancel' h₁]
    exact Nat.mul_le_mul h₂ (Nat.le_mul_of_pos_left _ hrow)
  rw [DynTensor.elements, length_segment]
  omega

end OutputLayout.Describes

/-- A reservation of some slots of a batch of `batchSize` rows that ran: its result has a
tensor for every output. -/
structure Delivery.Ran (batchSize : ℕ) (outputs : List OutputLayout) (d : Delivery) : Prop where
  start_lt : d.start < d.stop
  stop_le : d.stop ≤ batchSize
  values : ∃ values, d.result = .ok values ∧ List.Forall₂ (OutputLayout.Describes batchSize) outputs values

/-- What `cut` takes out of output `i` of the batch of a reservation. -/
def Delivery.pick (cut : DynTensor → ℕ → ℕ → List UInt8) (i : ℕ) (d : Delivery) : List UInt8 :=
  match d.result with
  | .ok values => (values[i]?.map fun v => cut v d.start d.stop).getD []
  | .error _ => []

/-! ### The loops of `get_data` -/

/-- The loop of `get_result` appends to every buffer the slice of the tensor at its place. -/
theorem extendOutputs_ok {start stop : ℕ} {vs : SessionValues}
    (hcut : ∀ v ∈ vs, valueAsByteSlice v start stop = .ok (v.elements start stop))
    (done data : List (List UInt8)) (hlen : data.length = vs.length) (metadatas : List Metadata) :
    extendOutputs start stop vs done.length (done ++ data) metadatas =
      .ok (done ++ List.zipWith (fun d v => d ++ v.elements start stop) data vs,
        metadatas ++ vs.map fun v => (v.dataType, v.shape)) := by
  induction vs generalizing done data metadatas with
  | nil =>
    obtain rfl := List.length_eq_zero_iff.1 hlen
    simp [extendOutputs]
  | cons v vs ih =>
    obtain ⟨d, ds, rfl⟩ := List.exists_cons_of_length_eq_add_one hlen
    have hget : (done ++ d :: ds)[done.length]? = some d := by simp
    have hset : (done ++ d :: ds).set done.length (d ++ v.elements start stop) =
        (done ++ [d ++ v.elements start stop]) ++ ds := by simp
    have hnext := ih (fun u hu => hcut u (List.mem_cons_of_mem v hu)) (done ++ [d ++ v.elements start stop])
      ds (Nat.succ.inj hlen) (metadatas ++ [(v.dataType, v.shape)])
    rw [List.length_append, List.length_singleton] at hnext
    rw [extendOutputs, hcut v List.mem_cons_self]
    simp only [Attempt.bind, hget]
    rw [hset, hnext]
    simp

/-- `get_result` of a batch that ran. -/
theorem getResult_ok {start stop : ℕ} {values : SessionValues} {data : List (List UInt8)}
    (hcut : ∀ v ∈ values, valueAsByteSlice v start stop = .ok (v.elements start stop))
    (hlen : data = [] ∨ data.length = values.length) :
    ∃ base : List (List UInt8), base.length = values.length ∧
      (∀ i : ℕ, base[i]?.getD [] = data[i]?.getD []) ∧
      getResult start stop (.ok values) data =
        .ok (List.zipWith (fun d v => d ++ v.elements start stop) base values,
          values.map fun v => (v.dataType, v.shape)) := by
  rcases hlen with rfl | hlen
  · refine ⟨values.map fun _ => [], List.length_map _, fun i => ?_, ?_⟩
    · rw [List.getElem?_map, List.getElem?_nil]
      cases values[i]? <;> rfl
    · exact extendOutputs_ok hcut [] _ (List.length_map _) []
  · refine ⟨data, hlen, fun _ => rfl, ?_⟩
    cases data with
    | nil =>
      obtain rfl := List.length_eq_zero_iff.1 hlen.symm
      rfl
    | cons d ds => exact extendOutputs_ok hcut [] (d :: ds) hlen []

/-- Shapes with a dimension 0, as many as there are outputs, can be added up. -/
theorem mergeMetadata_ok (batch : List Metadata) (i : ℕ) (acc : List Metadata)
    (hbatch : ∀ m ∈ batch, m.2 ≠ []) (hacc : ∀ m ∈ acc, m.2 ≠ []) (hlen : acc.length = i + batch.length) :
    ∃ acc', mergeMetadata batch i acc = .ok acc' ∧ acc'.length = acc.length ∧ ∀ m ∈ acc', m.2 ≠ [] := by
  induction batch generalizing i acc with
  | nil => exact ⟨acc, rfl, rfl, hacc⟩
  | cons m batch ih =>
    obtain ⟨t, shape⟩ := m
    have hi : i < acc.length := by
      rw [hlen, List.length_cons]
      omega
    obtain ⟨e, es, rfl⟩ := List.exists_cons_of_ne_nil (hbatch _ List.mem_cons_self)
    obtain ⟨d, dims, hd⟩ := List.exists_cons_of_ne_nil (hacc _ (List.getElem_mem hi))
    have hget : acc[i]? = some (acc[i].1, d :: dims) := by
      rw [List.getElem?_eq_getElem hi, ← hd]
    have hset : ∀ m ∈ acc.set i (acc[i].1, (d + e) :: dims), m.2 ≠ [] := by
      intro m hm
      rcases List.mem_or_eq_of_mem_set hm with hm | rfl
      · exact hacc m hm
      · exact List.cons_ne_nil _ _
    obtain ⟨acc', hok, hlen', hne⟩ := ih (i + 1) (acc.set i (acc[i].1, (d + e) :: dims))
      (fun m hm => hbatch m (List.mem_cons_of_mem _ hm)) hset (by
        rw [List.length_set, hlen, List.length_cons]
        omega)
    refine ⟨acc', ?_, by rw [hlen', List.length_set], hne⟩
    simp only [mergeMetadata, hget]
    exact hok

section Loop

variable {batchSize : ℕ} {outputs : List OutputLayout}

/-- Each value is described by its output. -/
theorem describes_of_mem {values : SessionValues} {v : DynTensor}
    (hall : List.Forall₂ (OutputLayout.Describes batchSize) outputs values) (hv : v ∈ values) :
    ∃ o : OutputLayout, o.Describes batchSize v := by
  obtain ⟨i, hi, rfl⟩ := List.getElem_of_mem hv
  exact ⟨_, hall.get (hall.length_eq ▸ hi) hi⟩

/-- Every batch that ran has as many outputs as the model, and shapes with a dimension 0. -/
theorem Delivery.Ran.getResult {d : Delivery} (hd : d.Ran batchSize outputs) {data : List (List UInt8)}
    (hlen : data = [] ∨ data.length = outputs.length) :
    ∃ data' metadatas, getResult d.start d.stop d.result data = .ok (data', metadatas) ∧
      data'.length = outputs.length ∧
      (∀ i < outputs.length, data'[i]? = some (data[i]?.getD [] ++ d.pick DynTensor.elements i)) ∧
      metadatas.length = outputs.length ∧ ∀ m ∈ metadatas, m.2 ≠ [] := by
  obtain ⟨values, hres, hall⟩ := hd.values
  have hcount := hall.length_eq
  have hcut : ∀ v ∈ values, valueAsByteSlice v d.start d.stop = .ok (v.elements d.start d.stop) := by
    intro v hv
    obtain ⟨o, ho⟩ := describes_of_mem hall hv
    exact ho.valueAsByteSlice hd.start_lt.le hd.stop_le
  obtain ⟨base, hbase, hget, hok⟩ := getResult_ok hcut (by rwa [← hcount])
  refine ⟨_, _, by rw [hres]; exact hok, ?_, fun i hi => ?_, by rw [List.length_map, hcount], ?_⟩
  · rw [List.length_zipWith, hbase, Nat.min_self, hcount]
  · have hi' : i < values.length := hcount ▸ hi
    have hb : i < base.length := hbase ▸ hi'
    rw [← hget]
    simp only [Delivery.pick, hres, List.getElem?_zipWith, List.getElem?_eq_getElem hb,
      List.getElem?_eq_getElem hi', Option.map_some, Option.getD_some]
  · intro m hm
    obtain ⟨v, hv, rfl⟩ := List.mem_map.1 hm
    obtain ⟨o, ho⟩ := describes_of_mem hall hv
    rw [ho.shape]
    exact List.cons_ne_nil _ _

/-- The loop of `get_data`, once it has read a reservation. -/
theorem getDataFrom_ok (ds : List Delivery) (hds : ∀ d ∈ ds, d.Ran batchSize outputs)
    (data : List (List UInt8)) (hlen : data.length = outputs.length) (acc : List Metadata)
    (hacc : acc.length = outputs.length) (hne : ∀ m ∈ acc, m.2 ≠ []) :
    ∃ data' metadatas, getDataFrom ds data (some acc) = .ok (data', metadatas) ∧
      ∀ i < outputs.length,
        data'[i]? = some (data[i]?.getD [] ++ ds.flatMap (Delivery.pick DynTensor.elements i)) := by
  induction ds generalizing data acc with
  | nil =>
    refine ⟨data, acc, rfl, fun i hi => ?_⟩
    rw [List.getElem?_eq_getElem (hlen ▸ hi)]
    simp
  | cons d ds ih =>
    obtain ⟨data₁, metadatas, hres, hlen₁, hget₁, hmlen, hmne⟩ :=
      (hds d List.mem_cons_self).getResult (.inr hlen)
    obtain ⟨acc₁, hmerge, hacc₁, hne₁⟩ := mergeMetadata_ok metadatas 0 acc hmne hne (by omega)
    obtain ⟨data', metadatas', hok, hget⟩ := ih (fun d' hd' => hds d' (List.mem_cons_of_mem d hd')) data₁
      hlen₁ acc₁ (hacc₁.trans hacc) hne₁
    refine ⟨data', metadatas', ?_, fun i hi => ?_⟩
    · rw [getDataFrom, getDataStep, hres]
      simp only [Attempt.bind, hmerge]
      exact hok
    · rw [hget i hi, hget₁ i hi, Option.getD_some, List.flatMap_cons, List.append_assoc]

/-- `get_data` returns no bytes when one of the batches failed. -/
theorem ok_of_getDataFrom {ds : List Delivery} {data data' : List (List UInt8)} {acc : Option (List Metadata)}
    {metadatas : List Metadata} (h : getDataFrom ds data acc = .ok (data', metadatas)) :
    ∀ d ∈ ds, ∃ values, d.result = .ok values := by
  induction ds generalizing data acc with
  | nil => exact fun d hd => absurd hd List.not_mem_nil
  | cons d ds ih =>
    obtain ⟨⟨data₁, acc₁⟩, hstep, hrest⟩ := Attempt.bind_eq_ok.1 h
    obtain ⟨got, hgot, -⟩ := Attempt.bind_eq_ok.1 hstep
    intro d' hd'
    rcases List.mem_cons.1 hd' with rfl | hd'
    · cases hres : d'.result with
      | ok values => exact ⟨values, rfl⟩
      | error e =>
        rw [hres] at hgot
        cases hgot
    · exact ih hrest d' hd'

/-- **What `get_data` returns**: for every output, the elements `start .. stop` of every
batch, in order. -/
theorem getData_ok {ds : List Delivery} (hne : ds ≠ []) (hds : ∀ d ∈ ds, d.Ran batchSize outputs) :
    ∃ data metadatas, getData ds = .ok (data, metadatas) ∧
      ∀ i < outputs.length, data[i]? = some (ds.flatMap (Delivery.pick DynTensor.elements i)) := by
  obtain ⟨d, ds, rfl⟩ := List.exists_cons_of_ne_nil hne
  obtain ⟨data₁, metadatas, hres, hlen₁, hget₁, hmlen, hmne⟩ :=
    (hds d List.mem_cons_self).getResult
      (show ([] : List (List UInt8)) = [] ∨ ([] : List (List UInt8)).length = outputs.length from .inl rfl)
  obtain ⟨data', metadatas', hok, hget⟩ := getDataFrom_ok ds (fun d' hd' =>
    hds d' (List.mem_cons_of_mem d hd')) data₁ hlen₁ metadatas hmlen hmne
  refine ⟨data', metadatas', ?_, fun i hi => ?_⟩
  · rw [getData, getDataFrom, getDataStep, hres]
    simp only [Attempt.bind]
    exact hok
  · rw [hget i hi, hget₁ i hi, Option.getD_some, List.flatMap_cons]
    rfl

end Loop

/-! ### The rows of the request -/

section Rows

variable {batchSize : ℕ} {outputs : List OutputLayout} {o : OutputLayout} {i : ℕ}

/-- The tensor of output `i` in the batch of a reservation. -/
theorem Delivery.Ran.output {d : Delivery} (hd : d.Ran batchSize outputs) (hi : outputs[i]? = some o) :
    ∃ v, o.Describes batchSize v ∧ ∀ cut, d.pick cut i = cut v d.start d.stop := by
  obtain ⟨values, hres, hall⟩ := hd.values
  obtain ⟨hlt, rfl⟩ := List.getElem?_eq_some_iff.1 hi
  have hlt' : i < values.length := hall.length_eq ▸ hlt
  refine ⟨values[i], hall.get hlt hlt', fun cut => ?_⟩
  simp only [Delivery.pick, hres, List.getElem?_eq_getElem hlt', Option.map_some, Option.getD_some]

/-- With one element a row, rows and elements are the same. -/
theorem DynTensor.rows_eq_elements {v : DynTensor} (h : v.rowElements = 1) (start stop : ℕ) :
    v.rows start stop = v.elements start stop := by
  rw [rows, h, Nat.mul_one, Nat.mul_one]

/-- The bytes of the elements and of the rows of a reservation, in number: the same only where
a row is one element. -/
theorem Delivery.Ran.length_pick {d : Delivery} (hd : d.Ran batchSize outputs) (hi : outputs[i]? = some o) :
    ∃ n, 0 < n ∧ (d.pick DynTensor.elements i).length = n ∧
      (d.pick DynTensor.rows i).length = numElements o.dims * n := by
  obtain ⟨v, hv, hpick⟩ := hd.output hi
  have hlt := hd.start_lt
  refine ⟨(d.stop - d.start) * v.width, Nat.mul_pos (by omega) hv.width_pos, ?_, ?_⟩
  · rw [hpick, hv.length_elements hlt.le hd.stop_le]
  · rw [hpick, hv.length_rows hlt.le hd.stop_le, hv.rowElements, Nat.mul_left_comm]

/-- Cut by elements, an output is shorter by the elements of a row. -/
theorem length_flatMap_pick (ds : List Delivery) (hds : ∀ d ∈ ds, d.Ran batchSize outputs)
    (hi : outputs[i]? = some o) :
    (ds.flatMap (Delivery.pick DynTensor.rows i)).length =
      numElements o.dims * (ds.flatMap (Delivery.pick DynTensor.elements i)).length := by
  induction ds with
  | nil => rfl
  | cons d ds ih =>
    obtain ⟨n, -, hel, hrow⟩ := (hds d List.mem_cons_self).length_pick hi
    rw [List.flatMap_cons, List.flatMap_cons, List.length_append, List.length_append,
      ih fun d' hd' => hds d' (List.mem_cons_of_mem d hd'), hel, hrow, Nat.mul_add]

/-- The complete rows of a request, in bytes. -/
theorem length_rows_of_request (ds : List Delivery) (hds : ∀ d ∈ ds, d.Ran batchSize outputs)
    (hi : outputs[i]? = some o) : (ds.flatMap (Delivery.pick DynTensor.rows i)).length =
      (ds.map fun d => d.stop - d.start).sum * o.rowBytes := by
  induction ds with
  | nil => exact (Nat.zero_mul _).symm
  | cons d ds ih =>
    have hd := hds d List.mem_cons_self
    obtain ⟨v, hv, hpick⟩ := hd.output hi
    rw [List.flatMap_cons, List.length_append, ih fun d' hd' => hds d' (List.mem_cons_of_mem d hd'), hpick,
      hv.length_rows hd.start_lt.le hd.stop_le, hv.rowBytes, List.map_cons, List.sum_cons, Nat.add_mul]

/-- **A client gets its rows exactly where a row is one element.**  For every request split
into reservations of batches that ran, and every output: the bytes that `get_data` returns
for it are the complete rows of the reservations, in order, as many as the request has, if and
only if the output has one element a row. -/
theorem scatter_correct_iff_one_element_rows {ds : List Delivery} (hne : ds ≠ [])
    (hds : ∀ d ∈ ds, d.Ran batchSize outputs) (hi : outputs[i]? = some o) :
    (∃ data metadatas, getData ds = .ok (data, metadatas) ∧
      data[i]? = some (ds.flatMap (Delivery.pick DynTensor.rows i)) ∧
      (ds.flatMap (Delivery.pick DynTensor.rows i)).length =
        (ds.map fun d => d.stop - d.start).sum * o.rowBytes) ↔ numElements o.dims = 1 := by
  obtain ⟨data, metadatas, hok, hget⟩ := getData_ok hne hds
  have hlt : i < outputs.length := (List.getElem?_eq_some_iff.1 hi).1
  constructor
  · rintro ⟨data', metadatas', hok', hget', -⟩
    obtain ⟨rfl, rfl⟩ := Prod.mk.inj (Attempt.ok.inj (hok.symm.trans hok'))
    have heq := Option.some.inj ((hget i hlt).symm.trans hget')
    have hlen := length_flatMap_pick ds hds hi
    rw [← heq] at hlen
    obtain ⟨d, ds', rfl⟩ := List.exists_cons_of_ne_nil hne
    obtain ⟨n, hn, hel, -⟩ := (hds d List.mem_cons_self).length_pick hi
    have hpos : 0 < ((d :: ds').flatMap (Delivery.pick DynTensor.elements i)).length := by
      rw [List.flatMap_cons, List.length_append, hel]
      exact Nat.add_pos_left hn _
    exact Nat.eq_of_mul_eq_mul_right hpos (hlen.symm.trans (Nat.one_mul _).symm)
  · intro hone
    refine ⟨data, metadatas, hok, (hget i hlt).trans (congrArg some ?_), length_rows_of_request ds hds hi⟩
    refine List.flatMap_congr fun d hd => ?_
    obtain ⟨v, hv, hpick⟩ := (hds d hd).output hi
    rw [hpick, hpick, DynTensor.rows_eq_elements (hv.rowElements.trans hone)]

/-- The first row of a `[2, 1]` output of bytes. -/
theorem scatter_correct_iff_one_element_rows_bytes :
    ∃ data metadatas, getData [⟨0, 1, .ok [⟨.uint8, [2, 1], [7, 8], by decide⟩]⟩] =
      .ok (data, metadatas) ∧ data[0]? = some [7] := by
  have hran : ∀ d ∈ [(⟨0, 1, .ok [⟨.uint8, [2, 1], [7, 8], by decide⟩]⟩ : Delivery)],
      d.Ran 2 [⟨.uint8, [1], rfl, by decide⟩] := by
    intro d hd
    obtain rfl := List.mem_singleton.1 hd
    exact ⟨by decide, by decide, _, rfl, List.Forall₂.cons ⟨rfl, rfl⟩ List.Forall₂.nil⟩
  obtain ⟨data, metadatas, hok, hget, -⟩ :=
    (scatter_correct_iff_one_element_rows (List.cons_ne_nil _ _) hran (i := 0) rfl).2 (by decide)
  exact ⟨data, metadatas, hok, hget⟩

/-- The client of the first row of a `[2, 2]` output of `f32` gets four of its eight bytes. -/
theorem scatter_can_cut_rows :
    ¬ ∀ (batchSize : ℕ) (outputs : List OutputLayout) (o : OutputLayout) (i : ℕ) (ds : List Delivery),
      ds ≠ [] → (∀ d ∈ ds, d.Ran batchSize outputs) → outputs[i]? = some o →
        ∃ data metadatas, getData ds = .ok (data, metadatas) ∧
          data[i]? = some (ds.flatMap (Delivery.pick DynTensor.rows i)) := by
  intro hall
  let v : DynTensor := ⟨.float32, [2, 2], List.replicate 16 1, by simp [TensorElementType.readWidth, numElements]⟩
  let d : Delivery := ⟨0, 1, .ok [v]⟩
  have hran : ∀ d' ∈ [d], d'.Ran 2 [⟨.float32, [2], rfl, by decide⟩] := by
    intro d' hd
    obtain rfl := List.mem_singleton.1 hd
    exact ⟨by decide, by decide, _, rfl, List.Forall₂.cons ⟨rfl, rfl⟩ List.Forall₂.nil⟩
  obtain ⟨data, metadatas, hok, hget⟩ := hall 2 _ _ 0 [d] (List.cons_ne_nil _ _) hran rfl
  have hcut : getData [d] = .ok ([[1, 1, 1, 1]], [(.float32, [2, 2])]) := rfl
  obtain ⟨rfl, -⟩ := Prod.mk.inj (Attempt.ok.inj (hcut.symm.trans hok))
  exact absurd (congrArg (Option.map List.length) hget) (by decide)

end Rows

end Toutates
