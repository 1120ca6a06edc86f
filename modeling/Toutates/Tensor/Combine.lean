/-
# How the batches of a request are put together

`get_data` walks over the reservations of a request and stops at the first one that fails
(`Delivery.failure`): because its batch failed, or because an output has a type that cannot be
read.  What it has appended by then is lost with it, and what comes behind is never looked at.

Two things stop it otherwise: an output with fewer elements than the reservation has slots
(`Delivery.Fits`), and, when the metadata of several batches are added up, an output without a
dimension 0 (`Delivery.Ranked`); in both cases the code panics.  It returns, with everything or
with the first failure, exactly when neither is the case in what it comes to
(`get_data_combines`).
-/

import Mathlib.Data.List.TakeWhile
import Toutates.Tensor.Scatter

namespace Toutates

/-- `value_as_byte_slice` has an arm for the type of a tensor. -/
def DynTensor.readable (v : DynTensor) : Bool := v.dataType.readWidth.isSome

namespace Delivery

/-- Why a reservation fails, when the outputs of the model have these types. -/
def failure (types : List TensorElementType) (d : Delivery) : Option InferError :=
  match d.result with
  | .error e => some e
  | .ok _ => if types.all (·.readWidth.isSome) then none else some .unsupportedDataType

/-- The outputs of the batch, up to the first of a type that cannot be read, have the elements that
the reservation cuts out. -/
def Fits (d : Delivery) : Prop :=
  ∀ values, d.result = .ok values →
    ∀ v ∈ values.takeWhile DynTensor.readable, d.stop ≤ numElements v.shape

/-- The outputs of the batch have a dimension 0. -/
def Ranked (d : Delivery) : Prop := ∀ values, d.result = .ok values → ∀ v ∈ values, v.shape ≠ []

/-- The slots of a reservation are in order, and its batch has outputs of these types if it ran. -/
structure Typed (types : List TensorElementType) (d : Delivery) : Prop where
  start_le : d.start ≤ d.stop
  types : ∀ values, d.result = .ok values → values.map DynTensor.dataType = types

/-- The reservations before the first that fails. -/
def served (types : List TensorElementType) : List Delivery → List Delivery
  | [] => []
  | d :: ds => if (d.failure types).isNone then d :: served types ds else []

/-- The reservations that `get_data` comes to: those before the first that fails, and that one. -/
def reached (types : List TensorElementType) : List Delivery → List Delivery
  | [] => []
  | d :: ds => if (d.failure types).isNone then d :: reached types ds else [d]

section Reached

variable {types : List TensorElementType} {d : Delivery} {ds : List Delivery} {e : InferError}

/-- A delivery that does not fail is served. -/
@[simp] theorem served_cons_of_none (h : d.failure types = none) :
    served types (d :: ds) = d :: served types ds := by
  simp [served, h]

/-- What is behind it is reached. -/
@[simp] theorem reached_cons_of_none (h : d.failure types = none) :
    reached types (d :: ds) = d :: reached types ds := by
  simp [reached, h]

/-- A delivery that fails is not served. -/
@[simp] theorem served_cons_of_some (h : d.failure types = some e) : served types (d :: ds) = [] := by
  simp [served, h]

/-- What is behind it is not reached. -/
@[simp] theorem reached_cons_of_some (h : d.failure types = some e) : reached types (d :: ds) = [d] := by
  simp [reached, h]

/-- The first delivery is always reached. -/
theorem mem_reached_cons : d ∈ reached types (d :: ds) := by
  rw [reached]
  split_ifs <;> exact List.mem_cons_self

/-- Where nothing fails, every reservation is reached and served. -/
theorem reached_eq_self (h : ∀ d ∈ ds, d.failure types = none) : reached types ds = ds ∧ served types ds = ds := by
  induction ds with
  | nil => exact ⟨rfl, rfl⟩
  | cons d ds ih =>
    obtain ⟨hd, hrest⟩ := List.forall_mem_cons.1 h
    obtain ⟨hreached, hserved⟩ := ih hrest
    rw [reached_cons_of_none hd, served_cons_of_none hd, hreached, hserved]
    exact ⟨rfl, rfl⟩

end Reached

end Delivery

open Delivery (served reached)

/-! ### One reservation -/

/-- A value is cut if its type can be read and the rows are within its elements. -/
theorem valueAsByteSlice_eq_ok_iff {v : DynTensor} {start stop : ℕ} {b : List UInt8} :
    valueAsByteSlice v start stop = .ok b ↔ v.dataType.readWidth.isSome = true ∧ start ≤ stop ∧
      stop ≤ numElements v.shape ∧ b = v.elements start stop := by
  rw [valueAsByteSlice, DynTensor.elements, DynTensor.width]
  cases hwidth : v.dataType.readWidth with
  | none => simp
  | some w =>
    simp only [asByteSlice]
    split_ifs with hrange
    · simp [hrange, eq_comm]
    · simp only [false_iff]
      rintro ⟨-, hle, hstop, -⟩
      exact hrange ⟨hle, hstop⟩

/-- A value is refused if its type cannot be read. -/
theorem valueAsByteSlice_eq_err_iff {v : DynTensor} {start stop : ℕ} {e : InferError} :
    valueAsByteSlice v start stop = .err e ↔ v.dataType.readWidth = none ∧ e = .unsupportedDataType := by
  rw [valueAsByteSlice]
  cases hwidth : v.dataType.readWidth with
  | none => simp [eq_comm]
  | some w =>
    simp only [asByteSlice]
    split_ifs <;> simp

/-- The loop of `get_result` returns only when every output could be cut. -/
theorem of_extendOutputs_ok {start stop : ℕ} {vs : SessionValues} {i : ℕ} {data : List (List UInt8)}
    {metadatas : List Metadata} {r : List (List UInt8) × List Metadata}
    (h : extendOutputs start stop vs i data metadatas = .ok r) :
    ∀ v ∈ vs, valueAsByteSlice v start stop = .ok (v.elements start stop) := by
  induction vs generalizing i data metadatas with
  | nil => exact fun _ hv => by cases hv
  | cons v vs ih =>
    obtain ⟨b, hb, h⟩ := Attempt.bind_eq_ok.1 h
    obtain rfl := (valueAsByteSlice_eq_ok_iff.1 hb).2.2.2
    refine List.forall_mem_cons.2 ⟨hb, ?_⟩
    cases hd : data[i]? with
    | none => simp [hd] at h
    | some d =>
      simp only [hd] at h
      exact ih h

section Extend

variable {start stop i : ℕ} {vs : SessionValues} {data : List (List UInt8)} {metadatas : List Metadata}

/-- The loop of `get_result` stops at the first output that cannot be read, unless one before it is too
short. -/
theorem extendOutputs_err (hle : start ≤ stop)
    (hfits : ∀ v ∈ vs.takeWhile DynTensor.readable, stop ≤ numElements v.shape)
    (hbad : ∃ v ∈ vs, v.dataType.readWidth = none) (hlen : data.length = i + vs.length) (metadatas : List Metadata) :
    extendOutputs start stop vs i data metadatas = .err .unsupportedDataType := by
  induction vs generalizing i data metadatas with
  | nil =>
    obtain ⟨v, hv, -⟩ := hbad
    cases hv
  | cons v vs ih =>
    rw [extendOutputs]
    cases hwidth : v.dataType.readWidth with
    | none =>
      rw [valueAsByteSlice_eq_err_iff.2 ⟨hwidth, rfl⟩]
      rfl
    | some w =>
      have hread : v.readable = true := by
        rw [DynTensor.readable, hwidth]
        rfl
      rw [List.takeWhile_cons_of_pos hread, List.forall_mem_cons] at hfits
      have hcut : valueAsByteSlice v start stop = .ok (v.elements start stop) :=
        valueAsByteSlice_eq_ok_iff.2 ⟨hread, hle, hfits.1, rfl⟩
      have hi : i < data.length := by
        rw [hlen, List.length_cons]
        omega
      obtain ⟨u, hu, hnone⟩ := hbad
      have hrest : ∃ u ∈ vs, u.dataType.readWidth = none := by
        rcases List.mem_cons.1 hu with rfl | hu
        · rw [hwidth] at hnone
          cases hnone
        · exact ⟨u, hu, hnone⟩
      rw [hcut]
      simp only [Attempt.bind, List.getElem?_eq_getElem hi]
      refine ih hfits.2 hrest ?_ _
      rw [List.length_set, hlen, List.length_cons]
      omega

/-- An error of the loop of `get_result` is that of an output that cannot be read, and the outputs
before it are long enough. -/
theorem of_extendOutputs_err {e : InferError} (h : extendOutputs start stop vs i data metadatas = .err e) :
    e = .unsupportedDataType ∧ (∃ v ∈ vs, v.dataType.readWidth = none) ∧
      ∀ v ∈ vs.takeWhile DynTensor.readable, stop ≤ numElements v.shape := by
  induction vs generalizing i data metadatas with
  | nil => cases h
  | cons v vs ih =>
    rcases Attempt.bind_eq_err.1 h with herr | ⟨b, hb, h⟩
    · obtain ⟨hwidth, rfl⟩ := valueAsByteSlice_eq_err_iff.1 herr
      refine ⟨rfl, ⟨v, List.mem_cons_self, hwidth⟩, ?_⟩
      rw [List.takeWhile_cons_of_neg (by rw [DynTensor.readable, hwidth]; decide)]
      exact fun u hu => absurd hu List.not_mem_nil
    · obtain ⟨hread, -, hstop, -⟩ := valueAsByteSlice_eq_ok_iff.1 hb
      split at h
      · cases h
      · obtain ⟨rfl, ⟨u, hu, hnone⟩, hfits⟩ := ih h
        refine ⟨rfl, ⟨u, List.mem_cons_of_mem _ hu, hnone⟩, ?_⟩
        rw [List.takeWhile_cons_of_pos (p := DynTensor.readable) hread]
        exact List.forall_mem_cons.2 ⟨hstop, hfits⟩

end Extend

section Step

variable {types : List TensorElementType} {d : Delivery} {data : List (List UInt8)}

/-- A reservation that returns does not fail, its outputs are long enough, and it has appended to
every buffer the bytes of one output. -/
theorem of_getResult_ok (hd : d.Typed types) (hlen : data = [] ∨ data.length = types.length)
    {data' : List (List UInt8)} {metadatas : List Metadata}
    (h : getResult d.start d.stop d.result data = .ok (data', metadatas)) :
    d.failure types = none ∧ d.Fits ∧ ∃ values, d.result = .ok values ∧
      metadatas = values.map (fun v => (v.dataType, v.shape)) ∧ data'.length = types.length ∧
      ∀ i < types.length, data'[i]? = some (data[i]?.getD [] ++ d.pick DynTensor.elements i) := by
  cases hres : d.result with
  | error e =>
    rw [hres] at h
    cases h
  | ok values =>
    have htypes := hd.types values hres
    have hcount : values.length = types.length := by rw [← htypes, List.length_map]
    rw [hres] at h
    have hcut := of_extendOutputs_ok h
    obtain ⟨base, hbase, hget, hok⟩ := getResult_ok hcut (by rwa [hcount])
    obtain ⟨rfl, rfl⟩ := Prod.mk.inj (Attempt.ok.inj (hok.symm.trans h))
    refine ⟨?_, fun values' hres' v hv => ?_, values, rfl, rfl, ?_, fun i hi => ?_⟩
    · have hall : types.all (·.readWidth.isSome) = true := by
        rw [← htypes, List.all_map, List.all_eq_true]
        exact fun v hv => (valueAsByteSlice_eq_ok_iff.1 (hcut v hv)).1
      rw [Delivery.failure, hres]
      simp only [hall, if_true]
    · obtain rfl := Except.ok.inj (hres.symm.trans hres')
      exact (valueAsByteSlice_eq_ok_iff.1 (hcut v (List.takeWhile_subset _ hv))).2.2.1
    · rw [List.length_zipWith, hbase, Nat.min_self, hcount]
    · have hi' : i < values.length := hcount ▸ hi
      have hb : i < base.length := hbase ▸ hi'
      rw [← hget]
      simp only [Delivery.pick, hres, List.getElem?_zipWith, List.getElem?_eq_getElem hb,
        List.getElem?_eq_getElem hi', Option.map_some, Option.getD_some]

/-- A reservation whose outputs are long enough returns or fails with its failure. -/
theorem getResult_returns (hd : d.Typed types) (hfits : d.Fits) (hlen : data = [] ∨ data.length = types.length) :
    (d.failure types = none ∧ ∃ r, getResult d.start d.stop d.result data = .ok r) ∨
      ∃ e, d.failure types = some e ∧ getResult d.start d.stop d.result data = .err e := by
  cases hres : d.result with
  | error e => exact .inr ⟨e, by rw [Delivery.failure, hres], rfl⟩
  | ok values =>
    have htypes := hd.types values hres
    have hcount : values.length = types.length := by rw [← htypes, List.length_map]
    by_cases hall : types.all (·.readWidth.isSome) = true
    · have hread : ∀ v ∈ values, v.readable = true := by
        rw [← htypes, List.all_map] at hall
        exact List.all_eq_true.1 hall
      have hcut : ∀ v ∈ values, valueAsByteSlice v d.start d.stop = .ok (v.elements d.start d.stop) := by
        intro v hv
        refine valueAsByteSlice_eq_ok_iff.2 ⟨hread v hv, hd.start_le, hfits values hres v ?_, rfl⟩
        rwa [List.takeWhile_eq_self_iff.2 hread]
      obtain ⟨base, -, -, hok⟩ := getResult_ok hcut (by rwa [hcount])
      exact .inl ⟨by simp [Delivery.failure, hres, hall], _, hok⟩
    · have hbad : ∃ v ∈ values, v.dataType.readWidth = none := by
        rw [← htypes] at hall
        simpa using hall
      have hbase : (if data.isEmpty then values.map (fun _ => []) else data).length = 0 + values.length := by
        rw [Nat.zero_add]
        split_ifs with hempty
        · rw [List.length_map]
        · rw [hcount]
          exact hlen.resolve_left (by simpa using hempty)
      exact .inr ⟨.unsupportedDataType, by simp [Delivery.failure, hres, hall],
        extendOutputs_err hd.start_le (hfits values hres) hbad hbase []⟩

/-- A reservation that returns an error fails with it, and its outputs are long enough up to there. -/
theorem of_getResult_err (hd : d.Typed types) {e : InferError}
    (h : getResult d.start d.stop d.result data = .err e) : d.failure types = some e ∧ d.Fits := by
  cases hres : d.result with
  | error e' =>
    rw [hres] at h
    obtain rfl := Attempt.err.inj h
    exact ⟨by rw [Delivery.failure, hres], fun values hvalues => by rw [hres] at hvalues; cases hvalues⟩
  | ok values =>
    rw [hres] at h
    obtain ⟨rfl, hbad, hfits⟩ := of_extendOutputs_err h
    refine ⟨?_, fun values' hvalues => ?_⟩
    · have hall : ¬ types.all (·.readWidth.isSome) = true := by
        rw [← hd.types values hres]
        simpa using hbad
      rw [Delivery.failure, hres]
      exact if_neg hall
    · obtain rfl := Except.ok.inj (hres.symm.trans hvalues)
      exact hfits

end Step

/-! ### All reservations -/

/-- Merging keeps the types, and needs a first dimension on both sides. -/
theorem of_mergeMetadata_ok {batch acc acc' : List Metadata} {i : ℕ} (h : mergeMetadata batch i acc = .ok acc') :
    acc'.map Prod.fst = acc.map Prod.fst ∧ (∀ m ∈ batch, m.2 ≠ []) ∧
      ∀ j, i ≤ j → j < i + batch.length → ∀ m, acc[j]? = some m → m.2 ≠ [] := by
  induction batch generalizing i acc with
  | nil =>
    obtain rfl := Attempt.ok.inj h
    exact ⟨rfl, by simp, fun j h₁ h₂ => absurd h₂ (by simpa using h₁)⟩
  | cons m batch ih =>
    obtain ⟨t, shape⟩ := m
    unfold mergeMetadata at h
    split at h
    · rename_i t' d dims e es hget
      obtain ⟨htypes, hbatch, hacc⟩ := ih h
      obtain ⟨hi, hval⟩ := List.getElem?_eq_some_iff.1 hget
      refine ⟨?_, List.forall_mem_cons.2 ⟨List.cons_ne_nil _ _, hbatch⟩, fun j h₁ h₂ m hm => ?_⟩
      · have hi' : i < (acc.map Prod.fst).length := by rwa [List.length_map]
        have ht : (acc.map Prod.fst)[i] = t' := by rw [List.getElem_map, hval]
        rw [htypes, List.map_set, ← ht, List.set_getElem_self]
      · rcases Nat.eq_or_lt_of_le h₁ with rfl | hlt
        · obtain rfl := Option.some.inj (hget.symm.trans hm)
          exact List.cons_ne_nil _ _
        · refine hacc j hlt (by rw [List.length_cons] at h₂; omega) m ?_
          rwa [List.getElem?_set_ne (by omega)]
    · cases h

/-- The merge returns or panics. -/
theorem mergeMetadata_ne_err (batch : List Metadata) (i : ℕ) (acc : List Metadata) {e : InferError} :
    mergeMetadata batch i acc ≠ .err e := by
  induction batch generalizing i acc with
  | nil => exact fun h => by cases h
  | cons m batch ih =>
    obtain ⟨t, shape⟩ := m
    unfold mergeMetadata
    split
    · exact ih _ _
    · exact fun h => by cases h

section Metadatas

variable {types : List TensorElementType} {d : Delivery} {values : SessionValues}

/-- The element types that a batch reports. -/
theorem Delivery.Typed.map_fst (hd : d.Typed types) (hvalues : d.result = .ok values) :
    (values.map fun v => (v.dataType, v.shape)).map Prod.fst = types := by
  rw [List.map_map]
  exact hd.types values hvalues

/-- A batch whose metadata have a dimension 0. -/
theorem Delivery.ranked_of_metadata (hvalues : d.result = .ok values)
    (h : ∀ m ∈ values.map (fun v => (v.dataType, v.shape)), m.2 ≠ []) : d.Ranked := by
  intro values' hvalues' v hv
  obtain rfl := Except.ok.inj (hvalues.symm.trans hvalues')
  exact h (v.dataType, v.shape) (List.mem_map.2 ⟨v, hv, rfl⟩)

/-- What a merge that returns tells of the batch and of the metadata so far. -/
theorem ranked_of_merge {acc acc' : List Metadata} (hd : d.Typed types) (hvalues : d.result = .ok values)
    (hacc : acc.map Prod.fst = types)
    (hmerge : mergeMetadata (values.map fun v => (v.dataType, v.shape)) 0 acc = .ok acc') :
    acc'.map Prod.fst = types ∧ d.Ranked ∧ ∀ m ∈ acc, m.2 ≠ [] := by
  obtain ⟨htypes, hbatch, hold⟩ := of_mergeMetadata_ok hmerge
  have hcount : (values.map fun v => (v.dataType, v.shape)).length = acc.length := by
    rw [← List.length_map (f := Prod.fst), hd.map_fst hvalues, ← hacc, List.length_map]
  refine ⟨htypes.trans hacc, Delivery.ranked_of_metadata hvalues hbatch, fun m hm => ?_⟩
  obtain ⟨j, hj, rfl⟩ := List.getElem_of_mem hm
  exact hold j (Nat.zero_le j) (by rwa [Nat.zero_add, hcount]) _ (List.getElem?_eq_getElem hj)

end Metadatas

section Loop

variable {types : List TensorElementType} {data data' : List (List UInt8)} {acc : List Metadata}

/-- **What a loop that returns has done**: no reservation failed, all outputs were long enough and,
from the second reservation on, had a dimension 0; the bytes are in the order of the reservations. -/
theorem of_getDataFrom_ok (ds : List Delivery) (hds : ∀ d ∈ ds, d.Typed types) (hlen : data.length = types.length)
    (hacc : acc.map Prod.fst = types) {metadatas : List Metadata}
    (h : getDataFrom ds data (some acc) = .ok (data', metadatas)) :
    (∀ d ∈ ds, d.failure types = none ∧ d.Fits ∧ d.Ranked) ∧ (ds ≠ [] → ∀ m ∈ acc, m.2 ≠ []) ∧
      data'.length = types.length ∧ metadatas.map Prod.fst = types ∧
      ∀ i < types.length, data'[i]? = some (data[i]?.getD [] ++ ds.flatMap (Delivery.pick DynTensor.elements i)) := by
  induction ds generalizing data acc with
  | nil =>
    obtain ⟨rfl, rfl⟩ := Prod.mk.inj (Attempt.ok.inj h)
    refine ⟨by simp, fun hne => absurd rfl hne, hlen, hacc, fun i hi => ?_⟩
    rw [List.getElem?_eq_getElem (hlen ▸ hi)]
    simp
  | cons d ds ih =>
    obtain ⟨hd, hrest⟩ := List.forall_mem_cons.1 hds
    obtain ⟨⟨data₁, acc₁⟩, hstep, h⟩ := Attempt.bind_eq_ok.1 h
    obtain ⟨⟨data₂, batch⟩, hres, hmerged⟩ := Attempt.bind_eq_ok.1 hstep
    obtain ⟨acc₂, hmerge, heq⟩ := Attempt.bind_eq_ok.1 hmerged
    obtain ⟨rfl, rfl⟩ := Prod.mk.inj (Attempt.ok.inj heq)
    obtain ⟨hfail, hfits, values, hvalues, rfl, hlen₁, hget₁⟩ := of_getResult_ok hd (.inr hlen) hres
    obtain ⟨htypes, hrank, hranked⟩ := ranked_of_merge hd hvalues hacc hmerge
    obtain ⟨hall, -, hlen', hmetadatas, hget⟩ := ih hrest hlen₁ htypes h
    refine ⟨List.forall_mem_cons.2 ⟨⟨hfail, hfits, hrank⟩, hall⟩, fun _ => hranked, hlen', hmetadatas, fun i hi => ?_⟩
    rw [hget i hi, hget₁ i hi, Option.getD_some, List.flatMap_cons, List.append_assoc]

/-- **A loop that does not panic** returns, or fails as the first reservation that does. -/
theorem getDataFrom_returns (ds : List Delivery) (hds : ∀ d ∈ ds, d.Typed types)
    (hfits : ∀ d ∈ reached types ds, d.Fits) (hranked : ∀ d ∈ served types ds, d.Ranked)
    (hlen : data.length = types.length) (hacc : acc.map Prod.fst = types)
    (haccRanked : served types ds ≠ [] → ∀ m ∈ acc, m.2 ≠ []) :
    (ds.findSome? (Delivery.failure types) = none ∧ ∃ r, getDataFrom ds data (some acc) = .ok r) ∨
      ∃ e, ds.findSome? (Delivery.failure types) = some e ∧ getDataFrom ds data (some acc) = .err e := by
  induction ds generalizing data acc with
  | nil => exact .inl ⟨rfl, _, rfl⟩
  | cons d ds ih =>
    obtain ⟨hd, hrest⟩ := List.forall_mem_cons.1 hds
    have hfit : d.Fits := hfits d Delivery.mem_reached_cons
    rw [List.findSome?_cons, getDataFrom, getDataStep]
    rcases getResult_returns hd hfit (.inr hlen) with ⟨hnone, ⟨data₁, batch⟩, hres⟩ | ⟨e, hfail, hres⟩
    · obtain ⟨-, -, values, hvalues, rfl, hlen₁, -⟩ := of_getResult_ok hd (.inr hlen) hres
      rw [Delivery.reached_cons_of_none hnone, List.forall_mem_cons] at hfits
      rw [Delivery.served_cons_of_none hnone] at hranked haccRanked
      obtain ⟨hrank, hranks⟩ := List.forall_mem_cons.1 hranked
      have hbatch : ∀ m ∈ values.map (fun v => (v.dataType, v.shape)), m.2 ≠ [] := by
        intro m hm
        obtain ⟨v, hv, rfl⟩ := List.mem_map.1 hm
        exact hrank values hvalues v hv
      have hcount : acc.length = 0 + (values.map fun v => (v.dataType, v.shape)).length := by
        rw [Nat.zero_add, List.length_map, ← List.length_map (f := DynTensor.dataType), hd.types values hvalues,
          ← hacc, List.length_map]
      obtain ⟨acc', hmerge, -, hranked'⟩ :=
        mergeMetadata_ok _ 0 acc hbatch (haccRanked (List.cons_ne_nil _ _)) hcount
      rw [hnone, hres]
      simp only [Attempt.bind, hmerge]
      exact ih hrest hfits.2 hranks hlen₁ ((of_mergeMetadata_ok hmerge).1.trans hacc) fun _ => hranked'
    · rw [hfail, hres]
      exact .inr ⟨e, rfl, rfl⟩

/-- **What a loop that fails has done**: its error is the first failure, and up to there all outputs
were long enough and had a dimension 0. -/
theorem of_getDataFrom_err (ds : List Delivery) (hds : ∀ d ∈ ds, d.Typed types) (hlen : data.length = types.length)
    (hacc : acc.map Prod.fst = types) {e : InferError} (h : getDataFrom ds data (some acc) = .err e) :
    ds.findSome? (Delivery.failure types) = some e ∧ (∀ d ∈ reached types ds, d.Fits) ∧
      (∀ d ∈ served types ds, d.Ranked) ∧ (served types ds ≠ [] → ∀ m ∈ acc, m.2 ≠ []) := by
  induction ds generalizing data acc with
  | nil => cases h
  | cons d ds ih =>
    obtain ⟨hd, hrest⟩ := List.forall_mem_cons.1 hds
    rw [List.findSome?_cons]
    rcases Attempt.bind_eq_err.1 h with hstep | ⟨⟨data₁, acc₁⟩, hstep, h⟩
    · rcases Attempt.bind_eq_err.1 hstep with hres | ⟨⟨data₁, batch⟩, -, hmerged⟩
      · obtain ⟨hfail, hfits⟩ := of_getResult_err hd hres
        rw [hfail, Delivery.reached_cons_of_some hfail, Delivery.served_cons_of_some hfail]
        exact ⟨rfl, List.forall_mem_singleton.2 hfits, by simp, fun hne => absurd rfl hne⟩
      · rcases Attempt.bind_eq_err.1 hmerged with hmerge | ⟨_, -, hok⟩
        · exact absurd hmerge (mergeMetadata_ne_err _ _ _)
        · cases hok
    · obtain ⟨⟨data₂, batch⟩, hres, hmerged⟩ := Attempt.bind_eq_ok.1 hstep
      obtain ⟨acc₂, hmerge, heq⟩ := Attempt.bind_eq_ok.1 hmerged
      obtain ⟨rfl, rfl⟩ := Prod.mk.inj (Attempt.ok.inj heq)
      obtain ⟨hnone, hfit, values, hvalues, rfl, hlen₁, -⟩ := of_getResult_ok hd (.inr hlen) hres
      obtain ⟨htypes, hrank, hranked⟩ := ranked_of_merge hd hvalues hacc hmerge
      obtain ⟨hfirst, hfits, hranks, -⟩ := ih hrest hlen₁ htypes h
      rw [hnone, Delivery.reached_cons_of_none hnone, Delivery.served_cons_of_none hnone]
      exact ⟨hfirst, List.forall_mem_cons.2 ⟨hfit, hfits⟩, List.forall_mem_cons.2 ⟨hrank, hranks⟩, fun _ => hranked⟩

end Loop

/-- The outputs of the batches have everything that `get_data` cuts out or adds up on its way to the
first failure. -/
structure Cuttable (types : List TensorElementType) (ds : List Delivery) : Prop where
  fits : ∀ d ∈ reached types ds, d.Fits
  ranked : 2 ≤ (served types ds).length → ∀ d ∈ served types ds, d.Ranked

section Response

variable {types : List TensorElementType} {ds : List Delivery}

/-- What a response that is returned is made of. -/
theorem of_getData_ok (hne : ds ≠ []) (hds : ∀ d ∈ ds, d.Typed types) {data : List (List UInt8)}
    {metadatas : List Metadata} (h : getData ds = .ok (data, metadatas)) :
    (∀ d ∈ ds, d.failure types = none) ∧ Cuttable types ds ∧ data.length = types.length ∧
      metadatas.map Prod.fst = types ∧
      ∀ i < types.length, data[i]? = some (ds.flatMap (Delivery.pick DynTensor.elements i)) := by
  obtain ⟨d, ds, rfl⟩ := List.exists_cons_of_ne_nil hne
  obtain ⟨hd, hrest⟩ := List.forall_mem_cons.1 hds
  obtain ⟨⟨data₁, acc⟩, hstep, h⟩ := Attempt.bind_eq_ok.1 h
  obtain ⟨⟨data₂, batch⟩, hres, heq⟩ := Attempt.bind_eq_ok.1 hstep
  obtain ⟨rfl, rfl⟩ := Prod.mk.inj (Attempt.ok.inj heq)
  obtain ⟨hfail, hfits, values, hvalues, rfl, hlen, hget⟩ := of_getResult_ok hd (.inl rfl) hres
  have htypes := hd.map_fst hvalues
  obtain ⟨hall, hranked, hlen', hmetadatas, hget'⟩ := of_getDataFrom_ok ds hrest hlen htypes h
  have hfailures : ∀ x ∈ d :: ds, x.failure types = none :=
    List.forall_mem_cons.2 ⟨hfail, fun x hx => (hall x hx).1⟩
  obtain ⟨hreached, hserved⟩ := Delivery.reached_eq_self hfailures
  refine ⟨hfailures, ⟨?_, ?_⟩, hlen', hmetadatas, fun i hi => ?_⟩
  · rw [hreached]
    exact List.forall_mem_cons.2 ⟨hfits, fun x hx => (hall x hx).2.1⟩
  · rw [hserved]
    intro htwo
    have hmore : ds ≠ [] := by
      rintro rfl
      exact absurd htwo (by simp)
    exact List.forall_mem_cons.2 ⟨Delivery.ranked_of_metadata hvalues (hranked hmore), fun x hx => (hall x hx).2.2⟩
  · rw [hget' i hi, hget i hi, Option.getD_some, List.flatMap_cons]
    rfl

/-- What a response that is not returned fails with. -/
theorem of_getData_err (hds : ∀ d ∈ ds, d.Typed types) {e : InferError} (h : getData ds = .err e) :
    ds.findSome? (Delivery.failure types) = some e ∧ Cuttable types ds := by
  cases ds with
  | nil => cases h
  | cons d ds =>
    obtain ⟨hd, hrest⟩ := List.forall_mem_cons.1 hds
    rw [List.findSome?_cons]
    rcases Attempt.bind_eq_err.1 h with hstep | ⟨⟨data₁, acc₁⟩, hstep, h⟩
    · rcases Attempt.bind_eq_err.1 hstep with hres | ⟨_, -, hok⟩
      · obtain ⟨hfail, hfits⟩ := of_getResult_err hd hres
        rw [hfail]
        refine ⟨rfl, ?_, ?_⟩
        · rw [Delivery.reached_cons_of_some hfail]
          exact List.forall_mem_singleton.2 hfits
        · rw [Delivery.served_cons_of_some hfail]
          exact fun htwo => absurd htwo (by simp)
      · cases hok
    · obtain ⟨⟨data₂, batch⟩, hres, heq⟩ := Attempt.bind_eq_ok.1 hstep
      obtain ⟨rfl, rfl⟩ := Prod.mk.inj (Attempt.ok.inj heq)
      obtain ⟨hnone, hfit, values, hvalues, rfl, hlen, -⟩ := of_getResult_ok hd (.inl rfl) hres
      obtain ⟨hfirst, hfits, hranks, hranked⟩ := of_getDataFrom_err ds hrest hlen (hd.map_fst hvalues) h
      rw [hnone]
      refine ⟨hfirst, ?_, ?_⟩
      · rw [Delivery.reached_cons_of_none hnone]
        exact List.forall_mem_cons.2 ⟨hfit, hfits⟩
      · rw [Delivery.served_cons_of_none hnone]
        intro htwo
        have hmore : served types ds ≠ [] := by
          intro hnil
          rw [hnil] at htwo
          exact absurd htwo (by simp)
        exact List.forall_mem_cons.2 ⟨Delivery.ranked_of_metadata hvalues (hranked hmore), hranks⟩

/-- A response that can be cut out is returned, unless a reservation fails; then it is the failure
of the first. -/
theorem getData_returns (hne : ds ≠ []) (hds : ∀ d ∈ ds, d.Typed types) (hcut : Cuttable types ds) :
    (ds.findSome? (Delivery.failure types) = none ∧ ∃ r, getData ds = .ok r) ∨
      ∃ e, ds.findSome? (Delivery.failure types) = some e ∧ getData ds = .err e := by
  obtain ⟨d, ds, rfl⟩ := List.exists_cons_of_ne_nil hne
  obtain ⟨hd, hrest⟩ := List.forall_mem_cons.1 hds
  obtain ⟨hfits, hranked⟩ := hcut
  have hfit : d.Fits := hfits d Delivery.mem_reached_cons
  rw [List.findSome?_cons, getData, getDataFrom, getDataStep]
  rcases getResult_returns hd hfit (.inl rfl) with ⟨hnone, ⟨data, acc⟩, hres⟩ | ⟨e, hfail, hres⟩
  · obtain ⟨-, -, values, hvalues, rfl, hlen, -⟩ := of_getResult_ok hd (.inl rfl) hres
    rw [Delivery.reached_cons_of_none hnone, List.forall_mem_cons] at hfits
    rw [Delivery.served_cons_of_none hnone] at hranked
    have htwo : served types ds ≠ [] → ∀ x ∈ d :: served types ds, x.Ranked := fun hmore =>
      hranked (Nat.succ_le_succ (List.length_pos_iff.2 hmore))
    rw [hnone, hres]
    refine getDataFrom_returns _ hrest hfits.2 (fun x hx => ?_) hlen (hd.map_fst hvalues) fun hmore m hm => ?_
    · exact htwo (List.ne_nil_of_mem hx) x (List.mem_cons_of_mem d hx)
    · obtain ⟨v, hv, rfl⟩ := List.mem_map.1 hm
      exact htwo hmore d List.mem_cons_self values hvalues v hv
  · rw [hfail, hres]
    exact .inr ⟨e, rfl, rfl⟩

/-- **`get_data` returns exactly where the outputs can be cut out.** -/
theorem getData_returns_iff (hne : ds ≠ []) (hds : ∀ d ∈ ds, d.Typed types) :
    (∀ site, getData ds ≠ .panicked site) ↔ Cuttable types ds := by
  constructor
  · intro hnot
    cases h : getData ds with
    | panicked site => exact absurd h (hnot site)
    | err e => exact (of_getData_err hds h).2
    | ok r =>
      obtain ⟨data, metadatas⟩ := r
      exact (of_getData_ok hne hds h).2.1
  · intro hcut site hsite
    rcases getData_returns hne hds hcut with ⟨-, r, h⟩ | ⟨e, -, h⟩
    · rw [hsite] at h
      cases h
    · rw [hsite] at h
      cases h

/-- A delivery does not fail if its session has run and all types can be read. -/
theorem failure_eq_none_iff {d : Delivery} : d.failure types = none ↔
    (∃ values, d.result = .ok values) ∧ ∀ t ∈ types, t.readWidth.isSome = true := by
  rw [Delivery.failure]
  cases d.result with
  | error e => simp
  | ok values => simp [← Option.isSome_iff_ne_none]

/-- **Split responses combine correctly.**  `get_data` returns exactly if every batch ran, every type is
supported and the outputs can be cut out.  It fails exactly if a reservation does and the outputs can be
cut out up to there, and then with the failure of the first.  What it returns has one buffer and one
element type an output, each buffer the slices of its output in the order of the reservations. -/
theorem get_data_combines (hne : ds ≠ []) (hds : ∀ d ∈ ds, d.Typed types) :
    ((∃ r, getData ds = .ok r) ↔ Cuttable types ds ∧ (∀ d ∈ ds, ∃ values, d.result = .ok values) ∧
      ∀ t ∈ types, t.readWidth.isSome = true) ∧
    (∀ e, getData ds = .err e ↔ Cuttable types ds ∧ ds.findSome? (Delivery.failure types) = some e) ∧
    ∀ data metadatas, getData ds = .ok (data, metadatas) →
      data.length = types.length ∧ metadatas.map Prod.fst = types ∧
      ∀ i < types.length, ∃ bytes : Delivery → List UInt8, data[i]? = some (ds.flatMap bytes) ∧
        ∀ d ∈ ds, ∃ values v, d.result = .ok values ∧ values[i]? = some v ∧
          valueAsByteSlice v d.start d.stop = .ok (bytes d) := by
  refine ⟨⟨?_, ?_⟩, fun e => ⟨fun h => ?_, ?_⟩, fun data metadatas h => ?_⟩
  · rintro ⟨⟨data, metadatas⟩, h⟩
    obtain ⟨hfail, hcut, -⟩ := of_getData_ok hne hds h
    refine ⟨hcut, fun d hd => (failure_eq_none_iff.1 (hfail d hd)).1, ?_⟩
    obtain ⟨d, hd⟩ := List.exists_mem_of_ne_nil ds hne
    exact (failure_eq_none_iff.1 (hfail d hd)).2
  · rintro ⟨hcut, hran, htypes⟩
    rcases getData_returns hne hds hcut with ⟨-, h⟩ | ⟨e, hfail, -⟩
    · exact h
    · obtain ⟨d, hd, hfail⟩ := List.exists_of_findSome?_eq_some hfail
      rw [failure_eq_none_iff.2 ⟨hran d hd, htypes⟩] at hfail
      cases hfail
  · obtain ⟨hfail, hcut⟩ := of_getData_err hds h
    exact ⟨hcut, hfail⟩
  · rintro ⟨hcut, hfirst⟩
    rcases getData_returns hne hds hcut with ⟨hnone, -⟩ | ⟨e', hfail, h⟩
    · rw [hnone] at hfirst
      cases hfirst
    · obtain rfl := Option.some.inj (hfail.symm.trans hfirst)
      exact h
  · obtain ⟨hfail, hcut, hlen, hmetadatas, hget⟩ := of_getData_ok hne hds h
    refine ⟨hlen, hmetadatas, fun i hi => ⟨_, hget i hi, fun d hd => ?_⟩⟩
    obtain ⟨⟨values, hvalues⟩, hsupported⟩ := failure_eq_none_iff.1 (hfail d hd)
    have htypes := (hds d hd).types values hvalues
    have hi' : i < values.length := by rwa [← List.length_map (f := DynTensor.dataType), htypes]
    have hread : ∀ v ∈ values, v.readable = true := fun v hv =>
      hsupported _ (htypes ▸ List.mem_map_of_mem hv)
    have hmem : values[i] ∈ values.takeWhile DynTensor.readable := by
      rw [List.takeWhile_eq_self_iff.2 hread]
      exact List.getElem_mem hi'
    have hreached : d ∈ reached types ds := by rwa [(Delivery.reached_eq_self hfail).1]
    refine ⟨values, values[i], hvalues, List.getElem?_eq_getElem hi', ?_⟩
    refine valueAsByteSlice_eq_ok_iff.2 ⟨hread _ (List.getElem_mem hi'), (hds d hd).start_le,
      hcut.fits d hreached values hvalues _ hmem, ?_⟩
    simp only [Delivery.pick, hvalues, List.getElem?_eq_getElem hi', Option.map_some, Option.getD_some]

end Response

/-- The last row of a batch of two bytes. -/
def lastRow : Delivery := ⟨1, 2, .ok [⟨.uint8, [2, 1], [7, 8], by rintro w ⟨⟩; rfl⟩]⟩

/-- A row of a batch that failed. -/
def failedRow : Delivery := ⟨0, 1, .error (.sessionRun "out of memory")⟩

/-- Two rows of a batch whose output is a single byte. -/
def shortRows : Delivery := ⟨0, 2, .ok [⟨.uint8, [1], [7], by rintro w ⟨⟩; rfl⟩]⟩

/-- The last row is typed. -/
theorem lastRow_typed : lastRow.Typed [.uint8] where
  start_le := by decide
  types values h := by
    obtain rfl := Except.ok.inj h
    rfl

/-- The row of a batch that failed is typed. -/
theorem failedRow_typed : failedRow.Typed [.uint8] where
  start_le := by decide
  types _ h := by cases h

/-- The rows of a short output are typed. -/
theorem shortRows_typed : shortRows.Typed [.uint8] where
  start_le := by decide
  types values h := by
    obtain rfl := Except.ok.inj h
    rfl

/-- The last row alone is returned; behind a batch that failed, nobody looks at the short one. -/
theorem get_data_combines_twoBatches :
    (∃ r, getData [lastRow] = .ok r) ∧
      getData [failedRow, shortRows] = .err (.sessionRun "out of memory") := by
  constructor
  · refine (get_data_combines (List.cons_ne_nil _ _) (List.forall_mem_singleton.2 lastRow_typed)).1.2
      ⟨⟨?_, fun h => absurd h (by decide)⟩, List.forall_mem_singleton.2 ⟨_, rfl⟩, by decide⟩
    refine List.forall_mem_singleton.2 fun values h => ?_
    obtain rfl := Except.ok.inj h
    exact List.forall_mem_singleton.2 (by decide)
  · have hds : ∀ d ∈ [failedRow, shortRows], d.Typed [.uint8] :=
      List.forall_mem_cons.2 ⟨failedRow_typed, List.forall_mem_singleton.2 shortRows_typed⟩
    refine ((get_data_combines (List.cons_ne_nil _ _) hds).2.1 _).2 ⟨⟨?_, fun h => absurd h (by decide)⟩, rfl⟩
    exact List.forall_mem_singleton.2 fun values h => by cases h

/-- A batch that ran with a supported type, whose output is not as long as the batch. -/
theorem get_data_can_panic :
    ¬ ∀ (types : List TensorElementType) (ds : List Delivery), ds ≠ [] → (∀ d ∈ ds, d.Typed types) →
      ((∃ r, getData ds = .ok r) ↔
        (∀ d ∈ ds, ∃ values, d.result = .ok values) ∧ ∀ t ∈ types, t.readWidth.isSome = true) := by
  intro hall
  have hds : ∀ d ∈ [shortRows], d.Typed [.uint8] := List.forall_mem_singleton.2 shortRows_typed
  obtain ⟨r, hr⟩ := (hall _ _ (List.cons_ne_nil _ _) hds).2
    ⟨List.forall_mem_singleton.2 ⟨_, rfl⟩, by decide⟩
  cases hr

end Toutates
