/-
# When a call of `infer` or `get_data` panics

`infer` divides, slices and indexes with lengths that nobody has compared.  A copy takes a tensor
if its bytes for the rows of the piece are there, are whole elements, and end inside the tensor of
the batch (`Outlet.Takes`); otherwise it panics (`Copy.panicked_of_not_takes`).  Copies are made
input by input and piece by piece, and stop at the first input of a type that is not supported,
with an error.  So a call returns if all the copies that it comes to take their tensors, and panics
if one does not (`infer_survives_iff`).

A call that returns a response has copied everything, and the response is the pieces of the rows in
order (`infer_of_ok`).  Once their batches have run, `get_data` of it is that of the results in their
cells (`getData_survives_iff`).
-/

import Toutates.Ring.Gather
import Toutates.Tensor.Combine

namespace Toutates

open Basis

variable {g : Geometry} {α : Type}

/-- Dimension 0. -/
def TensorBytes.rows (t : TensorBytes) : ℕ := asUsize (t.shape.headD 0)

/-- The bytes of rows `start .. stop` of a tensor are there, they are whole elements, and at the
slots from `slot` on they end inside the tensor of the batch. -/
structure Outlet.Takes (o : Outlet) (batchSize : ℕ) (t : TensorBytes) (start stop slot : ℕ) : Prop where
  bytes : stop * t.bytesPerIndex t.rows ≤ t.data.length
  whole : ∀ w, o.dataType.copyWidth = some w → w ∣ (stop - start) * t.bytesPerIndex t.rows
  inside : ∀ w, o.dataType.copyWidth = some w →
    slot * numElements (1 :: o.dims) + (stop - start) * t.bytesPerIndex t.rows / w ≤
      batchSize * numElements (1 :: o.dims)

/-- The elements of a row of a tensor are those of its outlet. -/
theorem Outlet.Of.tensorSize {batchSize : ℕ} {o : Outlet} {t : BatchableTensor batchSize} (h : o.Of t) :
    t.tensorSize = numElements (1 :: o.dims) := by
  rw [BatchableTensor.tensorSize, h.singleTensorShape]

namespace Copy

variable {batchSize : ℕ} {c : Copy batchSize} {tensor : TensorBytes} {o : Outlet}

/-- The slice of a tensor that has its bytes. -/
theorem slice_eq_ok (hshape : tensor.shape ≠ []) (hrows : 0 < tensor.rows) (hn : c.start < c.stop)
    (hbytes : c.stop * tensor.bytesPerIndex tensor.rows ≤ tensor.data.length) :
    ∃ src, tensor.sliceDim0 c.start c.stop = .ok src ∧
      src.length = (c.stop - c.start) * tensor.bytesPerIndex tensor.rows := by
  obtain ⟨d, dims, hd⟩ := List.exists_cons_of_ne_nil hshape
  have hdim : tensor.rows = asUsize d := by rw [TensorBytes.rows, hd, List.headD_cons]
  rw [hdim] at hrows hbytes ⊢
  have hslice : ∃ src, tensor.sliceDim0 c.start c.stop = .ok src := by
    simp only [TensorBytes.sliceDim0, hd, hn, not_true_eq_false, if_false, hrows.ne', Nat.not_lt_of_le hbytes]
    exact ⟨_, rfl⟩
  obtain ⟨src, hsrc⟩ := hslice
  obtain ⟨d', dims', hd', -, -, -, -, hlen⟩ := TensorBytes.length_of_sliceDim0 hsrc
  obtain ⟨rfl, rfl⟩ := List.cons.inj (hd.symm.trans hd')
  exact ⟨src, hsrc, hlen⟩

section

variable (hi : c.data[c.i]? = some tensor) (ho : o.Of c.t)

include hi ho

/-- A copy that does not panic takes its tensor. -/
theorem takes_of_not_panicked (h : ∀ site, c.result ≠ .panicked site) :
    o.Takes batchSize tensor c.start c.stop c.slot := by
  cases hsrc : tensor.sliceDim0 c.start c.stop with
  | error site =>
    refine absurd ?_ (h site)
    simp only [result, BatchableTensor.copyInput, hi, hsrc]
  | ok src =>
    have hresult : c.result = c.t.copyAtFromBytes c.slot src := by
      simp only [result, BatchableTensor.copyInput, hi, hsrc]
    obtain ⟨d, dims, hshape, -, -, hle, -, hlen⟩ := TensorBytes.length_of_sliceDim0 hsrc
    have hdim : tensor.rows = asUsize d := by rw [TensorBytes.rows, hshape, List.headD_cons]
    rw [← hdim] at hle hlen
    -- an input of a type that is written is written
    have hok : ∀ w, o.dataType.copyWidth = some w →
        c.slot * numElements (1 :: o.dims) + src.length / w ≤ batchSize * numElements (1 :: o.dims) ∧
          src.length / w * w = src.length := by
      intro w hw
      rw [← ho.dataType] at hw
      cases hc : c.t.copyAtFromBytes c.slot src with
      | panicked site => exact absurd (hresult.trans hc) (h site)
      | err e => exact absurd ((BatchableTensor.copyAtFromBytes_of_err hc).symm.trans hw) (Option.some_ne_none w).symm
      | ok t' =>
        obtain ⟨w', hw', h₁, h₂, -⟩ := BatchableTensor.copyAtFromBytes_of_ok hc
        obtain rfl := Option.some.inj (hw.symm.trans hw')
        rw [c.t.numElements_inner, ho.tensorSize] at h₁
        exact ⟨h₁, h₂⟩
    refine ⟨hle, fun w hw => ?_, fun w hw => ?_⟩
    · rw [← hlen]
      exact Dvd.intro_left _ (hok w hw).2
    · rw [← hlen]
      exact (hok w hw).1

/-- A copy that takes its tensor returns, unless the type is not supported. -/
theorem result_of_takes (hshape : tensor.shape ≠ []) (hrows : 0 < tensor.rows) (hn : c.start < c.stop)
    (h : o.Takes batchSize tensor c.start c.stop c.slot) :
    (o.Supported → ∃ t', c.result = .ok t') ∧ (¬ o.Supported → c.result = .err .unsupportedDataType) := by
  obtain ⟨src, hsrc, hlen⟩ := slice_eq_ok hshape hrows hn h.bytes
  have hresult : c.result = c.t.copyAtFromBytes c.slot src := by
    simp only [result, BatchableTensor.copyInput, hi, hsrc]
  rw [hresult]
  constructor
  · intro hsup
    obtain ⟨w, hw⟩ := Option.isSome_iff_exists.1 hsup
    refine BatchableTensor.copyAtFromBytes_ok (by rw [ho.dataType, hw]) ?_ ?_
    · rw [hlen, c.t.numElements_inner, ho.tensorSize]
      exact h.inside w hw
    · rw [hlen]
      exact Nat.div_mul_cancel (h.whole w hw)
  · intro hsup
    refine BatchableTensor.copyAtFromBytes_err ?_
    rw [ho.dataType, ← Option.not_isSome_iff_eq_none]
    exact hsup

end

/-- A copy without its input panics. -/
theorem panicked_of_none (hi : c.data[c.i]? = none) : c.result = .panicked .inputIndex := by
  simp only [result, BatchableTensor.copyInput, hi]

end Copy

namespace SuperTensorBuffer

/-- The copies of a piece of rows `start .. stop` to the slots from `slot` on, of the inputs `is`, up
to the first of a type that is not supported: there is a tensor for each, and it is taken. -/
def CopiesTake (model : Fin g.numInputs → Outlet) (data : List TensorBytes) (start stop slot : ℕ) :
    List (Fin g.numInputs) → Prop
  | [] => True
  | i :: is => (∃ t, data[i.val]? = some t ∧ (model i).Takes g.batchSize t start stop slot) ∧
      ((model i).Supported → CopiesTake model data start stop slot is)

/-- In the order of the inputs, each is copied if all before it are of a type that is supported. -/
theorem copiesTake_finRange_iff {model : Fin g.numInputs → Outlet} {data : List TensorBytes} {start stop slot : ℕ} :
    CopiesTake model data start stop slot (List.finRange g.numInputs) ↔
      ∀ i, (∀ j < i, (model j).Supported) →
        ∃ t, data[i.val]? = some t ∧ (model i).Takes g.batchSize t start stop slot := by
  have hsorted : ∀ is : List (Fin g.numInputs), is.Pairwise (· < ·) →
      (CopiesTake model data start stop slot is ↔ ∀ i ∈ is, (∀ j ∈ is, j < i → (model j).Supported) →
        ∃ t, data[i.val]? = some t ∧ (model i).Takes g.batchSize t start stop slot) := by
    intro is
    induction is with
    | nil => exact fun _ => iff_of_true True.intro fun i hi => absurd hi List.not_mem_nil
    | cons i is ih =>
      intro hlt
      obtain ⟨hi, his⟩ := List.pairwise_cons.1 hlt
      rw [CopiesTake, ih his]
      constructor
      · rintro ⟨hfirst, hrest⟩ k hk hbefore
        rcases List.mem_cons.1 hk with rfl | hk
        · exact hfirst
        · exact hrest (hbefore i List.mem_cons_self (hi k hk)) k hk
            fun j hj hjk => hbefore j (List.mem_cons_of_mem _ hj) hjk
      · intro hall
        refine ⟨hall i List.mem_cons_self fun j hj hji => ?_, fun hsup k hk hbefore => ?_⟩
        · rcases List.mem_cons.1 hj with rfl | hj
          · exact absurd hji (lt_irrefl _)
          · exact absurd (hi j hj) (lt_asymm hji)
        · refine hall k (List.mem_cons_of_mem _ hk) fun j hj hjk => ?_
          rcases List.mem_cons.1 hj with rfl | hj
          · exact hsup
          · exact hbefore j hj hjk
  rw [hsorted _ (List.pairwise_lt_finRange _)]
  exact ⟨fun h i hbefore => h i (List.mem_finRange i) fun j _ hj => hbefore j hj,
    fun h i _ hbefore => h i fun j hj => hbefore j (List.mem_finRange j) hj⟩

/-! ### What the calls do -/

/-- A call that returns, with a value or with an error. -/
def Survives {β : Type} (call : Call g α β) (s : SuperTensorBuffer g α) : Prop :=
  ∃ r s', call s = some (r, s') ∧ ∀ site, r ≠ .panicked site

/-- A call that panics does not return. -/
theorem not_survives_of_panicked {β : Type} {call : Call g α β} {s s' : SuperTensorBuffer g α} {site : Panic}
    (h : call s = some (.panicked site, s')) : ¬ Survives call s := by
  rintro ⟨r, s₁, hr, hnot⟩
  exact hnot site (Prod.mk.inj (Option.some.inj (hr.symm.trans h))).1

section Copies

variable {ops : CounterOps g α} {ins : Insertion g α} {s : SuperTensorBuffer g α}
  {model : Fin g.numInputs → Outlet} {is : List (Fin g.numInputs)}
  (hdata : ∀ t ∈ ins.request.tensors, t.shape ≠ [] ∧ 0 < t.rows) (hn : ins.inputStart < ins.inputEnd ops)

include hdata hn

omit hdata hn in
/-- The tensors stay those of the model. -/
theorem of_setTensor {i : Fin g.numInputs} {t : BatchableTensor g.batchSize}
    (ho : ∀ i, (model i).Of (s.inputTensors (ins.tracker ops) i)) (ht : (copyOf ops ins s i).result = .ok t)
    (j : Fin g.numInputs) :
    (model j).Of ((s.setTensor (ins.tracker ops) i t).inputTensors (ins.tracker ops) j) := by
  rw [setTensor_inputTensors]
  split_ifs with hj
  · obtain ⟨-, rfl⟩ := hj
    obtain ⟨htype, hshape⟩ := BatchableTensor.copyInput_frame ht
    exact ⟨htype.trans (ho j).dataType, hshape.trans (ho j).singleTensorShape⟩
  · exact ho j

/-- A copy of a request that fits fails for its type only. -/
theorem result_copyOf {i : Fin g.numInputs} (ho : (model i).Of (s.inputTensors (ins.tracker ops) i))
    (h : ∃ t, ins.request.tensors[i.val]? = some t ∧
      (model i).Takes g.batchSize t ins.inputStart (ins.inputEnd ops) (ins.batchSlot ops)) :
    ((model i).Supported → ∃ t', (copyOf ops ins s i).result = .ok t') ∧
      (¬ (model i).Supported → (copyOf ops ins s i).result = .err .unsupportedDataType) := by
  obtain ⟨t, ht, htakes⟩ := h
  obtain ⟨hshape, hrows⟩ := hdata t (List.mem_of_getElem? ht)
  exact Copy.result_of_takes ht ho hshape hrows hn htakes

/-- Copies that take their tensors all return, or the first of a type that is not supported is
refused. -/
theorem copyInputs_of_takes (ho : ∀ i, (model i).Of (s.inputTensors (ins.tracker ops) i))
    (h : CopiesTake model ins.request.tensors ins.inputStart (ins.inputEnd ops) (ins.batchSlot ops) is) :
    ((∀ i ∈ is, (model i).Supported) → ∃ s', copyInputs ops ins is s = some (.ok (), s')) ∧
      (¬ (∀ i ∈ is, (model i).Supported) → ∃ s', copyInputs ops ins is s = some (.err .unsupportedDataType, s')) := by
  induction is generalizing s with
  | nil => exact ⟨fun _ => ⟨s, rfl⟩, fun hnot => absurd (fun i hi => absurd hi List.not_mem_nil) hnot⟩
  | cons i is ih =>
    obtain ⟨hfirst, hrest⟩ := h
    obtain ⟨hok, herr⟩ := result_copyOf hdata hn (ho i) hfirst
    by_cases hsup : (model i).Supported
    · obtain ⟨t, ht⟩ := hok hsup
      obtain ⟨hrecOk, hrecErr⟩ := ih (of_setTensor ho ht) (hrest hsup)
      rw [copyInputs_cons_of_ok ht]
      constructor
      · exact fun hall => hrecOk fun j hj => hall j (List.mem_cons_of_mem _ hj)
      · refine fun hnot => hrecErr fun hall => hnot fun j hj => ?_
        rcases List.mem_cons.1 hj with rfl | hj
        · exact hsup
        · exact hall j hj
    · refine ⟨fun hall => absurd (hall i List.mem_cons_self) hsup, fun _ => ⟨s, ?_⟩⟩
      have hc : (s.inputTensors (ins.tracker ops) i).copyInput ins.request.tensors i ins.inputStart
        (ins.inputEnd ops) (ins.batchSlot ops) = .err .unsupportedDataType := herr hsup
      rw [copyInputs, Call.read_bind_apply, hc]
      rfl

/-- A copy that does not take its tensor panics. -/
theorem copyInputs_panics (ho : ∀ i, (model i).Of (s.inputTensors (ins.tracker ops) i))
    (h : ¬ CopiesTake model ins.request.tensors ins.inputStart (ins.inputEnd ops) (ins.batchSlot ops) is) :
    ∃ site s', copyInputs ops ins is s = some (.panicked site, s') := by
  induction is generalizing s with
  | nil => exact absurd True.intro h
  | cons i is ih =>
    by_cases hfirst : ∃ t, ins.request.tensors[i.val]? = some t ∧
        (model i).Takes g.batchSize t ins.inputStart (ins.inputEnd ops) (ins.batchSlot ops)
    · obtain ⟨hok, -⟩ := result_copyOf hdata hn (ho i) hfirst
      have hsup : (model i).Supported := by
        by_contra hsup
        exact h ⟨hfirst, fun h => absurd h hsup⟩
      obtain ⟨t, ht⟩ := hok hsup
      rw [copyInputs_cons_of_ok ht]
      exact ih (of_setTensor ho ht) fun hrest => h ⟨hfirst, fun _ => hrest⟩
    · obtain ⟨site, hsite⟩ : ∃ site, (copyOf ops ins s i).result = .panicked site := by
        by_contra hnot
        rw [not_exists] at hnot
        cases ht : ins.request.tensors[i.val]? with
        | none => exact hnot _ (Copy.panicked_of_none (c := copyOf ops ins s i) ht)
        | some t => exact hfirst ⟨t, ht, Copy.takes_of_not_panicked (c := copyOf ops ins s i) ht (ho i) hnot⟩
      have hc : (s.inputTensors (ins.tracker ops) i).copyInput ins.request.tensors i ins.inputStart
        (ins.inputEnd ops) (ins.batchSlot ops) = .panicked site := hsite
      refine ⟨site, s, ?_⟩
      rw [copyInputs, Call.read_bind_apply, hc]
      rfl

end Copies

/-- The copies of a piece of the positions from `p` on take their tensors; row `a` is at `p`. -/
def PieceTakes (model : Fin g.numInputs → Outlet) (data : List TensorBytes) (p a : ℕ) (q : ℕ × ℕ) : Prop :=
  CopiesTake model data (a + (q.1 - p)) (a + (q.1 - p) + q.2) (q.1 % g.batchSize) (List.finRange g.numInputs)

namespace Inserting

variable {ops : CounterOps g α} {rep : ℕ → α} {model : Fin g.numInputs → Outlet} {t p : ℕ}
  {ins : Insertion g α} {s s' : SuperTensorBuffer g α}

/-- A piece panics, is refused or returns. -/
theorem insertTensorsAt_outcome (h : Inserting ops rep model t p ins s) (now : Instant)
    (hdata : ∀ t ∈ ins.request.tensors, t.shape ≠ [] ∧ 0 < t.rows)
    (hopen : p % g.batchSize = 0 → s.Unopened (g.cell p)) :
    (¬ PieceTakes model ins.request.tensors p ins.inputStart (p, ins.toWrite ops) →
      ∃ site s', insertTensorsAt ops now ins s = some (.panicked site, s')) ∧
    (PieceTakes model ins.request.tensors p ins.inputStart (p, ins.toWrite ops) →
      (¬ (∀ i, (model i).Supported) → ∃ e s', insertTensorsAt ops now ins s = some (.err e, s')) ∧
      ((∀ i, (model i).Supported) → ∃ r s', insertTensorsAt ops now ins s = some (.ok r, s'))) := by
  obtain ⟨hpos, -, -⟩ := h.piece
  have hn : ins.inputStart < ins.inputEnd ops := Nat.lt_add_of_pos_right hpos
  have hpiece : PieceTakes model ins.request.tensors p ins.inputStart (p, ins.toWrite ops) ↔
      CopiesTake model ins.request.tensors ins.inputStart (ins.inputEnd ops) (ins.batchSlot ops)
        (List.finRange g.numInputs) := by
    rw [PieceTakes, h.batchSlot_eq, Nat.sub_self, Nat.add_zero, Insertion.inputEnd]
  rw [hpiece]
  refine ⟨fun hnot => ?_, fun htakes => ?_⟩
  · obtain ⟨site, s₁, h₁⟩ := copyInputs_panics hdata hn (h.tensorsOf _) hnot
    exact ⟨site, s₁, Call.bind_of_panicked h₁⟩
  · obtain ⟨hok, herr⟩ := copyInputs_of_takes hdata hn (h.tensorsOf _) htakes
    refine ⟨fun hnot => ?_, fun hall => ?_⟩
    · obtain ⟨s₁, h₁⟩ := herr fun hall => hnot fun i => hall i (List.mem_finRange i)
      exact ⟨_, s₁, Call.bind_of_err h₁⟩
    · obtain ⟨s₁, h₁⟩ := hok fun i _ => hall i
      exact h.insertTensorsAt_returns now h₁ hopen

/-- The first piece, and the others. -/
theorem exists_pieces (h : Inserting ops rep model t p ins s) : ∃ rest,
    Pieces g.batchSize p ins.clientBatchSize ((p, ins.toWrite ops) :: rest) ∧
      (ins.clientBatchSize - ins.toWrite ops = 0 → rest = []) ∧
      (ins.clientBatchSize - ins.toWrite ops ≠ 0 →
        Pieces g.batchSize (p + ins.toWrite ops) (ins.clientBatchSize - ins.toWrite ops) rest) := by
  obtain ⟨hpos, hle, hend⟩ := h.piece
  by_cases hlast : ins.clientBatchSize - ins.toWrite ops = 0
  · have hall : ins.toWrite ops = ins.clientBatchSize := by omega
    refine ⟨[], ?_, fun _ => rfl, fun hnot => absurd hlast hnot⟩
    rw [hall] at hend ⊢
    exact .last h.pos hend
  · obtain ⟨hblock, -⟩ := h.next (r := ⟨g.cell p, 0, 0, 0, 0, 0⟩) hlast h.tensorsOf
    obtain ⟨rest, hrest⟩ := Pieces.exists_of_pos g.batchSize_pos (p + ins.toWrite ops) (Nat.pos_of_ne_zero hlast)
    refine ⟨rest, ?_, fun hzero => absurd hzero hlast, fun _ => hrest⟩
    have hsize : ins.toWrite ops + (ins.clientBatchSize - ins.toWrite ops) = ins.clientBatchSize := by omega
    rw [← hsize]
    exact .cons hblock hrest

/-- Behind the first piece the loop goes on with the others. -/
theorem survives_insertAll_next {clock : ℕ → Instant} {k : ℕ} {r : WriteReservation g} {s₁ : SuperTensorBuffer g α}
    (hinsert : insertTensorsAt ops (clock ins.inputStart) ins s = some (.ok r, s₁))
    (hlast : ins.clientBatchSize - ins.toWrite ops ≠ 0) :
    Survives (insertAll ops clock (k + 1) ins) s ↔ Survives (insertAll ops clock k (ins.next ops r)) s₁ := by
  rw [Survives, Survives, insertAll, Call.bind_of_ok hinsert, if_neg hlast]

/-- Where a piece stands does not depend on where one starts to count. -/
theorem pieceTakes_next {data : List TensorBytes} {r : WriteReservation g} {q : ℕ × ℕ}
    (hle : p + ins.toWrite ops ≤ q.1) : PieceTakes model data p ins.inputStart q ↔
      PieceTakes model data (p + ins.toWrite ops) (ins.next ops r).inputStart q := by
  have hstart : (ins.next ops r).inputStart = ins.inputStart + ins.toWrite ops := rfl
  rw [PieceTakes, PieceTakes, hstart,
    show ins.inputStart + ins.toWrite ops + (q.1 - (p + ins.toWrite ops)) = ins.inputStart + (q.1 - p) by omega]

/-- **The loop over the pieces returns exactly when the copies that it comes to take their
tensors**: those of the first piece, and those of the others if all types are supported. -/
theorem insertAll_survives_iff {clock : ℕ → Instant} {k : ℕ} (h : Inserting ops rep model t p ins s)
    (hdata : ∀ t ∈ ins.request.tensors, t.shape ≠ [] ∧ 0 < t.rows) (hk : ins.clientBatchSize ≤ k)
    (hopen : ∀ q, g.batchSize ∣ q → p ≤ q → q < p + ins.clientBatchSize → s.Unopened (g.cell q)) :
    Survives (insertAll ops clock k ins) s ↔ ∀ pieces, Pieces g.batchSize p ins.clientBatchSize pieces →
      ∀ q ∈ pieces, (q.1 = p ∨ ∀ i, (model i).Supported) →
        PieceTakes model ins.request.tensors p ins.inputStart q := by
  induction k generalizing ins p s with
  | zero =>
    have := h.pos
    omega
  | succ k ih =>
    obtain ⟨hpos, hle, hend⟩ := h.piece
    obtain ⟨hpanics, houtcome⟩ := h.insertTensorsAt_outcome (clock ins.inputStart) hdata
      fun hslot => hopen p (Nat.dvd_of_mod_eq_zero hslot) le_rfl (by omega)
    obtain ⟨rest, hwhole, hnone, hrest⟩ := h.exists_pieces
    have hbehind : ∀ q ∈ rest, p < q.1 := fun q hq => by
      by_cases hlast : ins.clientBatchSize - ins.toWrite ops = 0
      · rw [hnone hlast] at hq
        exact absurd hq List.not_mem_nil
      · have := ((hrest hlast).mem g.batchSize_pos q hq).2.1
        omega
    rw [hwhole.forall_iff hbehind]
    by_cases hfirst : PieceTakes model ins.request.tensors p ins.inputStart (p, ins.toWrite ops)
    · obtain ⟨herr, hok⟩ := houtcome hfirst
      by_cases hall : ∀ i, (model i).Supported
      · obtain ⟨r, s₁, hinsert⟩ := hok hall
        by_cases hlast : ins.clientBatchSize - ins.toWrite ops = 0
        · have hrun : insertAll ops clock (k + 1) ins s = some (.ok (ins.response ++ [r]), s₁) := by
            rw [insertAll, Call.bind_of_ok hinsert, if_pos hlast, Call.pure_apply]
          refine iff_of_true ⟨_, s₁, hrun, by rintro site ⟨⟩⟩ ⟨hfirst, fun _ q hq => ?_⟩
          rw [hnone hlast] at hq
          exact absurd hq List.not_mem_nil
        · obtain ⟨-, hcounted, -, -, htensors⟩ := h.insertTensorsAt_of_ok hinsert
          obtain ⟨-, hnext⟩ := h.next (r := r) hlast htensors
          have hleft : (ins.next ops r).clientBatchSize = ins.clientBatchSize - ins.toWrite ops := rfl
          have hshift : ∀ q ∈ rest, PieceTakes model ins.request.tensors p ins.inputStart q ↔
              PieceTakes model ins.request.tensors (p + ins.toWrite ops) (ins.next ops r).inputStart q := fun q hq =>
            pieceTakes_next ((hrest hlast).mem g.batchSize_pos q hq).2.1
          rw [survives_insertAll_next hinsert hlast, ih hnext hdata (by omega) (h.unopened_next hlast hcounted hopen)]
          constructor
          · exact fun hpieces => ⟨hfirst, fun _ q hq => (hshift q hq).2 (hpieces rest (hrest hlast) q hq (.inr hall))⟩
          · rintro ⟨-, hothers⟩ pieces hpieces q hq -
            rw [hpieces.unique (hrest hlast)] at hq
            exact (hshift q hq).1 (hothers hall q hq)
      · obtain ⟨e, s₁, hrun⟩ := herr hall
        exact iff_of_true ⟨_, s₁, Call.bind_of_err hrun, by rintro site ⟨⟩⟩ ⟨hfirst, fun h => absurd h hall⟩
    · obtain ⟨site, s₁, hrun⟩ := hpanics hfirst
      exact iff_of_false (not_survives_of_panicked (Call.bind_of_panicked hrun)) fun hnot => hfirst hnot.1

/-- The response of a loop that returns one is the pieces of the rows. -/
theorem insertAll_of_ok {clock : ℕ → Instant} {k : ℕ} {response : List (WriteReservation g)}
    (h : Inserting ops rep model t p ins s) (hrun : insertAll ops clock k ins s = some (.ok response, s')) :
    ∃ pieces, Pieces g.batchSize p ins.clientBatchSize pieces ∧
      response = ins.response ++ pieces.map s.pieceReservation := by
  induction k generalizing ins p s with
  | zero => cases hrun
  | succ k ih =>
    obtain ⟨r, s₁, hinsert, hrun⟩ := Call.bind_eq_ok.1 hrun
    obtain ⟨hr, hcounted, -, -, htensors⟩ := h.insertTensorsAt_of_ok hinsert
    obtain ⟨hpos, hle, hend⟩ := h.piece
    by_cases hlast : ins.clientBatchSize - ins.toWrite ops = 0
    · rw [if_pos hlast] at hrun
      obtain ⟨hresponse, -⟩ := Prod.mk.inj (Option.some.inj hrun)
      have hall : ins.toWrite ops = ins.clientBatchSize := by omega
      rw [hall] at hr hend
      refine ⟨_, .last h.pos hend, ?_⟩
      rw [← Attempt.ok.inj hresponse, hr, List.map_singleton]
    · rw [if_neg hlast] at hrun
      obtain ⟨hblock, hnext⟩ := h.next (r := r) hlast htensors
      obtain ⟨pieces, hpieces, hresponse⟩ := ih hnext hrun
      have hsame : s₁.pieceReservation = s.pieceReservation := by
        funext q
        rw [pieceReservation, pieceReservation, hcounted.generation]
      refine ⟨(p, ins.toWrite ops) :: pieces, ?_, ?_⟩
      · have hsize : ins.toWrite ops + (ins.clientBatchSize - ins.toWrite ops) = ins.clientBatchSize := by omega
        rw [← hsize]
        exact .cons hblock hpieces
      · rw [hresponse, hsame, List.map_cons, ← hr]
        exact List.append_assoc _ _ _

/-- A piece that returns has copied every input, so all types are supported. -/
theorem supported_of_ok {now : Instant} {r : WriteReservation g} (h : Inserting ops rep model t p ins s)
    (hrun : insertTensorsAt ops now ins s = some (.ok r, s')) (i : Fin g.numInputs) : (model i).Supported := by
  obtain ⟨-, -, hdone, -, -⟩ := h.insertTensorsAt_of_ok hrun
  have hwidth := Copy.supported_of_ok (hdone i)
  rwa [show (copyOf ops ins s i).t.dataType = (model i).dataType from (h.tensorsOf _ i).dataType] at hwidth

/-- A loop that returns an error has met a type that is not supported. -/
theorem not_supported_of_err {clock : ℕ → Instant} {k : ℕ} {e : InferError} (h : Inserting ops rep model t p ins s)
    (hdata : ∀ t ∈ ins.request.tensors, t.shape ≠ [] ∧ 0 < t.rows)
    (hopen : ∀ q, g.batchSize ∣ q → p ≤ q → q < p + ins.clientBatchSize → s.Unopened (g.cell q))
    (hrun : insertAll ops clock k ins s = some (.err e, s')) : ¬ ∀ i, (model i).Supported := by
  induction k generalizing ins p s with
  | zero => cases hrun
  | succ k ih =>
    have hpos := h.pos
    obtain ⟨hpanics, houtcome⟩ := h.insertTensorsAt_outcome (clock ins.inputStart) hdata
      fun hslot => hopen p (Nat.dvd_of_mod_eq_zero hslot) le_rfl (by omega)
    intro hall
    by_cases hfirst : PieceTakes model ins.request.tensors p ins.inputStart (p, ins.toWrite ops)
    · obtain ⟨r, s₁, hinsert⟩ := (houtcome hfirst).2 hall
      obtain ⟨-, hcounted, -, -, htensors⟩ := h.insertTensorsAt_of_ok hinsert
      rw [insertAll, Call.bind_of_ok hinsert] at hrun
      by_cases hlast : ins.clientBatchSize - ins.toWrite ops = 0
      · rw [if_pos hlast] at hrun
        cases hrun
      · rw [if_neg hlast] at hrun
        obtain ⟨-, hnext⟩ := h.next (r := r) hlast htensors
        exact ih hnext hdata (h.unopened_next hlast hcounted hopen) hrun hall
    · obtain ⟨site, s₁, hinsert⟩ := hpanics hfirst
      rw [insertAll, Call.bind_of_panicked hinsert] at hrun
      cases hrun

end Inserting

variable {ops : CounterOps g α} {rep : ℕ → α} {model : Fin g.numInputs → Outlet} {h t : ℕ}
  {s : SuperTensorBuffer g α} {request : Request} {clock : ℕ → Instant}

/-- A request without rows to count panics. -/
theorem not_infer_survives {site : Panic} (hfull : ¬ ops.isFull s.head s.tail = true)
    (hn : request.clientBatchSize = .error site) : ¬ Survives (infer ops clock request) s := by
  have hrun : infer ops clock request s = some (.panicked site, s) := by
    rw [infer, Call.read_bind_apply, if_neg hfull, hn]
    rfl
  exact not_survives_of_panicked hrun

section Infer

variable (hrep : ops.Represents rep) (hhead : s.head = rep h) (hfull : ¬ ops.isFull s.head s.tail = true)
  (ht : g.batchSize ∣ t) {n : ℕ} (hroom : t ≤ h ∧ h + n ≤ t + g.slots)
  (htensors : ∀ x i, (model i).Of (s.inputTensors x i)) (hn : request.clientBatchSize = .ok n)

include hrep hhead hfull ht hroom htensors hn

/-- Behind its checks and the move of the head, `infer` inserts. -/
theorem infer_inserting (clock : ℕ → Instant) : Inserting ops rep model t h ⟨request, s.head, s.head, 0, n, []⟩
      { s with head := ops.add s.head n } ∧
    infer ops clock request s =
      insertAll ops clock (n + 1) ⟨request, s.head, s.head, 0, n, []⟩ { s with head := ops.add s.head n } := by
  refine ⟨⟨hrep, hhead, Request.clientBatchSize_pos hn, ht, hroom.1, hroom.2, htensors⟩, ?_⟩
  rw [infer, Call.read_bind_apply, if_neg hfull, hn]
  rfl

/-- The response of a call that returns one is the pieces of its rows, and all types are supported. -/
theorem infer_of_ok {response : List (WriteReservation g)} {s' : SuperTensorBuffer g α}
    (hrun : infer ops clock request s = some (.ok response, s')) :
    (∀ i, (model i).Supported) ∧
      ∃ pieces, Pieces g.batchSize h n pieces ∧ response = pieces.map s.pieceReservation := by
  obtain ⟨hins, hinfer⟩ := infer_inserting hrep hhead hfull ht hroom htensors hn clock
  rw [hinfer] at hrun
  refine ⟨?_, ?_⟩
  · obtain ⟨r, s₁, hinsert, -⟩ := Call.bind_eq_ok.1 hrun
    exact hins.supported_of_ok hinsert
  · obtain ⟨pieces, hpieces, hresponse⟩ := hins.insertAll_of_ok hrun
    exact ⟨pieces, hpieces, hresponse⟩

variable (hdata : ∀ t ∈ request.tensors, t.shape ≠ [] ∧ 0 < t.rows)
  (hopen : ∀ q, g.batchSize ∣ q → h ≤ q → q < h + n → s.Unopened (g.cell q))

include hdata hopen

/-- A call that has room and returns an error has met a type that is not supported. -/
theorem infer_of_err {e : InferError} {s' : SuperTensorBuffer g α}
    (hrun : infer ops clock request s = some (.err e, s')) : ¬ ∀ i, (model i).Supported := by
  obtain ⟨hins, hinfer⟩ := infer_inserting hrep hhead hfull ht hroom htensors hn clock
  rw [hinfer] at hrun
  exact hins.not_supported_of_err hdata hopen hrun

/-- **`infer` returns exactly when the copies that it comes to take their tensors.** -/
theorem infer_survives_iff (clock : ℕ → Instant) :
    Survives (infer ops clock request) s ↔ ∀ pieces, Pieces g.batchSize h n pieces →
      ∀ q ∈ pieces, (q.1 = h ∨ ∀ i, (model i).Supported) → ∀ i, (∀ j < i, (model j).Supported) →
        ∃ t, request.tensors[i.val]? = some t ∧
          (model i).Takes g.batchSize t (q.1 - h) (q.1 - h + q.2) (q.1 % g.batchSize) := by
  obtain ⟨hins, hinfer⟩ := infer_inserting hrep hhead hfull ht hroom htensors hn clock
  have hsurvives : Survives (infer ops clock request) s ↔
      Survives (insertAll ops clock (n + 1) ⟨request, s.head, s.head, 0, n, []⟩)
        { s with head := ops.add s.head n } := by rw [Survives, hinfer, Survives]
  rw [hsurvives, hins.insertAll_survives_iff hdata (Nat.le_succ n) hopen]
  simp only [PieceTakes, copiesTake_finRange_iff, Nat.zero_add]

end Infer

/-! ### `get_data` of the response -/

end SuperTensorBuffer

/-- The batch has run: its cell holds this result, and its trace the times of the run. -/
structure BatchState.Ran (b : BatchState) (result : Except InferError SessionValues) : Prop where
  output : b.output = some result
  times : b.executionTrace.execStart.isSome ∧ b.executionTrace.execEnd.isSome

/-- In a run, a batch that has a result has run. -/
theorem ran_of_runs {w : RingWorld g ℕ} (h : Runs (CounterOps.unbounded g) (Fits g) w) {x : Fin g.capacity} {n : ℕ}
    {result : Except InferError SessionValues} (hout : (w.shared.states x n).output = some result) :
    (w.shared.states x n).Ran result := by
  have hstate : w.shared.batchState (g.start x n) = w.shared.states x n := by
    rw [SuperTensorBuffer.batchState, Geometry.cell_start, Geometry.lap_start]
  rw [← hstate] at hout ⊢
  exact ⟨hout, ((lifecycle_holds h).shared.1.2.output _ result (g.start_dvd _ _) hout).2⟩

/-- A piece of rows, and the result that its batch leaves. -/
def pieceDelivery (batchSize : ℕ) (results : ℕ → Except InferError SessionValues) (q : ℕ × ℕ) : Delivery :=
  ⟨q.1 % batchSize, q.1 % batchSize + q.2, results q.1⟩

namespace SuperTensorBuffer

variable {s later : SuperTensorBuffer g α} {results : ℕ → Except InferError SessionValues}

/-- `get_data` of pieces whose batches have run. -/
theorem getDataFrom_of_ran {pieces : List (ℕ × ℕ)} {data : List (List UInt8)}
    {metadatas : Option (List Metadata × Fin g.capacity × ℕ)}
    (hran : ∀ q ∈ pieces, (later.states (g.cell q.1) (s.trackers (g.cell q.1)).generation).Ran (results q.1))
    (hm : ∀ m x n, metadatas = some (m, x, n) →
      (later.states x n).executionTrace.execStart.isSome ∧ (later.states x n).executionTrace.execEnd.isSome) :
    getDataFrom (pieces.map s.pieceReservation) data metadatas later =
      some (Toutates.getDataFrom (pieces.map (pieceDelivery g.batchSize results)) data (metadatas.map Prod.fst),
        later) := by
  induction pieces generalizing data metadatas with
  | nil =>
    cases metadatas with
    | none => rfl
    | some m =>
      obtain ⟨m, x, n⟩ := m
      rw [List.map_nil, List.map_nil, getDataFrom, Call.read_bind_apply, Call.expect_bind_of_true]
      · rfl
      · rw [Bool.and_eq_true]
        exact hm m x n rfl
  | cons q pieces ih =>
    obtain ⟨hq, hrest⟩ := List.forall_mem_cons.1 hran
    have hout : (later.states (s.pieceReservation q).tracker (s.pieceReservation q).output).output =
        some (results q.1) := hq.output
    rw [List.map_cons, List.map_cons, getDataFrom_cons hout, Toutates.getDataFrom]
    have hdelivery : getDataStep (s.pieceReservation q).start (s.pieceReservation q).stop (results q.1) data
        (metadatas.map Prod.fst) = getDataStep (pieceDelivery g.batchSize results q).start
          (pieceDelivery g.batchSize results q).stop (pieceDelivery g.batchSize results q).result data
            (metadatas.map Prod.fst) := rfl
    rw [hdelivery]
    cases getDataStep (pieceDelivery g.batchSize results q).start (pieceDelivery g.batchSize results q).stop
        (pieceDelivery g.batchSize results q).result data (metadatas.map Prod.fst) with
    | panicked site => rfl
    | err e => rfl
    | ok step =>
      refine (ih hrest fun m x n heq => ?_).trans rfl
      obtain ⟨-, hplace⟩ := Prod.mk.inj (Option.some.inj heq)
      cases metadatas with
      | none =>
        obtain ⟨rfl, rfl⟩ := Prod.mk.inj hplace
        exact hq.times
      | some m' => exact hm m'.1 x n (congrArg some (Prod.ext rfl hplace))

/-- **`get_data` of a response whose batches have run returns exactly when their results can be cut
out.** -/
theorem getData_survives_iff {types : List TensorElementType} {h n : ℕ} {pieces : List (ℕ × ℕ)}
    (hpieces : Pieces g.batchSize h n pieces)
    (hran : ∀ q, h ≤ q → q < h + n →
      (later.states (g.cell q) (s.trackers (g.cell q)).generation).Ran (results q))
    (htypes : ∀ q values, results q = .ok values → values.map DynTensor.dataType = types) :
    Survives (getData (pieces.map s.pieceReservation)) later ↔
      Cuttable types (pieces.map (pieceDelivery g.batchSize results)) := by
  have hmem := hpieces.mem g.batchSize_pos
  have hrun : getData (pieces.map s.pieceReservation) later =
      some (Toutates.getData (pieces.map (pieceDelivery g.batchSize results)), later) := by
    refine getDataFrom_of_ran (fun q hq => ?_) fun _ _ _ h => by cases h
    obtain ⟨hpos, hle, hlt, -⟩ := hmem q hq
    exact hran q.1 hle (by omega)
  have hne : pieces.map (pieceDelivery g.batchSize results) ≠ [] := by
    intro hnil
    obtain rfl := List.map_eq_nil_iff.1 hnil
    cases hpieces
  have hds : ∀ d ∈ pieces.map (pieceDelivery g.batchSize results), d.Typed types := by
    intro d hd
    obtain ⟨q, hq, rfl⟩ := List.mem_map.1 hd
    exact ⟨Nat.le_add_right _ _, fun values hvalues => htypes q.1 values hvalues⟩
  rw [← getData_returns_iff hne hds, Survives, hrun]
  constructor
  · rintro ⟨r, s', heq, hnot⟩
    obtain ⟨rfl, -⟩ := Prod.mk.inj (Option.some.inj heq)
    exact hnot
  · exact fun hnot => ⟨_, _, rfl, hnot⟩

end SuperTensorBuffer

end Toutates
