/-
# The copies of a client

What `insert_tensors_at` does to an input tensor, as one `Copy`.  `new_with_overrides`
allocates the tensors of every batch from the same outlets of the model, and a copy changes
nothing but data, so in every run the tensors of a tracker are those of the model
(`tensors_of_reach`).  For a request that has the rows of the model (`Request.Matches`) a
copy returns where its element type has an arm in `copy_at_from_bytes`, and is refused where
it has none.
-/

import Toutates.Ring.Rows
import Toutates.Tensor.Isolation

namespace Toutates

open Basis

variable {g : Geometry}

/-- The copy of input `i` that a client is at. -/
def Insertion.copy (ins : Insertion g ℕ) (s : SuperTensorBuffer g ℕ) (i : Fin g.numInputs) :
    Copy g.batchSize where
  t := s.inputTensors (ins.tracker (CounterOps.unbounded g)) i
  data := ins.request.tensors
  i := i
  start := ins.inputStart
  stop := ins.inputEnd (CounterOps.unbounded g)
  slot := ins.batchSlot (CounterOps.unbounded g)

/-- The copies of a client are of some rows, to slots of one batch. -/
theorem Insertion.copy_slots {ins : Insertion g ℕ} {s : SuperTensorBuffer g ℕ} {i : Fin g.numInputs}
    (hpos : 0 < ins.clientBatchSize) :
    (ins.copy s i).start < (ins.copy s i).stop ∧
      (ins.copy s i).slot + ((ins.copy s i).stop - (ins.copy s i).start) ≤ g.batchSize := by
  have hwrite := ins.toWrite_pos hpos
  have hend := ins.piece_le
  have hmod : Blocks.lower g.batchSize ins.currentHead + ins.batchSlot (CounterOps.unbounded g) =
      ins.currentHead := Blocks.lower_add_mod g.batchSize ins.currentHead
  simp only [copy, inputEnd]
  omega

section Steps

variable {w : RingWorld g ℕ} {j : ℕ} {ins : Insertion g ℕ} {i : Fin g.numInputs}

/-- The step of a client at a copy that returns. -/
theorem step_copy {t' : BatchableTensor g.batchSize} (hpc : w.threads j = .insert ins (.copyInput i))
    (hok : (ins.copy w.shared i).result = .ok t') :
    ∃ w', (program (CounterOps.unbounded g)).step w ⟨j, .go⟩ = some w' ∧
      w'.shared = w.shared.setTensor (ins.tracker (CounterOps.unbounded g)) i t' ∧
      w'.threads j = .insert ins (.copyInput (i + 1)) := by
  have hc : (w.shared.inputTensors (ins.tracker (CounterOps.unbounded g)) ⟨i, i.isLt⟩).copyInput
      ins.request.tensors i ins.inputStart (ins.inputEnd (CounterOps.unbounded g))
      (ins.batchSlot (CounterOps.unbounded g)) = .ok t' := hok
  have hP : program (CounterOps.unbounded g) j w.shared (w.threads j) .go =
      .next (w.shared.setTensor (ins.tracker (CounterOps.unbounded g)) i t')
        (.insert ins (.copyInput (i + 1)))
        (some (.copied ins.currentHead i (ins.toWrite (CounterOps.unbounded g)))) := by
    simp only [hpc, program, stepInsert, i.isLt, dite_true, hc]
  obtain ⟨w', hs, hshared, hpc', -⟩ := Program.step_of_next hP
  exact ⟨w', hs, hshared, hpc'⟩

/-- The step of a client at a copy that is refused. -/
theorem step_copyFailed {e : InferError} (hpc : w.threads j = .insert ins (.copyInput i))
    (herr : (ins.copy w.shared i).result = .err e) :
    ∃ w', (program (CounterOps.unbounded g)).step w ⟨j, .go⟩ = some w' ∧ w'.shared = w.shared ∧
      w'.log = .failed j e :: w.log := by
  have hc : (w.shared.inputTensors (ins.tracker (CounterOps.unbounded g)) ⟨i, i.isLt⟩).copyInput
      ins.request.tensors i ins.inputStart (ins.inputEnd (CounterOps.unbounded g))
      (ins.batchSlot (CounterOps.unbounded g)) = .err e := herr
  have hP : program (CounterOps.unbounded g) j w.shared (w.threads j) .go =
      .next w.shared .idle (some (.failed j e)) := by
    simp only [hpc, program, stepInsert, i.isLt, dite_true, hc]
  obtain ⟨w', hs, hshared, -, hlog⟩ := Program.step_of_next hP
  exact ⟨w', hs, hshared, hlog⟩

end Steps

/-! ### The tensors of a model -/

/-- An input of a loaded model: its element type, and its shape behind the batch dimension. -/
structure Outlet where
  dataType : TensorElementType
  dims : List ℤ

/-- The bytes of a row of an input that can be written. -/
def Outlet.rowBytes (o : Outlet) : ℕ := numElements (1 :: o.dims) * o.dataType.copyWidth.getD 0

/-- `copy_at_from_bytes` has an arm for the element type. -/
def Outlet.Supported (o : Outlet) : Prop := o.dataType.copyWidth.isSome

instance (o : Outlet) : Decidable o.Supported := inferInstanceAs (Decidable (_ = true))

/-- The tensor is one that `BatchableTensor::new` allocates for the outlet. -/
structure Outlet.Of {batchSize : ℕ} (o : Outlet) (t : BatchableTensor batchSize) : Prop where
  dataType : t.dataType = o.dataType
  singleTensorShape : t.singleTensorShape = 1 :: o.dims

/-- The bytes of a row of a tensor are those of its outlet. -/
theorem Outlet.Of.rowBytes {batchSize : ℕ} {o : Outlet} {t : BatchableTensor batchSize} (h : o.Of t) :
    t.rowBytes = o.rowBytes := by
  rw [BatchableTensor.rowBytes, BatchableTensor.tensorSize, h.singleTensorShape, h.dataType, Outlet.rowBytes]

/-- The input tensors of every batch are those of the model. -/
def SuperTensorBuffer.TensorsOf (s : SuperTensorBuffer g ℕ) (model : Fin g.numInputs → Outlet) : Prop :=
  ∀ x i, (model i).Of (s.inputTensors x i)

/-- A step changes nothing but the data of the tensors. -/
theorem Transition.tensorsOf {ops : CounterOps g ℕ} {j : ℕ} {s s' : SuperTensorBuffer g ℕ} {pc pc' : Pc g ℕ}
    {c : Choice} {e : Option (Event g ℕ)} {model : Fin g.numInputs → Outlet}
    (ht : Transition ops j s pc c s' pc' e) (hs : s.TensorsOf model) : s'.TensorsOf model := by
  cases ht with
  | copy ins k hk t hc =>
    intro x i
    rw [SuperTensorBuffer.setTensor_inputTensors]
    split_ifs with hxi
    · obtain ⟨rfl, rfl⟩ := hxi
      obtain ⟨htype, hshape⟩ := BatchableTensor.copyInput_frame hc
      exact ⟨htype.trans (hs _ _).dataType, hshape.trans (hs _ _).singleTensorShape⟩
    · exact hs x i
  | _ => exact hs

/-- In every run the tensors are those of the model. -/
theorem tensorsOf_of_reach {ops : CounterOps g ℕ} {ok : RingGuard g ℕ} {w₀ w : RingWorld g ℕ}
    {model : Fin g.numInputs → Outlet} (h : Reach (program ops) ok w₀ w)
    (h₀ : w₀.shared.TensorsOf model) : w.shared.TensorsOf model := by
  refine h.invariant (I := fun v => v.shared.TensorsOf model) h₀ fun v a v' _ hv _ hs => ?_
  obtain ⟨e, ht, -⟩ := transition_of_step hs
  exact ht.tensorsOf hv

/-! ### The rows of a request -/

/-- The request has a tensor for every input of the model, of `n` declared rows, and the bytes
of `n` rows where the model's rows are of a type that is written. -/
def Request.Matches (r : Request) (model : Fin g.numInputs → Outlet) (n : ℕ) : Prop :=
  ∀ i, ∃ tensor dim0 dims, r.tensors[i.val]? = some tensor ∧ tensor.shape = dim0 :: dims ∧
    asUsize dim0 = n ∧ ((model i).Supported → tensor.data.length = n * (model i).rowBytes)

section Matches

variable {s : SuperTensorBuffer g ℕ} {model : Fin g.numInputs → Outlet} {ins : Insertion g ℕ} {n : ℕ}
  {i : Fin g.numInputs}

/-- A client with rows left copies the ones it has to inputs of supported types. -/
theorem Insertion.copy_ok (hs : s.TensorsOf model) (hr : ins.request.Matches model n)
    (hpos : 0 < ins.clientBatchSize) (hn : ins.inputStart + ins.clientBatchSize = n)
    (hsup : (model i).Supported) : ∃ t', (ins.copy s i).result = .ok t' := by
  obtain ⟨tensor, dim0, dims, hi, hshape, hdim, hdata⟩ := hr i
  obtain ⟨hlt, hslot⟩ := ins.copy_slots (s := s) (i := i) hpos
  obtain ⟨w, hw⟩ := Option.isSome_iff_exists.1 hsup
  have hof := hs (ins.tracker (CounterOps.unbounded g)) i
  have hw' : (ins.copy s i).t.dataType.copyWidth = some w := by
    rw [← hw, ← hof.dataType]
    rfl
  refine Copy.result_ok hi hshape hlt ?_ hslot hw' ?_
  · have hle : ins.toWrite (CounterOps.unbounded g) ≤ ins.clientBatchSize := min_le_left _ _
    simp only [copy, inputEnd, hdim]
    omega
  · have hrow : (ins.copy s i).t.tensorSize * w = (model i).rowBytes := by
      rw [← hof.rowBytes, BatchableTensor.rowBytes]
      exact congrArg _ (congrArg (Option.getD · 0) hw').symm
    rw [hrow, hdim]
    exact hdata hsup

/-- A client with rows left is refused at an input of a type that is not supported. -/
theorem Insertion.copy_err (hs : s.TensorsOf model) (hr : ins.request.Matches model n)
    (hpos : 0 < ins.clientBatchSize) (hn : ins.inputStart + ins.clientBatchSize = n)
    (hsup : ¬ (model i).Supported) : (ins.copy s i).result = .err .unsupportedDataType := by
  obtain ⟨tensor, dim0, dims, hi, hshape, hdim, -⟩ := hr i
  obtain ⟨hlt, -⟩ := ins.copy_slots (s := s) (i := i) hpos
  refine Copy.result_err hi hshape hlt ?_ ?_
  · have hle : ins.toWrite (CounterOps.unbounded g) ≤ ins.clientBatchSize := min_le_left _ _
    simp only [copy, inputEnd, hdim]
    omega
  · rw [← Option.not_isSome_iff_eq_none]
    intro hsome
    refine hsup ?_
    rw [Outlet.Supported, ← (hs (ins.tracker (CounterOps.unbounded g)) i).dataType]
    exact hsome

end Matches

end Toutates
