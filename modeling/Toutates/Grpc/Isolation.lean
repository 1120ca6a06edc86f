/-
# The slots of a request

A request that `model_infer` lets through copies its inputs into the slots that it takes on
the ring.  Its shapes have been checked and its bytes have not, so whether the copy stays in
these slots and fills them is up to the client.
-/

import Toutates.Grpc.Infer
import Toutates.Ring.Copying

namespace Toutates

open Basis

variable {g : Geometry}

/-- **Slots are isolated exactly where the rows of the request have the size of the model's.**
In every run of calls, whatever state of the ring they start from, for every request that
passes the checks of `model_infer` and every reservation of slots that it obtains: a copy of
one of its inputs that returns leaves the slots with the request's own bytes, whatever was
there before, and the rest of the tensor as it was, if and only if the bytes of that input,
divided by its declared dimension 0, are those of a row of the model's input. -/
theorem slots_isolated_iff_rows_match {w₀ w : RingWorld g ℕ} (h₀ : ∀ i, w₀.threads i = .idle)
    (h : Reach (program (CounterOps.unbounded g)) anyStep w₀ w)
    {models : String → Option ModelProxy} {request : ModelInferRequest} {j : ℕ} {ins : Insertion g ℕ}
    (hreq : modelInfer models request = .ok ins.request.tensors) {i : Fin g.numInputs}
    (hpc : w.threads j = .insert ins (.copyInput i)) {t' : BatchableTensor g.batchSize}
    (hok : (ins.copy w.shared i).result = .ok t') :
    (∃ w', (program (CounterOps.unbounded g)).step w ⟨j, .go⟩ = some w' ∧
      w'.shared = w.shared.setTensor (ins.tracker (CounterOps.unbounded g)) i t') ∧
    ∃ tensor dim0 dims, ins.request.tensors[i.val]? = some tensor ∧ tensor.shape = dim0 :: dims ∧
      0 < dim0 ∧ ((ins.copy w.shared i).Isolated tensor ↔
        tensor.bytesPerIndex (asUsize dim0) = (ins.copy w.shared i).t.rowBytes) := by
  have hpositive := positive_of_reach h h₀ j
  rw [hpc] at hpositive
  obtain ⟨hn, hslot⟩ := ins.copy_slots (s := w.shared) (i := i) hpositive
  obtain ⟨tensor, dim0, dims, hi, hshape⟩ := Copy.tensor_of_ok hok
  have hpos := rows_pos_of_modelInfer hreq tensor (List.mem_of_getElem? hi) dim0 (by rw [hshape]; rfl)
  obtain ⟨w', hs, hs', -⟩ := step_copy hpc hok
  exact ⟨⟨w', hs, hs'⟩, tensor, dim0, dims, hi, hshape, hpos.1,
    Copy.isolated_iff hi hshape hn hslot hok⟩

/-- A model with one input of bytes, one byte a row. -/
def byteModels : String → Option ModelProxy := fun _ =>
  some ⟨[⟨"x", [-1, 1]⟩], fun name => if name = "x" then some 0 else none⟩

/-- A request of one row for it, with these bytes. -/
def rawRequest (raw : List UInt8) : ModelInferRequest :=
  ⟨"m", [⟨"x", "UINT8", [1, 1], by decide⟩], [raw]⟩

/-- A request of one row is accepted with any raw bytes. -/
theorem modelInfer_rawRequest (raw : List UInt8) :
    modelInfer byteModels (rawRequest raw) = .ok [⟨.typeUint8, [1, 1], raw⟩] := rfl

/-- The row that such a request asks for. -/
def rawRow (raw : List UInt8) : Request := .ofModelInfer (modelInfer_rawRequest raw)

/-- The request that a client is about to copy the first input of, whether the copy returns, and
the bytes of a row of the tensor. -/
def Pc.copies (s : SuperTensorBuffer twoByTwo ℕ) : Pc twoByTwo ℕ → Option (List TensorBytes × Bool × ℕ)
  | .insert ins (.copyInput 0) =>
    let c := ins.copy s ⟨0, by decide⟩
    some (ins.request.tensors, match c.result with | .ok _ => true | _ => false, c.t.rowBytes)
  | _ => none

/-- A thread that copies is at the copy of its input. -/
theorem Pc.of_copies {s : SuperTensorBuffer twoByTwo ℕ} {pc : Pc twoByTwo ℕ} {tensors : List TensorBytes}
    {n : ℕ} (h : pc.copies s = some (tensors, true, n)) :
    ∃ ins t', pc = .insert ins (.copyInput 0) ∧ ins.request.tensors = tensors ∧
      (ins.copy s ⟨0, by decide⟩).result = .ok t' ∧ (ins.copy s ⟨0, by decide⟩).t.rowBytes = n := by
  unfold copies at h
  split at h
  · rename_i ins
    obtain ⟨htensors, hrest⟩ := Prod.mk.inj (Option.some.inj h)
    obtain ⟨hres, hn⟩ := Prod.mk.inj hrest
    split at hres
    · rename_i t' ht'
      exact ⟨ins, t', rfl, htensors, ht', hn⟩
    · cases hres
  · cases h

/-- A client that sends one byte for its row is alone in its slot. -/
theorem slots_isolated_iff_rows_match_twoByTwo :
    ∃ (w : RingWorld twoByTwo ℕ) (ins : Insertion twoByTwo ℕ) (tensor : TensorBytes),
      w.threads 2 = .insert ins (.copyInput 0) ∧
        (ins.copy w.shared ⟨0, by decide⟩).Isolated tensor := by
  have hreq := modelInfer_rawRequest [7]
  have hrun : (runFresh (CounterOps.unbounded twoByTwo) (fun _ _ _ _ => true) (fun _ _ => byteTensor 2)
      (reserve 2 (rawRow [7]))).map (fun w => (w.threads 2).copies w.shared) =
      some (some ([⟨.typeUint8, [1, 1], [7]⟩], true, 1)) := by decide +kernel
  obtain ⟨w, hrun, hw⟩ := world_of_runFresh _ hrun
  obtain ⟨ins, t', hpc, htensors, hok, hrow⟩ := Pc.of_copies hw
  rw [← htensors] at hreq
  obtain ⟨-, tensor, dim0, dims, hi, hshape, -, hiff⟩ := slots_isolated_iff_rows_match
    (fun _ => rfl) (reach_of_runFresh (fun _ _ _ _ _ => True.intro) hrun) hreq hpc hok
  obtain rfl : (⟨.typeUint8, [1, 1], [7]⟩ : TensorBytes) = tensor := by
    rw [htensors] at hi
    exact Option.some.inj hi
  obtain ⟨rfl, -⟩ := List.cons.inj hshape
  exact ⟨w, ins, _, hpc, hiff.2 (by rw [hrow]; decide)⟩

/-- A client that sends two bytes for its row writes to the slot of its neighbour. -/
theorem slots_can_be_overrun :
    ¬ ∀ (g : Geometry) (w : RingWorld g ℕ) (models : String → Option ModelProxy)
      (request : ModelInferRequest) (j : ℕ) (ins : Insertion g ℕ) (i : Fin g.numInputs)
      (t' : BatchableTensor g.batchSize) (tensor : TensorBytes),
      Runs (CounterOps.unbounded g) anyStep w → modelInfer models request = .ok ins.request.tensors →
        w.threads j = .insert ins (.copyInput i) → (ins.copy w.shared i).result = .ok t' →
        ins.request.tensors[i.val]? = some tensor → (ins.copy w.shared i).Isolated tensor := by
  intro hall
  have hreq := modelInfer_rawRequest [7, 8]
  have hrun : (runFresh (CounterOps.unbounded twoByTwo) (fun _ _ _ _ => true) (fun _ _ => byteTensor 2)
      (reserve 2 (rawRow [7, 8]))).map (fun w => (w.threads 2).copies w.shared) =
      some (some ([⟨.typeUint8, [1, 1], [7, 8]⟩], true, 1)) := by decide +kernel
  obtain ⟨w, hrun, hw⟩ := world_of_runFresh _ hrun
  obtain ⟨ins, t', hpc, htensors, hok, hrow⟩ := Pc.of_copies hw
  have hruns : Runs (CounterOps.unbounded twoByTwo) anyStep w :=
    Runs.of_runFresh (fun _ _ _ _ _ => True.intro) hrun
  have hheads := (heads_holds hruns).own 2
  rw [hpc] at hheads
  obtain ⟨hn, hslot⟩ := ins.copy_slots (s := w.shared) (i := ⟨0, by decide⟩) hheads.positive
  have hi : ins.request.tensors[0]? = some ⟨.typeUint8, [1, 1], [7, 8]⟩ := by rw [htensors]; rfl
  rw [← htensors] at hreq
  have hiso := hall twoByTwo w byteModels _ 2 ins _ t' _ hruns hreq hpc hok hi
  have heq := (Copy.isolated_iff hi rfl hn hslot hok).1 hiso
  rw [hrow] at heq
  exact absurd heq (by decide)

end Toutates
