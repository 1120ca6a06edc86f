/-
# The shared state of a buffer

`SuperTensorBuffer` of `src/tensor/supertensor.rs` and what it holds: per batch the
input tensors and a `DataTracker`, the three counters, the number of executors in
use and the notifier of executors that wait for room.

A tracker holds its `BatchState` in place and `reset_batch` replaces it, while the
`Arc`s that reservations and executors cloned from the old one stay alive.  Here a
tracker counts its replacements (`generation`) and `states x n` is the `n`-th
`BatchState` that tracker `x` has held, so a clone is the pair of a tracker and a
generation, and a replacement leaves the older states where they are.
-/

import Toutates.Basis.Notify
import Toutates.Ring.Index
import Toutates.Tensor.Output
import Mathlib.Logic.Function.Basic

namespace Toutates

open Basis

/-- `std::time::Instant`, in milliseconds. -/
abbrev Instant := ℕ

/-- `ExecutionTrace`; each cell is set at most once (`OnceCell`). -/
structure ExecutionTrace where
  queueStart : Option Instant
  execStart : Option Instant
  execEnd : Option Instant

/-- `BatchState`. -/
structure BatchState where
  deadline : Option Instant
  output : Option (Except InferError SessionValues)
  executorNotifier : Notify
  responseReadyNotifier : Notify
  executionTrace : ExecutionTrace

/-- `BatchState::new`. -/
def BatchState.new : BatchState where
  deadline := none
  output := none
  executorNotifier := Notify.new
  responseReadyNotifier := Notify.new
  executionTrace := ⟨none, none, none⟩

/-- `DataTracker`: the dirty flag (`0` free, `1` written, `2` executed and reset),
the number of slots written in this lap, and which of its states it holds. -/
structure DataTracker where
  dirty : ℕ
  writtenSlots : ℕ
  generation : ℕ

/-- `SuperTensorBuffer`, with counters of type `α`. -/
structure SuperTensorBuffer (g : Geometry) (α : Type) where
  inputTensors : Fin g.capacity → Fin g.numInputs → BatchableTensor g.batchSize
  trackers : Fin g.capacity → DataTracker
  states : Fin g.capacity → ℕ → BatchState
  head : α
  executorHead : α
  tail : α
  executorsInUse : ℕ
  executorFullNotifier : Notify

namespace SuperTensorBuffer

variable {g : Geometry} {α : Type}

/-- A new buffer: the counters at zero, every tracker clean with a new state,
over the tensors that were allocated for it. -/
def new (ops : CounterOps g α)
    (inputTensors : Fin g.capacity → Fin g.numInputs → BatchableTensor g.batchSize) :
    SuperTensorBuffer g α where
  inputTensors := inputTensors
  trackers _ := ⟨0, 0, 0⟩
  states _ _ := BatchState.new
  head := ops.zero
  executorHead := ops.zero
  tail := ops.zero
  executorsInUse := 0
  executorFullNotifier := Notify.new

/-- The state that tracker `x` holds now. -/
def state (s : SuperTensorBuffer g α) (x : Fin g.capacity) : BatchState :=
  s.states x (s.trackers x).generation

/-- A write to tracker `x`. -/
def modifyTracker (s : SuperTensorBuffer g α) (x : Fin g.capacity) (f : DataTracker → DataTracker) :
    SuperTensorBuffer g α :=
  { s with trackers := Function.update s.trackers x (f (s.trackers x)) }

/-- A write to the `n`-th state of tracker `x`. -/
def modifyState (s : SuperTensorBuffer g α) (x : Fin g.capacity) (n : ℕ)
    (f : BatchState → BatchState) : SuperTensorBuffer g α :=
  { s with states := Function.update s.states x (Function.update (s.states x) n (f (s.states x n))) }

/-- A write to input tensor `i` of batch `x`. -/
def setTensor (s : SuperTensorBuffer g α) (x : Fin g.capacity) (i : Fin g.numInputs)
    (t : BatchableTensor g.batchSize) : SuperTensorBuffer g α :=
  { s with inputTensors := Function.update s.inputTensors x (Function.update (s.inputTensors x) i t) }

section Frame

variable (s : SuperTensorBuffer g α) (x : Fin g.capacity) (n : ℕ)

/-- A write to a tracker leaves everything else. -/
@[simp] theorem modifyTracker_head (f) : (s.modifyTracker x f).head = s.head := rfl
@[simp] theorem modifyTracker_executorHead (f) :
    (s.modifyTracker x f).executorHead = s.executorHead := rfl
@[simp] theorem modifyTracker_tail (f) : (s.modifyTracker x f).tail = s.tail := rfl
@[simp] theorem modifyTracker_states (f) : (s.modifyTracker x f).states = s.states := rfl
@[simp] theorem modifyTracker_inputTensors (f) :
    (s.modifyTracker x f).inputTensors = s.inputTensors := rfl
@[simp] theorem modifyTracker_executorsInUse (f) :
    (s.modifyTracker x f).executorsInUse = s.executorsInUse := rfl
@[simp] theorem modifyTracker_executorFullNotifier (f) :
    (s.modifyTracker x f).executorFullNotifier = s.executorFullNotifier := rfl

/-- A write to a state leaves everything else. -/
@[simp] theorem modifyState_head (f) : (s.modifyState x n f).head = s.head := rfl
@[simp] theorem modifyState_executorHead (f) :
    (s.modifyState x n f).executorHead = s.executorHead := rfl
@[simp] theorem modifyState_tail (f) : (s.modifyState x n f).tail = s.tail := rfl
@[simp] theorem modifyState_trackers (f) : (s.modifyState x n f).trackers = s.trackers := rfl
@[simp] theorem modifyState_inputTensors (f) :
    (s.modifyState x n f).inputTensors = s.inputTensors := rfl

/-- A write to a tensor leaves everything else. -/
@[simp] theorem setTensor_head (i t) : (s.setTensor x i t).head = s.head := rfl
@[simp] theorem setTensor_executorHead (i t) : (s.setTensor x i t).executorHead = s.executorHead := rfl
@[simp] theorem setTensor_tail (i t) : (s.setTensor x i t).tail = s.tail := rfl
@[simp] theorem setTensor_trackers (i t) : (s.setTensor x i t).trackers = s.trackers := rfl
@[simp] theorem setTensor_states (i t) : (s.setTensor x i t).states = s.states := rfl

/-- The trackers after a write to one. -/
theorem modifyTracker_trackers (f) (y : Fin g.capacity) :
    (s.modifyTracker x f).trackers y = if y = x then f (s.trackers x) else s.trackers y := by
  simp only [modifyTracker, Function.update_apply]

/-- A write that keeps the dirty flag of its tracker keeps all of them. -/
theorem modifyTracker_dirty {f} (hf : ∀ d, (f d).dirty = d.dirty) (y : Fin g.capacity) :
    ((s.modifyTracker x f).trackers y).dirty = (s.trackers y).dirty := by
  rw [modifyTracker_trackers]
  split_ifs with hy
  · rw [hf, hy]
  · rfl

/-- A write that keeps the counter of its tracker keeps all of them. -/
theorem modifyTracker_writtenSlots {f} (hf : ∀ d, (f d).writtenSlots = d.writtenSlots)
    (y : Fin g.capacity) :
    ((s.modifyTracker x f).trackers y).writtenSlots = (s.trackers y).writtenSlots := by
  rw [modifyTracker_trackers]
  split_ifs with hy
  · rw [hf, hy]
  · rfl

/-- A write that keeps the generation of its tracker keeps all of them. -/
theorem modifyTracker_generation {f} (hf : ∀ d, (f d).generation = d.generation)
    (y : Fin g.capacity) :
    ((s.modifyTracker x f).trackers y).generation = (s.trackers y).generation := by
  rw [modifyTracker_trackers]
  split_ifs with hy
  · rw [hf, hy]
  · rfl

/-- The states after a write to one. -/
theorem modifyState_states (f) (y : Fin g.capacity) (m : ℕ) :
    (s.modifyState x n f).states y m = if y = x ∧ m = n then f (s.states x n) else s.states y m := by
  simp only [modifyState, Function.update_apply]
  by_cases hy : y = x
  · subst hy
    by_cases hm : m = n
    · simp [hm]
    · simp [hm]
  · simp [hy]

/-- The tensors after a write to one. -/
theorem setTensor_inputTensors (i : Fin g.numInputs) (t) (y : Fin g.capacity) (j : Fin g.numInputs) :
    (s.setTensor x i t).inputTensors y j = if y = x ∧ j = i then t else s.inputTensors y j := by
  simp only [setTensor, Function.update_apply]
  by_cases hy : y = x
  · subst hy
    by_cases hj : j = i
    · simp [hj]
    · simp [hj]
  · simp [hy]

end Frame

/-- The same buffer over other counters. -/
def map {β : Type} (f : α → β) (s : SuperTensorBuffer g α) : SuperTensorBuffer g β where
  inputTensors := s.inputTensors
  trackers := s.trackers
  states := s.states
  head := f s.head
  executorHead := f s.executorHead
  tail := f s.tail
  executorsInUse := s.executorsInUse
  executorFullNotifier := s.executorFullNotifier

end SuperTensorBuffer

end Toutates
