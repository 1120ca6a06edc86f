/-
# Where the protocol gives up

A panic of the request path is about the bytes and the shapes of a request or of an
output, or about the protocol: an `expect` or an `assert!` that the other threads broke
something.  `Panicking` lists the second kind with the test that leads to each, and
`panicking_of_panicked` is the inversion of `program` for them.
-/

import Toutates.Ring.Transition

namespace Toutates

open Basis

variable {g : Geometry} {α : Type}

/-- The panics that are about the protocol. -/
def Panic.isProtocol : Panic → Bool
  | deadlineSet | queueStartSet | execStartSet | execEndSet | outputSet | batchNotWritten
  | tooManyWritten | traceUnwrap => true
  | _ => false

/-! ### The bytes and the shapes -/

/-- A request without usable rows breaks no protocol. -/
theorem Request.site_of_clientBatchSize {r : Request} {site : Panic}
    (h : r.clientBatchSize = .error site) : site.isProtocol = false := by
  unfold clientBatchSize at h
  split at h
  · cases h
    rfl
  · split at h
    · cases h
      rfl
    · cases h

/-- A slice out of range breaks no protocol. -/
theorem TensorBytes.site_of_sliceDim0 {t : TensorBytes} {start stop : ℕ} {site : Panic}
    (h : t.sliceDim0 start stop = .error site) : site.isProtocol = false := by
  unfold sliceDim0 at h
  split at h
  · cases h
    rfl
  · simp only at h
    split_ifs at h <;> cases h <;> rfl

/-- A copy that panics breaks no protocol. -/
theorem BatchableTensor.site_of_copyInput {batchSize : ℕ} {t : BatchableTensor batchSize}
    {data : List TensorBytes} {i start stop slot : ℕ} {site : Panic}
    (h : t.copyInput data i start stop slot = .panicked site) : site.isProtocol = false := by
  unfold copyInput at h
  split at h
  · cases h
    rfl
  · split at h
    · rename_i hs
      cases h
      exact TensorBytes.site_of_sliceDim0 hs
    · unfold copyAtFromBytes at h
      split at h
      · unfold copyTensorSliceFromBytes at h
        split_ifs at h <;> cases h <;> rfl
      · cases h

/-- Outputs that cannot be cut break no protocol. -/
theorem site_of_extendOutputs {start stop : ℕ} {vs : SessionValues} {i : ℕ} {data : List (List UInt8)}
    {metadatas : List Metadata} {site : Panic}
    (h : extendOutputs start stop vs i data metadatas = .panicked site) : site.isProtocol = false := by
  induction vs generalizing i data metadatas with
  | nil => cases h
  | cons v vs ih =>
    rw [extendOutputs, valueAsByteSlice] at h
    split at h
    · rw [asByteSlice] at h
      split_ifs at h
      · simp only [Attempt.bind] at h
        split at h
        · cases h
          rfl
        · exact ih h
      · cases h
        rfl
    · cases h

/-- Shapes that cannot be merged break no protocol. -/
theorem site_of_mergeMetadata {batch : List Metadata} {i : ℕ} {acc : List Metadata} {site : Panic}
    (h : mergeMetadata batch i acc = .panicked site) : site.isProtocol = false := by
  induction batch generalizing i acc with
  | nil => cases h
  | cons m batch ih =>
    obtain ⟨t, shape⟩ := m
    unfold mergeMetadata at h
    split at h
    · exact ih h
    · cases h
      rfl

/-- Nothing that `get_data` does with an output breaks a protocol. -/
theorem site_of_getDataStep {start stop : ℕ} {result : Except InferError SessionValues}
    {data : List (List UInt8)} {metadatas : Option (List Metadata)} {site : Panic}
    (h : getDataStep start stop result data metadatas = .panicked site) : site.isProtocol = false := by
  unfold getDataStep at h
  cases hr : getResult start stop result data with
  | panicked site' =>
    rw [hr] at h
    cases h
    cases result with
    | error e => cases hr
    | ok values => exact site_of_extendOutputs hr
  | err e =>
    rw [hr] at h
    cases h
  | ok b =>
    rw [hr] at h
    simp only [Attempt.bind] at h
    split at h
    · cases h
    · rename_i acc
      cases hm : mergeMetadata b.2 0 acc with
      | panicked site' =>
        rw [hm] at h
        cases h
        exact site_of_mergeMetadata hm
      | err e =>
        rw [hm] at h
        cases h
      | ok acc' =>
        rw [hm] at h
        cases h

/-! ### The protocol -/

section

variable (ops : CounterOps g α)

/-- The panics of the protocol, each with the thread and the test that leads there. -/
inductive Panicking (s : SuperTensorBuffer g α) : Pc g α → Panic → Prop where
  | deadlineSet (ins now) (h : (s.state (ins.tracker ops)).deadline.isSome) :
    Panicking s (.insert ins (.setDeadline now)) .deadlineSet
  | queueStartSet (ins now) (h : (s.state (ins.tracker ops)).executionTrace.queueStart.isSome) :
    Panicking s (.insert ins (.setQueueStart now)) .queueStartSet
  | traceUnwrap (c metadatas x n) (hm : c.metadatas = some (metadatas, x, n))
      (h : ¬ ((s.states x n).executionTrace.execStart.isSome ∧
        (s.states x n).executionTrace.execEnd.isSome)) :
    Panicking s (.getData c .recordTrace) .traceUnwrap
  | batchNotWritten (e) (h : ops.notBehind s.head (ops.lowerBound e) = false) :
    Panicking s (.execute e .sealLoadHead) .batchNotWritten
  | tooManyWritten (e d) (h : g.batchSize - d < (s.trackers (ops.batchId e)).writtenSlots) :
    Panicking s (.execute e (.sealSpin d)) .tooManyWritten
  | execStartSet (e) (h : (s.state (ops.batchId e)).executionTrace.execStart.isSome) :
    Panicking s (.execute e .setExecStart) .execStartSet
  | execEndSet (e items result) (h : (s.state (ops.batchId e)).executionTrace.execEnd.isSome) :
    Panicking s (.execute e (.setExecEnd items result)) .execEndSet
  | outputSet (e items result) (h : (s.state (ops.batchId e)).output.isSome) :
    Panicking s (.execute e (.setOutput items result)) .outputSet

end

variable [DecidableEq α] {ops : CounterOps g α} {tid : ℕ} {s : SuperTensorBuffer g α} {c : Choice}
  {site : Panic}

omit [DecidableEq α] in
/-- Where `insert_tensors_at` breaks the protocol. -/
theorem panicking_of_stepInsert {ins : Insertion g α} {phase : InsertPhase g}
    (h : stepInsert ops tid s ins phase c = .panicked site) (hsite : site.isProtocol = true) :
    Panicking ops s (.insert ins phase) site := by
  cases phase with
  | copyInput i =>
    cases c <;> simp only [stepInsert, reduceCtorEq] at h
    split at h
    · split at h
      · rename_i hc
        cases h
        exact absurd (BatchableTensor.site_of_copyInput hc) (by simp [hsite])
      · cases h
      · cases h
    · cases h
  | setDeadline now =>
    cases c <;> simp only [stepInsert, reduceCtorEq] at h
    split at h
    · rename_i hd
      cases h
      exact .deadlineSet ins now hd
    · cases h
  | setQueueStart now =>
    cases c <;> simp only [stepInsert, reduceCtorEq] at h
    split at h
    · rename_i hd
      cases h
      exact .queueStartSet ins now hd
    · cases h
  | push r =>
    cases c <;> simp only [stepInsert, reduceCtorEq] at h
    split at h <;> cases h
  | _ => cases c <;> cases h

omit [DecidableEq α] in
/-- Where `get_data` breaks it. -/
theorem panicking_of_stepGetData {col : Collection g} {phase : GetPhase}
    (h : stepGetData tid s col phase c = .panicked site) (hsite : site.isProtocol = true) :
    Panicking ops s (.getData col phase) site := by
  cases phase with
  | createNotified =>
    cases c <;> simp only [stepGetData, reduceCtorEq] at h
    split at h
    · split at h
      · cases h
        cases hsite
      · cases h
    · cases h
  | checkOutput ticket =>
    cases c <;> simp only [stepGetData, reduceCtorEq] at h
    split at h
    · cases h
    · split at h
      · cases h
      · split at h
        · rename_i hd
          cases h
          exact absurd (site_of_getDataStep hd) (by simp [hsite])
        · cases h
        · cases h
  | awaitResponse ticket =>
    cases c <;> simp only [stepGetData, reduceCtorEq] at h
    split at h <;> cases h
  | recordTrace =>
    cases c <;> simp only [stepGetData, reduceCtorEq] at h
    split at h
    · cases h
    · rename_i metadatas x n hm
      split at h
      · cases h
      · rename_i ht
        cases h
        exact .traceUnwrap col metadatas x n hm ht

/-- Where `execute_on_batch` breaks it. -/
theorem panicking_of_stepExecute {e : α} {phase : ExecPhase α}
    (h : stepExecute ops tid s e phase c = .panicked site) : Panicking ops s (.execute e phase) site := by
  cases phase with
  | sealLoadHead =>
    cases c <;> simp only [stepExecute, reduceCtorEq] at h
    split at h
    · cases h
    · rename_i hb
      cases h
      exact .batchNotWritten e (by simpa using hb)
  | sealCasHead hd d =>
    cases c <;> simp only [stepExecute, reduceCtorEq] at h
    split at h <;> cases h
  | sealSpin d =>
    cases c <;> simp only [stepExecute, reduceCtorEq] at h
    split at h
    · cases h
    · split at h
      · cases h
      · cases h
        exact .tooManyWritten e d (by omega)
  | setExecStart =>
    cases c <;> simp only [stepExecute, reduceCtorEq] at h
    split at h
    · rename_i hd
      cases h
      exact .execStartSet e hd
    · cases h
  | setExecEnd items result =>
    cases c <;> simp only [stepExecute, reduceCtorEq] at h
    split at h
    · rename_i hd
      cases h
      exact .execEndSet e items result hd
    · cases h
  | setOutput items result =>
    cases c <;> simp only [stepExecute, reduceCtorEq] at h
    split at h
    · rename_i hd
      cases h
      exact .outputSet e items result hd
    · cases h
  | _ => cases c <;> cases h

/-- **The inversion of `program` for the panics of the protocol.** -/
theorem panicking_of_panicked {pc : Pc g α} (h : program ops tid s pc c = .panicked site)
    (hsite : site.isProtocol = true) : Panicking ops s pc site := by
  cases pc with
  | idle => cases c <;> cases h
  | infer request phase =>
    cases phase with
    | loadHead => cases c <;> cases h
    | loadTail hd =>
      cases c <;> simp only [program, stepInfer, reduceCtorEq] at h
      split at h
      · cases h
      · split at h
        · rename_i hr
          cases h
          exact absurd (Request.site_of_clientBatchSize hr) (by simp [hsite])
        · cases h
    | casHead hd n =>
      cases c <;> simp only [program, stepInfer, reduceCtorEq] at h
      split at h <;> cases h
  | insert ins phase => exact panicking_of_stepInsert h hsite
  | getData col phase => exact panicking_of_stepGetData h hsite
  | claim phase =>
    cases phase with
    | casExecutorHead e =>
      cases c <;> simp only [program, stepClaim, reduceCtorEq] at h
      split at h <;> cases h
    | _ => cases c <;> cases h
  | execute e phase => exact panicking_of_stepExecute h
  | moveTail items phase =>
    cases phase with
    | casDirty t =>
      cases c <;> simp only [program, stepMoveTail, reduceCtorEq] at h
      split at h <;> cases h
    | casTail t =>
      cases c <;> simp only [program, stepMoveTail, reduceCtorEq] at h
      split at h <;> cases h
    | _ => cases c <;> cases h

end Toutates
