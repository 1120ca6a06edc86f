/-
# Where a thread is

The local state of a thread that calls into a buffer: which function it is in,
at which of its accesses to shared memory, and with which local variables.  The
phases follow the source of `src/tensor/supertensor.rs` line by line; between two
of them a thread touches nothing that another one can see.

A gRPC task calls `infer` and then `get_data` on what it returned (`infer`,
`insert`, `getData`); a session thread calls `execute_on_batch` over and over
(`claim`, `execute`, `moveTail`).  Nothing keeps a thread from doing either when it
is `idle`.

`Event` is what a run is observed by: the successful accesses that reserve, copy,
count, claim, seal, run, reset and retire.  Events are written down only; no step
reads them.
-/

import Toutates.Ring.State
import Toutates.Basis.Interleaving

namespace Toutates

/-- The inputs of a request as `model_infer` passes them to `infer`: it has checked
that dimension 0 of every one of them is positive. -/
structure Request where
  tensors : List TensorBytes
  rows_pos : ∀ t ∈ tensors, ∀ d ∈ t.shape.head?, 0 < d ∧ d < 2 ^ 63

/-- `data[0].shape[0] as usize`. -/
def Request.clientBatchSize (r : Request) : Except Panic ℕ :=
  match r.tensors[0]? with
  | none => .error .inputIndex
  | some t =>
    match t.shape with
    | [] => .error .shapeIndex
    | d :: _ => .ok (asUsize d)

/-- A request that is accepted has a row. -/
theorem Request.clientBatchSize_pos {r : Request} {n : ℕ} (h : r.clientBatchSize = .ok n) : 0 < n := by
  unfold clientBatchSize at h
  split at h
  · simp at h
  · rename_i t ht
    split at h
    · simp at h
    · rename_i d dims hs
      obtain rfl := Except.ok.inj h
      obtain ⟨h₁, h₂⟩ := r.rows_pos t (List.mem_of_getElem? ht) d (by simp [hs])
      rw [asUsize_of_nonneg h₁.le h₂]
      omega

/-- `WriteReservation`: the slots `start .. stop` of a batch of `tracker`, and the
generations its clones of `output`, `execution_trace` and
`response_ready_notifier` were taken from. -/
structure WriteReservation (g : Geometry) where
  tracker : Fin g.capacity
  output : ℕ
  trace : ℕ
  responseReadyNotifier : ℕ
  start : ℕ
  stop : ℕ

/-- `infer` up to its successful CAS. -/
inductive InferPhase (α : Type) where
  | loadHead
  | loadTail (currentHead : α)
  | casHead (currentHead : α) (clientBatchSize : ℕ)

/-- The local variables of the inner loop of `infer`: `batch_id` is the head that
the CAS took, `currentHead` the position of the piece being written, and
`clientBatchSize` the rows still to be written. -/
structure Insertion (g : Geometry) (α : Type) where
  request : Request
  batchId : α
  currentHead : α
  inputStart : ℕ
  clientBatchSize : ℕ
  response : List (WriteReservation g)

namespace Insertion

variable {g : Geometry} {α : Type} (ops : CounterOps g α) (ins : Insertion g α)

/-- `min(client_batch_size, capacity_in_current_batch)`. -/
def toWrite : ℕ := min ins.clientBatchSize (ops.capacityInBatch ins.currentHead)

/-- `input_end`. -/
def inputEnd : ℕ := ins.inputStart + ins.toWrite ops

/-- `idx.as_batch_id()`. -/
def tracker : Fin g.capacity := ops.batchId ins.currentHead

/-- `batch_slot`. -/
def batchSlot : ℕ := ops.slotId ins.currentHead

/-- `batch_slot + (data_end - data_start)`. -/
def slotEnd : ℕ := ins.batchSlot ops + (ins.inputEnd ops - ins.inputStart)

/-- The loop variables of the next piece, which starts the next batch. -/
def next (r : WriteReservation g) : Insertion g α :=
  { ins with
    currentHead := ops.higherBound ins.currentHead
    inputStart := ins.inputEnd ops
    clientBatchSize := ins.clientBatchSize - ins.toWrite ops
    response := ins.response ++ [r] }

end Insertion

/-- `insert_tensors_at`, `WriteReservation::new`, and the end of the loop body of
`infer` (`push`). -/
inductive InsertPhase (g : Geometry) where
  | copyInput (i : ℕ)
  | storeDirty
  | setDeadline (now : Instant)
  | setQueueStart (now : Instant)
  | cloneOutput
  | cloneTrace (output : ℕ)
  | cloneNotifier (output trace : ℕ)
  | addWritten (output trace notifier : ℕ)
  | notifyExecutor (r : WriteReservation g)
  | push (r : WriteReservation g)

/-- The local variables of `get_data`: the reservations not read yet, the bytes so
far, and the metadata so far with the execution trace of the first reservation. -/
structure Collection (g : Geometry) where
  outputs : List (WriteReservation g)
  data : List (List UInt8)
  metadatas : Option (List Metadata × Fin g.capacity × ℕ)

/-- `get_data` with `get_result` inlined, and `record_execution_trace` after it. -/
inductive GetPhase where
  | createNotified
  | checkOutput (ticket : ℕ)
  | awaitResponse (ticket : ℕ)
  | recordTrace

/-- `execute_on_batch` up to its successful CAS. -/
inductive ClaimPhase (α : Type) where
  | loadExecutorHead
  | loadTail (e : α)
  | createFullNotified
  | awaitFull (ticket : ℕ)
  | casExecutorHead (e : α)

/-- `execute_on_batch` from its CAS to the end of `reset_batch`, with
`seal_current_batch` and `execute_current_batch` inlined. -/
inductive ExecPhase (α : Type) where
  | cloneNotifier
  | createNotified (n : ℕ)
  | firstWait (n ticket : ℕ)
  | createNotifiedFull (n : ℕ)
  | loadHead (n ticket : ℕ)
  | readDeadline (n ticket : ℕ)
  | deadlineWait (n ticket : ℕ)
  | sealLoadHead
  | sealCasHead (head : α) (remainingOpenSlots : ℕ)
  | sealSpin (remainingOpenSlots : ℕ)
  | setExecStart
  | loadBatchItems
  | enterUse (items : ℕ)
  | invoke (items : ℕ)
  | running (items : ℕ)
  | setExecEnd (items : ℕ) (result : Except InferError SessionValues)
  | setOutput (items : ℕ) (result : Except InferError SessionValues)
  | cloneResponseNotifier (items : ℕ)
  | notifyResponse (items n : ℕ)
  | replaceState (items : ℕ)
  | resetWritten (items : ℕ)
  | resetDirty (items : ℕ)

/-- `move_tail_to_next_non_dirty_buffer`, and the end of `execute_on_batch`
(`leave`). -/
inductive MovePhase (α : Type) where
  | loadTail
  | loadHead (tail : α)
  | loadDirty (tail : α)
  | casDirty (tail : α)
  | casTail (tail : α)
  | notifyFull
  | leave

/-- Where a thread is. -/
inductive Pc (g : Geometry) (α : Type) where
  | idle
  | infer (request : Request) (phase : InferPhase α)
  | insert (ins : Insertion g α) (phase : InsertPhase g)
  | getData (c : Collection g) (phase : GetPhase)
  | claim (phase : ClaimPhase α)
  | execute (e : α) (phase : ExecPhase α)
  | moveTail (items : ℕ) (phase : MovePhase α)

/-- What the scheduler and the world outside give a step: nothing, a spurious
failure of `compare_exchange_weak`, the time, a deadline that passed, the result
of the session, or a call. -/
inductive Choice where
  | go
  | spurious
  | clock (now : Instant)
  | timeout
  | ran (result : Except InferError SessionValues)
  | infer (request : Request)
  | executeOnBatch

/-- What a run is observed by. -/
inductive Event (g : Geometry) (α : Type) where
  /-- A call of `infer` took `rows` positions from `head` on. -/
  | reserved (thread : ℕ) (head : α) (rows : ℕ)
  /-- `infer` or `get_data` returned an error. -/
  | failed (thread : ℕ) (error : InferError)
  /-- Input `input` of the `rows` rows from position `index` on was copied. -/
  | copied (index : α) (input rows : ℕ)
  /-- `written_slots` counted the `rows` rows from position `index` on. -/
  | counted (index : α) (rows : ℕ)
  /-- `infer` returned the reservations of the `rows` rows it took from `head` on. -/
  | responded (thread : ℕ) (head : α) (rows : ℕ) (response : List (WriteReservation g))
  /-- `get_data` returned, and the trace was recorded. -/
  | answered (thread : ℕ) (data : List (List UInt8)) (metadatas : List Metadata)
  /-- An executor claimed the batch at `e`. -/
  | claimed (e : α)
  /-- The executor of the batch at `e` left its first wait. -/
  | woken (e : α)
  /-- `seal_current_batch` moved `head` over the `slots` open slots of the batch. -/
  | padded (e head : α) (slots : ℕ)
  /-- `seal_current_batch` returned. -/
  | sealed (e : α)
  /-- `f` was called on the batch at `e`. -/
  | invoked (e : α)
  /-- `f` returned. -/
  | ran (e : α) (result : Except InferError SessionValues)
  /-- `reset_batch` replaced the state of the tracker of the batch at `e`. -/
  | replaced (e : α)
  /-- `reset_batch` set `written_slots` to zero. -/
  | wiped (e : α)
  /-- `reset_batch` set `dirty` to 2: the batch is reset. -/
  | finished (e : α)
  /-- A `move_tail` call that loaded `tail` changed the dirty flag from 2 to 0. -/
  | flagTaken (tail : α)
  /-- ... and moved the tail on. -/
  | retired (tail : α)
  /-- ... and failed to move the tail. -/
  | notRetired (tail : α)
  /-- `execute_on_batch` returned. -/
  | executed (items : ℕ)

end Toutates
