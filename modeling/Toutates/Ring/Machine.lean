/-
# The steps of the protocol

Every access of `SuperTensorBuffer` to shared memory as one atomic step: the loads
and compare-and-swaps of the three counters, the accesses to a tracker and its
state, each tensor copy of `insert_tensors_at`, and the polls and calls of the
notifiers.  `program` dispatches to the function a thread is in; a run of it
(`Basis.Reach`) is a sequentially consistent interleaving of any number of calls
of `infer` with `get_data`, and of `execute_on_batch`.

`compare_exchange_weak` may fail although the value is the expected one
(`Choice.spurious`).  `sleep_until` of a batch's deadline may fire at any time
(`Choice.timeout`), and `f` may return anything (`Choice.ran`).  An `expect`, an
`assert!` or a slice index that fails panics, and the process ends there.
-/

import Toutates.Ring.Thread

namespace Toutates

open Basis

variable {g : Geometry} {α : Type}

/-- What a step of a thread on a buffer does. -/
abbrev StepResult (g : Geometry) (α : Type) :=
  Outcome (SuperTensorBuffer g α) (Pc g α) (Event g α) Panic

variable [DecidableEq α] (ops : CounterOps g α)

/-- `SuperTensorBuffer::infer`, until it owns its rows. -/
def stepInfer (tid : ℕ) (s : SuperTensorBuffer g α) (request : Request) :
    InferPhase α → Choice → StepResult g α
  | .loadHead, .go => .next s (.infer request (.loadTail s.head)) none
  | .loadTail h, .go =>
    if ops.isFull h s.tail then .next s .idle (some (.failed tid .ringFull))
    else
      match request.clientBatchSize with
      | .error site => .panicked site
      | .ok n => .next s (.infer request (.casHead h n)) none
  | .casHead h n, .go =>
    if s.head = h then
      .next { s with head := ops.add h n } (.insert ⟨request, h, h, 0, n, []⟩ (.copyInput 0))
        (some (.reserved tid h n))
    else .next s (.infer request .loadHead) none
  | .casHead _ _, .spurious => .next s (.infer request .loadHead) none
  | _, _ => .blocked

/-- The inner loop of `SuperTensorBuffer::infer` with `insert_tensors_at`. -/
def stepInsert (tid : ℕ) (s : SuperTensorBuffer g α) (ins : Insertion g α) :
    InsertPhase g → Choice → StepResult g α
  | .copyInput i, .go =>
    if h : i < g.numInputs then
      match (s.inputTensors (ins.tracker ops) ⟨i, h⟩).copyInput ins.request.tensors i ins.inputStart
        (ins.inputEnd ops) (ins.batchSlot ops) with
      | .panicked site => .panicked site
      | .err e => .next s .idle (some (.failed tid e))
      | .ok t =>
        .next (s.setTensor (ins.tracker ops) ⟨i, h⟩ t) (.insert ins (.copyInput (i + 1)))
          (some (.copied ins.currentHead i (ins.toWrite ops)))
    else .next s (.insert ins (if ins.batchSlot ops = 0 then .storeDirty else .cloneOutput)) none
  | .storeDirty, .clock now =>
    .next (s.modifyTracker (ins.tracker ops) fun d => { d with dirty := 1 })
      (.insert ins (.setDeadline now)) none
  | .setDeadline now, .go =>
    if (s.state (ins.tracker ops)).deadline.isSome then .panicked .deadlineSet
    else
      .next (s.modifyState (ins.tracker ops) (s.trackers (ins.tracker ops)).generation
          fun b => { b with deadline := some (now + 2) })
        (.insert ins (.setQueueStart now)) none
  | .setQueueStart now, .go =>
    if (s.state (ins.tracker ops)).executionTrace.queueStart.isSome then .panicked .queueStartSet
    else
      .next (s.modifyState (ins.tracker ops) (s.trackers (ins.tracker ops)).generation
          fun b => { b with executionTrace := { b.executionTrace with queueStart := some now } })
        (.insert ins .cloneOutput) none
  | .cloneOutput, .go =>
    .next s (.insert ins (.cloneTrace (s.trackers (ins.tracker ops)).generation)) none
  | .cloneTrace o, .go =>
    .next s (.insert ins (.cloneNotifier o (s.trackers (ins.tracker ops)).generation)) none
  | .cloneNotifier o t, .go =>
    .next s (.insert ins (.addWritten o t (s.trackers (ins.tracker ops)).generation)) none
  | .addWritten o t n, .go =>
    let r : WriteReservation g :=
      ⟨ins.tracker ops, o, t, n, ins.batchSlot ops, ins.slotEnd ops⟩
    .next (s.modifyTracker (ins.tracker ops) fun d =>
        { d with writtenSlots := d.writtenSlots + (ins.slotEnd ops - ins.batchSlot ops) })
      (.insert ins (if ins.batchSlot ops = 0 ∨ ins.slotEnd ops = g.batchSize then .notifyExecutor r
        else .push r))
      (some (.counted ins.currentHead (ins.toWrite ops)))
  | .notifyExecutor r, .go =>
    .next (s.modifyState (ins.tracker ops) (s.trackers (ins.tracker ops)).generation
        fun b => { b with executorNotifier := b.executorNotifier.notifyOne })
      (.insert ins (.push r)) none
  | .push r, .go =>
    if ins.clientBatchSize - ins.toWrite ops = 0 then
      .next s (.getData ⟨ins.response ++ [r], [], none⟩ .createNotified)
        (some (.responded tid ins.batchId (ins.inputEnd ops) (ins.response ++ [r])))
    else .next s (.insert (ins.next ops r) (.copyInput 0)) none
  | _, _ => .blocked

/-- `InferenceResponse::get_data` and `ClientTrace::record_execution_trace`. -/
def stepGetData (tid : ℕ) (s : SuperTensorBuffer g α) (c : Collection g) :
    GetPhase → Choice → StepResult g α
  | .createNotified, .go =>
    match c.outputs with
    | [] =>
      match c.metadatas with
      | none => .panicked .noReservation
      | some _ => .next s (.getData c .recordTrace) none
    | r :: _ =>
      .next s (.getData c (.checkOutput
        (s.states r.tracker r.responseReadyNotifier).responseReadyNotifier.notified)) none
  | .checkOutput ticket, .go =>
    match c.outputs with
    | [] => .blocked
    | r :: rest =>
      match (s.states r.tracker r.output).output with
      | none => .next s (.getData c (.awaitResponse ticket)) none
      | some result =>
        match getDataStep r.start r.stop result c.data (c.metadatas.map Prod.fst) with
        | .panicked site => .panicked site
        | .err e => .next s .idle (some (.failed tid e))
        | .ok (data, metadatas) =>
          .next s (.getData ⟨rest, data,
            some (metadatas, (c.metadatas.map Prod.snd).getD (r.tracker, r.trace))⟩ .createNotified) none
  | .awaitResponse ticket, .go =>
    match c.outputs with
    | [] => .blocked
    | r :: _ =>
      let polled := (s.states r.tracker r.responseReadyNotifier).responseReadyNotifier.poll ticket tid
      .next (s.modifyState r.tracker r.responseReadyNotifier
          fun b => { b with responseReadyNotifier := polled.2 })
        (.getData c (if polled.1 then .createNotified else .awaitResponse ticket)) none
  | .recordTrace, .go =>
    match c.metadatas with
    | none => .blocked
    | some (metadatas, x, n) =>
      if (s.states x n).executionTrace.execStart.isSome ∧ (s.states x n).executionTrace.execEnd.isSome then
        .next s .idle (some (.answered tid c.data metadatas))
      else .panicked .traceUnwrap
  | _, _ => .blocked

/-- `SuperTensorBuffer::execute_on_batch`, until it owns its batch. -/
def stepClaim (tid : ℕ) (s : SuperTensorBuffer g α) : ClaimPhase α → Choice → StepResult g α
  | .loadExecutorHead, .go => .next s (.claim (.loadTail s.executorHead)) none
  | .loadTail e, .go =>
    .next s (.claim (if ops.isFull e s.tail then .createFullNotified else .casExecutorHead e)) none
  | .createFullNotified, .go => .next s (.claim (.awaitFull s.executorFullNotifier.notified)) none
  | .awaitFull ticket, .go =>
    let polled := s.executorFullNotifier.poll ticket tid
    .next { s with executorFullNotifier := polled.2 }
      (.claim (if polled.1 then .loadExecutorHead else .awaitFull ticket)) none
  | .casExecutorHead e, .go =>
    if s.executorHead = e then
      .next { s with executorHead := ops.add e g.batchSize } (.execute e .cloneNotifier)
        (some (.claimed e))
    else .next s (.claim .loadExecutorHead) none
  | .casExecutorHead _, .spurious => .next s (.claim .loadExecutorHead) none
  | _, _ => .blocked

/-- The rest of `execute_on_batch` up to the end of `reset_batch`, with
`seal_current_batch` and `execute_current_batch`, for the batch at `e`. -/
def stepExecute (tid : ℕ) (s : SuperTensorBuffer g α) (e : α) :
    ExecPhase α → Choice → StepResult g α
  | .cloneNotifier, .go =>
    .next s (.execute e (.createNotified (s.trackers (ops.batchId e)).generation)) none
  | .createNotified n, .go =>
    .next s (.execute e (.firstWait n (s.states (ops.batchId e) n).executorNotifier.notified)) none
  | .firstWait n ticket, .go =>
    let polled := (s.states (ops.batchId e) n).executorNotifier.poll ticket tid
    .next (s.modifyState (ops.batchId e) n fun b => { b with executorNotifier := polled.2 })
      (.execute e (if polled.1 then .createNotifiedFull n else .firstWait n ticket))
      (if polled.1 then some (.woken e) else none)
  | .createNotifiedFull n, .go =>
    .next s (.execute e (.loadHead n (s.states (ops.batchId e) n).executorNotifier.notified)) none
  | .loadHead n ticket, .go =>
    .next s (.execute e (if (ops.distToHigher e s.head).isSome then .readDeadline n ticket
      else .sealLoadHead)) none
  | .readDeadline n ticket, .go =>
    .next s (.execute e (if (s.state (ops.batchId e)).deadline.isSome then .deadlineWait n ticket
      else .sealLoadHead)) none
  | .deadlineWait n ticket, .go =>
    let polled := (s.states (ops.batchId e) n).executorNotifier.poll ticket tid
    .next (s.modifyState (ops.batchId e) n fun b => { b with executorNotifier := polled.2 })
      (.execute e (if polled.1 then .sealLoadHead else .deadlineWait n ticket)) none
  | .deadlineWait n _, .timeout =>
    .next (s.modifyState (ops.batchId e) n
        fun b => { b with executorNotifier := b.executorNotifier.cancel tid })
      (.execute e .sealLoadHead) none
  | .sealLoadHead, .go =>
    if ops.notBehind s.head (ops.lowerBound e) then
      .next s (.execute e (match ops.distToHigher e s.head with
        | some d => .sealCasHead s.head d
        | none => .sealSpin 0)) none
    else .panicked .batchNotWritten
  | .sealCasHead h d, .go =>
    if s.head = h then
      .next { s with head := ops.add h d } (.execute e (.sealSpin d)) (some (.padded e h d))
    else .next s (.execute e .sealLoadHead) none
  | .sealCasHead _ _, .spurious => .next s (.execute e .sealLoadHead) none
  | .sealSpin d, .go =>
    let writtenSlots := (s.trackers (ops.batchId e)).writtenSlots
    if writtenSlots = g.batchSize - d then .next s (.execute e .setExecStart) (some (.sealed e))
    else if writtenSlots < g.batchSize - d then .next s (.execute e (.sealSpin d)) none
    else .panicked .tooManyWritten
  | .setExecStart, .clock now =>
    if (s.state (ops.batchId e)).executionTrace.execStart.isSome then .panicked .execStartSet
    else
      .next (s.modifyState (ops.batchId e) (s.trackers (ops.batchId e)).generation
          fun b => { b with executionTrace := { b.executionTrace with execStart := some now } })
        (.execute e .loadBatchItems) none
  | .loadBatchItems, .go =>
    .next s (.execute e (.enterUse (s.trackers (ops.batchId e)).writtenSlots)) none
  | .enterUse items, .go =>
    .next { s with executorsInUse := s.executorsInUse + 1 } (.execute e (.invoke items)) none
  | .invoke items, .go => .next s (.execute e (.running items)) (some (.invoked e))
  | .running items, .ran result =>
    .next s (.execute e (.setExecEnd items result)) (some (.ran e result))
  | .setExecEnd items result, .clock now =>
    if (s.state (ops.batchId e)).executionTrace.execEnd.isSome then .panicked .execEndSet
    else
      .next (s.modifyState (ops.batchId e) (s.trackers (ops.batchId e)).generation
          fun b => { b with executionTrace := { b.executionTrace with execEnd := some now } })
        (.execute e (.setOutput items result)) none
  | .setOutput items result, .go =>
    if (s.state (ops.batchId e)).output.isSome then .panicked .outputSet
    else
      .next (s.modifyState (ops.batchId e) (s.trackers (ops.batchId e)).generation
          fun b => { b with output := some result })
        (.execute e (.cloneResponseNotifier items)) none
  | .cloneResponseNotifier items, .go =>
    .next s (.execute e (.notifyResponse items (s.trackers (ops.batchId e)).generation)) none
  | .notifyResponse items n, .go =>
    .next (s.modifyState (ops.batchId e) n
        fun b => { b with responseReadyNotifier := b.responseReadyNotifier.notifyWaiters })
      (.execute e (.replaceState items)) none
  | .replaceState items, .go =>
    .next ((s.modifyState (ops.batchId e) ((s.trackers (ops.batchId e)).generation + 1)
          fun _ => BatchState.new).modifyTracker (ops.batchId e)
          fun d => { d with generation := d.generation + 1 })
      (.execute e (.resetWritten items)) (some (.replaced e))
  | .resetWritten items, .go =>
    .next (s.modifyTracker (ops.batchId e) fun d => { d with writtenSlots := 0 })
      (.execute e (.resetDirty items)) (some (.wiped e))
  | .resetDirty items, .go =>
    .next (s.modifyTracker (ops.batchId e) fun d => { d with dirty := 2 })
      (.moveTail items .loadTail) (some (.finished e))
  | _, _ => .blocked

/-- `move_tail_to_next_non_dirty_buffer`, and the return of `execute_on_batch`. -/
def stepMoveTail (s : SuperTensorBuffer g α) (items : ℕ) : MovePhase α → Choice → StepResult g α
  | .loadTail, .go => .next s (.moveTail items (.loadHead s.tail)) none
  | .loadHead t, .go =>
    .next s (.moveTail items
      (if ops.notBehind (ops.higherBound t) s.head then .leave else .loadDirty t)) none
  | .loadDirty t, .go =>
    .next s (.moveTail items
      (if (s.trackers (ops.batchId t)).dirty = 2 then .casDirty t else .leave)) none
  | .casDirty t, .go =>
    if (s.trackers (ops.batchId t)).dirty = 2 then
      .next (s.modifyTracker (ops.batchId t) fun d => { d with dirty := 0 })
        (.moveTail items (.casTail t)) (some (.flagTaken t))
    else .next s (.moveTail items .leave) none
  | .casDirty _, .spurious => .next s (.moveTail items .leave) none
  | .casTail t, .go =>
    if s.tail = t then
      .next { s with tail := ops.higherBound t } (.moveTail items .notifyFull) (some (.retired t))
    else .next s (.moveTail items .leave) (some (.notRetired t))
  | .casTail t, .spurious => .next s (.moveTail items .leave) (some (.notRetired t))
  | .notifyFull, .go =>
    .next { s with executorFullNotifier := s.executorFullNotifier.notifyWaiters }
      (.moveTail items .loadTail) none
  | .leave, .go =>
    .next { s with executorsInUse := s.executorsInUse - 1 } .idle (some (.executed items))
  | _, _ => .blocked

/-- One step of a thread. -/
def program : Program (SuperTensorBuffer g α) (Pc g α) (Event g α) Panic Choice :=
  fun tid s pc c =>
    match pc with
    | .idle =>
      match c with
      | .infer request => .next s (.infer request .loadHead) none
      | .executeOnBatch => .next s (.claim .loadExecutorHead) none
      | _ => .blocked
    | .infer request phase => stepInfer ops tid s request phase c
    | .insert ins phase => stepInsert ops tid s ins phase c
    | .getData col phase => stepGetData tid s col phase c
    | .claim phase => stepClaim ops tid s phase c
    | .execute e phase => stepExecute ops tid s e phase c
    | .moveTail items phase => stepMoveTail ops s items phase c

/-- A buffer, the threads on it, and what has been observed. -/
abbrev RingWorld (g : Geometry) (α : Type) := World (SuperTensorBuffer g α) (Pc g α) (Event g α)

/-- A new buffer that nobody has called yet. -/
def fresh (inputTensors : Fin g.capacity → Fin g.numInputs → BatchableTensor g.batchSize) :
    RingWorld g α where
  shared := SuperTensorBuffer.new ops inputTensors
  threads _ := .idle
  log := []

end Toutates
