/-
# What one step can do

`Transition` lists the successful steps of `program`, one constructor for each
branch of the source that ends in a different place, with the test that leads
there as a hypothesis.  `transition_of_next` is the inversion of `program`, proved
once; no proof about runs unfolds `program` again.

`Runs` are the runs of the ring from a new buffer, under a guard, and
`Runs.threadInv` is their run rule: an invariant that a new buffer satisfies and
every transition allowed by the guard keeps holds in every world reached.
-/

import Toutates.Ring.Machine

namespace Toutates

open Basis

variable {g : Geometry} {α : Type}

section Transition

variable (ops : CounterOps g α)

/-- The successful steps of thread `tid`: the buffer and the thread before, the
choice, and the buffer, the thread and the event after. -/
inductive Transition (tid : ℕ) (s : SuperTensorBuffer g α) : Pc g α → Choice →
    SuperTensorBuffer g α → Pc g α → Option (Event g α) → Prop where
  -- calls
  | callInfer (request) :
    Transition tid s .idle (.infer request) s (.infer request .loadHead) none
  | callExecute :
    Transition tid s .idle .executeOnBatch s (.claim .loadExecutorHead) none
  -- `infer`
  | loadHead (request) :
    Transition tid s (.infer request .loadHead) .go s (.infer request (.loadTail s.head)) none
  | ringFull (request h) (hfull : ops.isFull h s.tail = true) :
    Transition tid s (.infer request (.loadTail h)) .go s .idle (some (.failed tid .ringFull))
  | notFull (request h n) (hfull : ops.isFull h s.tail = false)
      (hn : request.clientBatchSize = .ok n) :
    Transition tid s (.infer request (.loadTail h)) .go s (.infer request (.casHead h n)) none
  | reserve (request h n) (hh : s.head = h) :
    Transition tid s (.infer request (.casHead h n)) .go { s with head := ops.add h n }
      (.insert ⟨request, h, h, 0, n, []⟩ (.copyInput 0)) (some (.reserved tid h n))
  | reserveFailed (request h n c) :
    Transition tid s (.infer request (.casHead h n)) c s (.infer request .loadHead) none
  -- `insert_tensors_at`
  | copy (ins i) (h : i < g.numInputs) (t)
      (hc : (s.inputTensors (ins.tracker ops) ⟨i, h⟩).copyInput ins.request.tensors i ins.inputStart
        (ins.inputEnd ops) (ins.batchSlot ops) = .ok t) :
    Transition tid s (.insert ins (.copyInput i)) .go (s.setTensor (ins.tracker ops) ⟨i, h⟩ t)
      (.insert ins (.copyInput (i + 1))) (some (.copied ins.currentHead i (ins.toWrite ops)))
  | copyFailed (ins i) (h : i < g.numInputs) (e)
      (hc : (s.inputTensors (ins.tracker ops) ⟨i, h⟩).copyInput ins.request.tensors i ins.inputStart
        (ins.inputEnd ops) (ins.batchSlot ops) = .err e) :
    Transition tid s (.insert ins (.copyInput i)) .go s .idle (some (.failed tid e))
  | copiedFirst (ins i) (h : g.numInputs ≤ i) (hslot : ins.batchSlot ops = 0) :
    Transition tid s (.insert ins (.copyInput i)) .go s (.insert ins .storeDirty) none
  | copiedLater (ins i) (h : g.numInputs ≤ i) (hslot : ins.batchSlot ops ≠ 0) :
    Transition tid s (.insert ins (.copyInput i)) .go s (.insert ins .cloneOutput) none
  | storeDirty (ins now) :
    Transition tid s (.insert ins .storeDirty) (.clock now)
      (s.modifyTracker (ins.tracker ops) fun d => { d with dirty := 1 })
      (.insert ins (.setDeadline now)) none
  | setDeadline (ins now) (hd : (s.state (ins.tracker ops)).deadline = none) :
    Transition tid s (.insert ins (.setDeadline now)) .go
      (s.modifyState (ins.tracker ops) (s.trackers (ins.tracker ops)).generation
        fun b => { b with deadline := some (now + 2) })
      (.insert ins (.setQueueStart now)) none
  | setQueueStart (ins now)
      (hd : (s.state (ins.tracker ops)).executionTrace.queueStart = none) :
    Transition tid s (.insert ins (.setQueueStart now)) .go
      (s.modifyState (ins.tracker ops) (s.trackers (ins.tracker ops)).generation
        fun b => { b with executionTrace := { b.executionTrace with queueStart := some now } })
      (.insert ins .cloneOutput) none
  | cloneOutput (ins) :
    Transition tid s (.insert ins .cloneOutput) .go s
      (.insert ins (.cloneTrace (s.trackers (ins.tracker ops)).generation)) none
  | cloneTrace (ins o) :
    Transition tid s (.insert ins (.cloneTrace o)) .go s
      (.insert ins (.cloneNotifier o (s.trackers (ins.tracker ops)).generation)) none
  | cloneNotifier (ins o t) :
    Transition tid s (.insert ins (.cloneNotifier o t)) .go s
      (.insert ins (.addWritten o t (s.trackers (ins.tracker ops)).generation)) none
  | addWritten (ins o t n r)
      (hr : r = ⟨ins.tracker ops, o, t, n, ins.batchSlot ops, ins.slotEnd ops⟩) (phase)
      (hp : phase = if ins.batchSlot ops = 0 ∨ ins.slotEnd ops = g.batchSize then .notifyExecutor r
        else .push r) :
    Transition tid s (.insert ins (.addWritten o t n)) .go
      (s.modifyTracker (ins.tracker ops) fun d =>
        { d with writtenSlots := d.writtenSlots + (ins.slotEnd ops - ins.batchSlot ops) })
      (.insert ins phase) (some (.counted ins.currentHead (ins.toWrite ops)))
  | notifyExecutor (ins r) :
    Transition tid s (.insert ins (.notifyExecutor r)) .go
      (s.modifyState (ins.tracker ops) (s.trackers (ins.tracker ops)).generation
        fun b => { b with executorNotifier := b.executorNotifier.notifyOne })
      (.insert ins (.push r)) none
  | respond (ins r) (h : ins.clientBatchSize - ins.toWrite ops = 0) :
    Transition tid s (.insert ins (.push r)) .go s
      (.getData ⟨ins.response ++ [r], [], none⟩ .createNotified)
      (some (.responded tid ins.batchId (ins.inputEnd ops) (ins.response ++ [r])))
  | nextBatch (ins r) (h : ins.clientBatchSize - ins.toWrite ops ≠ 0) :
    Transition tid s (.insert ins (.push r)) .go s (.insert (ins.next ops r) (.copyInput 0)) none
  -- `get_data`
  | allRead (c m) (hc : c.outputs = []) (hm : c.metadatas = some m) :
    Transition tid s (.getData c .createNotified) .go s (.getData c .recordTrace) none
  | createNotified (c ticket) :
    Transition tid s (.getData c .createNotified) .go s (.getData c (.checkOutput ticket)) none
  | notReady (c ticket) :
    Transition tid s (.getData c (.checkOutput ticket)) .go s (.getData c (.awaitResponse ticket)) none
  | resultFailed (c ticket e) :
    Transition tid s (.getData c (.checkOutput ticket)) .go s .idle (some (.failed tid e))
  | read (c ticket r rest result data metadatas) (hc : c.outputs = r :: rest)
      (ho : (s.states r.tracker r.output).output = some result)
      (hd : getDataStep r.start r.stop result c.data (c.metadatas.map Prod.fst) = .ok (data, metadatas)) :
    Transition tid s (.getData c (.checkOutput ticket)) .go s
      (.getData ⟨rest, data, some (metadatas, (c.metadatas.map Prod.snd).getD (r.tracker, r.trace))⟩
        .createNotified) none
  | awaitResponse (c ticket x n polled phase)
      (hp : phase = .createNotified ∨ phase = .awaitResponse ticket) :
    Transition tid s (.getData c (.awaitResponse ticket)) .go
      (s.modifyState x n fun b => { b with responseReadyNotifier := polled }) (.getData c phase) none
  | answer (c metadatas x n) (hm : c.metadatas = some (metadatas, x, n)) :
    Transition tid s (.getData c .recordTrace) .go s .idle (some (.answered tid c.data metadatas))
  -- `execute_on_batch` up to its claim
  | loadExecutorHead :
    Transition tid s (.claim .loadExecutorHead) .go s (.claim (.loadTail s.executorHead)) none
  | noRoom (e) (hfull : ops.isFull e s.tail = true) :
    Transition tid s (.claim (.loadTail e)) .go s (.claim .createFullNotified) none
  | room (e) (hfull : ops.isFull e s.tail = false) :
    Transition tid s (.claim (.loadTail e)) .go s (.claim (.casExecutorHead e)) none
  | createFullNotified :
    Transition tid s (.claim .createFullNotified) .go s
      (.claim (.awaitFull s.executorFullNotifier.notified)) none
  | awaitFull (ticket phase) (hp : phase = .loadExecutorHead ∨ phase = .awaitFull ticket) :
    Transition tid s (.claim (.awaitFull ticket)) .go
      { s with executorFullNotifier := (s.executorFullNotifier.poll ticket tid).2 } (.claim phase) none
  | claim (e) (he : s.executorHead = e) :
    Transition tid s (.claim (.casExecutorHead e)) .go
      { s with executorHead := ops.add e g.batchSize } (.execute e .cloneNotifier) (some (.claimed e))
  | claimFailed (e c) :
    Transition tid s (.claim (.casExecutorHead e)) c s (.claim .loadExecutorHead) none
  -- the waits of `execute_on_batch`
  | cloneExecutorNotifier (e) :
    Transition tid s (.execute e .cloneNotifier) .go s
      (.execute e (.createNotified (s.trackers (ops.batchId e)).generation)) none
  | createFirst (e n ticket) :
    Transition tid s (.execute e (.createNotified n)) .go s (.execute e (.firstWait n ticket)) none
  | wake (e n ticket)
      (hp : ((s.states (ops.batchId e) n).executorNotifier.poll ticket tid).1 = true) :
    Transition tid s (.execute e (.firstWait n ticket)) .go
      (s.modifyState (ops.batchId e) n
        fun b => { b with executorNotifier :=
          ((s.states (ops.batchId e) n).executorNotifier.poll ticket tid).2 })
      (.execute e (.createNotifiedFull n)) (some (.woken e))
  | stillWaiting (e n ticket)
      (hp : ((s.states (ops.batchId e) n).executorNotifier.poll ticket tid).1 = false) :
    Transition tid s (.execute e (.firstWait n ticket)) .go
      (s.modifyState (ops.batchId e) n
        fun b => { b with executorNotifier :=
          ((s.states (ops.batchId e) n).executorNotifier.poll ticket tid).2 })
      (.execute e (.firstWait n ticket)) none
  | createSecond (e n ticket) :
    Transition tid s (.execute e (.createNotifiedFull n)) .go s (.execute e (.loadHead n ticket)) none
  | batchFull (e n ticket) :
    Transition tid s (.execute e (.loadHead n ticket)) .go s (.execute e .sealLoadHead) none
  | batchOpen (e n ticket) :
    Transition tid s (.execute e (.loadHead n ticket)) .go s (.execute e (.readDeadline n ticket)) none
  | noDeadline (e n ticket) :
    Transition tid s (.execute e (.readDeadline n ticket)) .go s (.execute e .sealLoadHead) none
  | deadline (e n ticket) :
    Transition tid s (.execute e (.readDeadline n ticket)) .go s (.execute e (.deadlineWait n ticket)) none
  | deadlinePoll (e n ticket phase) (hp : phase = .sealLoadHead ∨ phase = .deadlineWait n ticket) :
    Transition tid s (.execute e (.deadlineWait n ticket)) .go
      (s.modifyState (ops.batchId e) n
        fun b => { b with executorNotifier :=
          ((s.states (ops.batchId e) n).executorNotifier.poll ticket tid).2 })
      (.execute e phase) none
  | deadlinePassed (e n ticket) :
    Transition tid s (.execute e (.deadlineWait n ticket)) .timeout
      (s.modifyState (ops.batchId e) n
        fun b => { b with executorNotifier := b.executorNotifier.cancel tid })
      (.execute e .sealLoadHead) none
  -- `seal_current_batch`
  | sealOpen (e d) (hb : ops.notBehind s.head (ops.lowerBound e) = true)
      (hd : ops.distToHigher e s.head = some d) :
    Transition tid s (.execute e .sealLoadHead) .go s (.execute e (.sealCasHead s.head d)) none
  | sealClosed (e) (hb : ops.notBehind s.head (ops.lowerBound e) = true)
      (hd : ops.distToHigher e s.head = none) :
    Transition tid s (.execute e .sealLoadHead) .go s (.execute e (.sealSpin 0)) none
  | pad (e h d) (hh : s.head = h) :
    Transition tid s (.execute e (.sealCasHead h d)) .go { s with head := ops.add h d }
      (.execute e (.sealSpin d)) (some (.padded e h d))
  | padFailed (e h d c) :
    Transition tid s (.execute e (.sealCasHead h d)) c s (.execute e .sealLoadHead) none
  | sealed (e d) (hw : (s.trackers (ops.batchId e)).writtenSlots = g.batchSize - d) :
    Transition tid s (.execute e (.sealSpin d)) .go s (.execute e .setExecStart) (some (.sealed e))
  | spin (e d) (hw : (s.trackers (ops.batchId e)).writtenSlots < g.batchSize - d) :
    Transition tid s (.execute e (.sealSpin d)) .go s (.execute e (.sealSpin d)) none
  -- `execute_current_batch`
  | setExecStart (e now)
      (hd : (s.state (ops.batchId e)).executionTrace.execStart = none) :
    Transition tid s (.execute e .setExecStart) (.clock now)
      (s.modifyState (ops.batchId e) (s.trackers (ops.batchId e)).generation
        fun b => { b with executionTrace := { b.executionTrace with execStart := some now } })
      (.execute e .loadBatchItems) none
  | loadBatchItems (e) :
    Transition tid s (.execute e .loadBatchItems) .go s
      (.execute e (.enterUse (s.trackers (ops.batchId e)).writtenSlots)) none
  | enterUse (e items) :
    Transition tid s (.execute e (.enterUse items)) .go
      { s with executorsInUse := s.executorsInUse + 1 } (.execute e (.invoke items)) none
  | invoke (e items) :
    Transition tid s (.execute e (.invoke items)) .go s (.execute e (.running items))
      (some (.invoked e))
  | ran (e items result) :
    Transition tid s (.execute e (.running items)) (.ran result) s
      (.execute e (.setExecEnd items result)) (some (.ran e result))
  | setExecEnd (e items result now)
      (hd : (s.state (ops.batchId e)).executionTrace.execEnd = none) :
    Transition tid s (.execute e (.setExecEnd items result)) (.clock now)
      (s.modifyState (ops.batchId e) (s.trackers (ops.batchId e)).generation
        fun b => { b with executionTrace := { b.executionTrace with execEnd := some now } })
      (.execute e (.setOutput items result)) none
  | setOutput (e items result) (hd : (s.state (ops.batchId e)).output = none) :
    Transition tid s (.execute e (.setOutput items result)) .go
      (s.modifyState (ops.batchId e) (s.trackers (ops.batchId e)).generation
        fun b => { b with output := some result })
      (.execute e (.cloneResponseNotifier items)) none
  | cloneResponseNotifier (e items) :
    Transition tid s (.execute e (.cloneResponseNotifier items)) .go s
      (.execute e (.notifyResponse items (s.trackers (ops.batchId e)).generation)) none
  | notifyResponse (e items n) :
    Transition tid s (.execute e (.notifyResponse items n)) .go
      (s.modifyState (ops.batchId e) n
        fun b => { b with responseReadyNotifier := b.responseReadyNotifier.notifyWaiters })
      (.execute e (.replaceState items)) none
  -- `reset_batch`
  | replaceState (e items) :
    Transition tid s (.execute e (.replaceState items)) .go
      ((s.modifyState (ops.batchId e) ((s.trackers (ops.batchId e)).generation + 1)
        fun _ => BatchState.new).modifyTracker (ops.batchId e)
        fun d => { d with generation := d.generation + 1 })
      (.execute e (.resetWritten items)) (some (.replaced e))
  | resetWritten (e items) :
    Transition tid s (.execute e (.resetWritten items)) .go
      (s.modifyTracker (ops.batchId e) fun d => { d with writtenSlots := 0 })
      (.execute e (.resetDirty items)) (some (.wiped e))
  | resetDirty (e items) :
    Transition tid s (.execute e (.resetDirty items)) .go
      (s.modifyTracker (ops.batchId e) fun d => { d with dirty := 2 })
      (.moveTail items .loadTail) (some (.finished e))
  -- `move_tail_to_next_non_dirty_buffer`
  | moveLoadTail (items) :
    Transition tid s (.moveTail items .loadTail) .go s (.moveTail items (.loadHead s.tail)) none
  | moveStop (items t) :
    Transition tid s (.moveTail items (.loadHead t)) .go s (.moveTail items .leave) none
  | moveGo (items t) (hb : ops.notBehind (ops.higherBound t) s.head = false) :
    Transition tid s (.moveTail items (.loadHead t)) .go s (.moveTail items (.loadDirty t)) none
  | isDirty (items t) (hd : (s.trackers (ops.batchId t)).dirty = 2) :
    Transition tid s (.moveTail items (.loadDirty t)) .go s (.moveTail items (.casDirty t)) none
  | notDirty (items t) (hd : (s.trackers (ops.batchId t)).dirty ≠ 2) :
    Transition tid s (.moveTail items (.loadDirty t)) .go s (.moveTail items .leave) none
  | takeFlag (items t) (hd : (s.trackers (ops.batchId t)).dirty = 2) :
    Transition tid s (.moveTail items (.casDirty t)) .go
      (s.modifyTracker (ops.batchId t) fun d => { d with dirty := 0 })
      (.moveTail items (.casTail t)) (some (.flagTaken t))
  | takeFlagFailed (items t c) :
    Transition tid s (.moveTail items (.casDirty t)) c s (.moveTail items .leave) none
  | retire (items t) (ht : s.tail = t) :
    Transition tid s (.moveTail items (.casTail t)) .go { s with tail := ops.higherBound t }
      (.moveTail items .notifyFull) (some (.retired t))
  | retireFailed (items t c) (h : c = .spurious ∨ s.tail ≠ t) :
    Transition tid s (.moveTail items (.casTail t)) c s (.moveTail items .leave)
      (some (.notRetired t))
  | notifyFull (items) :
    Transition tid s (.moveTail items .notifyFull) .go
      { s with executorFullNotifier := s.executorFullNotifier.notifyWaiters }
      (.moveTail items .loadTail) none
  | leave (items) :
    Transition tid s (.moveTail items .leave) .go { s with executorsInUse := s.executorsInUse - 1 }
      .idle (some (.executed items))

end Transition

section Inversion

variable [DecidableEq α] {ops : CounterOps g α} {tid : ℕ} {s s' : SuperTensorBuffer g α}
  {pc' : Pc g α} {c : Choice} {ev : Option (Event g α)}

/-- A step of `infer` is one of its transitions. -/
theorem transition_of_stepInfer {request : Request} {phase : InferPhase α}
    (h : stepInfer ops tid s request phase c = .next s' pc' ev) :
    Transition ops tid s (.infer request phase) c s' pc' ev := by
  cases phase with
  | loadHead =>
    cases c <;> cases h
    exact .loadHead request
  | loadTail hd =>
    cases c <;> simp only [stepInfer, reduceCtorEq] at h
    split at h
    · rename_i hf
      cases h
      exact .ringFull request hd hf
    · rename_i hf
      split at h
      · cases h
      · rename_i n hn
        cases h
        exact .notFull request hd n (by simpa using hf) hn
  | casHead hd n =>
    cases c <;> simp only [stepInfer, reduceCtorEq] at h
    · split at h
      · rename_i hh
        cases h
        exact .reserve request hd n hh
      · cases h
        exact .reserveFailed request hd n _
    · cases h
      exact .reserveFailed request hd n _

omit [DecidableEq α] in
/-- A step of `insert_tensors_at` is one of its transitions. -/
theorem transition_of_stepInsert {ins : Insertion g α} {phase : InsertPhase g}
    (h : stepInsert ops tid s ins phase c = .next s' pc' ev) :
    Transition ops tid s (.insert ins phase) c s' pc' ev := by
  cases phase with
  | copyInput i =>
    cases c <;> simp only [stepInsert, reduceCtorEq] at h
    split at h
    · rename_i hi
      split at h
      · cases h
      · rename_i e hc
        cases h
        exact .copyFailed ins i hi e hc
      · rename_i t hc
        cases h
        exact .copy ins i hi t hc
    · rename_i hi
      cases h
      split
      · rename_i hslot
        exact .copiedFirst ins i (Nat.le_of_not_lt hi) hslot
      · rename_i hslot
        exact .copiedLater ins i (Nat.le_of_not_lt hi) hslot
  | storeDirty =>
    cases c <;> cases h
    exact .storeDirty ins _
  | setDeadline now =>
    cases c <;> simp only [stepInsert, reduceCtorEq] at h
    split at h
    · cases h
    · rename_i hd
      cases h
      exact .setDeadline ins now (by simpa using hd)
  | setQueueStart now =>
    cases c <;> simp only [stepInsert, reduceCtorEq] at h
    split at h
    · cases h
    · rename_i hd
      cases h
      exact .setQueueStart ins now (by simpa using hd)
  | cloneOutput =>
    cases c <;> cases h
    exact .cloneOutput ins
  | cloneTrace o =>
    cases c <;> cases h
    exact .cloneTrace ins o
  | cloneNotifier o t =>
    cases c <;> cases h
    exact .cloneNotifier ins o t
  | addWritten o t n =>
    cases c <;> cases h
    exact .addWritten ins o t n _ rfl _ rfl
  | notifyExecutor r =>
    cases c <;> cases h
    exact .notifyExecutor ins r
  | push r =>
    cases c <;> simp only [stepInsert, reduceCtorEq] at h
    split at h
    · rename_i hz
      cases h
      exact .respond ins r hz
    · rename_i hz
      cases h
      exact .nextBatch ins r hz

omit [DecidableEq α] in
/-- A step of `get_data` is one of its transitions. -/
theorem transition_of_stepGetData {col : Collection g} {phase : GetPhase}
    (h : stepGetData tid s col phase c = .next s' pc' ev) :
    Transition ops tid s (.getData col phase) c s' pc' ev := by
  cases phase with
  | createNotified =>
    cases c <;> simp only [stepGetData, reduceCtorEq] at h
    split at h
    · rename_i hc
      split at h
      · cases h
      · rename_i m hm
        cases h
        exact .allRead col m hc hm
    · cases h
      exact .createNotified col _
  | checkOutput ticket =>
    cases c <;> simp only [stepGetData, reduceCtorEq] at h
    split at h
    · cases h
    · rename_i r rest hc
      split at h
      · cases h
        exact .notReady col ticket
      · rename_i result ho
        split at h
        · cases h
        · cases h
          exact .resultFailed col ticket _
        · rename_i data metadatas hd
          cases h
          exact .read col ticket r rest result data metadatas hc ho hd
  | awaitResponse ticket =>
    cases c <;> simp only [stepGetData, reduceCtorEq] at h
    split at h
    · cases h
    · cases h
      refine .awaitResponse col ticket _ _ _ _ ?_
      split
      · exact .inl rfl
      · exact .inr rfl
  | recordTrace =>
    cases c <;> simp only [stepGetData, reduceCtorEq] at h
    split at h
    · cases h
    · rename_i metadatas x n hm
      split at h
      · cases h
        exact .answer col metadatas x n hm
      · cases h

/-- A step of a claim is one of its transitions. -/
theorem transition_of_stepClaim {phase : ClaimPhase α}
    (h : stepClaim ops tid s phase c = .next s' pc' ev) :
    Transition ops tid s (.claim phase) c s' pc' ev := by
  cases phase with
  | loadExecutorHead =>
    cases c <;> cases h
    exact .loadExecutorHead
  | loadTail e =>
    cases c <;> cases h
    split
    · rename_i hf
      exact .noRoom e hf
    · rename_i hf
      exact .room e (by simpa using hf)
  | createFullNotified =>
    cases c <;> cases h
    exact .createFullNotified
  | awaitFull ticket =>
    cases c <;> cases h
    refine .awaitFull ticket _ ?_
    split
    · exact .inl rfl
    · exact .inr rfl
  | casExecutorHead e =>
    cases c <;> simp only [stepClaim, reduceCtorEq] at h
    · split at h
      · rename_i he
        cases h
        exact .claim e he
      · cases h
        exact .claimFailed e _
    · cases h
      exact .claimFailed e _

/-- A step of `execute_on_batch` is one of its transitions. -/
theorem transition_of_stepExecute {e : α} {phase : ExecPhase α}
    (h : stepExecute ops tid s e phase c = .next s' pc' ev) :
    Transition ops tid s (.execute e phase) c s' pc' ev := by
  cases phase with
  | cloneNotifier =>
    cases c <;> cases h
    exact .cloneExecutorNotifier e
  | createNotified n =>
    cases c <;> cases h
    exact .createFirst e n _
  | firstWait n ticket =>
    cases c <;> cases h
    split
    · rename_i hp
      exact .wake e n ticket hp
    · rename_i hp
      exact .stillWaiting e n ticket (by simpa using hp)
  | createNotifiedFull n =>
    cases c <;> cases h
    exact .createSecond e n _
  | loadHead n ticket =>
    cases c <;> cases h
    split
    · exact .batchOpen e n ticket
    · exact .batchFull e n ticket
  | readDeadline n ticket =>
    cases c <;> cases h
    split
    · exact .deadline e n ticket
    · exact .noDeadline e n ticket
  | deadlineWait n ticket =>
    cases c <;> cases h
    · refine .deadlinePoll e n ticket _ ?_
      split
      · exact .inl rfl
      · exact .inr rfl
    · exact .deadlinePassed e n ticket
  | sealLoadHead =>
    cases c <;> simp only [stepExecute, reduceCtorEq] at h
    split at h
    · rename_i hb
      cases h
      split
      · rename_i d hd
        exact .sealOpen e d hb hd
      · rename_i hd
        exact .sealClosed e hb hd
    · cases h
  | sealCasHead hd d =>
    cases c <;> simp only [stepExecute, reduceCtorEq] at h
    · split at h
      · rename_i hh
        cases h
        exact .pad e hd d hh
      · cases h
        exact .padFailed e hd d _
    · cases h
      exact .padFailed e hd d _
  | sealSpin d =>
    cases c <;> simp only [stepExecute, reduceCtorEq] at h
    split at h
    · rename_i hw
      cases h
      exact .sealed e d hw
    · split at h
      · rename_i hw
        cases h
        exact .spin e d hw
      · cases h
  | setExecStart =>
    cases c <;> simp only [stepExecute, reduceCtorEq] at h
    split at h
    · cases h
    · rename_i hd
      cases h
      exact .setExecStart e _ (by simpa using hd)
  | loadBatchItems =>
    cases c <;> cases h
    exact .loadBatchItems e
  | enterUse items =>
    cases c <;> cases h
    exact .enterUse e items
  | invoke items =>
    cases c <;> cases h
    exact .invoke e items
  | running items =>
    cases c <;> cases h
    exact .ran e items _
  | setExecEnd items result =>
    cases c <;> simp only [stepExecute, reduceCtorEq] at h
    split at h
    · cases h
    · rename_i hd
      cases h
      exact .setExecEnd e items result _ (by simpa using hd)
  | setOutput items result =>
    cases c <;> simp only [stepExecute, reduceCtorEq] at h
    split at h
    · cases h
    · rename_i hd
      cases h
      exact .setOutput e items result (by simpa using hd)
  | cloneResponseNotifier items =>
    cases c <;> cases h
    exact .cloneResponseNotifier e items
  | notifyResponse items n =>
    cases c <;> cases h
    exact .notifyResponse e items n
  | replaceState items =>
    cases c <;> cases h
    exact .replaceState e items
  | resetWritten items =>
    cases c <;> cases h
    exact .resetWritten e items
  | resetDirty items =>
    cases c <;> cases h
    exact .resetDirty e items

/-- A step of `move_tail_to_next_non_dirty_buffer` is one of its transitions. -/
theorem transition_of_stepMoveTail {items : ℕ} {phase : MovePhase α}
    (h : stepMoveTail ops s items phase c = .next s' pc' ev) :
    Transition ops tid s (.moveTail items phase) c s' pc' ev := by
  cases phase with
  | loadTail =>
    cases c <;> cases h
    exact .moveLoadTail items
  | loadHead t =>
    cases c <;> cases h
    split
    · exact .moveStop items t
    · rename_i hb
      exact .moveGo items t (by simpa using hb)
  | loadDirty t =>
    cases c <;> cases h
    split
    · rename_i hd
      exact .isDirty items t hd
    · rename_i hd
      exact .notDirty items t hd
  | casDirty t =>
    cases c <;> simp only [stepMoveTail, reduceCtorEq] at h
    · split at h
      · rename_i hd
        cases h
        exact .takeFlag items t hd
      · cases h
        exact .takeFlagFailed items t _
    · cases h
      exact .takeFlagFailed items t _
  | casTail t =>
    cases c <;> simp only [stepMoveTail, reduceCtorEq] at h
    · split at h
      · rename_i ht
        cases h
        exact .retire items t ht
      · rename_i ht
        cases h
        exact .retireFailed items t _ (.inr ht)
    · cases h
      exact .retireFailed items t _ (.inl rfl)
  | notifyFull =>
    cases c <;> cases h
    exact .notifyFull items
  | leave =>
    cases c <;> cases h
    exact .leave items

/-- **The inversion of `program`.** -/
theorem transition_of_next {pc : Pc g α} (h : program ops tid s pc c = .next s' pc' ev) :
    Transition ops tid s pc c s' pc' ev := by
  cases pc with
  | idle =>
    cases c <;> cases h
    · exact .callInfer _
    · exact .callExecute
  | infer request phase => exact transition_of_stepInfer h
  | insert ins phase => exact transition_of_stepInsert h
  | getData col phase => exact transition_of_stepGetData h
  | claim phase => exact transition_of_stepClaim h
  | execute e phase => exact transition_of_stepExecute h
  | moveTail items phase => exact transition_of_stepMoveTail h

end Inversion

/-! ### Runs of the ring -/

section Steps

variable [DecidableEq α] {ops : CounterOps g α} {w w' : RingWorld g α} {a : Action Choice}

/-- A step of a world is a transition of the thread that moves. -/
theorem transition_of_step (hs : (program ops).step w a = some w') :
    ∃ e, Transition ops a.thread w.shared (w.threads a.thread) a.choice w'.shared
      (w'.threads a.thread) e ∧ w'.log = e.toList ++ w.log := by
  obtain ⟨s, l, e, hP, rfl⟩ := Program.step_eq_some.1 hs
  refine ⟨e, ?_, rfl⟩
  simpa only [Function.update_self] using transition_of_next hP

/-- A step that logs an event is a transition with that event. -/
theorem transition_of_logged {ev : Event g α} (hs : (program ops).step w a = some w')
    (hlog : w'.log = ev :: w.log) :
    Transition ops a.thread w.shared (w.threads a.thread) a.choice w'.shared
      (w'.threads a.thread) (some ev) := by
  obtain ⟨e, ht, he⟩ := transition_of_step hs
  rw [hlog] at he
  cases e with
  | none => exact absurd he (List.cons_ne_self _ _)
  | some ev' =>
    obtain rfl : ev = ev' := (List.cons.inj he).1
    exact ht

end Steps

/-- What a run may be required to respect: a condition on the buffer and the thread
a step starts from, and on its choice. -/
abbrev RingGuard (g : Geometry) (α : Type) := Guard (SuperTensorBuffer g α) (Pc g α) Choice

/-- Nothing is required. -/
def anyStep : RingGuard g α := fun _ _ _ _ => True

/-- An invariant of the ring. -/
abbrev RingInv (g : Geometry) (α : Type) := ThreadInv (SuperTensorBuffer g α) (Pc g α) (Event g α)

/-- The worlds that a run from a new buffer reaches, every step of it allowed by
`ok`. -/
def Runs [DecidableEq α] (ops : CounterOps g α) (ok : RingGuard g α) (w : RingWorld g α) : Prop :=
  ∃ inputTensors, Reach (program ops) ok (fresh ops inputTensors) w

/-- A run goes on by a step. -/
theorem Runs.tail [DecidableEq α] {ops : CounterOps g α} {ok : RingGuard g α} {w w' : RingWorld g α}
    {a : Action Choice} (h : Runs ops ok w)
    (hok : ok a.thread w.shared (w.threads a.thread) a.choice)
    (hs : (program ops).step w a = some w') : Runs ops ok w' := by
  obtain ⟨inputTensors, h⟩ := h
  exact ⟨inputTensors, h.tail hok hs⟩

/-- A run goes on by a run. -/
theorem Runs.reach [DecidableEq α] {ops : CounterOps g α} {ok : RingGuard g α} {w w' : RingWorld g α}
    (h : Runs ops ok w) (hr : Reach (program ops) ok w w') : Runs ops ok w' := by
  obtain ⟨inputTensors, h⟩ := h
  exact ⟨inputTensors, Relation.ReflTransGen.trans h hr⟩

/-- A run is a run under any condition that its steps turn out to meet. -/
theorem Runs.strengthen [DecidableEq α] {ops : CounterOps g α} {ok ok' : RingGuard g α}
    {w : RingWorld g α} (h : Runs ops ok w)
    (hok : ∀ (v : RingWorld g α) i c, Runs ops ok v → ok i v.shared (v.threads i) c →
      ok' i v.shared (v.threads i) c) : Runs ops ok' w := by
  obtain ⟨inputTensors, h⟩ := h
  refine ⟨inputTensors, ?_⟩
  induction h with
  | refl => exact Reach.start
  | tail hv hs ih =>
    obtain ⟨a, ha, hs⟩ := hs
    exact Reach.tail ih (hok _ a.thread a.choice ⟨inputTensors, hv⟩ ha) hs

/-- The run rule of the ring. -/
theorem Runs.threadInv [DecidableEq α] {ops : CounterOps g α} {ok : RingGuard g α} {J : RingInv g α}
    {w : RingWorld g α} (h : Runs ops ok w) (K : RingInv g α) (hK : ∀ v, Runs ops ok v → K.Holds v)
    (h₀ : ∀ inputTensors, J.Holds (fresh ops inputTensors))
    (hstep : ∀ i s pc c s' pc' e log, Transition ops i s pc c s' pc' e → ok i s pc c →
      K.shared s log → K.own s log pc → J.shared s log → J.own s log pc →
        ThreadInv.Kept K J log s pc s' pc' e) : J.Holds w := by
  obtain ⟨inputTensors, h⟩ := h
  exact h.threadInv (fun v hv => hK v ⟨inputTensors, hv⟩) (h₀ inputTensors)
    fun i s pc c s' pc' e log hs => hstep i s pc c s' pc' e log (transition_of_next hs)

end Toutates
