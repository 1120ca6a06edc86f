/-
# Whole calls

A call that runs by itself, from its first line to its last, as a function of the buffer.
Nobody else moves, so a counter that it has loaded is still there at its
`compare_exchange_weak`, and the calls here leave out that this one may fail for no reason; they
cannot leave out that a call waits or spins for somebody who does not come (`Call.wait`).

`infer`, `execute_on_batch` and `move_tail_to_next_non_dirty_buffer` are those of
`Toutates.Ring.Machine` with nobody in between (`Toutates.Ring.Solo`).  `warmup` and
`metrics_snapshot` are only here: the first runs when a model is loaded, before anybody calls.
-/

import Toutates.Ring.Thread

namespace Toutates

variable {g : Geometry} {α β γ : Type}

/-- A call on a buffer: what it returns and the buffer it leaves, unless it waits forever. -/
def Call (g : Geometry) (α β : Type) : Type :=
  SuperTensorBuffer g α → Option (Attempt InferError β × SuperTensorBuffer g α)

namespace Call

/-- Return a value. -/
def pure (b : β) : Call g α β := fun s => some (.ok b, s)

/-- One call after the other, with the `?` operator in between. -/
def bind (c : Call g α β) (f : β → Call g α γ) : Call g α γ := fun s =>
  match c s with
  | none => none
  | some (.panicked site, s') => some (.panicked site, s')
  | some (.err e, s') => some (.err e, s')
  | some (.ok b, s') => f b s'

instance : Monad (Call g α) where
  pure := pure
  bind := bind

/-- The buffer as it is. -/
def read : Call g α (SuperTensorBuffer g α) := fun s => some (.ok s, s)

/-- A write. -/
def modify (f : SuperTensorBuffer g α → SuperTensorBuffer g α) : Call g α Unit := fun s => some (.ok (), f s)

/-- What a function without a buffer returns. -/
def attempt (a : Attempt InferError β) : Call g α β := fun s => some (a, s)

/-- An `expect` or `assert!`. -/
def expect (site : Panic) (ok : Bool) : Call g α Unit :=
  if ok then pure () else attempt (.panicked site)

/-- An `if` without an `else`. -/
def when (p : Prop) [Decidable p] (c : Call g α Unit) : Call g α Unit := if p then c else pure ()

/-- Wait for somebody else. -/
def wait : Call g α β := fun _ => none

/-! ### What calls do, one after the other -/

section

variable {s s' : SuperTensorBuffer g α} {b : β} {c : γ} {f : β → Call g α γ} {call : Call g α β}

/-- Returning changes nothing. -/
@[simp] theorem pure_apply : (Pure.pure b : Call g α β) s = some (.ok b, s) := rfl

/-- Reading changes nothing and is followed by the rest. -/
@[simp] theorem read_bind_apply {f : SuperTensorBuffer g α → Call g α γ} : (read >>= f) s = f s s := rfl

/-- Writing always returns. -/
@[simp] theorem modify_apply {h : SuperTensorBuffer g α → SuperTensorBuffer g α} :
    modify h s = some (.ok (), h s) := rfl

/-- Writing is followed by the rest. -/
@[simp] theorem modify_bind_apply {h : SuperTensorBuffer g α → SuperTensorBuffer g α} {f : Unit → Call g α γ} :
    (modify h >>= f) s = f () (h s) := rfl

/-- A sequence returns through both of its calls. -/
theorem bind_eq_ok : (call >>= f) s = some (.ok c, s') ↔
    ∃ b s₁, call s = some (.ok b, s₁) ∧ f b s₁ = some (.ok c, s') := by
  have hbind : (call >>= f) s = bind call f s := rfl
  rw [hbind, bind]
  cases h : call s with
  | none => simp
  | some r =>
    obtain ⟨a, s₁⟩ := r
    cases a <;> simp

/-- A call that returns is followed by the rest. -/
theorem bind_of_ok {s₁ : SuperTensorBuffer g α} (h : call s = some (.ok b, s₁)) : (call >>= f) s = f b s₁ := by
  have hbind : (call >>= f) s = bind call f s := rfl
  rw [hbind, bind, h]

/-- A call that fails is the end. -/
theorem bind_of_err {s₁ : SuperTensorBuffer g α} {e : InferError} (h : call s = some (.err e, s₁)) :
    (call >>= f) s = some (.err e, s₁) := by
  have hbind : (call >>= f) s = bind call f s := rfl
  rw [hbind, bind, h]

/-- A call that panics is the end. -/
theorem bind_of_panicked {s₁ : SuperTensorBuffer g α} {site : Panic} (h : call s = some (.panicked site, s₁)) :
    (call >>= f) s = some (.panicked site, s₁) := by
  have hbind : (call >>= f) s = bind call f s := rfl
  rw [hbind, bind, h]

/-- What is expected is there. -/
theorem expect_bind_of_true {site : Panic} {ok : Bool} (h : ok = true) {f : Unit → Call g α γ} :
    (expect site ok >>= f) s = f () s := by
  subst h
  rfl

/-- What is expected is missing. -/
theorem expect_bind_of_false {site : Panic} {ok : Bool} (h : ok = false) {f : Unit → Call g α γ} :
    (expect site ok >>= f) s = some (.panicked site, s) := by
  subst h
  rfl

/-- A call returns if what it expects is there. -/
theorem expect_bind_eq_ok {site : Panic} {ok : Bool} {f : Unit → Call g α γ} :
    (expect site ok >>= f) s = some (.ok c, s') ↔ ok = true ∧ f () s = some (.ok c, s') := by
  cases ok with
  | true => rw [expect_bind_of_true rfl, eq_self_iff_true, true_and]
  | false =>
    rw [expect_bind_of_false rfl]
    simp

/-- A call on a condition that holds is the call. -/
theorem when_of_pos {p : Prop} [Decidable p] {call : Call g α Unit} (h : p) : when p call s = call s := by
  rw [when, if_pos h]

/-- A call on a condition that does not hold does nothing. -/
theorem when_of_neg {p : Prop} [Decidable p] {call : Call g α Unit} (h : ¬ p) :
    when p call s = some (.ok (), s) := by
  rw [when, if_neg h]
  rfl

end

/-! ### What calls leave -/

/-- A call that comes to an end leaves a buffer that is related to the one it started with. -/
def Ensures (call : Call g α β) (R : SuperTensorBuffer g α → SuperTensorBuffer g α → Prop) : Prop :=
  ∀ s r s', call s = some (r, s') → R s s'

namespace Ensures

variable {R : SuperTensorBuffer g α → SuperTensorBuffer g α → Prop} {call : Call g α β} {f : β → Call g α γ}

/-- Returning. -/
theorem pure (hR : ∀ s, R s s) (b : β) : (Pure.pure b : Call g α β).Ensures R := by
  rintro s r s' h
  obtain ⟨-, rfl⟩ := Prod.mk.inj (Option.some.inj h)
  exact hR _

/-- Something that may fail. -/
theorem attempt (hR : ∀ s, R s s) (a : Attempt InferError β) : (Call.attempt a : Call g α β).Ensures R := by
  rintro s r s' h
  obtain ⟨-, rfl⟩ := Prod.mk.inj (Option.some.inj h)
  exact hR _

/-- Something that is expected. -/
theorem expect (hR : ∀ s, R s s) (site : Panic) (ok : Bool) : (Call.expect site ok : Call g α Unit).Ensures R := by
  cases ok with
  | true => exact pure hR ()
  | false => exact attempt hR _

/-- Writing. -/
theorem modify {h : SuperTensorBuffer g α → SuperTensorBuffer g α} (hR : ∀ s, R s (h s)) :
    (Call.modify h).Ensures R := by
  rintro s r s' heq
  obtain ⟨-, rfl⟩ := Prod.mk.inj (Option.some.inj heq)
  exact hR _

/-- Waiting. -/
theorem wait : (Call.wait : Call g α β).Ensures R := by
  rintro s r s' ⟨⟩

/-- A call on a condition. -/
theorem when (hR : ∀ s, R s s) {p : Prop} [Decidable p] {c : Call g α Unit} (hc : p → c.Ensures R) :
    (Call.when p c).Ensures R := by
  by_cases hp : p
  · rw [Call.when, if_pos hp]
    exact hc hp
  · rw [Call.when, if_neg hp]
    exact pure hR ()

/-- One call after the other. -/
theorem bind (hR : ∀ s s₁ s₂, R s s₁ → R s₁ s₂ → R s s₂) (hc : call.Ensures R) (hf : ∀ b, (f b).Ensures R) :
    (call >>= f).Ensures R := by
  intro s r s' h
  have hbind : (call >>= f) s = Call.bind call f s := rfl
  rw [hbind, Call.bind] at h
  cases hcall : call s with
  | none =>
    rw [hcall] at h
    cases h
  | some o =>
    obtain ⟨a, s₁⟩ := o
    rw [hcall] at h
    have h₁ := hc s a s₁ hcall
    cases a with
    | panicked site =>
      obtain ⟨-, rfl⟩ := Prod.mk.inj (Option.some.inj h)
      exact h₁
    | err e =>
      obtain ⟨-, rfl⟩ := Prod.mk.inj (Option.some.inj h)
      exact h₁
    | ok b => exact hR s s₁ s' h₁ (hf b s₁ r s' h)

/-- A call that looks at the buffer first. -/
theorem read {f : SuperTensorBuffer g α → Call g α γ} (hf : ∀ s, (f s).Ensures R) : (Call.read >>= f).Ensures R :=
  fun s r s' h => hf s s r s' h

end Ensures

/-- The errors that a call returns. -/
def Raises (call : Call g α β) (E : InferError → Prop) : Prop := ∀ s e s', call s = some (.err e, s') → E e

namespace Raises

variable {E : InferError → Prop} {call : Call g α β} {f : β → Call g α γ}

/-- Returning raises nothing. -/
theorem pure (b : β) : (Pure.pure b : Call g α β).Raises E := by
  rintro s e s' ⟨⟩

/-- What may fail raises its error. -/
theorem attempt {a : Attempt InferError β} (ha : ∀ e, a = .err e → E e) : (Call.attempt a : Call g α β).Raises E :=
  fun _ e _ h => ha e (Prod.mk.inj (Option.some.inj h)).1

/-- What is expected raises nothing. -/
theorem expect (site : Panic) (ok : Bool) : (Call.expect site ok : Call g α Unit).Raises E := by
  cases ok with
  | true => exact pure ()
  | false => exact attempt (by rintro e ⟨⟩)

/-- Nor does writing. -/
theorem modify (h : SuperTensorBuffer g α → SuperTensorBuffer g α) : (Call.modify h).Raises E := by
  rintro s e s' ⟨⟩

/-- Nor does waiting. -/
theorem wait : (Call.wait : Call g α β).Raises E := by
  rintro s e s' ⟨⟩

/-- A call on a condition raises what the call raises. -/
theorem when {p : Prop} [Decidable p] {c : Call g α Unit} (hc : p → c.Raises E) : (Call.when p c).Raises E := by
  by_cases hp : p
  · rw [Call.when, if_pos hp]
    exact hc hp
  · rw [Call.when, if_neg hp]
    exact pure ()

/-- One call after the other. -/
theorem bind (hc : call.Raises E) (hf : ∀ b, (f b).Raises E) : (call >>= f).Raises E := by
  intro s e s' h
  have hbind : (call >>= f) s = Call.bind call f s := rfl
  rw [hbind, Call.bind] at h
  cases hcall : call s with
  | none =>
    rw [hcall] at h
    cases h
  | some o =>
    obtain ⟨a, s₁⟩ := o
    rw [hcall] at h
    cases a with
    | panicked site => cases h
    | err e' =>
      obtain rfl : e' = e := Attempt.err.inj (Prod.mk.inj (Option.some.inj h)).1
      exact hc s e' s₁ hcall
    | ok b => exact hf b s₁ e s' h

/-- A call that looks at the buffer first. -/
theorem read {f : SuperTensorBuffer g α → Call g α γ} (hf : ∀ s, (f s).Raises E) : (Call.read >>= f).Raises E :=
  fun s e s' h => hf s s e s' h

end Raises

end Call

namespace SuperTensorBuffer

variable (ops : CounterOps g α)

/-! ### `infer` -/

/-- The loop over the model inputs in `insert_tensors_at`. -/
def copyInputs (ins : Insertion g α) : List (Fin g.numInputs) → Call g α Unit
  | [] => pure ()
  | i :: is => do
    let s ← Call.read
    let t ← Call.attempt ((s.inputTensors (ins.tracker ops) i).copyInput ins.request.tensors i
      ins.inputStart (ins.inputEnd ops) (ins.batchSlot ops))
    Call.modify fun s => s.setTensor (ins.tracker ops) i t
    copyInputs ins is

/-- What `insert_tensors_at` does for the first slot of a batch. -/
def openBatch (x : Fin g.capacity) (now : Instant) : Call g α Unit := do
  Call.modify fun s => s.modifyTracker x fun d => { d with dirty := 1 }
  let s ← Call.read
  Call.expect .deadlineSet (s.state x).deadline.isNone
  Call.modify fun s => s.modifyState x (s.trackers x).generation fun b => { b with deadline := some (now + 2) }
  let s ← Call.read
  Call.expect .queueStartSet (s.state x).executionTrace.queueStart.isNone
  Call.modify fun s => s.modifyState x (s.trackers x).generation
    fun b => { b with executionTrace := { b.executionTrace with queueStart := some now } }

/-- `WriteReservation::new`, and the notification of the executor. -/
def reserveSlots (ins : Insertion g α) : Call g α (WriteReservation g) := do
  let s ← Call.read
  let n := (s.trackers (ins.tracker ops)).generation
  Call.modify fun s => s.modifyTracker (ins.tracker ops) fun d =>
    { d with writtenSlots := d.writtenSlots + (ins.slotEnd ops - ins.batchSlot ops) }
  Call.when (ins.batchSlot ops = 0 ∨ ins.slotEnd ops = g.batchSize) <| Call.modify fun s =>
    s.modifyState (ins.tracker ops) n fun b => { b with executorNotifier := b.executorNotifier.notifyOne }
  pure ⟨ins.tracker ops, n, n, n, ins.batchSlot ops, ins.slotEnd ops⟩

/-- `insert_tensors_at`. -/
def insertTensorsAt (now : Instant) (ins : Insertion g α) : Call g α (WriteReservation g) := do
  copyInputs ops ins (List.finRange g.numInputs)
  Call.when (ins.batchSlot ops = 0) (openBatch (ins.tracker ops) now)
  reserveSlots ops ins

/-- The inner loop of `infer`, for at most so many rounds; `clock` is the time of each. -/
def insertAll (clock : ℕ → Instant) : ℕ → Insertion g α → Call g α (List (WriteReservation g))
  | 0, _ => Call.wait
  | k + 1, ins => do
    let r ← insertTensorsAt ops (clock ins.inputStart) ins
    if ins.clientBatchSize - ins.toWrite ops = 0 then pure (ins.response ++ [r])
    else insertAll clock k (ins.next ops r)

/-- `SuperTensorBuffer::infer`. -/
def infer (clock : ℕ → Instant) (request : Request) : Call g α (List (WriteReservation g)) := do
  let s ← Call.read
  if ops.isFull s.head s.tail then Call.attempt (.err .ringFull)
  else
    match request.clientBatchSize with
    | .error site => Call.attempt (.panicked site)
    | .ok n =>
      Call.modify fun s => { s with head := ops.add s.head n }
      insertAll ops clock (n + 1) ⟨request, s.head, s.head, 0, n, []⟩

/-! ### `get_data` -/

/-- `get_data` over the rest of the reservations, with the bytes and the metadata so far, and
`record_execution_trace` behind it.  Without an output in the cell it waits for one. -/
def getDataFrom : List (WriteReservation g) → List (List UInt8) → Option (List Metadata × Fin g.capacity × ℕ) →
    Call g α (List (List UInt8) × List Metadata)
  | [], _, none => Call.attempt (.panicked .noReservation)
  | [], data, some (metadatas, x, n) => do
    let s ← Call.read
    Call.expect .traceUnwrap
      ((s.states x n).executionTrace.execStart.isSome && (s.states x n).executionTrace.execEnd.isSome)
    pure (data, metadatas)
  | r :: rest, data, metadatas => do
    let s ← Call.read
    match (s.states r.tracker r.output).output with
    | none => Call.wait
    | some result =>
      let step ← Call.attempt (getDataStep r.start r.stop result data (metadatas.map Prod.fst))
      getDataFrom rest step.1 (some (step.2, (metadatas.map Prod.snd).getD (r.tracker, r.trace)))

/-- A reservation whose cell is set is read. -/
theorem getDataFrom_cons {s : SuperTensorBuffer g α} {r : WriteReservation g} {rest : List (WriteReservation g)}
    {data : List (List UInt8)} {metadatas : Option (List Metadata × Fin g.capacity × ℕ)}
    {result : Except InferError SessionValues} (h : (s.states r.tracker r.output).output = some result) :
    getDataFrom (r :: rest) data metadatas s =
      match getDataStep r.start r.stop result data (metadatas.map Prod.fst) with
      | .panicked site => some (.panicked site, s)
      | .err e => some (.err e, s)
      | .ok step => getDataFrom rest step.1 (some (step.2, (metadatas.map Prod.snd).getD (r.tracker, r.trace))) s := by
  rw [getDataFrom, Call.read_bind_apply]
  simp only [h]
  cases hstep : getDataStep r.start r.stop result data (metadatas.map Prod.fst) <;> rfl

/-- `InferenceResponse::get_data` of a response, into an empty vector. -/
def getData (response : List (WriteReservation g)) : Call g α (List (List UInt8) × List Metadata) :=
  getDataFrom response [] none

/-! ### `execute_on_batch` and `warmup` -/

/-- `reset_batch`. -/
def resetBatch (x : Fin g.capacity) : Call g α Unit := do
  Call.modify fun s => (s.modifyState x ((s.trackers x).generation + 1) fun _ => BatchState.new).modifyTracker x
    fun d => { d with generation := d.generation + 1 }
  Call.modify fun s => s.modifyTracker x fun d => { d with writtenSlots := 0 }
  Call.modify fun s => s.modifyTracker x fun d => { d with dirty := 2 }

/-- The loop of `move_tail_to_next_non_dirty_buffer`, for at most so many rounds. -/
def moveTailLoop : ℕ → Call g α Unit
  | 0 => Call.wait
  | k + 1 => do
    let s ← Call.read
    if ops.notBehind (ops.higherBound s.tail) s.head then pure ()
    else if (s.trackers (ops.batchId s.tail)).dirty = 2 then
      Call.modify fun s => s.modifyTracker (ops.batchId s.tail) fun d => { d with dirty := 0 }
      Call.modify fun s => { s with tail := ops.higherBound s.tail }
      Call.modify fun s => { s with executorFullNotifier := s.executorFullNotifier.notifyWaiters }
      moveTailLoop k
    else pure ()

/-- `move_tail_to_next_non_dirty_buffer`: every round clears the flag of another tracker, so it
has at most one more than there are trackers. -/
def moveTail : Call g α Unit := moveTailLoop ops (g.capacity + 1)

/-- A `notified().await` on the executor notifier of a batch. -/
def awaitNotified (tid : ℕ) (x : Fin g.capacity) (n : ℕ) : Call g α Unit := do
  let s ← Call.read
  let polled := (s.states x n).executorNotifier.poll (s.states x n).executorNotifier.notified tid
  Call.modify fun s => s.modifyState x n fun b => { b with executorNotifier := polled.2 }
  if polled.1 then pure () else Call.wait

/-- The two waits of `execute_on_batch`; the deadline may pass before the second is notified. -/
def awaitBatch (tid : ℕ) (timedOut : Bool) (e : α) : Call g α Unit := do
  let s ← Call.read
  let n := (s.trackers (ops.batchId e)).generation
  awaitNotified tid (ops.batchId e) n
  let s ← Call.read
  Call.when ((ops.distToHigher e s.head).isSome ∧ (s.state (ops.batchId e)).deadline.isSome) <|
    if timedOut then
      Call.modify fun s => s.modifyState (ops.batchId e) n
        fun b => { b with executorNotifier := b.executorNotifier.cancel tid }
    else awaitNotified tid (ops.batchId e) n

/-- The first loop of `seal_current_batch`: `remaining_open_slots`, which the head moves over. -/
def closeBatch (e : α) : Call g α ℕ := do
  let s ← Call.read
  Call.expect .batchNotWritten (ops.notBehind s.head (ops.lowerBound e))
  match ops.distToHigher e s.head with
  | some d => do
    Call.modify fun s => { s with head := ops.add s.head d }
    pure d
  | none => pure 0

/-- `seal_current_batch`. -/
def sealCurrentBatch (e : α) : Call g α Unit := do
  let d ← closeBatch ops e
  let s ← Call.read
  let writtenSlots := (s.trackers (ops.batchId e)).writtenSlots
  if writtenSlots = g.batchSize - d then pure ()
  else if writtenSlots < g.batchSize - d then Call.wait
  else Call.attempt (.panicked .tooManyWritten)

/-- `execute_current_batch`, with the session returning `result`. -/
def executeCurrentBatch (execEnd : Instant) (result : Except InferError SessionValues) (x : Fin g.capacity) :
    Call g α Unit := do
  let s ← Call.read
  Call.expect .execEndSet (s.state x).executionTrace.execEnd.isNone
  Call.modify fun s => s.modifyState x (s.trackers x).generation
    fun b => { b with executionTrace := { b.executionTrace with execEnd := some execEnd } }
  let s ← Call.read
  Call.expect .outputSet (s.state x).output.isNone
  Call.modify fun s => s.modifyState x (s.trackers x).generation fun b => { b with output := some result }
  Call.modify fun s => s.modifyState x (s.trackers x).generation
    fun b => { b with responseReadyNotifier := b.responseReadyNotifier.notifyWaiters }

/-- What the world outside gives a call of `execute_on_batch`. -/
structure Execution where
  tid : ℕ
  timedOut : Bool
  execStart : Instant
  execEnd : Instant
  result : Except InferError SessionValues

/-- `execute_on_batch` up to its claim of a batch. -/
def claimBatch : Call g α α := do
  let s ← Call.read
  if ops.isFull s.executorHead s.tail then Call.wait
  else
    Call.modify fun s => { s with executorHead := ops.add s.executorHead g.batchSize }
    pure s.executorHead

/-- `execute_on_batch`. -/
def executeOnBatch (x : Execution) : Call g α ℕ := do
  let e ← claimBatch ops
  awaitBatch ops x.tid x.timedOut e
  sealCurrentBatch ops e
  let s ← Call.read
  Call.expect .execStartSet (s.state (ops.batchId e)).executionTrace.execStart.isNone
  Call.modify fun s => s.modifyState (ops.batchId e) (s.trackers (ops.batchId e)).generation
    fun b => { b with executionTrace := { b.executionTrace with execStart := some x.execStart } }
  let s ← Call.read
  let batchItems := (s.trackers (ops.batchId e)).writtenSlots
  Call.modify fun s => { s with executorsInUse := s.executorsInUse + 1 }
  executeCurrentBatch x.execEnd x.result (ops.batchId e)
  resetBatch (ops.batchId e)
  moveTail ops
  Call.modify fun s => { s with executorsInUse := s.executorsInUse - 1 }
  pure batchItems

/-- `warmup`: the batch at the head, whatever is in it; no `compare_exchange_weak` fails for no reason. -/
def warmup : Call g α Unit := do
  let s ← Call.read
  Call.modify fun s => { s with head := ops.add s.head g.batchSize }
  Call.modify fun s => { s with executorHead := ops.add s.executorHead g.batchSize }
  Call.modify fun t => t.modifyTracker (ops.batchId s.head) fun d => { d with dirty := 1 }
  Call.modify fun s => { s with executorsInUse := s.executorsInUse + 1 }
  resetBatch (ops.batchId s.head)
  moveTail ops
  Call.modify fun s => { s with executorsInUse := s.executorsInUse - 1 }

/-! ### `metrics_snapshot` -/

/-- `SuperTensorMetricsSnapshot`. -/
structure MetricsSnapshot where
  inflight : ℕ
  capacity : ℕ
  executorsInUse : ℕ

/-- `metrics_snapshot` with its three loads apart: the buffer when the tail is loaded, when the
head is, and when the executors in use are. -/
def metricsSnapshotAt (atTail atHead atUse : SuperTensorBuffer g Usize) : MetricsSnapshot where
  inflight := min (saturatingSub atHead.head atTail.tail).toNat g.slots
  capacity := g.slots
  executorsInUse := atUse.executorsInUse

/-- `metrics_snapshot` when nothing moves between its loads. -/
def metricsSnapshot (s : SuperTensorBuffer g Usize) : MetricsSnapshot := metricsSnapshotAt s s s

end SuperTensorBuffer

end Toutates
