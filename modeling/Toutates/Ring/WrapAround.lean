/-
# The ring on wrapping counters is the ring on positions

The protocol of `Machine` runs on any kind of counter.  `SuperTensorBuffer.map wrap` and its
companions turn a state of the ring on natural numbers into one on `usize` counters, and as long
as the positions that a step compares are near each other, the step takes the same decisions on
both (`program_wrap`).

Positions are compared with the three counters only, and a thread holds the ones it has loaded
(`Pc.positions`).  On the code's side "near" is a distance around the circle (`Around`): since a
step moves a counter by less than half of the circle, a run that keeps its counters near around
the circle keeps the positions near, however often they have gone around.
-/

import Toutates.Basis.Lockstep
import Toutates.Ring.Sample
import Toutates.Ring.Wrapping

namespace Toutates

open Basis

variable {g : Geometry} {α β : Type}

/-! ### The same state over other counters -/

def InferPhase.map (f : α → β) : InferPhase α → InferPhase β
  | .loadHead => .loadHead
  | .loadTail h => .loadTail (f h)
  | .casHead h n => .casHead (f h) n

def Insertion.map (f : α → β) (ins : Insertion g α) : Insertion g β where
  request := ins.request
  batchId := f ins.batchId
  currentHead := f ins.currentHead
  inputStart := ins.inputStart
  clientBatchSize := ins.clientBatchSize
  response := ins.response

def ClaimPhase.map (f : α → β) : ClaimPhase α → ClaimPhase β
  | .loadExecutorHead => .loadExecutorHead
  | .loadTail e => .loadTail (f e)
  | .createFullNotified => .createFullNotified
  | .awaitFull ticket => .awaitFull ticket
  | .casExecutorHead e => .casExecutorHead (f e)

def ExecPhase.map (f : α → β) : ExecPhase α → ExecPhase β
  | .cloneNotifier => .cloneNotifier
  | .createNotified n => .createNotified n
  | .firstWait n ticket => .firstWait n ticket
  | .createNotifiedFull n => .createNotifiedFull n
  | .loadHead n ticket => .loadHead n ticket
  | .readDeadline n ticket => .readDeadline n ticket
  | .deadlineWait n ticket => .deadlineWait n ticket
  | .sealLoadHead => .sealLoadHead
  | .sealCasHead h d => .sealCasHead (f h) d
  | .sealSpin d => .sealSpin d
  | .setExecStart => .setExecStart
  | .loadBatchItems => .loadBatchItems
  | .enterUse items => .enterUse items
  | .invoke items => .invoke items
  | .running items => .running items
  | .setExecEnd items result => .setExecEnd items result
  | .setOutput items result => .setOutput items result
  | .cloneResponseNotifier items => .cloneResponseNotifier items
  | .notifyResponse items n => .notifyResponse items n
  | .replaceState items => .replaceState items
  | .resetWritten items => .resetWritten items
  | .resetDirty items => .resetDirty items

def MovePhase.map (f : α → β) : MovePhase α → MovePhase β
  | .loadTail => .loadTail
  | .loadHead t => .loadHead (f t)
  | .loadDirty t => .loadDirty (f t)
  | .casDirty t => .casDirty (f t)
  | .casTail t => .casTail (f t)
  | .notifyFull => .notifyFull
  | .leave => .leave

def Pc.map (f : α → β) : Pc g α → Pc g β
  | .idle => .idle
  | .infer request phase => .infer request (phase.map f)
  | .insert ins phase => .insert (ins.map f) phase
  | .getData c phase => .getData c phase
  | .claim phase => .claim (phase.map f)
  | .execute e phase => .execute (f e) (phase.map f)
  | .moveTail items phase => .moveTail items (phase.map f)

def Event.map (f : α → β) : Event g α → Event g β
  | .reserved thread head rows => .reserved thread (f head) rows
  | .failed thread error => .failed thread error
  | .copied index input rows => .copied (f index) input rows
  | .counted index rows => .counted (f index) rows
  | .responded thread head rows response => .responded thread (f head) rows response
  | .answered thread data metadatas => .answered thread data metadatas
  | .claimed e => .claimed (f e)
  | .woken e => .woken (f e)
  | .padded e head slots => .padded (f e) (f head) slots
  | .sealed e => .sealed (f e)
  | .invoked e => .invoked (f e)
  | .ran e result => .ran (f e) result
  | .replaced e => .replaced (f e)
  | .wiped e => .wiped (f e)
  | .finished e => .finished (f e)
  | .flagTaken tail => .flagTaken (f tail)
  | .retired tail => .retired (f tail)
  | .notRetired tail => .notRetired (f tail)
  | .executed items => .executed items

/-- A world of the ring over other counters. -/
def wrapWorld (w : RingWorld g ℕ) : RingWorld g Usize :=
  w.map (SuperTensorBuffer.map wrap) (Pc.map wrap) (Event.map wrap)

/-! ### Steps -/

/-- The positions that a thread has loaded and compares with a counter later. -/
def Pc.positions : Pc g α → List α
  | .infer _ (.loadTail h) => [h]
  | .infer _ (.casHead h _) => [h]
  | .claim (.loadTail e) => [e]
  | .claim (.casExecutorHead e) => [e]
  | .execute e (.sealCasHead h _) => [e, h]
  | .execute e _ => [e]
  | .moveTail _ (.loadHead t) => [t]
  | .moveTail _ (.loadDirty t) => [t]
  | .moveTail _ (.casDirty t) => [t]
  | .moveTail _ (.casTail t) => [t]
  | _ => []

/-- A position is close to the three counters. -/
structure CloseTo (R : α → α → Prop) (s : SuperTensorBuffer g α) (p : α) : Prop where
  head : R p s.head
  executorHead : R p s.executorHead
  tail : R p s.tail

/-- The three counters are pairwise close, and the positions that threads hold are close to
them. -/
structure Gathered (R : α → α → Prop) (w : RingWorld g α) : Prop where
  counters : R w.shared.head w.shared.executorHead ∧ R w.shared.head w.shared.tail ∧
    R w.shared.executorHead w.shared.tail
  held : ∀ i, ∀ p ∈ (w.threads i).positions, CloseTo R w.shared p

section

variable (hg : g.slots ≤ 2 ^ 61)
include hg

/-- The tracker of a wrapped position is that of the position. -/
theorem batchId_wrap (n : ℕ) :
    (CounterOps.wrapping g).batchId (wrap n) = (CounterOps.unbounded g).batchId n :=
  Fin.ext (Wrapping.batchId_wrap (hg.trans (Nat.pow_le_pow_right Nat.two_pos (by decide))) n)

/-- The tracker of a wrapped piece is that of the piece. -/
theorem tracker_wrap (ins : Insertion g ℕ) :
    (ins.map wrap).tracker (CounterOps.wrapping g) = ins.tracker (CounterOps.unbounded g) :=
  batchId_wrap hg ins.currentHead

end

/-- The first slot of a wrapped piece is that of the piece. -/
theorem batchSlot_wrap (ins : Insertion g ℕ) :
    (ins.map wrap).batchSlot (CounterOps.wrapping g) = ins.batchSlot (CounterOps.unbounded g) :=
  Wrapping.slotId_wrap ins.currentHead

/-- The rows of a wrapped piece are those of the piece. -/
theorem toWrite_wrap (ins : Insertion g ℕ) :
    (ins.map wrap).toWrite (CounterOps.wrapping g) = ins.toWrite (CounterOps.unbounded g) := by
  unfold Insertion.toWrite
  rw [show (CounterOps.wrapping g).capacityInBatch (ins.map wrap).currentHead = _ from
    Wrapping.capacityInBatch_wrap ins.currentHead]
  rfl

/-- The input of a wrapped piece ends where that of the piece does. -/
theorem inputEnd_wrap (ins : Insertion g ℕ) :
    (ins.map wrap).inputEnd (CounterOps.wrapping g) = ins.inputEnd (CounterOps.unbounded g) :=
  congrArg (ins.inputStart + ·) (toWrite_wrap ins)

/-- The slot behind a wrapped piece is the one behind the piece. -/
theorem slotEnd_wrap (ins : Insertion g ℕ) :
    (ins.map wrap).slotEnd (CounterOps.wrapping g) = ins.slotEnd (CounterOps.unbounded g) := by
  unfold Insertion.slotEnd
  rw [batchSlot_wrap, inputEnd_wrap]
  rfl

/-- The piece behind a wrapped piece is the next one, wrapped. -/
theorem next_wrap (ins : Insertion g ℕ) (r : WriteReservation g) :
    (ins.map wrap).next (CounterOps.wrapping g) r = (ins.next (CounterOps.unbounded g) r).map wrap := by
  unfold Insertion.next
  rw [show (CounterOps.wrapping g).higherBound (ins.map wrap).currentHead = _ from
    Wrapping.higherBound_wrap ins.currentHead, inputEnd_wrap, toWrite_wrap]
  rfl

/-- What a step does, over wrapping counters. -/
def wrapResult (r : StepResult g ℕ) : StepResult g Usize :=
  r.map (SuperTensorBuffer.map wrap) (Pc.map wrap) (Event.map wrap)

section

variable (hg : g.slots ≤ 2 ^ 61) (tid : ℕ) (s : SuperTensorBuffer g ℕ) (c : Choice)
include hg

/-- A step of `infer` on wrapped counters is the step, wrapped. -/
theorem stepInfer_wrap (request : Request) (phase : InferPhase ℕ)
    (h : ∀ p ∈ (Pc.infer (g := g) request phase).positions, CloseTo Near s p) :
    stepInfer (CounterOps.wrapping g) tid (s.map wrap) request (phase.map wrap) c =
      wrapResult (stepInfer (CounterOps.unbounded g) tid s request phase c) := by
  cases phase with
  | loadHead => cases c <;> rfl
  | loadTail p =>
    cases c with
    | go =>
      have hfull : (CounterOps.wrapping g).isFull (wrap p) (s.map wrap).tail =
          (CounterOps.unbounded g).isFull p s.tail :=
        Wrapping.isFull_wrap hg (h p List.mem_cons_self).tail
      simp only [stepInfer, InferPhase.map, hfull]
      split_ifs
      · rfl
      · cases request.clientBatchSize with
        | error site => rfl
        | ok n => rfl
    | _ => rfl
  | casHead p n =>
    cases c with
    | go =>
      have hcas : (s.map wrap).head = wrap p ↔ s.head = p :=
        wrap_eq_iff (h p List.mem_cons_self).head.symm
      simp only [stepInfer, InferPhase.map, hcas]
      split_ifs
      · simp only [wrapResult, Outcome.map, Wrapping.add_wrap]
        rfl
      · rfl
    | _ => rfl

/-- A step of `insert_tensors_at` on wrapped counters is the step, wrapped. -/
theorem stepInsert_wrap (ins : Insertion g ℕ) (phase : InsertPhase g) :
    stepInsert (CounterOps.wrapping g) tid (s.map wrap) (ins.map wrap) phase c =
      wrapResult (stepInsert (CounterOps.unbounded g) tid s ins phase c) := by
  have hx := tracker_wrap hg ins
  have hslot := batchSlot_wrap ins
  have hrows := toWrite_wrap ins
  have hend := inputEnd_wrap ins
  have hstop := slotEnd_wrap ins
  cases phase with
  | copyInput i =>
    cases c with
    | go =>
      simp only [stepInsert, hx, hslot, hrows, hend]
      split_ifs with hi
      · rw [show (s.map wrap).inputTensors = s.inputTensors from rfl,
          show (ins.map wrap).request = ins.request from rfl,
          show (ins.map wrap).inputStart = ins.inputStart from rfl]
        generalize (s.inputTensors (ins.tracker (CounterOps.unbounded g)) ⟨i, hi⟩).copyInput
          ins.request.tensors i ins.inputStart (ins.inputEnd (CounterOps.unbounded g))
          (ins.batchSlot (CounterOps.unbounded g)) = copied
        cases copied <;> rfl
      · rfl
      · rfl
    | _ => rfl
  | storeDirty =>
    cases c with
    | clock now =>
      simp only [stepInsert, hx]
      rfl
    | _ => rfl
  | setDeadline now =>
    cases c with
    | go =>
      simp only [stepInsert, hx]
      rw [show (s.map wrap).state (ins.tracker (CounterOps.unbounded g)) = s.state _ from rfl]
      split_ifs <;> rfl
    | _ => rfl
  | setQueueStart now =>
    cases c with
    | go =>
      simp only [stepInsert, hx]
      rw [show (s.map wrap).state (ins.tracker (CounterOps.unbounded g)) = s.state _ from rfl]
      split_ifs <;> rfl
    | _ => rfl
  | addWritten o t n =>
    cases c with
    | go =>
      simp only [stepInsert, hx, hslot, hrows, hstop]
      split_ifs <;> rfl
    | _ => rfl
  | push r =>
    cases c with
    | go =>
      simp only [stepInsert, hrows, hend, next_wrap]
      rw [show (ins.map wrap).clientBatchSize = ins.clientBatchSize from rfl]
      split_ifs <;> rfl
    | _ => rfl
  | _ =>
    cases c with
    | go =>
      simp only [stepInsert, hx]
      rfl
    | _ => rfl

omit hg in
/-- A step of `get_data` on wrapped counters is the step, wrapped. -/
theorem stepGetData_wrap (col : Collection g) (phase : GetPhase) :
    stepGetData tid (s.map wrap) col phase c = wrapResult (stepGetData tid s col phase c) := by
  have hstates : (s.map wrap).states = s.states := rfl
  cases phase with
  | createNotified =>
    cases c with
    | go =>
      simp only [stepGetData, hstates]
      split
      · split <;> rfl
      · rfl
    | _ => rfl
  | checkOutput ticket =>
    cases c with
    | go =>
      simp only [stepGetData, hstates]
      split
      · rfl
      · split
        · rfl
        · split <;> rfl
    | _ => rfl
  | awaitResponse ticket =>
    cases c with
    | go =>
      simp only [stepGetData, hstates]
      split <;> rfl
    | _ => rfl
  | recordTrace =>
    cases c with
    | go =>
      simp only [stepGetData, hstates]
      split
      · rfl
      · split_ifs <;> rfl
    | _ => rfl

/-- A step of a claim on wrapped counters is the step, wrapped. -/
theorem stepClaim_wrap (phase : ClaimPhase ℕ)
    (h : ∀ p ∈ (Pc.claim (g := g) phase).positions, CloseTo Near s p) :
    stepClaim (CounterOps.wrapping g) tid (s.map wrap) (phase.map wrap) c =
      wrapResult (stepClaim (CounterOps.unbounded g) tid s phase c) := by
  cases phase with
  | loadTail e =>
    cases c with
    | go =>
      have hfull : (CounterOps.wrapping g).isFull (wrap e) (s.map wrap).tail =
          (CounterOps.unbounded g).isFull e s.tail :=
        Wrapping.isFull_wrap hg (h e List.mem_cons_self).tail
      simp only [stepClaim, ClaimPhase.map, hfull]
      split_ifs <;> rfl
    | _ => rfl
  | casExecutorHead e =>
    cases c with
    | go =>
      have hcas : (s.map wrap).executorHead = wrap e ↔ s.executorHead = e :=
        wrap_eq_iff (h e List.mem_cons_self).executorHead.symm
      simp only [stepClaim, ClaimPhase.map, hcas]
      split_ifs
      · simp only [wrapResult, Outcome.map, Wrapping.add_wrap]
        rfl
      · rfl
    | _ => rfl
  | awaitFull ticket =>
    cases c with
    | go =>
      simp only [stepClaim, ClaimPhase.map]
      rw [show (s.map wrap).executorFullNotifier = s.executorFullNotifier from rfl]
      split_ifs <;> rfl
    | _ => rfl
  | _ => cases c <;> rfl

/-- A step of `execute_on_batch` on wrapped counters is the step, wrapped. -/
theorem stepExecute_wrap (e : ℕ) (phase : ExecPhase ℕ)
    (h : ∀ p ∈ (Pc.execute (g := g) e phase).positions, CloseTo Near s p) :
    stepExecute (CounterOps.wrapping g) tid (s.map wrap) (wrap e) (phase.map wrap) c =
      wrapResult (stepExecute (CounterOps.unbounded g) tid s e phase c) := by
  have hx := batchId_wrap hg e
  have hstates : (s.map wrap).states = s.states := rfl
  have htrackers : (s.map wrap).trackers = s.trackers := rfl
  have hstate : (s.map wrap).state = s.state := rfl
  have he : CloseTo Near s e := by
    cases phase with
    | _ => exact h e List.mem_cons_self
  have hdist : (CounterOps.wrapping g).distToHigher (wrap e) (s.map wrap).head =
      (CounterOps.unbounded g).distToHigher e s.head := Wrapping.distToHigher_wrap hg he.head
  cases phase with
  | firstWait n ticket =>
    cases c with
    | go =>
      simp only [stepExecute, ExecPhase.map, hx, hstates]
      split_ifs <;> rfl
    | _ => rfl
  | loadHead n ticket =>
    cases c with
    | go =>
      simp only [stepExecute, ExecPhase.map, hdist]
      split_ifs <;> rfl
    | _ => rfl
  | readDeadline n ticket =>
    cases c with
    | go =>
      simp only [stepExecute, ExecPhase.map, hx, hstate]
      split_ifs <;> rfl
    | _ => rfl
  | deadlineWait n ticket =>
    cases c with
    | go =>
      simp only [stepExecute, ExecPhase.map, hx, hstates]
      split_ifs <;> rfl
    | timeout =>
      simp only [stepExecute, ExecPhase.map, hx]
      rfl
    | _ => rfl
  | sealLoadHead =>
    cases c with
    | go =>
      have hbehind : (CounterOps.wrapping g).notBehind (s.map wrap).head
          ((CounterOps.wrapping g).lowerBound (wrap e)) =
          (CounterOps.unbounded g).notBehind s.head ((CounterOps.unbounded g).lowerBound e) :=
        Wrapping.notBehind_lowerBound_wrap hg he.head.symm
      simp only [stepExecute, ExecPhase.map, hdist, hbehind]
      split_ifs
      · split <;> rfl
      · rfl
    | _ => rfl
  | sealCasHead p d =>
    cases c with
    | go =>
      have hcas : (s.map wrap).head = wrap p ↔ s.head = p :=
        wrap_eq_iff (h p (List.mem_cons_of_mem e List.mem_cons_self)).head.symm
      simp only [stepExecute, ExecPhase.map, hcas]
      split_ifs
      · simp only [wrapResult, Outcome.map, Wrapping.add_wrap]
        rfl
      · rfl
    | _ => rfl
  | sealSpin d =>
    cases c with
    | go =>
      simp only [stepExecute, ExecPhase.map, hx, htrackers]
      split_ifs <;> rfl
    | _ => rfl
  | setExecStart =>
    cases c with
    | clock now =>
      simp only [stepExecute, ExecPhase.map, hx, hstate]
      split_ifs <;> rfl
    | _ => rfl
  | setExecEnd items result =>
    cases c with
    | clock now =>
      simp only [stepExecute, ExecPhase.map, hx, hstate]
      split_ifs <;> rfl
    | _ => rfl
  | setOutput items result =>
    cases c with
    | go =>
      simp only [stepExecute, ExecPhase.map, hx, hstate]
      split_ifs <;> rfl
    | _ => rfl
  | _ =>
    cases c with
    | go =>
      simp only [stepExecute, ExecPhase.map, hx]
      rfl
    | _ => rfl

/-- A step of `move_tail_to_next_non_dirty_buffer` on wrapped counters is the step, wrapped. -/
theorem stepMoveTail_wrap (items : ℕ) (phase : MovePhase ℕ)
    (h : ∀ p ∈ (Pc.moveTail (g := g) items phase).positions, CloseTo Near s p) :
    stepMoveTail (CounterOps.wrapping g) (s.map wrap) items (phase.map wrap) c =
      wrapResult (stepMoveTail (CounterOps.unbounded g) s items phase c) := by
  have htrackers : (s.map wrap).trackers = s.trackers := rfl
  cases phase with
  | loadHead t =>
    cases c with
    | go =>
      have hstop : (CounterOps.wrapping g).notBehind ((CounterOps.wrapping g).higherBound (wrap t))
          (s.map wrap).head =
          (CounterOps.unbounded g).notBehind ((CounterOps.unbounded g).higherBound t) s.head :=
        Wrapping.notBehind_higherBound_wrap hg (h t List.mem_cons_self).head.symm
      simp only [stepMoveTail, MovePhase.map, hstop]
      split_ifs <;> rfl
    | _ => rfl
  | loadDirty t =>
    cases c with
    | go =>
      simp only [stepMoveTail, MovePhase.map, batchId_wrap hg, htrackers]
      split_ifs <;> rfl
    | _ => rfl
  | casDirty t =>
    cases c with
    | go =>
      simp only [stepMoveTail, MovePhase.map, batchId_wrap hg, htrackers]
      split_ifs <;> rfl
    | _ => rfl
  | casTail t =>
    cases c with
    | go =>
      have hcas : (s.map wrap).tail = wrap t ↔ s.tail = t :=
        wrap_eq_iff (h t List.mem_cons_self).tail.symm
      simp only [stepMoveTail, MovePhase.map, hcas]
      split_ifs
      · simp only [wrapResult, Outcome.map, Wrapping.higherBound_wrap]
        rfl
      · rfl
    | _ => rfl
  | _ => cases c <;> rfl

/-- **A step takes the same decisions on wrapping counters.** -/
theorem program_wrap (pc : Pc g ℕ) (h : ∀ p ∈ pc.positions, CloseTo Near s p) :
    program (CounterOps.wrapping g) tid (s.map wrap) (pc.map wrap) c =
      wrapResult (program (CounterOps.unbounded g) tid s pc c) := by
  cases pc with
  | idle => cases c <;> rfl
  | infer request phase => exact stepInfer_wrap hg tid s c request phase h
  | insert ins phase => exact stepInsert_wrap hg tid s c ins phase
  | getData col phase => exact stepGetData_wrap tid s c col phase
  | claim phase => exact stepClaim_wrap hg tid s c phase h
  | execute e phase => exact stepExecute_wrap hg tid s c e phase h
  | moveTail items phase => exact stepMoveTail_wrap hg s c items phase h

end

/-! ### Runs -/

/-- The number of positions that the thread is about to move a counter by, where it holds one. -/
def Pc.advance : Pc g α → ℕ
  | .infer _ (.casHead _ n) => n
  | .execute _ (.sealCasHead _ d) => d
  | _ => 0

/-- A request has less than `2^63` rows. -/
theorem Request.clientBatchSize_lt {r : Request} {n : ℕ} (h : r.clientBatchSize = .ok n) : n < 2 ^ 63 := by
  unfold clientBatchSize at h
  split at h
  · simp at h
  · rename_i t ht
    split at h
    · simp at h
    · rename_i d dims hs
      obtain rfl := Except.ok.inj h
      obtain ⟨h₁, h₂⟩ := r.rows_pos t (List.mem_of_getElem? ht) d (by simp [hs])
      rw [asUsize_of_nonneg h₁.le h₂]
      omega

/-- A counter moved on by less than half of the circle. -/
def Moved (a b : ℕ) : Prop := a ≤ b ∧ b < a + 2 ^ 63

/-- A counter that does not move. -/
theorem Moved.refl (a : ℕ) : Moved a a := ⟨le_rfl, by omega⟩

/-- A counter that moves on. -/
theorem Moved.add {n : ℕ} (h : n < 2 ^ 63) (a : ℕ) : Moved a (a + n) :=
  ⟨Nat.le_add_right a n, Nat.add_lt_add_left h a⟩

/-- What a step does to positions: counters move on by less than half of the circle, and the
thread holds only positions that it held before or that a counter has now. -/
structure Advance (s : SuperTensorBuffer g ℕ) (pc : Pc g ℕ) (s' : SuperTensorBuffer g ℕ) (pc' : Pc g ℕ) :
    Prop where
  head : Moved s.head s'.head
  executorHead : Moved s.executorHead s'.executorHead
  tail : Moved s.tail s'.tail
  held : ∀ p ∈ pc'.positions, p ∈ pc.positions ∨ p = s.head ∨ p = s.executorHead ∨ p = s.tail
  advance : pc'.advance < 2 ^ 63

/-- A step that leaves the counters. -/
theorem Advance.of_counters {s s' : SuperTensorBuffer g ℕ} {pc pc' : Pc g ℕ} (hh : s'.head = s.head)
    (he : s'.executorHead = s.executorHead) (ht : s'.tail = s.tail)
    (held : ∀ p ∈ pc'.positions, p ∈ pc.positions ∨ p = s.head ∨ p = s.executorHead ∨ p = s.tail)
    (advance : pc'.advance < 2 ^ 63) : Advance s pc s' pc' where
  head := by rw [hh]; exact Moved.refl _
  executorHead := by rw [he]; exact Moved.refl _
  tail := by rw [ht]; exact Moved.refl _
  held := held
  advance := advance

/-- How far a step moves the counters. -/
theorem Transition.advance {i : ℕ} {s s' : SuperTensorBuffer g ℕ} {pc pc' : Pc g ℕ} {c : Choice}
    {ev : Option (Event g ℕ)} (ht : Transition (CounterOps.unbounded g) i s pc c s' pc' ev)
    (hg : g.slots ≤ 2 ^ 61) (hclose : ∀ p ∈ pc.positions, CloseTo Near s p) (hadv : pc.advance < 2 ^ 63) :
    Advance s pc s' pc' := by
  have hB := g.batchSize_le_slots
  cases ht with
  | notFull request h n hfull hn =>
    exact Advance.of_counters rfl rfl rfl (fun p hp => .inl hp) (Request.clientBatchSize_lt hn)
  | reserve request h n hh =>
    subst hh
    exact ⟨Moved.add hadv _, Moved.refl _, Moved.refl _, by simp [Pc.positions], by simp [Pc.advance]⟩
  | claim e he =>
    subst he
    exact ⟨Moved.refl _, Moved.add (by omega) _, Moved.refl _, by simp [Pc.positions], by simp [Pc.advance]⟩
  | sealOpen e d hb hd =>
    refine Advance.of_counters rfl rfl rfl (by simp [Pc.positions]) ?_
    obtain ⟨h₁, h₂⟩ := (hclose e List.mem_cons_self).head
    have hle := Blocks.lower_le g.batchSize e
    simp only [CounterOps.unbounded] at hd
    split at hd
    · obtain rfl := Option.some.inj hd
      simp only [Pc.advance]
      omega
    · cases hd
  | pad e h d hh =>
    subst hh
    exact ⟨Moved.add hadv _, Moved.refl _, Moved.refl _, by simp [Pc.positions], by simp [Pc.advance]⟩
  | retire items t htail =>
    subst htail
    have hle := Blocks.lower_le g.batchSize s.tail
    have hlt := Blocks.lt_lower_add g.batchSize_pos s.tail
    refine ⟨Moved.refl _, Moved.refl _, ⟨hlt.le, ?_⟩, by simp [Pc.positions], by simp [Pc.advance]⟩
    simp only [CounterOps.unbounded]
    omega
  | awaitFull ticket phase hp =>
    rcases hp with rfl | rfl
    · exact Advance.of_counters rfl rfl rfl (by simp [Pc.positions]) (by simp [Pc.advance])
    · exact Advance.of_counters rfl rfl rfl (by simp [Pc.positions]) (by simp [Pc.advance])
  | deadlinePoll e n ticket phase hp =>
    rcases hp with rfl | rfl
    · exact Advance.of_counters rfl rfl rfl (by simp [Pc.positions]) (by simp [Pc.advance])
    · exact Advance.of_counters rfl rfl rfl (by simp [Pc.positions]) (by simp [Pc.advance])
  | _ => exact Advance.of_counters rfl rfl rfl (by simp [Pc.positions]) (by simp [Pc.advance])

/-- Counters at most `2 ^ 62` apart, one way or the other around the circle. -/
def Around (a b : Usize) : Prop := (a - b).toNat ≤ 2 ^ 62 ∨ (b - a).toNat ≤ 2 ^ 62

/-- Positions that are not further apart than three quarters of the circle are near if their
counters are. -/
theorem near_of_around {a b : ℕ} (h : Around (wrap a) (wrap b)) (h₁ : a < b + (2 ^ 62 + 2 ^ 63))
    (h₂ : b < a + (2 ^ 62 + 2 ^ 63)) : Near a b := by
  unfold Near
  rcases Nat.lt_trichotomy a b with hlt | rfl | hlt
  · rw [Around, toNat_wrap_sub_of_lt hlt (by omega), toNat_wrap_sub hlt.le (by omega)] at h
    omega
  · omega
  · rw [Around, toNat_wrap_sub_of_lt hlt (by omega), toNat_wrap_sub hlt.le (by omega)] at h
    omega

/-- The positions that a thread holds. -/
theorem Pc.positions_map (f : α → β) (pc : Pc g α) : (pc.map f).positions = pc.positions.map f := by
  cases pc with
  | infer request phase => cases phase <;> rfl
  | claim phase => cases phase <;> rfl
  | execute e phase => cases phase <;> rfl
  | moveTail items phase => cases phase <;> rfl
  | _ => rfl

/-- Positions that were near, and moved on, are near if their counters are. -/
theorem Near.advance {a b a' b' : ℕ} (h : Near a b) (ha : Moved a a') (hb : Moved b b')
    (haround : Around (wrap a') (wrap b')) : Near a' b' := by
  obtain ⟨h₁, h₂⟩ := h
  obtain ⟨ha₁, ha₂⟩ := ha
  obtain ⟨hb₁, hb₂⟩ := hb
  exact near_of_around haround (by omega) (by omega)

/-- A step leaves positions close. -/
theorem CloseTo.advance {s s' : SuperTensorBuffer g ℕ} {pc pc' : Pc g ℕ} {p : ℕ}
    (h : CloseTo Near s p) (ha : Advance s pc s' pc')
    (haround : CloseTo Around (s'.map wrap) (wrap p)) : CloseTo Near s' p where
  head := h.head.advance (Moved.refl p) ha.head haround.head
  executorHead := h.executorHead.advance (Moved.refl p) ha.executorHead haround.executorHead
  tail := h.tail.advance (Moved.refl p) ha.tail haround.tail

/-- A position that a thread holds after a step was close to the counters before it. -/
theorem Advance.closeTo {w : RingWorld g ℕ} {i : ℕ} {s' : SuperTensorBuffer g ℕ} {pc' : Pc g ℕ} {p : ℕ}
    (ha : Advance w.shared (w.threads i) s' pc') (hw : Gathered Near w) (hp : p ∈ pc'.positions) :
    CloseTo Near w.shared p := by
  obtain ⟨h₁, h₂, h₃⟩ := hw.counters
  rcases ha.held p hp with hold | rfl | rfl | rfl
  · exact hw.held i p hold
  · exact ⟨Near.refl _, h₁, h₂⟩
  · exact ⟨h₁.symm, Near.refl _, h₃⟩
  · exact ⟨h₂.symm, h₃.symm, Near.refl _⟩

/-- **A run that stays near around the circle stays near.** -/
theorem Gathered.step {w w' : RingWorld g ℕ} {a : Action Choice} (hg : g.slots ≤ 2 ^ 61)
    (hs : (program (CounterOps.unbounded g)).step w a = some w') (hw : Gathered Near w)
    (hadv : ∀ i, (w.threads i).advance < 2 ^ 63) (haround : Gathered Around (wrapWorld w')) :
    Gathered Near w' := by
  obtain ⟨ev, ht, -⟩ := transition_of_step hs
  have ha := ht.advance hg (hw.held a.thread) (hadv a.thread)
  obtain ⟨h₁, h₂, h₃⟩ := hw.counters
  obtain ⟨h₁', h₂', h₃'⟩ := haround.counters
  refine ⟨⟨h₁.advance ha.head ha.executorHead h₁', h₂.advance ha.head ha.tail h₂',
    h₃.advance ha.executorHead ha.tail h₃'⟩, fun i p hp => ?_⟩
  have hwas : CloseTo Near w.shared p := by
    by_cases hi : i = a.thread
    · subst hi
      exact ha.closeTo hw hp
    · rw [Program.step_threads hs hi] at hp
      exact hw.held i p hp
  refine hwas.advance ha (haround.held i (wrap p) ?_)
  rw [show (wrapWorld w').threads i = (w'.threads i).map wrap from rfl, Pc.positions_map]
  exact List.mem_map_of_mem hp

/-- **The ring on `usize` counters refines the ring on natural numbers.**  Masks and bounds are the
natural ones at every position; the comparisons are, for positions within `2 ^ 62`; so every step
from such positions does the same on both, panics included; and a run on `usize` counters, from a
buffer at rest, whose counters stay within `2 ^ 62` of each other around the circle is the image of
a run on natural numbers. -/
theorem wrapping_refines_unbounded (g : Geometry) (hg : g.capacity * g.batchSize ≤ 2 ^ 61) :
    (∀ n, ((CounterOps.wrapping g).batchId (wrap n)).val = n / g.batchSize % g.capacity ∧
      (CounterOps.wrapping g).slotId (wrap n) = n % g.batchSize ∧
      (CounterOps.wrapping g).lowerBound (wrap n) = wrap (n - n % g.batchSize) ∧
      (CounterOps.wrapping g).higherBound (wrap n) = wrap (n - n % g.batchSize + g.batchSize) ∧
      ∀ k, (CounterOps.wrapping g).add (wrap n) k = wrap (n + k)) ∧
    (∀ tail executorHead head, Near executorHead tail → Near head tail → Near executorHead head →
      (tail ≤ head → (CounterOps.wrapping g).isFull (wrap head) (wrap tail) =
        decide (g.capacity * g.batchSize ≤ head - tail)) ∧
      (tail ≤ executorHead → (CounterOps.wrapping g).isFull (wrap executorHead) (wrap tail) =
        decide (g.capacity * g.batchSize ≤ executorHead - tail)) ∧
      (CounterOps.wrapping g).distToHigher (wrap executorHead) (wrap head) =
        (if head < executorHead - executorHead % g.batchSize + g.batchSize then
          some (executorHead - executorHead % g.batchSize + g.batchSize - head) else none) ∧
      (CounterOps.wrapping g).notBehind (wrap head) ((CounterOps.wrapping g).lowerBound (wrap executorHead)) =
        decide (executorHead - executorHead % g.batchSize ≤ head) ∧
      (CounterOps.wrapping g).notBehind ((CounterOps.wrapping g).higherBound (wrap tail)) (wrap head) =
        decide (head ≤ tail - tail % g.batchSize + g.batchSize)) ∧
    (∀ (w : RingWorld g ℕ) a, Gathered Near w →
      Agree (SuperTensorBuffer.map wrap) (Pc.map wrap) (Event.map wrap) (program (CounterOps.unbounded g))
        (program (CounterOps.wrapping g)) w a) ∧
    ∀ (w₀ : RingWorld g ℕ) v, (∀ i, w₀.threads i = .idle) → Gathered Near w₀ →
      ReachIf (program (CounterOps.wrapping g)) (fun v _ => Gathered Around v) (wrapWorld w₀) v →
        ∃ w, Reach (program (CounterOps.unbounded g)) anyStep w₀ w ∧ v = wrapWorld w := by
  have hB : g.batchSize ≤ 2 ^ 61 := g.batchSize_le_slots.trans hg
  have hagree : ∀ (w : RingWorld g ℕ) a, Gathered Near w →
      Agree (SuperTensorBuffer.map wrap) (Pc.map wrap) (Event.map wrap) (program (CounterOps.unbounded g))
        (program (CounterOps.wrapping g)) w a :=
    fun w a hw => program_wrap hg a.thread w.shared a.choice _ (hw.held a.thread)
  refine ⟨fun n => ⟨Wrapping.batchId_wrap (hg.trans (Nat.pow_le_pow_right Nat.two_pos (by decide))) n,
    Wrapping.slotId_wrap n, Wrapping.lowerBound_wrap n, Wrapping.higherBound_wrap n, Wrapping.add_wrap n⟩,
    fun tail executorHead head het hht heh => ?_, hagree, fun w₀ v hidle hw₀ hv => ?_⟩
  · refine ⟨fun hle => ?_, fun hle => ?_, Wrapping.distToHigher_wrap hg heh,
      Wrapping.notBehind_lowerBound_wrap hg heh.symm, Wrapping.notBehind_higherBound_wrap hg hht⟩
    · rw [Wrapping.isFull_wrap hg hht, decide_eq_decide]
      exact or_iff_right (Nat.not_lt_of_le hle)
    · rw [Wrapping.isFull_wrap hg het, decide_eq_decide]
      exact or_iff_right (Nat.not_lt_of_le hle)
  · -- The run on natural numbers stays near as long as its image does.
    have hkeep : ∀ w a w', ((∀ i, (w.threads i).advance < 2 ^ 63) ∧
        (Gathered Around (wrapWorld w) → Gathered Near w)) → Gathered Around (wrapWorld w) →
        (program (CounterOps.unbounded g)).step w a = some w' →
          (∀ i, (w'.threads i).advance < 2 ^ 63) ∧ (Gathered Around (wrapWorld w') → Gathered Near w') := by
      rintro w a w' ⟨hadv, hw⟩ hok hs
      refine ⟨fun i => ?_, (hw hok).step hg hs hadv⟩
      by_cases hi : i = a.thread
      · subst hi
        obtain ⟨ev, ht, -⟩ := transition_of_step hs
        exact (ht.advance hg ((hw hok).held a.thread) (hadv a.thread)).advance
      · rw [Program.step_threads hs hi]
        exact hadv i
    obtain ⟨w, hw, -, hv⟩ := hv.lockstep ⟨fun i => by simp [hidle i, Pc.advance], fun _ => hw₀⟩
      (fun w a hI hok => hagree w a (hI.2 hok)) hkeep
    exact ⟨w, hw, hv⟩

/-- A small ring at rest with its counters just below the end of the circle: a batch is reserved
across it. -/
theorem wrapping_refines_unbounded_twoByOne :
    (CounterOps.wrapping twoByOne).isFull (wrap (2 ^ 64)) (wrap (2 ^ 64 - 1)) = false ∧
      (CounterOps.wrapping twoByOne).isFull (wrap (2 ^ 64 + 1)) (wrap (2 ^ 64 - 1)) = true ∧
      (CounterOps.wrapping twoByOne).add (wrap (2 ^ 64 - 1)) 1 = wrap (2 ^ 64) := by
  have h := wrapping_refines_unbounded twoByOne (by decide)
  refine ⟨?_, ?_, (h.1 (2 ^ 64 - 1)).2.2.2.2 1⟩
  · exact (h.2.1 (2 ^ 64 - 1) (2 ^ 64) (2 ^ 64) ⟨by decide, by decide⟩ ⟨by decide, by decide⟩
      (Near.refl _)).1 (by decide)
  · exact (h.2.1 (2 ^ 64 - 1) (2 ^ 64 + 1) (2 ^ 64 + 1) ⟨by decide, by decide⟩
      ⟨by decide, by decide⟩ (Near.refl _)).1 (by decide)

end Toutates
