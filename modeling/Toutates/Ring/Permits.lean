/-
# Whom a batch and a response wait for

Clients notify the executor of their batch when they have counted its first or its last row, and
the executor waits twice on one notifier: for the first row, and, when it has found the batch not
full, for the last.  Two notifications before a wait leave one permit.  The executor of a batch
calls the clients of the batch when it has set its output.

`permits` is the invariant of the runs whose requests fit and whose copies succeed: a row that the
executor of a batch waits for is counted only where its notifier has something for it, or where the
client of that row is about to notify.  No executor and no client waits for what has happened.
-/

import Toutates.Ring.Called
import Toutates.Ring.Copying
import Toutates.Ring.Sample
import Toutates.Ring.Wakeups

namespace Toutates

open Basis

variable {g : Geometry} {α : Type}

/-- No copy of a client is refused. -/
def CopiesSucceed (g : Geometry) : RingGuard g ℕ := fun _ s pc _ =>
  ∀ ins k e, pc = .insert ins (.copyInput k) → ∀ hk : k < g.numInputs, (ins.copy s ⟨k, hk⟩).result ≠ .err e

/-- Accepted requests fit the ring, and their copies succeed. -/
def Admitted (g : Geometry) : RingGuard g ℕ := fun i s pc c => Fits g i s pc c ∧ CopiesSucceed g i s pc c

/-- Requests that are admitted fit. -/
theorem Runs.fits_of_admitted {w : RingWorld g ℕ} (h : Runs (CounterOps.unbounded g) (Admitted g) w) :
    Runs (CounterOps.unbounded g) (Fits g) w := h.strengthen fun _ _ _ _ hok => hok.1

/-! ### A row is counted, or somebody owes it -/

/-- Events do not take rows away. -/
theorem rowsOf_mono {f : Event g ℕ → Option (ℕ × ℕ)} {log : List (Event g ℕ)} (l : List (Event g ℕ)) :
    rowsOf f log ⊆ rowsOf f (l ++ log) := by
  rintro q ⟨a, ha, hq⟩
  rw [rowsOf, List.filterMap_append]
  exact ⟨a, List.mem_append_right _ ha, hq⟩

section Owes

variable {i : ℕ} {s s' : SuperTensorBuffer g ℕ} {pc pc' : Pc g ℕ} {c : Choice} {e : Option (Event g ℕ)}
  {log : List (Event g ℕ)} {q : ℕ}

/-- Who takes a row owes it. -/
theorem Transition.reserved_cases (ht : Transition (CounterOps.unbounded g) i s pc c s' pc' e)
    (hq : q ∈ reservedRows (e.toList ++ log)) : q ∈ reservedRows log ∨ pc'.Owes q := by
  cases ht with
  | reserve request h n hh => exact (mem_rowsOf_cons rfl).1 hq
  | _ => exact .inl hq

/-- Who owes a row goes on to owe it, or counts it. -/
theorem Transition.owes_cases (ht : Transition (CounterOps.unbounded g) i s pc c s' pc' e)
    (hok : CopiesSucceed g i s pc c) (hq : pc.Owes q) : pc'.Owes q ∨ q ∈ countedRows (e.toList ++ log) := by
  cases ht with
  | copyFailed ins k hk err hc => exact absurd hc (hok ins k err rfl hk)
  | addWritten ins o t n r hr phase hp =>
    have hphase : phase.counted = true := by
      rw [hp]
      split <;> rfl
    rw [Pc.Owes, hphase]
    rcases Nat.lt_or_ge q (ins.currentHead + ins.toWrite (CounterOps.unbounded g)) with hlt | hge
    · exact .inr ((mem_rowsOf_cons rfl).2 (.inr ⟨hq.1, hlt⟩))
    · exact .inl ⟨hge, hq.2⟩
  | respond ins r h =>
    have hle := ins.toWrite_le
    simp only [Pc.Owes, InsertPhase.counted, cond_true] at hq
    omega
  | nextBatch ins r h =>
    have heq := ins.next_eq h
    have hle := ins.toWrite_le
    left
    simp only [Pc.Owes, InsertPhase.counted, Insertion.next, CounterOps.unbounded, cond_true,
      cond_false] at hq heq hle ⊢
    omega
  | _ => first
    | exact .inl hq
    | exact hq.elim

end Owes

/-- **A row is counted, or somebody owes it.** -/
theorem counted_or_owed {w : RingWorld g ℕ} (h : Runs (CounterOps.unbounded g) (Admitted g) w) {q : ℕ}
    (hq : q ∈ reservedRows w.log) : q ∈ countedRows w.log ∨ ∃ i, (w.threads i).Owes q := by
  obtain ⟨inputTensors, h⟩ := h
  refine h.invariant (I := fun v => ∀ q ∈ reservedRows v.log, q ∈ countedRows v.log ∨
    ∃ i, (v.threads i).Owes q) ?_ (fun v a v' _ hv hok hs q hq => ?_) q hq
  · rintro q ⟨a, ha, -⟩
    exact absurd ha List.not_mem_nil
  · obtain ⟨e, ht, hlog⟩ := transition_of_step hs
    rw [hlog] at hq ⊢
    rcases ht.reserved_cases hq with hq | hq
    · rcases hv q hq with hq | ⟨j, hj⟩
      · exact .inl (rowsOf_mono _ hq)
      · by_cases hja : j = a.thread
        · subst hja
          exact (ht.owes_cases hok.2 hj).symm.imp_right fun h => ⟨_, h⟩
        · exact .inr ⟨j, by rwa [Program.step_threads hs hja]⟩
    · exact .inr ⟨_, hq⟩

/-! ### What a step does to the notifier of a batch -/

/-- An executor waits with the notifier of its own batch. -/
def waits (g : Geometry) : RingInv g ℕ where
  shared _ _ := True
  own _ _ pc := ∀ e n, pc.waitsOn = some (e, n) → n = g.lap e
  apart _ _ := True
  symm _ := True.intro

/-- An executor waits with the notifier of its own batch, in every run. -/
theorem waits_hold {ok : RingGuard g ℕ} {w : RingWorld g ℕ} (h : Runs (CounterOps.unbounded g) ok w) :
    (waits g).Holds w := by
  refine h.threadInv (batches g) (fun v hv => batches_hold hv)
    (fun inputTensors => ⟨True.intro, fun i _ _ => elim_none rfl, fun _ _ _ => True.intro⟩)
    fun i s pc c s' pc' e log ht _ hK hKo _ ho => ⟨True.intro, ?_, fun m _ _ hm _ => ⟨hm, True.intro⟩⟩
  obtain ⟨⟨⟨-, hw⟩, -⟩, hc⟩ := hK
  obtain ⟨⟨⟨hlo, -⟩, -⟩, -⟩ := hKo
  cases ht with
  | cloneExecutorNotifier p =>
    rintro q n h
    obtain ⟨rfl, rfl⟩ := Prod.mk.inj (Option.some.inj h)
    exact Cells.generation_eq hw (hlo p .claimed rfl) (by simp [Stage.rank]) hc
  | deadlinePoll p n ticket phase hp =>
    rcases hp with rfl | rfl
    · exact fun _ _ => elim_none rfl
    · exact ho
  | _ => first
    | exact ho
    | exact fun _ _ => elim_none rfl

/-- The notifier that the executor of the batch at `p` waits with. -/
def SuperTensorBuffer.executorNotifier (s : SuperTensorBuffer g α) (p : ℕ) : Notify :=
  (s.batchState p).executorNotifier

/-- The batch of an executor that has found it not full. -/
def Pc.awaitsFull : Pc g α → Option α
  | .execute e (.readDeadline _ _) | .execute e (.deadlineWait _ _) => some e
  | _ => none

/-- Who waits for a full batch holds it. -/
theorem Pc.held_of_awaitsFull {pc : Pc g α} {p : α} (h : pc.awaitsFull = some p) : pc.held = some (p, .woken) := by
  unfold Pc.awaitsFull at h
  split at h <;> first
    | cases h
      rfl
    | cases h

/-- Who waits for a full batch has not sealed it. -/
theorem Pc.unsealed_of_awaitsFull {pc : Pc g α} {p : α} (h : pc.awaitsFull = some p) : pc.unsealed = some p := by
  unfold Pc.awaitsFull at h
  split at h <;> first
    | cases h
      rfl
    | cases h

/-- What a step of thread `i` does to the notifier of the batch at `p`. -/
inductive Rings (i : ℕ) (s : SuperTensorBuffer g ℕ) (pc : Pc g ℕ) (s' : SuperTensorBuffer g ℕ) (pc' : Pc g ℕ)
    (e : Option (Event g ℕ)) (p : ℕ) : Prop where
  /-- Nothing, and the step is no notification of this batch. -/
  | quiet (h : s'.executorNotifier p = s.executorNotifier p)
      (hpc : ∀ ins r, pc = .insert ins (.notifyExecutor r) → g.cell ins.currentHead = g.cell p →
        (s.trackers (g.cell p)).generation ≠ g.lap p)
  /-- A notification. -/
  | notify (h : s'.executorNotifier p = (s.executorNotifier p).notifyOne)
  /-- Its executor polls, and waits on. -/
  | wait (ticket) (hpc : pc.unsealed = some p) (hfst : ((s.executorNotifier p).poll ticket i).1 = false)
      (h : s'.executorNotifier p = ((s.executorNotifier p).poll ticket i).2)
  /-- Its executor leaves the first wait. -/
  | wake (ticket) (hpc : pc.unsealed = some p) (hpc' : pc'.awaitsFull = none) (he : e = some (.woken p))
      (h : s'.executorNotifier p = ((s.executorNotifier p).poll ticket i).2)
  /-- Its executor leaves the second wait, notified or not. -/
  | leave (hpc : pc.awaitsFull = some p) (hpc' : pc'.awaitsFull = none)
      (h : (∃ ticket, s'.executorNotifier p = ((s.executorNotifier p).poll ticket i).2) ∨
        s'.executorNotifier p = (s.executorNotifier p).cancel i)
  /-- The tracker gets the state of this batch. -/
  | replace (h : s'.executorNotifier p = Notify.new) (hp : s.tail + g.slots ≤ p)

/-- An executor that is not notified in its second wait waits on. -/
theorem phase_of_deadlinePoll {i p n ticket : ℕ} {s s' : SuperTensorBuffer g ℕ} {phase : ExecPhase ℕ}
    {e : Option (Event g ℕ)}
    (hP : program (CounterOps.unbounded g) i s (.execute p (.deadlineWait n ticket)) .go =
      .next s' (.execute p phase) e) :
    phase = if ((s.states (g.cell p) n).executorNotifier.poll ticket i).1 then .sealLoadHead
      else .deadlineWait n ticket := by
  simp only [program, stepExecute, Outcome.next.injEq, Pc.execute.injEq, true_and] at hP
  exact hP.2.1.symm

section Rings

variable {i : ℕ} {s s' : SuperTensorBuffer g ℕ} {pc pc' : Pc g ℕ} {c : Choice} {e : Option (Event g ℕ)}
  {log : List (Event g ℕ)} {p q : ℕ}

/-- A step that leaves the notifiers of executors alone. -/
theorem Rings.of_states (hn : ∀ x n, (s'.states x n).executorNotifier = (s.states x n).executorNotifier)
    (hpc : ∀ ins r, pc ≠ .insert ins (.notifyExecutor r)) : Rings i s pc s' pc' e p :=
  .quiet (hn _ _) fun ins r h => absurd h (hpc ins r)

/-- A write to the notifier of the batch at `q`. -/
theorem Rings.of_write {f : BatchState → BatchState} (hp : g.batchSize ∣ p) (hq : g.batchSize ∣ q)
    (hpc : ∀ ins r, pc ≠ .insert ins (.notifyExecutor r))
    (h : (s.modifyState (g.cell q) (g.lap q) f).executorNotifier q = (f (s.batchState q)).executorNotifier →
      Rings i s pc (s.modifyState (g.cell q) (g.lap q) f) pc' e q) :
    Rings i s pc (s.modifyState (g.cell q) (g.lap q) f) pc' e p := by
  by_cases hpq : p = q
  · subst hpq
    exact h (by rw [SuperTensorBuffer.executorNotifier, s.batchState_modifyState hp hp, if_pos rfl])
  · refine .quiet ?_ fun ins r h => absurd h (hpc ins r)
    rw [SuperTensorBuffer.executorNotifier, s.batchState_modifyState hp hq, if_neg hpq,
      SuperTensorBuffer.executorNotifier]

/-- What a step does to the cell of a batch. -/
theorem rings_of_next (hP : program (CounterOps.unbounded g) i s pc c = .next s' pc' e)
    (hlo : (life g).own s log pc) (hw : Window.Shared s log) (hc : Cells.Shared s log)
    (hwaits : (waits g).own s log pc) (hp : g.batchSize ∣ p) : Rings i s pc s' pc' e p := by
  have ht := transition_of_next hP
  cases ht with
  | notifyExecutor ins r =>
    have hstate := s.modifyState_states (g.cell ins.currentHead) (s.trackers (g.cell ins.currentHead)).generation
      (fun b => { b with executorNotifier := b.executorNotifier.notifyOne }) (g.cell p) (g.lap p)
    split_ifs at hstate with h
    · have heq : s.states (g.cell ins.currentHead) (s.trackers (g.cell ins.currentHead)).generation =
          s.batchState p := by
        rw [SuperTensorBuffer.batchState, h.1, h.2]
      exact .notify ((congrArg BatchState.executorNotifier hstate).trans
        (congrArg (fun b : BatchState => b.executorNotifier.notifyOne) heq))
    · refine .quiet (congrArg BatchState.executorNotifier hstate) fun ins' r' hpc hcell hgen => ?_
      cases hpc
      exact h ⟨hcell.symm, hcell ▸ hgen.symm⟩
  | wake q n ticket hpoll =>
    obtain rfl := hwaits q n rfl
    exact .of_write hp (hlo q .claimed rfl).dvd (by rintro _ _ ⟨⟩) fun h => .wake ticket rfl rfl rfl h
  | stillWaiting q n ticket hpoll =>
    obtain rfl := hwaits q n rfl
    exact .of_write hp (hlo q .claimed rfl).dvd (by rintro _ _ ⟨⟩) fun h => .wait ticket rfl hpoll h
  | deadlinePoll q n ticket phase hphase =>
    obtain rfl := hwaits q n rfl
    have hphase := phase_of_deadlinePoll hP
    refine .of_write hp (hlo q .woken rfl).dvd (by rintro _ _ ⟨⟩) fun h => ?_
    split_ifs at hphase with hpoll
    · subst hphase
      exact .leave rfl rfl (.inl ⟨ticket, h⟩)
    · exact .wait ticket rfl (Bool.eq_false_iff.2 hpoll) h
  | deadlinePassed q n ticket =>
    obtain rfl := hwaits q n rfl
    exact .of_write hp (hlo q .woken rfl).dvd (by rintro _ _ ⟨⟩) fun h => .leave rfl rfl (.inr h)
  | replaceState q items =>
    have hheld := hlo q .ran rfl
    have hgen := Cells.generation_eq hw hheld (by simp [Stage.rank]) hc
    obtain ⟨hle, -⟩ := Window.held_mem hw hheld (by simp)
    have hstate := s.batchState_replace hheld.dvd hp hgen fun d => { d with generation := d.generation + 1 }
    split_ifs at hstate with hpq
    · exact .replace (congrArg BatchState.executorNotifier hstate) (by omega)
    · exact .quiet (congrArg BatchState.executorNotifier hstate) (by rintro _ _ ⟨⟩)
  | _ =>
    refine .of_states ?_ (by rintro _ _ ⟨⟩)
    first
      | exact fun _ _ => rfl
      | exact fun y m => s.modifyState_executorNotifier (by intro; rfl) _ _ y m

namespace Rings

variable (h : Rings i s pc s' pc' e p)

include h

/-- The cell stays settled. -/
theorem settled (hs : (s.executorNotifier p).Settled) : (s'.executorNotifier p).Settled := by
  cases h with
  | quiet h => rwa [h]
  | notify h => exact h ▸ hs.notifyOne
  | wait ticket hpc hfst h => exact h ▸ hs.poll
  | wake ticket hpc hpc' he h => exact h ▸ hs.poll
  | leave hpc hpc' h =>
    rcases h with ⟨ticket, h⟩ | h
    · exact h ▸ hs.poll
    · exact h ▸ hs.cancel
  | replace h => exact h ▸ Notify.new_settled

/-- Only the executor of a batch waits with its notifier. -/
theorem knows {j : ℕ} (hj : (s'.executorNotifier p).Knows j) :
    (s.executorNotifier p).Knows j ∨ j = i ∧ pc.unsealed = some p := by
  cases h with
  | quiet h => exact .inl (h ▸ hj)
  | notify h => exact .inl (Notify.Knows.of_notifyOne (h ▸ hj))
  | wait ticket hpc hfst h => exact (Notify.Knows.of_poll (h ▸ hj)).imp_right fun hji => ⟨hji, hpc⟩
  | wake ticket hpc hpc' he h => exact (Notify.Knows.of_poll (h ▸ hj)).imp_right fun hji => ⟨hji, hpc⟩
  | leave hpc hpc' h =>
    rcases h with ⟨ticket, h⟩ | h
    · exact (Notify.Knows.of_poll (h ▸ hj)).imp_right fun hji => ⟨hji, Pc.unsealed_of_awaitsFull hpc⟩
    · exact .inl (Notify.Knows.of_cancel (h ▸ hj))
  | replace h => exact absurd (h ▸ hj) (Notify.not_knows_new j)

/-- What was put into the notifier stays there until its executor goes on. -/
theorem pending (hpend : (s.executorNotifier p).Pending) (hwoken : e = some (.woken p) → pc'.awaitsFull ≠ none)
    (hfull : pc.awaitsFull = some p → pc'.awaitsFull ≠ none) (hlt : p < s.tail + g.slots) :
    (s'.executorNotifier p).Pending := by
  cases h with
  | quiet h => rwa [h]
  | notify h => exact h ▸ Notify.pending_notifyOne _
  | wait ticket hpc hfst h => exact h ▸ hpend.poll hfst
  | wake ticket hpc hpc' he h => exact absurd hpc' (hwoken he)
  | leave hpc hpc' h => exact absurd hpc' (hfull hpc)
  | replace h hp => exact absurd hlt (Nat.not_lt_of_le hp)

/-- A client that notifies in the lap of the batch puts something into its notifier. -/
theorem pending_of_notifying {ins : Insertion g ℕ} {r : WriteReservation g}
    (hpc : pc = .insert ins (.notifyExecutor r)) (hcell : g.cell ins.currentHead = g.cell p)
    (hgen : (s.trackers (g.cell p)).generation = g.lap p) (hlt : p < s.tail + g.slots) :
    (s'.executorNotifier p).Pending := by
  subst hpc
  cases h with
  | quiet h hnot => exact absurd hgen (hnot ins r rfl hcell)
  | notify h => exact h ▸ Notify.pending_notifyOne _
  | wait ticket hpc => cases hpc
  | wake ticket hpc => cases hpc
  | leave hpc => cases hpc
  | replace h hp => exact absurd hlt (Nat.not_lt_of_le hp)

end Rings

/-- An executor gets the batch at the executor head. -/
theorem Transition.unsealed (ht : Transition (CounterOps.unbounded g) i s pc c s' pc' e)
    (hpc' : pc'.unsealed = some p) : pc.unsealed = some p ∨ p = s.executorHead := by
  cases ht with
  | claim q hq =>
    obtain rfl := Option.some.inj hpc'
    exact .inr hq.symm
  | deadlinePoll q n ticket phase hp =>
    rcases hp with rfl | rfl
    · exact .inl hpc'
    · exact .inl hpc'
  | _ => first
    | exact .inl hpc'
    | exact elim_none rfl hpc'

/-- The executors' head does not go back. -/
theorem Transition.executorHead_le (ht : Transition (CounterOps.unbounded g) i s pc c s' pc' e) :
    s.executorHead ≤ s'.executorHead := by
  cases ht with
  | claim q hq =>
    subst hq
    exact Nat.le_add_right _ _
  | _ => exact le_rfl

/-- An executor waits for the last row of a batch that it has found not full. -/
theorem awaitsFull_of_next (hP : program (CounterOps.unbounded g) i s pc c = .next s' pc' e)
    (hlo : (life g).own s log pc) (hpc' : pc'.awaitsFull = some p) :
    pc.awaitsFull = some p ∨ e = none ∧ s.head < p + g.batchSize := by
  have ht := transition_of_next hP
  cases ht with
  | batchOpen q n ticket =>
    obtain rfl := Option.some.inj hpc'
    refine .inr ⟨rfl, ?_⟩
    have hopen : ((CounterOps.unbounded g).distToHigher q s.head).isSome := by
      by_contra hnot
      simp [program, stepExecute, hnot] at hP
    simp only [CounterOps.unbounded, Blocks.lower_eq_of_dvd (hlo q .woken rfl).dvd] at hopen
    split_ifs at hopen with hlt
    · exact hlt
    · cases hopen
  | deadlinePoll q n ticket phase hp =>
    rcases hp with rfl | rfl
    · exact elim_none rfl hpc'
    · exact .inl hpc'
  | _ => first
    | exact .inl hpc'
    | exact elim_none rfl hpc'

/-- A piece is in one batch. -/
theorem Insertion.lower_eq_of_mem {ins : Insertion g ℕ} (hp : g.batchSize ∣ p) (hle : p ≤ q)
    (hlt : q < p + g.batchSize) (h₁ : ins.currentHead ≤ q)
    (h₂ : q < ins.currentHead + ins.toWrite (CounterOps.unbounded g)) :
    Blocks.lower g.batchSize ins.currentHead = p := by
  have hend := ins.piece_le
  have hlow := Blocks.lower_le g.batchSize ins.currentHead
  have hpiece : Blocks.lower g.batchSize q = Blocks.lower g.batchSize ins.currentHead :=
    Blocks.lower_eq g.batchSize_pos (Blocks.lower_dvd _ _) (by omega) (by omega)
  exact hpiece.symm.trans (Blocks.lower_eq g.batchSize_pos hp hle hlt)

/-- The first and the last row of a batch are rows of it. -/
theorem mem_batch (hq : q = p ∨ q = p + g.batchSize - 1) : p ≤ q ∧ q < p + g.batchSize := by
  have hB := g.batchSize_pos
  omega

/-- The piece with the first or the last row of a batch starts or ends with the batch. -/
theorem Insertion.notifies_of_mem {ins : Insertion g ℕ} (hp : g.batchSize ∣ p)
    (hq : q = p ∨ q = p + g.batchSize - 1) (h₁ : ins.currentHead ≤ q)
    (h₂ : q < ins.currentHead + ins.toWrite (CounterOps.unbounded g)) :
    ins.batchSlot (CounterOps.unbounded g) = 0 ∨ ins.slotEnd (CounterOps.unbounded g) = g.batchSize := by
  obtain ⟨hle, hlt⟩ := mem_batch hq
  have hlower := Insertion.lower_eq_of_mem hp hle hlt h₁ h₂
  have hend := ins.piece_le
  have hmod : Blocks.lower g.batchSize ins.currentHead + ins.batchSlot (CounterOps.unbounded g) =
      ins.currentHead := Blocks.lower_add_mod g.batchSize ins.currentHead
  rw [ins.slotEnd_eq]
  omega

/-- The client that counts the first or the last row of a batch goes on to notify. -/
theorem Transition.counted_cases (ht : Transition (CounterOps.unbounded g) i s pc c s' pc' e)
    (hp : g.batchSize ∣ p) (hq : q = p ∨ q = p + g.batchSize - 1) (hcount : q ∈ countedRows (e.toList ++ log)) :
    q ∈ countedRows log ∨ ∃ ins r, pc' = .insert ins (.notifyExecutor r) ∧ ins.currentHead ≤ q ∧
      q < ins.currentHead + ins.toWrite (CounterOps.unbounded g) := by
  cases ht with
  | addWritten ins o t n r hr phase hphase =>
    rcases (mem_rowsOf_cons rfl).1 hcount with hcount | ⟨h₁, h₂⟩
    · exact .inl hcount
    · refine .inr ⟨ins, r, ?_, h₁, h₂⟩
      rw [hphase, if_pos (Insertion.notifies_of_mem hp hq h₁ h₂)]
  | _ => exact .inl hcount

end Rings

/-! ### Whom the executors wait for -/

/-- The row at `q` is one that the executor of the batch at `p` waits for, or will: the first, until
it has left its first wait, or the last, when it has found the batch not full. -/
def Awaited (w : RingWorld g ℕ) (p q : ℕ) : Prop :=
  q = p ∧ ¬ Reached w.log p .woken ∨ q = p + g.batchSize - 1 ∧ ∃ i, (w.threads i).awaitsFull = some p

/-- A client has counted the row at `q` and is about to notify. -/
def Ringing (w : RingWorld g ℕ) (q : ℕ) : Prop :=
  ∃ j ins r, w.threads j = .insert ins (.notifyExecutor r) ∧ ins.currentHead ≤ q ∧
    q < ins.currentHead + ins.toWrite (CounterOps.unbounded g)

/-- **The permits of the batches.** -/
structure Permits (w : RingWorld g ℕ) : Prop where
  settled : ∀ p, g.batchSize ∣ p → (w.shared.executorNotifier p).Settled
  unknown : ∀ p, g.batchSize ∣ p → w.shared.executorHead ≤ p → ∀ j, ¬ (w.shared.executorNotifier p).Knows j
  mine : ∀ i p, (w.threads i).unsealed = some p → ∀ j, (w.shared.executorNotifier p).Knows j → j = i
  rung : ∀ p q, g.batchSize ∣ p → Awaited w p q → q ∈ countedRows w.log →
    (w.shared.executorNotifier p).Pending ∨ Ringing w q

section Steps

variable {w w' : RingWorld g ℕ} {a : Action Choice} {p q : ℕ}

/-- The invariant on lives is a part. -/
theorem life_of_deliveries (hK : (deliveries g).Holds w) : (life g).Holds w :=
  ⟨hK.shared.1.1.1.1.1, fun i => (hK.own i).1.1.1.1.1, fun i j hij => (hK.apart i j hij).1.1.1.1.1⟩

/-- Two executors wait for different batches. -/
theorem eq_of_unsealed (hK : (life g).Holds w) {i j : ℕ} (hi : (w.threads i).unsealed = some p)
    (hj : (w.threads j).unsealed = some p) : i = j := by
  by_contra hij
  obtain ⟨st, hi⟩ := Pc.held_of_unsealed hi
  obtain ⟨st', hj⟩ := Pc.held_of_unsealed hj
  exact hK.apart i j hij p st p st' hi hj rfl

/-- A counted row that is waited for is in a batch whose state its tracker holds. -/
theorem Awaited.generation_eq (hK : (deliveries g).Holds w) (hp : g.batchSize ∣ p) (h : Awaited w p q)
    (hq : q ∈ countedRows w.log) :
    (w.shared.trackers (g.cell p)).generation = g.lap p ∧ p < w.shared.tail + g.slots := by
  obtain ⟨⟨⟨⟨⟨hl, hw⟩, -⟩, hb⟩, hr⟩, hc⟩ := hK.shared
  have hhead := (hr.taken q).2 (.inl (hr.counted hq))
  rcases h with ⟨rfl, hnot⟩ | ⟨hlast, i, hi⟩
  · have hlt : q < w.shared.tail + g.slots := hhead.trans_le hb
    have hle : w.shared.tail ≤ q := by
      by_contra hlt'
      exact hnot (hl.closed (hw.passed q hp (Nat.lt_of_not_le hlt')) (by simp [Stage.rank]))
    exact ⟨(hc.generation q hp hle hlt).2 fun h => hnot (hl.closed h (by simp [Stage.rank])), hlt⟩
  · have hheld := (hK.own i).1.1.1.1.1 p .woken (Pc.held_of_awaitsFull hi)
    exact ⟨Cells.generation_eq hw hheld (by simp [Stage.rank]) hc, (Window.held_mem hw hheld (by simp)).2⟩

/-- A row that is waited for after a step was waited for before it, or the step found its batch not
full. -/
theorem Awaited.before {e : Option (Event g ℕ)}
    (hs : (program (CounterOps.unbounded g)).step w a = some w')
    (hP : program (CounterOps.unbounded g) a.thread w.shared (w.threads a.thread) a.choice =
      .next w'.shared (w'.threads a.thread) e) (hlog : w'.log = e.toList ++ w.log)
    (hlo : (life g).own w.shared w.log (w.threads a.thread)) (h : Awaited w' p q) :
    Awaited w p q ∨ e = none ∧ w.shared.head ≤ q := by
  rcases h with ⟨hfirst, hnot⟩ | ⟨hlast, i, hi⟩
  · refine .inl (.inl ⟨hfirst, fun hwoken => hnot ?_⟩)
    rw [hlog]
    exact hwoken.mono _
  · by_cases hia : i = a.thread
    · subst hia
      rcases awaitsFull_of_next hP hlo hi with hwas | ⟨he, hhead⟩
      · exact .inl (.inr ⟨hlast, _, hwas⟩)
      · exact .inr ⟨he, by omega⟩
    · rw [Program.step_threads hs hia] at hi
      exact .inl (.inr ⟨hlast, i, hi⟩)

/-- The executor of a batch does not go on from a wait in which a row is still waited for. -/
theorem Awaited.stays (hK : (life g).Holds w) (hs : (program (CounterOps.unbounded g)).step w a = some w')
    (hmine : (w.threads a.thread).unsealed = some p) (hwoken : Reached w'.log p .woken) (h : Awaited w' p q) :
    (w'.threads a.thread).awaitsFull ≠ none := by
  rcases h with ⟨-, hnot⟩ | ⟨-, i, hi⟩
  · exact absurd hwoken hnot
  · by_cases hia : i = a.thread
    · subst hia
      rw [hi]
      exact Option.some_ne_none p
    · rw [Program.step_threads hs hia] at hi
      exact absurd (eq_of_unsealed hK (Pc.unsealed_of_awaitsFull hi) hmine) hia

namespace Permits

variable {e : Option (Event g ℕ)} (h : Permits w) (hK : (deliveries g).Holds w)
  (hs : (program (CounterOps.unbounded g)).step w a = some w')
  (hP : program (CounterOps.unbounded g) a.thread w.shared (w.threads a.thread) a.choice =
    .next w'.shared (w'.threads a.thread) e) (hlog : w'.log = e.toList ++ w.log)

include h hK hs hP hlog

/-- A counted row that is waited for rings, or will. -/
theorem rung_step (hrings : Rings a.thread w.shared (w.threads a.thread) w'.shared (w'.threads a.thread) e p)
    (hp : g.batchSize ∣ p) (haw : Awaited w' p q) (hq : q ∈ countedRows w'.log) :
    (w'.shared.executorNotifier p).Pending ∨ Ringing w' q := by
  have hlife := life_of_deliveries hK
  have hr := hK.shared.1.2
  have hedge : q = p ∨ q = p + g.batchSize - 1 := haw.imp And.left And.left
  obtain ⟨hle, hlt⟩ := mem_batch hedge
  rw [hlog] at hq
  rcases (transition_of_next hP).counted_cases hp hedge hq with hq | ⟨ins, r, hpc', h₁, h₂⟩
  · have hbefore : Awaited w p q := by
      refine (haw.before hs hP hlog (hlife.own _)).resolve_right fun ⟨_, hhead⟩ => ?_
      have hcounted := (hr.taken q).2 (.inl (hr.counted hq))
      omega
    obtain ⟨hgen, htail⟩ := hbefore.generation_eq hK hp hq
    rcases h.rung p q hp hbefore hq with hpend | ⟨j, ins, r, hj, h₁, h₂⟩
    · left
      refine hrings.pending hpend (fun he => ?_) (fun hfull => ?_) htail
      · subst he
        obtain ⟨n, ticket, hpc, -⟩ := (transition_of_next hP).of_woken
        refine haw.stays hlife hs (by rw [hpc]; rfl) ?_
        rw [hlog]
        exact (reached_cons rfl).2 (.inl ⟨rfl, rfl⟩)
      · refine haw.stays hlife hs (Pc.unsealed_of_awaitsFull hfull) ?_
        rw [hlog]
        exact (((hlife.own _ p .woken (Pc.held_of_awaitsFull hfull)).reached .woken).2 le_rfl).mono _
    · by_cases hja : j = a.thread
      · subst hja
        left
        refine hrings.pending_of_notifying hj ?_ hgen htail
        rw [← Geometry.cell_lower, Insertion.lower_eq_of_mem hp hle hlt h₁ h₂]
      · exact .inr ⟨j, ins, r, by rwa [Program.step_threads hs hja], h₁, h₂⟩
  · exact .inr ⟨_, ins, r, hpc', h₁, h₂⟩

end Permits

/-- Every step of a run whose requests fit keeps the permits. -/
theorem Permits.step (h : Permits w) (hK : (deliveries g).Holds w) (hwaits : (waits g).Holds w)
    (hs : (program (CounterOps.unbounded g)).step w a = some w') : Permits w' := by
  obtain ⟨e, hP, hlog⟩ := Program.next_of_step hs
  have ht := transition_of_next hP
  have hlife := life_of_deliveries hK
  have hrings : ∀ p, g.batchSize ∣ p →
      Rings a.thread w.shared (w.threads a.thread) w'.shared (w'.threads a.thread) e p := fun p hp =>
    rings_of_next hP (hlife.own _) hK.shared.1.1.1.1.2 hK.shared.2 (hwaits.own _) hp
  refine ⟨fun p hp => (hrings p hp).settled (h.settled p hp), fun p hp hle j hj => ?_, fun i p hi j hj => ?_,
    fun p q hp haw hq => h.rung_step hK hs hP hlog (hrings p hp) hp haw hq⟩
  · rcases (hrings p hp).knows hj with hj | ⟨-, hun⟩
    · exact h.unknown p hp (ht.executorHead_le.trans hle) j hj
    · obtain ⟨st, hheld⟩ := Pc.held_of_unsealed hun
      have hlt := (hlife.own _ p st hheld).lt
      have hmono := ht.executorHead_le
      omega
  · by_cases hia : i = a.thread
    · subst hia
      rcases ht.unsealed hi with hun | rfl
      · obtain ⟨st, hheld⟩ := Pc.held_of_unsealed hun
        rcases (hrings p (hlife.own _ p st hheld).dvd).knows hj with hj | ⟨hj, -⟩
        · exact h.mine _ p hun j hj
        · exact hj
      · have hdvd := hlife.shared.executorHead_dvd
        rcases (hrings _ hdvd).knows hj with hj | ⟨hj, -⟩
        · exact absurd hj (h.unknown _ hdvd le_rfl j)
        · exact hj
    · rw [Program.step_threads hs hia] at hi
      obtain ⟨st, hheld⟩ := Pc.held_of_unsealed hi
      rcases (hrings p (hlife.own i p st hheld).dvd).knows hj with hj | ⟨rfl, hun⟩
      · exact h.mine i p hi j hj
      · exact eq_of_unsealed hlife hun hi

end Steps

/-- Wake-ups are accounted for, in every run. -/
theorem permits_hold {w : RingWorld g ℕ} (h : Runs (CounterOps.unbounded g) (Fits g) w) : Permits w := by
  obtain ⟨inputTensors, h⟩ := h
  refine h.invariant ⟨fun _ _ => Notify.new_settled, fun _ _ _ => Notify.not_knows_new,
    fun _ _ => elim_none rfl, fun p q _ _ hq => ?_⟩ fun v a v' hv hI _ hs => ?_
  · obtain ⟨b, hb, -⟩ := hq
    exact absurd hb List.not_mem_nil
  · exact hI.step (deliveries_hold ⟨inputTensors, hv⟩) (waits_hold ⟨inputTensors, hv⟩) hs

/-! ### No wake-up is lost -/

/-- The client has taken the row at `q` and not returned from the `insert_tensors_at` that writes it. -/
def Pc.Writes : Pc g ℕ → ℕ → Prop
  | .insert ins (.push _), q => ins.currentHead + ins.toWrite (CounterOps.unbounded g) ≤ q ∧
      q < ins.currentHead + ins.clientBatchSize
  | .insert ins _, q => ins.currentHead ≤ q ∧ q < ins.currentHead + ins.clientBatchSize
  | _, _ => False

/-- Who owes a row is writing it. -/
theorem Pc.writes_of_owes {pc : Pc g ℕ} {q : ℕ} (h : pc.Owes q) : pc.Writes q := by
  cases pc with
  | insert ins phase =>
    cases phase with
    | push r => exact h
    | notifyExecutor r => exact ⟨(Nat.le_add_right _ _).trans h.1, h.2⟩
    | _ => exact h
  | _ => exact h

/-- All the clients with rows of the batch at `p` have returned from `insert_tensors_at`. -/
def WritersReturned (w : RingWorld g ℕ) (p : ℕ) : Prop :=
  ∀ i q, p ≤ q → q < p + g.batchSize → ¬ (w.threads i).Writes q

/-- The executor of the batch at `p` has called `notify_waiters` for the clients of the batch. -/
def ClientsCalled (w : RingWorld g ℕ) (p : ℕ) : Prop :=
  Reached w.log p .replaced ∨ ∃ i items, w.threads i = .execute p (.replaceState items)

/-- Thread `i` is in its first wait for the batch at `p`, and not ready. -/
def BlockedInFirstWait (w : RingWorld g ℕ) (i p : ℕ) : Prop :=
  ∃ n ticket, w.threads i = .execute p (.firstWait n ticket) ∧
    ((w.shared.states (g.cell p) n).executorNotifier.poll ticket i).1 = false

/-- Thread `i` waits for the deadline of the batch at `p`, and is not ready. -/
def BlockedInDeadlineWait (w : RingWorld g ℕ) (i p : ℕ) : Prop :=
  ∃ n ticket, w.threads i = .execute p (.deadlineWait n ticket) ∧
    ((w.shared.states (g.cell p) n).executorNotifier.poll ticket i).1 = false

/-- Thread `i` waits in `get_result` for the reservation `r`, and is not ready. -/
def BlockedInGetResult (w : RingWorld g ℕ) (i : ℕ) (r : WriteReservation g) : Prop :=
  ∃ c rest ticket, w.threads i = .getData c (.awaitResponse ticket) ∧ c.outputs = r :: rest ∧
    ((w.shared.states r.tracker r.responseReadyNotifier).responseReadyNotifier.poll ticket i).1 = false

/-- The executor of a batch is ready when the row that it waits for is there and its clients have
returned. -/
theorem Permits.ready {w : RingWorld g ℕ} {i p q : ℕ} (h : Permits w) (hp : g.batchSize ∣ p)
    (hmine : (w.threads i).unsealed = some p) (haw : Awaited w p q) (hq : q ∈ countedRows w.log)
    (hreturned : WritersReturned w p) (ticket : ℕ) : ((w.shared.executorNotifier p).poll ticket i).1 = true := by
  refine (h.settled p hp).poll_fst ?_ (h.mine i p hmine)
  refine (h.rung p q hp haw hq).resolve_right ?_
  rintro ⟨j, ins, r, hj, h₁, h₂⟩
  obtain ⟨hle, hlt⟩ := mem_batch (haw.imp And.left And.left)
  have htoWrite := ins.toWrite_le
  refine hreturned j q hle hlt ?_
  rw [hj]
  exact ⟨h₁, by omega⟩

/-- **No wake-up on a batch or a response is lost.**  In a run whose accepted requests fit and whose
copies succeed: an executor is not blocked in its first wait when the first row of its batch is
reserved and the clients of the batch have returned, nor while it waits for the deadline of a batch
that is full and whose clients have returned; and a client is not blocked in `get_result` when the
executor of its batch has called. -/
theorem no_lost_wakeup_on_batch_or_response {w : RingWorld g ℕ}
    (h : Runs (CounterOps.unbounded g) (Admitted g) w) :
    (∀ i p, p ∈ reservedRows w.log → WritersReturned w p → ¬ BlockedInFirstWait w i p) ∧
    (∀ i p, (∀ q, p ≤ q → q < p + g.batchSize → q ∈ reservedRows w.log) → WritersReturned w p →
      ¬ BlockedInDeadlineWait w i p) ∧
    ∀ i r, ClientsCalled w (g.start r.tracker r.output) → ¬ BlockedInGetResult w i r := by
  have hfits := h.fits_of_admitted
  have hlife := life_holds hfits
  have hpermits := permits_hold hfits
  have hcounted : ∀ p q, p ≤ q → q < p + g.batchSize → q ∈ reservedRows w.log → WritersReturned w p →
      q ∈ countedRows w.log := by
    intro p q hle hlt hq hreturned
    refine (counted_or_owed h hq).resolve_right fun ⟨i, hi⟩ => ?_
    exact hreturned i q hle hlt (Pc.writes_of_owes hi)
  have hB := g.batchSize_pos
  refine ⟨fun i p hp hreturned => ?_, fun i p hfull hreturned => ?_, fun i r hcalled => ?_⟩
  · rintro ⟨n, ticket, hpc, hpoll⟩
    obtain rfl := (waits_hold hfits).own i p n (by rw [hpc]; rfl)
    have hheld := hlife.own i p .claimed (by rw [hpc]; rfl)
    have hnot : ¬ Reached w.log p .woken := fun hwoken => by
      simpa [Stage.rank] using (hheld.reached .woken).1 hwoken
    have hready := hpermits.ready hheld.dvd (by rw [hpc]; rfl) (.inl ⟨rfl, hnot⟩)
      (hcounted p p le_rfl (by omega) hp hreturned) hreturned ticket
    exact absurd (hready.symm.trans hpoll) (by simp)
  · rintro ⟨n, ticket, hpc, hpoll⟩
    obtain rfl := (waits_hold hfits).own i p n (by rw [hpc]; rfl)
    have hheld := hlife.own i p .woken (by rw [hpc]; rfl)
    have hlast := hfull (p + g.batchSize - 1) (by omega) (by omega)
    have hready := hpermits.ready hheld.dvd (by rw [hpc]; rfl) (.inr ⟨rfl, i, by rw [hpc]; rfl⟩)
      (hcounted p _ (by omega) (by omega) hlast hreturned) hreturned ticket
    exact absurd (hready.symm.trans hpoll) (by simp)
  · rintro ⟨c, rest, ticket, hpc, hr, hpoll⟩
    have hform := (((responses_hold hfits).own i).collecting c (by rw [hpc]; rfl)).outputs r
      (hr ▸ List.mem_cons_self)
    obtain rfl := ((called_holds hfits).own i).waiting c ticket hpc
    have hcalls : 0 < (w.shared.batchState (g.start r.tracker r.output)).responseReadyNotifier.calls := by
      rcases hcalled with hcalled | ⟨j, items, hj⟩
      · exact (called_holds hfits).shared.replaced _ hcalled
      · exact ((called_holds hfits).own j).called _ items hj
    rw [SuperTensorBuffer.batchState, Geometry.cell_start, Geometry.lap_start, ← hform.notifier_eq] at hcalls
    exact absurd ((Notify.poll_fst_of_lt hcalls).symm.trans hpoll) (by simp)

/-- `Admitted`, evaluated. -/
def admitted (g : Geometry) (i : ℕ) (s : SuperTensorBuffer g ℕ) (pc : Pc g ℕ) (c : Choice) : Bool :=
  fits g i s pc c && match pc with
    | .insert ins (.copyInput k) =>
      if hk : k < g.numInputs then
        match (ins.copy s ⟨k, hk⟩).result with
        | .err _ => false
        | _ => true
      else true
    | _ => true

/-- A step that is checked to be admitted is. -/
theorem admitted_spec {i : ℕ} {s : SuperTensorBuffer g ℕ} {pc : Pc g ℕ} {c : Choice}
    (h : admitted g i s pc c = true) : Admitted g i s pc c := by
  obtain ⟨hfits, hcopies⟩ := Bool.and_eq_true_iff.1 h
  refine ⟨fits_spec hfits, ?_⟩
  rintro ins k e rfl hk herr
  simp [hk, herr] at hcopies

/-- The batch, the generation of the notifier and the future of an executor in its first wait. -/
def Pc.firstWaiting : Pc g α → Option (α × ℕ × ℕ)
  | .execute e (.firstWait n ticket) => some (e, n, ticket)
  | _ => none

/-- Who waits for a first row is at its phase. -/
theorem Pc.eq_of_firstWaiting {pc : Pc g α} {e : α} {n ticket : ℕ} (h : pc.firstWaiting = some (e, n, ticket)) :
    pc = .execute e (.firstWait n ticket) := by
  unfold firstWaiting at h
  split at h
  · cases h
    rfl
  · cases h

/-- An executor that comes to its first wait when the row is there finds the permit. -/
theorem no_lost_wakeup_on_batch_or_response_twoByOne :
    ∃ w : RingWorld twoByOne ℕ, w.threads 0 = .execute 0 (.firstWait 0 0) ∧ ¬ BlockedInFirstWait w 0 0 := by
  have hrun : (runFresh (CounterOps.unbounded twoByOne) (admitted twoByOne) (fun _ _ => byteTensor 1)
      (reserve 2 byteRequest ++ insertRow 2 ++ claimBatch 0 ++ go 0 2)).map (fun w =>
        ((w.threads 0).firstWaiting, w.log.filterMap Event.reservation,
          (List.range 3).all fun i => (w.threads i).insertion.isNone)) =
      some (some (0, 0, 0), [(0, 1)], true) := by decide +kernel
  obtain ⟨w, hrun, hw⟩ := world_of_runFresh _ hrun
  obtain ⟨hwaiting, hw⟩ := Prod.mk.inj hw
  obtain ⟨hlog, hthreads⟩ := Prod.mk.inj hw
  have hpc := Pc.eq_of_firstWaiting hwaiting
  refine ⟨w, hpc, (no_lost_wakeup_on_batch_or_response (Runs.of_runFresh (fun _ _ _ _ => admitted_spec) hrun)).1
    0 0 ?_ fun i q _ _ hwrites => ?_⟩
  · refine ⟨(0, 1), ?_, le_rfl, Nat.zero_lt_one⟩
    rw [hlog]
    exact List.mem_singleton_self _
  · have hnone :=
      forall_threads_of_runFresh (p := fun pc => pc.insertion.isNone) hrun (by decide +kernel) rfl hthreads i
    cases hi : w.threads i with
    | insert ins phase =>
      rw [hi] at hnone
      cases hnone
    | _ =>
      rw [hi] at hwrites
      exact hwrites

end Toutates
