/-
# Executors that wait for room

When every batch of the ring is claimed and not retired, `execute_on_batch` waits on
`executor_full_notifier`, and whoever moves the tail on calls `notify_waiters`, which stores
nothing.  The future is created after the full check, so a call that comes in between is missed.

`get_result` creates its future before it looks.  Here the check comes first, and whether the
wait is safe depends on the state in which the future is created (`WaitsInTime`): either the
ring is full for executors, or somebody who moved the tail has yet to call.
-/

import Toutates.Ring.Sample

namespace Toutates

open Basis

variable {g : Geometry}

/-- A thread has moved the tail on and not yet called `notify_waiters`. -/
def NotifyPending (w : RingWorld g ℕ) : Prop := ∃ i items, w.threads i = .moveTail items .notifyFull

/-- An executor waits for room, and a poll of its future does not let it go on. -/
def Parked (w : RingWorld g ℕ) (i : ℕ) : Prop :=
  ∃ ticket, w.threads i = .claim (.awaitFull ticket) ∧ (w.shared.executorFullNotifier.poll ticket i).1 = false

/-- An executor waits although there is a batch to claim and every advance of the tail has been
notified. -/
def LostWakeup (w : RingWorld g ℕ) : Prop :=
  (∃ i, Parked w i) ∧ ¬ NotifyPending w ∧ w.shared.executorHead - w.shared.tail < g.slots

/-- When an executor creates the future it waits with, the ring is full for executors, or a
notification is on its way. -/
def WaitsInTime (w : RingWorld g ℕ) (a : Action Choice) : Prop :=
  w.threads a.thread = .claim .createFullNotified →
    g.slots ≤ w.shared.executorHead - w.shared.tail ∨ NotifyPending w

/-- What a step does to the counters of the wait for room and to its notifier. -/
structure Pressure (s : SuperTensorBuffer g ℕ) (pc : Pc g ℕ) (s' : SuperTensorBuffer g ℕ) (pc' : Pc g ℕ) :
    Prop where
  unfed : s.executorFullNotifier.Unfed → s'.executorFullNotifier.Unfed
  calls : s.executorFullNotifier.calls ≤ s'.executorFullNotifier.calls
  notify : ∀ items, pc = .moveTail items .notifyFull →
    s.executorFullNotifier.calls < s'.executorFullNotifier.calls
  tail : s.executorHead ≤ s'.executorHead ∧ s'.tail = s.tail ∨ ∃ items, pc' = .moveTail items .notifyFull
  wait : ∀ ticket, pc' = .claim (.awaitFull ticket) → s'.executorHead = s.executorHead ∧ s'.tail = s.tail ∧
    (pc = .claim (.awaitFull ticket) ∨
      pc = .claim .createFullNotified ∧ s' = s ∧ ticket = s.executorFullNotifier.calls)

/-- A step that has nothing to do with the wait. -/
theorem Pressure.quiet {s s' : SuperTensorBuffer g ℕ} {pc pc' : Pc g ℕ}
    (hn : s'.executorFullNotifier = s.executorFullNotifier) (hE : s.executorHead ≤ s'.executorHead)
    (hT : s'.tail = s.tail) (h₁ : ∀ items, pc ≠ .moveTail items .notifyFull)
    (h₂ : ∀ ticket, pc' ≠ .claim (.awaitFull ticket)) : Pressure s pc s' pc' where
  unfed h := by rwa [hn]
  calls := by rw [hn]
  notify items h := absurd h (h₁ items)
  tail := .inl ⟨hE, hT⟩
  wait ticket h := absurd h (h₂ ticket)

/-- What a step does to the room and to those who wait for it. -/
theorem Transition.pressure {i : ℕ} {s s' : SuperTensorBuffer g ℕ} {pc pc' : Pc g ℕ} {c : Choice}
    {e : Option (Event g ℕ)} (ht : Transition (CounterOps.unbounded g) i s pc c s' pc' e) :
    Pressure s pc s' pc' := by
  cases ht with
  | createFullNotified =>
    refine ⟨id, le_rfl, by rintro _ ⟨⟩, .inl ⟨le_rfl, rfl⟩, fun ticket h => ⟨rfl, rfl, .inr ⟨rfl, rfl, ?_⟩⟩⟩
    cases h
    rfl
  | awaitFull ticket phase hp =>
    refine ⟨fun h => h.poll_snd ticket i, (Notify.poll_calls _ ticket i).ge, by rintro _ ⟨⟩,
      .inl ⟨le_rfl, rfl⟩, fun ticket' h => ⟨rfl, rfl, .inl ?_⟩⟩
    rcases hp with rfl | rfl
    · cases h
    · cases h
      rfl
  | claim e he =>
    subst he
    exact Pressure.quiet rfl (Nat.le_add_right _ _) rfl (by rintro _ ⟨⟩) (by rintro _ ⟨⟩)
  | retire items t htail =>
    exact ⟨id, le_rfl, by rintro _ ⟨⟩, .inr ⟨items, rfl⟩, by rintro _ ⟨⟩⟩
  | notifyFull items =>
    exact ⟨fun h => ⟨h.permit, h.woken⟩, Nat.le_succ _, fun _ _ => Nat.lt_succ_self _,
      .inl ⟨le_rfl, rfl⟩, by rintro _ ⟨⟩⟩
  | _ => exact Pressure.quiet rfl le_rfl rfl (by rintro _ ⟨⟩) (by rintro _ ⟨⟩)

/-- What is known of the executors that wait for room: their future is not from later than the
last call, and unless there was a call since, the ring is full or a call is on its way. -/
structure Waiting (w : RingWorld g ℕ) : Prop where
  unfed : w.shared.executorFullNotifier.Unfed
  ticket : ∀ i ticket, w.threads i = .claim (.awaitFull ticket) →
    ticket ≤ w.shared.executorFullNotifier.calls ∧
      (ticket < w.shared.executorFullNotifier.calls ∨
        g.slots ≤ w.shared.executorHead - w.shared.tail ∨ NotifyPending w)

/-- A step from a state where the ring is full or a call is on its way leads to such a state, or
the call is made. -/
theorem Pressure.pending {w w' : RingWorld g ℕ} {a : Action Choice}
    (hs : (program (CounterOps.unbounded g)).step w a = some w')
    (hp : Pressure w.shared (w.threads a.thread) w'.shared (w'.threads a.thread))
    (h : g.slots ≤ w.shared.executorHead - w.shared.tail ∨ NotifyPending w) :
    w.shared.executorFullNotifier.calls < w'.shared.executorFullNotifier.calls ∨
      g.slots ≤ w'.shared.executorHead - w'.shared.tail ∨ NotifyPending w' := by
  rcases h with hfull | ⟨j, items, hj⟩
  · rcases hp.tail with ⟨hE, hT⟩ | ⟨items, hpc⟩
    · exact .inr (.inl (by omega))
    · exact .inr (.inr ⟨a.thread, items, hpc⟩)
  · by_cases hja : j = a.thread
    · subst hja
      exact .inl (hp.notify items hj)
    · exact .inr (.inr ⟨j, items, by rw [Program.step_threads hs hja, hj]⟩)

/-- Every step of a run in which executors wait in time keeps what is known of them. -/
theorem Waiting.step {w w' : RingWorld g ℕ} {a : Action Choice} (h : Waiting w) (hok : WaitsInTime w a)
    (hs : (program (CounterOps.unbounded g)).step w a = some w') : Waiting w' := by
  obtain ⟨e, ht, -⟩ := transition_of_step hs
  have hp := ht.pressure
  refine ⟨hp.unfed h.unfed, fun i ticket hi => ?_⟩
  by_cases hia : i = a.thread
  · subst hia
    obtain ⟨hE, hT, hwas⟩ := hp.wait ticket hi
    rcases hwas with hwas | ⟨hcreate, hshared, rfl⟩
    · obtain ⟨hle, hcase⟩ := h.ticket a.thread ticket hwas
      refine ⟨hle.trans hp.calls, ?_⟩
      rcases hcase with hlt | hcase
      · exact .inl (hlt.trans_le hp.calls)
      · rcases hp.pending hs hcase with hlt | hcase
        · exact .inl (hle.trans_lt hlt)
        · exact .inr hcase
    · refine ⟨hp.calls, ?_⟩
      rcases hp.pending hs (hok hcreate) with hlt | hcase
      · exact .inl hlt
      · exact .inr hcase
  · rw [Program.step_threads hs hia] at hi
    obtain ⟨hle, hcase⟩ := h.ticket i ticket hi
    refine ⟨hle.trans hp.calls, ?_⟩
    rcases hcase with hlt | hcase
    · exact .inl (hlt.trans_le hp.calls)
    · rcases hp.pending hs hcase with hlt | hcase
      · exact .inl (hle.trans_lt hlt)
      · exact .inr hcase

/-- The worlds that runs in which executors wait in time reach. -/
def RunsInTime (w : RingWorld g ℕ) : Prop :=
  ∃ inputTensors, ReachIf (program (CounterOps.unbounded g)) WaitsInTime
    (fresh (CounterOps.unbounded g) inputTensors) w

/-- Where executors wait in time, `Waiting` holds. -/
theorem waiting_of_runsInTime {w : RingWorld g ℕ} (h : RunsInTime w) : Waiting w := by
  obtain ⟨inputTensors, h⟩ := h
  exact h.invariant ⟨⟨rfl, rfl⟩, by rintro _ _ ⟨⟩⟩ fun v a v' hv hok hs => hv.step hok hs

/-- The notifier of the executors that wait for room is never fed for one of them. -/
theorem unfed_of_runs {ok : RingGuard g ℕ} {w : RingWorld g ℕ} (h : Runs (CounterOps.unbounded g) ok w) :
    w.shared.executorFullNotifier.Unfed := by
  obtain ⟨inputTensors, h⟩ := h
  refine h.invariant (I := fun v => v.shared.executorFullNotifier.Unfed) ⟨rfl, rfl⟩
    fun v a v' _ hv _ hs => ?_
  obtain ⟨e, ht, -⟩ := transition_of_step hs
  exact ht.pressure.unfed hv

/-- **No wake-up is lost while executors wait in time.**  In a run in which every executor creates
the future it waits with while the ring is full for executors, or while a notification is on its
way, no executor keeps waiting next to a batch it could claim.  In any run, a step that creates
the future otherwise leaves an executor in just that state. -/
theorem no_lost_wakeup_when_waiting_in_time :
    (∀ w : RingWorld g ℕ, RunsInTime w → ¬ LostWakeup w) ∧
    ∀ (w w' : RingWorld g ℕ) a, Runs (CounterOps.unbounded g) anyStep w →
      (program (CounterOps.unbounded g)).step w a = some w' → ¬ WaitsInTime w a → LostWakeup w' := by
  constructor
  · rintro w h ⟨⟨i, ticket, hpc, hpoll⟩, hpending, hroom⟩
    have hw := waiting_of_runsInTime h
    rw [hw.unfed.poll_fst, decide_eq_false_iff_not] at hpoll
    rcases (hw.ticket i ticket hpc).2 with hlt | hfull | hp
    · exact hpoll hlt
    · omega
    · exact hpending hp
  · intro w w' a h hs hnot
    obtain ⟨hpc, hnot⟩ := Classical.not_imp.1 hnot
    obtain ⟨hroom, hpending⟩ := not_or.1 hnot
    obtain ⟨s, l, e, hP, rfl⟩ := Program.step_eq_some.1 hs
    have ht := transition_of_next hP
    rw [hpc] at ht
    generalize a.choice = c at ht
    cases ht with
    | createFullNotified =>
      refine ⟨⟨a.thread, _, Function.update_self _ _ _, ?_⟩, ?_, Nat.lt_of_not_le hroom⟩
      · rw [(unfed_of_runs h).poll_fst]
        exact decide_eq_false (lt_irrefl _)
      · rintro ⟨j, items, hj⟩
        by_cases hja : j = a.thread
        · subst hja
          simp at hj
        · exact hpending ⟨j, items, (Program.step_threads hs hja).symm.trans hj⟩

/-- `WaitsInTime` where the ring is full for executors, evaluated. -/
def fullWhenWaiting (g : Geometry) : ℕ → SuperTensorBuffer g ℕ → Pc g ℕ → Choice → Bool
  | _, s, .claim .createFullNotified, _ => decide (g.slots ≤ s.executorHead - s.tail)
  | _, _, _, _ => true

/-- An executor that creates its future while the ring is full waits in time. -/
theorem waitsInTime_of_full {w : RingWorld g ℕ} {a : Action Choice}
    (h : fullWhenWaiting g a.thread w.shared (w.threads a.thread) a.choice = true) : WaitsInTime w a := by
  intro hpc
  rw [hpc] at h
  exact .inl (of_decide_eq_true h)

/-- A computed run in which they do so is one in time. -/
theorem runsInTime_of_runFresh
    {inputTensors : Fin g.capacity → Fin g.numInputs → BatchableTensor g.batchSize}
    {as : List (Action Choice)} {w : RingWorld g ℕ}
    (h : runFresh (CounterOps.unbounded g) (fullWhenWaiting g) inputTensors as = some w) : RunsInTime w :=
  ⟨inputTensors, ReachIf.of_reach (reach_of_runFresh (fun _ _ _ _ h => h) h) fun _ _ => waitsInTime_of_full⟩

/-- The future that an executor waits with, and whether a poll of it is ready. -/
def Pc.parkedOn (s : SuperTensorBuffer g ℕ) (i : ℕ) : Pc g ℕ → Option (ℕ × Bool)
  | .claim (.awaitFull ticket) => some (ticket, (s.executorFullNotifier.poll ticket i).1)
  | _ => none

/-- A thread that is parked waits for room. -/
theorem Pc.of_parkedOn {s : SuperTensorBuffer g ℕ} {i ticket : ℕ} {pc : Pc g ℕ} {b : Bool}
    (h : pc.parkedOn s i = some (ticket, b)) :
    pc = .claim (.awaitFull ticket) ∧ (s.executorFullNotifier.poll ticket i).1 = b := by
  unfold parkedOn at h
  split at h
  · obtain ⟨rfl, hb⟩ := Prod.mk.inj (Option.some.inj h)
    exact ⟨rfl, hb⟩
  · cases h

/-- A thread has moved the tail on and is about to call `notify_waiters`. -/
def Pc.notifies : Pc g ℕ → Bool
  | .moveTail _ .notifyFull => true
  | _ => false

/-- A third executor waits while both batches of a small ring are claimed. -/
theorem no_lost_wakeup_when_waiting_in_time_twoByOne :
    ∃ w : RingWorld twoByOne ℕ, w.threads 4 = .claim (.awaitFull 0) ∧ ¬ LostWakeup w := by
  have hrun : (runFresh (CounterOps.unbounded twoByOne) (fullWhenWaiting twoByOne) (fun _ _ => byteTensor 1)
      (claimBatch 0 ++ claimBatch 1 ++ ⟨4, .executeOnBatch⟩ :: go 4 4)).map
      (fun w => (w.threads 4).parkedOn w.shared 4) = some (some (0, false)) := by decide +kernel
  obtain ⟨w, hrun, hw⟩ := world_of_runFresh _ hrun
  exact ⟨w, (Pc.of_parkedOn hw).1, no_lost_wakeup_when_waiting_in_time.1 w (runsInTime_of_runFresh hrun)⟩

/-- A run in a ring of two slots with one-row requests.  Both batches are claimed; executor `4`
finds the ring full and sleeps; executor `0` finishes batch `0`, moves the tail on and calls; then
executor `4` creates its future and waits for the next call. -/
def parkedTooLate : List (Action Choice) :=
  reserve 2 byteRequest ++ insertRow 2 ++ reserve 3 byteRequest ++ insertRow 3 ++ claimBatch 0 ++
    claimBatch 1 ++ ⟨4, .executeOnBatch⟩ :: go 4 2 ++ runBatch 0 ++ go 0 6 ++ go 4 2

/-- An executor can wait next to a batch that it could claim. -/
theorem wakeup_can_be_lost :
    ¬ ∀ (g : Geometry) (w : RingWorld g ℕ), Runs (CounterOps.unbounded g) anyStep w → ¬ LostWakeup w := by
  intro hall
  have hrun : (runFresh (CounterOps.unbounded twoByOne) (fun _ _ _ _ => true) (fun _ _ => byteTensor 1)
      parkedTooLate).map (fun w => (w.shared.executorHead - w.shared.tail, (w.threads 4).parkedOn w.shared 4,
        (List.range 5).all fun i => !(w.threads i).notifies)) =
      some (1, some (1, false), true) := by decide +kernel
  obtain ⟨w, hrun, hw⟩ := world_of_runFresh _ hrun
  obtain ⟨hroom, hw⟩ := Prod.mk.inj hw
  obtain ⟨hparked, hthreads⟩ := Prod.mk.inj hw
  obtain ⟨hpc, hpoll⟩ := Pc.of_parkedOn hparked
  refine hall twoByOne w (Runs.of_runFresh (fun _ _ _ _ _ => True.intro) hrun)
    ⟨⟨4, 1, hpc, hpoll⟩, ?_, by rw [hroom]; decide⟩
  rintro ⟨i, items, hi⟩
  have hnone := forall_threads_of_runFresh (p := fun pc => !pc.notifies) hrun (by decide +kernel) rfl hthreads i
  rw [hi] at hnone
  exact absurd hnone Bool.false_ne_true

end Toutates
