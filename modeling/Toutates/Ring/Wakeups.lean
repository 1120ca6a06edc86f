/-
# Waking the executor of a batch

The executor of a batch waits on the `executor_notifier` of the `BatchState` that its
tracker held when it claimed the batch.  The client that fills the first or the last slot
notifies whatever state the tracker holds at that moment, which is some time after it has
counted its row.  By then the batch may have been sealed, executed and reset, and the
notification stays as a permit in the state of the next lap.

`wakeups` is the invariant of the runs in which no client notifies so late
(`NotifiesOwnLap`): a notifier that anything was put into belongs to a batch with a
reserved row, so an executor that leaves its first wait has one.
-/

import Toutates.Ring.Cells
import Toutates.Ring.Panics
import Toutates.Ring.Rows

namespace Toutates

open Basis

variable {g : Geometry} {α : Type}

/-- When a client notifies, the tracker holds the state of the lap it wrote its rows in. -/
def NotifiesOwnLap (g : Geometry) : RingGuard g ℕ := fun _ s pc c =>
  ∀ ins r, pc = .insert ins (.notifyExecutor r) → c = .go →
    (s.trackers (g.cell ins.currentHead)).generation = g.lap ins.currentHead

/-- The batch at `p` has a reserved row. -/
def HasRow (log : List (Event g ℕ)) (p : ℕ) : Prop :=
  ∃ q ∈ reservedRows log, p ≤ q ∧ q < p + g.batchSize

/-- The insertion that a client is in. -/
def Pc.insertion : Pc g α → Option (Insertion g α)
  | .insert ins _ => some ins
  | _ => none

/-- The batch, and the generation of its notifier, that an executor waits with. -/
def Pc.waitsOn : Pc g α → Option (α × ℕ)
  | .execute e (.createNotified n) | .execute e (.firstWait n _) | .execute e (.createNotifiedFull n)
  | .execute e (.loadHead n _) | .execute e (.readDeadline n _) | .execute e (.deadlineWait n _) =>
    some (e, n)
  | _ => none

/-- The shared part of `wakeups`. -/
structure Wakeups.Shared (s : SuperTensorBuffer g ℕ) (log : List (Event g ℕ)) : Prop where
  reserved : ∀ q ∈ reservedRows log, q < s.head
  notified : ∀ p, g.batchSize ∣ p → (s.batchState p).executorNotifier.Silent ∨ HasRow log p
  woken : ∀ p, Reached log p .woken → HasRow log p

/-- What `wakeups` says about a thread. -/
structure Wakeups.Own (log : List (Event g ℕ)) (pc : Pc g ℕ) : Prop where
  rows : ∀ ins, pc.insertion = some ins → ∀ q, ins.currentHead ≤ q →
    q < ins.currentHead + ins.clientBatchSize → q ∈ reservedRows log
  waitsOn : ∀ e n, pc.waitsOn = some (e, n) → n = g.lap e

/-- **Waking the executor of a batch.** -/
def wakeups (g : Geometry) : RingInv g ℕ where
  shared := Wakeups.Shared
  own _ := Wakeups.Own
  apart _ _ := True
  symm _ := True.intro

/-- What is known of the executors and their cells in every run. -/
def batches (g : Geometry) : RingInv g ℕ := (((life g).and (window g)).and (heads g)).and (cells g)

/-- The invariants on batches, together. -/
theorem batches_hold {ok : RingGuard g ℕ} {w : RingWorld g ℕ}
    (h : Runs (CounterOps.unbounded g) ok w) : (batches g).Holds w :=
  (heads_all h).and (cells_hold h)

/-- A write that leaves the notifier of executors alone. -/
theorem SuperTensorBuffer.modifyState_executorNotifier (s : SuperTensorBuffer g α)
    {f : BatchState → BatchState} (hf : ∀ b, (f b).executorNotifier = b.executorNotifier)
    (x : Fin g.capacity) (n : ℕ) (y : Fin g.capacity) (m : ℕ) :
    ((s.modifyState x n f).states y m).executorNotifier = (s.states y m).executorNotifier :=
  s.modifyState_part hf x n y m

namespace Wakeups

variable {s s' : SuperTensorBuffer g ℕ} {log log' : List (Event g ℕ)} {pc pc' m : Pc g ℕ}
  {K : RingInv g ℕ} {e : Option (Event g ℕ)} {p : ℕ}

/-- A batch with a row keeps it. -/
theorem hasRow_mono (hsub : reservedRows log ⊆ reservedRows log') (h : HasRow log p) :
    HasRow log' p := by
  obtain ⟨q, hq, hp⟩ := h
  exact ⟨q, hsub hq, hp⟩

/-- What a thread knows of reserved rows stays true. -/
theorem own_mono (hsub : reservedRows log ⊆ reservedRows log') (ho : Own log pc) : Own log' pc :=
  ⟨fun ins hins q h₁ h₂ => hsub (ho.rows ins hins q h₁ h₂), ho.waitsOn⟩

/-- The facts of a thread that moves on within an insertion or a wait, or out of them. -/
theorem own_same (ho : Own log pc) (hR : reservedRows log' = reservedRows log)
    (hins : pc'.insertion = none ∨ pc'.insertion = pc.insertion)
    (hw : pc'.waitsOn = none ∨ pc'.waitsOn = pc.waitsOn) : Own log' pc' := by
  refine ⟨fun ins h q h₁ h₂ => ?_, fun e n h => ?_⟩
  · rcases hins with hins | hins
    · exact elim_none hins h
    · exact hR.ge (ho.rows ins (hins.symm.trans h) q h₁ h₂)
  · rcases hw with hw | hw
    · exact elim_none hw h
    · exact ho.waitsOn e n (hw.symm.trans h)

/-- What a step has to show. -/
theorem kept (hs : Shared s log) (hsub : reservedRows log ⊆ reservedRows (e.toList ++ log))
    (hhead : ∀ q ∈ reservedRows (e.toList ++ log), q < s'.head)
    (hn : ∀ p, g.batchSize ∣ p → (s.batchState p).executorNotifier.Silent →
      (s'.batchState p).executorNotifier.Silent ∨ HasRow (e.toList ++ log) p)
    (hw : ∀ p, Reached (e.toList ++ log) p .woken → Reached log p .woken ∨ HasRow log p)
    (ho : Own (e.toList ++ log) pc') : ThreadInv.Kept K (wakeups g) log s pc s' pc' e := by
  refine ⟨⟨hhead, fun p hp => ?_, fun p hp => hasRow_mono hsub ?_⟩, ho, fun m _ _ hm _ =>
    ⟨own_mono hsub hm, True.intro⟩⟩
  · rcases hs.notified p hp with h | h
    · exact hn p hp h
    · exact .inr (hasRow_mono hsub h)
  · rcases hw p hp with h | h
    · exact hs.woken p h
    · exact h

/-- A step that reserves nothing, keeps the head or moves it on, leaves the notifiers of
executors alone and wakes nobody. -/
theorem quiet (hs : Shared s log) (hR : reservedRows (e.toList ++ log) = reservedRows log)
    (hH : s.head ≤ s'.head)
    (hn : ∀ x n, (s'.states x n).executorNotifier = (s.states x n).executorNotifier)
    (hw : ∀ p, Reached (e.toList ++ log) p .woken → Reached log p .woken)
    (ho : Own (e.toList ++ log) pc') : ThreadInv.Kept K (wakeups g) log s pc s' pc' e := by
  refine kept hs hR.ge (fun q hq => ?_) (fun p _ h => .inl ?_) (fun p h => .inl (hw p h)) ho
  · rw [hR] at hq
    exact (hs.reserved q hq).trans_le hH
  · rw [SuperTensorBuffer.batchState, hn]
    exact h

/-- A write to the notifier of the batch at `p`: when it makes a silent notifier speak, the
batch has a row. -/
theorem notify {f : BatchState → BatchState} {x : Fin g.capacity} {n : ℕ} (hs : Shared s log)
    (hp : g.batchSize ∣ p) (hx : x = g.cell p) (hn : n = g.lap p)
    (hf : (s.batchState p).executorNotifier.Silent →
      (f (s.batchState p)).executorNotifier.Silent ∨ HasRow log p)
    (hR : reservedRows (e.toList ++ log) = reservedRows log)
    (hw : ∀ q, Reached (e.toList ++ log) q .woken → Reached log q .woken ∨ HasRow log q)
    (ho : Own (e.toList ++ log) pc') :
    ThreadInv.Kept K (wakeups g) log s pc (s.modifyState x n f) pc' e := by
  subst hx hn
  refine kept hs hR.ge (fun q hq => ?_) (fun q hq h => ?_) hw ho
  · rw [hR] at hq
    exact hs.reserved q hq
  · rw [s.batchState_modifyState hq hp]
    split_ifs with heq
    · subst heq
      exact (hf h).imp_right (hasRow_mono hR.ge)
    · exact .inl h

/-- The piece that a client is at is in a batch with a row. -/
theorem hasRow_of_insertion {ins : Insertion g ℕ} (ho : Own log pc) (hins : pc.insertion = some ins)
    (hpos : 0 < ins.clientBatchSize) : HasRow log (Blocks.lower g.batchSize ins.currentHead) :=
  ⟨ins.currentHead, ho.rows ins hins _ le_rfl (by omega), Blocks.lower_le _ _,
    Blocks.lt_lower_add g.batchSize_pos _⟩

end Wakeups

/-- Every step of a run in which nobody notifies late keeps the notifiers. -/
theorem wakeups_step {i : ℕ} {s s' : SuperTensorBuffer g ℕ} {pc pc' : Pc g ℕ} {c : Choice}
    {e : Option (Event g ℕ)} {log : List (Event g ℕ)}
    (ht : Transition (CounterOps.unbounded g) i s pc c s' pc' e) (hok : NotifiesOwnLap g i s pc c)
    (hK : (batches g).shared s log) (hKo : (batches g).own s log pc) (hs : Wakeups.Shared s log)
    (ho : Wakeups.Own log pc) : ThreadInv.Kept (batches g) (wakeups g) log s pc s' pc' e := by
  obtain ⟨⟨⟨hl, hw⟩, -⟩, hc⟩ := hK
  obtain ⟨⟨⟨hlo, -⟩, hho⟩, -⟩ := hKo
  cases ht with
  | reserve request h n hh =>
    subst hh
    have hmem : ∀ q, q ∈ reservedRows ((some (Event.reserved i s.head n)).toList ++ log) ↔
        q ∈ reservedRows log ∨ s.head ≤ q ∧ q < s.head + n := fun q => mem_rowsOf_cons rfl
    refine Wakeups.kept hs (fun q hq => (hmem q).2 (.inl hq)) (fun q hq => ?_) (fun _ _ => .inl)
      (fun _ => .inl) ⟨fun ins hins q h₁ h₂ => (hmem q).2 (.inr ?_),
        fun _ _ => elim_none rfl⟩
    · rcases (hmem q).1 hq with hq | hq
      · exact Nat.lt_add_right n (hs.reserved q hq)
      · exact hq.2
    · obtain rfl := Option.some.inj hins
      exact ⟨h₁, h₂⟩
  | nextBatch ins r h =>
    have heq := ins.next_eq h
    have hle := ins.toWrite_le
    refine Wakeups.quiet hs rfl le_rfl (fun _ _ => rfl) (fun _ => id)
      ⟨fun ins' hins q h₁ h₂ => ho.rows ins rfl q ?_ ?_, fun _ _ => elim_none rfl⟩
    all_goals
      obtain rfl := Option.some.inj hins
      simp only [Insertion.next, CounterOps.unbounded] at h₁ h₂ heq hle
      omega
  | notifyExecutor ins r =>
    have hrow := Wakeups.hasRow_of_insertion ho rfl hho.positive
    have hgen := hok ins r rfl rfl
    exact Wakeups.notify hs (Blocks.lower_dvd _ _) (Geometry.cell_lower _).symm
      (hgen.trans (Geometry.lap_lower _).symm) (fun _ => .inr hrow) rfl (fun _ => .inl)
      (Wakeups.own_same ho rfl (.inr rfl) (.inl rfl))
  | cloneExecutorNotifier e =>
    have hgen := Cells.generation_eq hw (hlo e .claimed rfl) (by simp [Stage.rank]) hc
    refine Wakeups.quiet hs rfl le_rfl (fun _ _ => rfl) (fun _ => id)
      ⟨fun _ => elim_none rfl, fun q n h => ?_⟩
    obtain ⟨rfl, rfl⟩ := Prod.mk.inj (Option.some.inj h)
    exact hgen
  | wake e n ticket hp =>
    obtain rfl := ho.waitsOn e n rfl
    have hrow : HasRow log e := by
      refine (hs.notified e (hlo e .claimed rfl).dvd).resolve_left fun hsilent => ?_
      exact absurd (hp.symm.trans (hsilent.poll_fst ticket i)) (by simp)
    refine Wakeups.notify hs (hlo e .claimed rfl).dvd rfl rfl (fun _ => .inr hrow) rfl (fun q hq => ?_)
      (Wakeups.own_same ho rfl (.inl rfl) (.inr rfl))
    rcases (reached_cons rfl).1 hq with ⟨rfl, -⟩ | hq
    · exact .inr hrow
    · exact .inl hq
  | stillWaiting e n ticket hp =>
    obtain rfl := ho.waitsOn e n rfl
    exact Wakeups.notify hs (hlo e .claimed rfl).dvd rfl rfl (fun h => .inl (h.poll_snd ticket i)) rfl
      (fun _ => .inl) (Wakeups.own_same ho rfl (.inl rfl) (.inr rfl))
  | deadlinePoll e n ticket phase hp =>
    obtain rfl := ho.waitsOn e n rfl
    rcases hp with rfl | rfl
    · exact Wakeups.notify hs (hlo e .woken rfl).dvd rfl rfl (fun h => .inl (h.poll_snd ticket i)) rfl
        (fun _ => .inl) (Wakeups.own_same ho rfl (.inl rfl) (.inl rfl))
    · exact Wakeups.notify hs (hlo e .woken rfl).dvd rfl rfl (fun h => .inl (h.poll_snd ticket i)) rfl
        (fun _ => .inl) (Wakeups.own_same ho rfl (.inl rfl) (.inr rfl))
  | deadlinePassed e n ticket =>
    obtain rfl := ho.waitsOn e n rfl
    exact Wakeups.notify hs (hlo e .woken rfl).dvd rfl rfl (fun h => .inl (h.cancel i)) rfl
      (fun _ => .inl) (Wakeups.own_same ho rfl (.inl rfl) (.inl rfl))
  | pad e h d hh =>
    subst hh
    exact Wakeups.quiet hs rfl (Nat.le_add_right _ _) (fun _ _ => rfl) (fun _ => id)
      (Wakeups.own_same ho rfl (.inl rfl) (.inl rfl))
  | replaceState e items =>
    refine Wakeups.kept hs le_rfl hs.reserved (fun q _ h => ?_)
      (fun q hq => .inl ((reached_cons_of_ne rfl (by decide)).1 hq))
      (Wakeups.own_same ho rfl (.inl rfl) (.inl rfl))
    rw [SuperTensorBuffer.batchState, SuperTensorBuffer.modifyTracker_states,
      SuperTensorBuffer.modifyState_states]
    split_ifs
    · exact .inl Notify.new_silent
    · exact .inl h
  | _ =>
    refine Wakeups.quiet hs rfl le_rfl ?_ ?_ (Wakeups.own_same ho rfl ?_ ?_)
    · first
        | exact fun _ _ => rfl
        | exact fun y m => s.modifyState_executorNotifier (by intro; rfl) _ _ y m
    · first
        | exact fun _ => id
        | exact fun p => (reached_cons_of_ne rfl (by decide)).1
    · first
        | exact .inl rfl
        | exact .inr rfl
    · first
        | exact .inl rfl
        | exact .inr rfl

/-- The wake-ups of executors, in every run in which clients notify their own lap. -/
theorem wakeups_hold {w : RingWorld g ℕ} (h : Runs (CounterOps.unbounded g) (NotifiesOwnLap g) w) :
    (wakeups g).Holds w := by
  refine h.threadInv (batches g) (fun v hv => batches_hold hv)
    (fun inputTensors => ⟨⟨fun q hq => ?_, fun p _ => .inl Notify.new_silent,
      fun p hp => absurd hp List.not_mem_nil⟩, fun i => ⟨fun _ => elim_none rfl,
      fun _ _ => elim_none rfl⟩, fun _ _ _ => True.intro⟩)
    fun i s pc c s' pc' e log ht hok hK hKo hs ho => wakeups_step ht hok hK hKo hs ho
  obtain ⟨a, ha, -⟩ := hq
  exact absurd ha List.not_mem_nil

/-- Who is woken has waited for a first row. -/
theorem Transition.of_woken {ops : CounterOps g α} {i : ℕ} {s s' : SuperTensorBuffer g α}
    {pc pc' : Pc g α} {c : Choice} {p : α} (ht : Transition ops i s pc c s' pc' (some (.woken p))) :
    ∃ n ticket, pc = .execute p (.firstWait n ticket) ∧
      ((s.states (ops.batchId p) n).executorNotifier.poll ticket i).1 = true := by
  cases ht with
  | wake e n ticket hp => exact ⟨n, ticket, rfl, hp⟩

/-- **No premature wake-up, when nobody notifies late.**  In a run in which every client
notifies while its tracker still holds the state of the lap it wrote in: an executor leaves
its first wait only for a batch with a reserved row, no batch without a row is sealed or
executed, and the assertion of `seal_current_batch` does not fire. -/
theorem no_premature_wakeup_when_notifying_own_lap {w : RingWorld g ℕ}
    (h : Runs (CounterOps.unbounded g) (NotifiesOwnLap g) w) :
    (∀ a w' p, (program (CounterOps.unbounded g)).step w a = some w' →
      w'.log = .woken p :: w.log → HasRow w.log p) ∧
    (∀ p st, Stage.woken.rank ≤ st.rank → Reached w.log p st → HasRow w.log p) ∧
    ∀ a, ¬ (program (CounterOps.unbounded g)).Panics w a .batchNotWritten := by
  have hK := batches_hold h
  have hJ := wakeups_hold h
  refine ⟨fun a w' p hs hlog => ?_, fun p st hst hr => ?_, fun a hP => ?_⟩
  · obtain ⟨n, ticket, hpc, hp⟩ := (transition_of_logged hs hlog).of_woken
    have hheld := (hK.own a.thread).1.1.1 p .claimed (by rw [hpc]; rfl)
    obtain rfl := (hJ.own a.thread).waitsOn p n (by rw [hpc]; rfl)
    refine (hJ.shared.notified p hheld.dvd).resolve_left fun hsilent => ?_
    exact absurd (hp.symm.trans (hsilent.poll_fst ticket a.thread)) (by simp)
  · exact hJ.shared.woken p (hK.shared.1.1.1.closed hr hst)
  · have hpan := panicking_of_panicked hP rfl
    have hown := (hK.own a.thread).1.1.1
    generalize w.threads a.thread = pc at hpan hown
    cases hpan with
    | batchNotWritten e hb =>
      have hheld := hown e .woken rfl
      obtain ⟨q, hq, hle, -⟩ := hJ.shared.woken e ((hheld.reached .woken).2 le_rfl)
      have hlt := hJ.shared.reserved q hq
      have hnot : ¬ Blocks.lower g.batchSize e ≤ w.shared.head := of_decide_eq_false hb
      rw [Blocks.lower_eq_of_dvd hheld.dvd] at hnot
      omega

/-- `NotifiesOwnLap`, evaluated. -/
def notifiesOwnLap (g : Geometry) : ℕ → SuperTensorBuffer g ℕ → Pc g ℕ → Choice → Bool
  | _, s, .insert ins (.notifyExecutor _), .go =>
    (s.trackers (g.cell ins.currentHead)).generation == g.lap ins.currentHead
  | _, _, _, _ => true

/-- A step that is checked to notify its own lap does. -/
theorem notifiesOwnLap_spec {i : ℕ} {s : SuperTensorBuffer g ℕ} {pc : Pc g ℕ} {c : Choice}
    (h : notifiesOwnLap g i s pc c = true) : NotifiesOwnLap g i s pc c := by
  rintro ins r rfl rfl
  simpa [notifiesOwnLap] using h

/-- An executor is woken for the first batch of a small ring. -/
theorem no_premature_wakeup_when_notifying_own_lap_twoByTwo :
    ∃ w : RingWorld twoByTwo ℕ, Reached w.log 0 .woken ∧ HasRow w.log 0 := by
  have hrun : (runFresh (CounterOps.unbounded twoByTwo) (notifiesOwnLap twoByTwo) (fun _ _ => byteTensor 2)
      (reserve 2 byteRequest ++ insertRow 2 ++ claimBatch 0 ++ go 0 3)).map
      (fun w => decide (Reached w.log 0 .woken)) = some true := by decide +kernel
  obtain ⟨w, hrun, hw⟩ := world_of_runFresh _ hrun
  have hwoken := of_decide_eq_true hw
  exact ⟨w, hwoken, (no_premature_wakeup_when_notifying_own_lap
    (Runs.of_runFresh (fun _ _ _ _ => notifiesOwnLap_spec) hrun)).2.1 0 .woken le_rfl hwoken⟩

/-- A run in a ring of two batches of two slots with one-row requests.  Client `3` counts its
row in the last slot of batch `0` and sleeps before it notifies; batch `0` is executed, reset
and retired; client `3` notifies the state that the tracker has for its next lap; executor `0`
claims batch `4` of that lap and is woken at once, with the head at `3`. -/
def lateNotification : List (Action Choice) :=
  reserve 2 byteRequest ++ insertRow 2 ++ reserve 3 byteRequest ++ go 3 6 ++ reserve 4 byteRequest ++
    claimBatch 0 ++ runBatch 0 ++ go 0 9 ++ go 3 1 ++ claimBatch 1 ++ claimBatch 0 ++ go 0 6

/-- The executor of batch `4` is woken although no row of it is reserved, and the assertion of
`seal_current_batch` fires. -/
theorem wakeup_can_be_premature :
    ¬ ∀ (g : Geometry) (w : RingWorld g ℕ), Runs (CounterOps.unbounded g) OneRow w →
      (∀ p, Reached w.log p .woken → HasRow w.log p) ∧
        ∀ a, ¬ (program (CounterOps.unbounded g)).Panics w a .batchNotWritten := by
  intro hall
  have hrun : (runFresh (CounterOps.unbounded twoByTwo) oneRow (fun _ _ => byteTensor 2)
      lateNotification).map
        (fun w => (program (CounterOps.unbounded twoByTwo)).panicSite w ⟨0, .go⟩) =
      some (some .batchNotWritten) := by decide +kernel
  obtain ⟨w, hrun, hw⟩ := world_of_runFresh _ hrun
  exact (hall twoByTwo w (Runs.of_runFresh (fun _ _ _ _ => oneRow_spec) hrun)).2 ⟨0, .go⟩
    (Program.panics_of_panicSite hw)

end Toutates
