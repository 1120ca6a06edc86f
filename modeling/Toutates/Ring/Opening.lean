/-
# Opening a batch

The client that writes the first slot of a batch opens it: it sets the `deadline` and the
`queue_start` of the `BatchState` that the tracker holds.  It does so some time after it
took the position, through a tracker that other clients, the executor and the reset of the
batch use as well.

`opening` is the invariant of the runs whose requests fit: nobody has opened a batch at or
above `head`, and a client that owes the first row of a batch finds the cells it is going to
set empty.  Together with `cells` it makes every cell of a `BatchState` write-once
(`keeps_step`).
-/

import Toutates.Ring.Cells
import Toutates.Ring.Rows

namespace Toutates

open Basis

variable {g : Geometry} {α : Type}

/-- The cells that the client in the first slot of a batch sets: `deadline` and
`queue_start`. -/
def BatchState.opening (b : BatchState) : Option Instant × Option Instant :=
  (b.deadline, b.executionTrace.queueStart)

/-- What a client in this phase finds in the cells it opens its batch with. -/
def InsertPhase.OpeningOk (c : Option Instant × Option Instant) : InsertPhase g → Prop
  | copyInput _ | storeDirty | setDeadline _ => c = (none, none)
  | setQueueStart _ => c.2 = none
  | _ => True

/-- The phases of a client that opens a batch. -/
def InsertPhase.opens : InsertPhase g → Bool
  | storeDirty | setDeadline _ | setQueueStart _ => true
  | _ => false

/-- The insertion that a client is in, and its phase. -/
def Pc.inserting : Pc g α → Option (Insertion g α × InsertPhase g)
  | .insert ins phase => some (ins, phase)
  | _ => none

/-- Who inserts is at its phase. -/
theorem Pc.eq_of_inserting {pc : Pc g α} {ins : Insertion g α} {phase : InsertPhase g}
    (h : pc.inserting = some (ins, phase)) : pc = .insert ins phase := by
  unfold Pc.inserting at h
  split at h
  · obtain ⟨rfl, rfl⟩ := Prod.mk.inj (Option.some.inj h)
    rfl
  · cases h

/-- Before a batch is opened. -/
theorem InsertPhase.openingOk_none (phase : InsertPhase g) : phase.OpeningOk (none, none) := by
  cases phase <;> first | exact True.intro | rfl

/-- What a client owes while its piece is not counted. -/
theorem Pc.owes_of_not_counted {ins : Insertion g ℕ} {phase : InsertPhase g}
    (hphase : phase.counted = false) {q : ℕ} (h₁ : ins.currentHead ≤ q)
    (h₂ : q < ins.currentHead + ins.clientBatchSize) : (Pc.insert ins phase).Owes q := by
  simp only [Pc.Owes, hphase, cond_false]
  exact ⟨h₁, h₂⟩

/-- A client owes the first rows of all the batches after the one it is at. -/
theorem Pc.owes_of_later {ins : Insertion g ℕ} {phase : InsertPhase g} {q : ℕ} (hq : g.batchSize ∣ q)
    (h₁ : ins.currentHead < q) (h₂ : q < ins.currentHead + ins.clientBatchSize) :
    (Pc.insert ins phase).Owes q := by
  have hlow := Blocks.lower_le g.batchSize ins.currentHead
  have hnext := Blocks.add_le_of_dvd (Blocks.lower_dvd _ ins.currentHead) hq (by omega)
  have hend := ins.piece_le
  cases hphase : phase.counted with
  | false => exact owes_of_not_counted hphase h₁.le h₂
  | true =>
    simp only [Pc.Owes, hphase, cond_true]
    omega

/-- The shared part of `opening`. -/
def Opening.Shared (s : SuperTensorBuffer g ℕ) : Prop :=
  ∀ p, g.batchSize ∣ p → s.head ≤ p → (s.batchState p).opening = (none, none)

/-- What `opening` says about a client. -/
structure Opening.Own (s : SuperTensorBuffer g ℕ) (ins : Insertion g ℕ) (phase : InsertPhase g) :
    Prop where
  first : phase.opens = true → g.batchSize ∣ ins.currentHead
  now : g.batchSize ∣ ins.currentHead → phase.OpeningOk (s.batchState ins.currentHead).opening
  later : ∀ q, g.batchSize ∣ q → ins.currentHead < q → q < ins.currentHead + ins.clientBatchSize →
    (s.batchState q).opening = (none, none)

/-- **Opening a batch.** -/
def opening (g : Geometry) : RingInv g ℕ where
  shared s _ := Opening.Shared s
  own s _ pc := ∀ ins phase, pc.inserting = some (ins, phase) → Opening.Own s ins phase
  apart _ _ := True
  symm _ := True.intro

/-- What is known of the rows and the cells in a run whose requests fit. -/
def deliveries (g : Geometry) : RingInv g ℕ := ((counters g).and (rows g)).and (cells g)

/-- The counters, the rows and the cells, in every run of requests that fit. -/
theorem deliveries_hold {w : RingWorld g ℕ} (h : Runs (CounterOps.unbounded g) (Fits g) w) :
    (deliveries g).Holds w :=
  ((counters_hold h).and (rows_hold h)).and (cells_hold h)

/-- A client that has not counted its piece owes the first row of it. -/
theorem Pc.owes_currentHead {s : SuperTensorBuffer g ℕ} {ins : Insertion g ℕ}
    {phase : InsertPhase g} (ho : Heads.Own s (.insert ins phase)) (hphase : phase.counted = false) :
    (Pc.insert ins phase).Owes ins.currentHead :=
  owes_of_not_counted hphase le_rfl (Nat.lt_add_of_pos_right ho.positive)

namespace Opening

variable {s s' : SuperTensorBuffer g ℕ} {log : List (Event g ℕ)} {pc pc' m : Pc g ℕ}
  {K : RingInv g ℕ} {e : Option (Event g ℕ)} {p : ℕ}

/-- The tracker of an owed row holds the state of the batch of that row. -/
theorem generation_eq {q : ℕ} (hK : (deliveries g).shared s log) (ho : Rows.Own s log pc)
    (hq : pc.Owes q) : (s.trackers (g.cell q)).generation = g.lap q := by
  obtain ⟨⟨⟨⟨⟨hl, hw⟩, -⟩, hb⟩, hr⟩, hc⟩ := hK
  obtain ⟨h₁, h₂⟩ := Rows.owes_mem hl hw hb hr ho hq
  have hgen := (hc.generation _ (Blocks.lower_dvd _ q) h₁ h₂).2 fun h =>
    Rows.not_sealed_of_owes hr ho hq (hl.closed h (by simp [Stage.rank]))
  rwa [Geometry.cell_lower, Geometry.lap_lower] at hgen

/-- What is not touched stays. -/
theorem own_same {ins : Insertion g ℕ} {phase : InsertPhase g}
    (h : ∀ x n, (s'.states x n).opening = (s.states x n).opening) (ho : Own s ins phase) :
    Own s' ins phase :=
  ⟨ho.first, fun hd => (h _ _).symm ▸ ho.now hd, fun q hq h₁ h₂ => (h _ _).trans (ho.later q hq h₁ h₂)⟩

/-- A step that opens no batch and brings no request. -/
theorem quiet (hs : Shared s) (ho : (opening g).own s log pc) (hH : s.head ≤ s'.head)
    (h : ∀ x n, (s'.states x n).opening = (s.states x n).opening)
    (hpc : ∀ ins phase', pc'.inserting = some (ins, phase') → ∃ phase,
      pc.inserting = some (ins, phase) ∧ (phase'.opens = true → phase.opens = true) ∧
      ∀ c, phase.OpeningOk c → phase'.OpeningOk c) :
    ThreadInv.Kept K (opening g) log s pc s' pc' e := by
  refine ⟨fun p hp hle => (h _ _).trans (hs p hp (hH.trans hle)), fun ins phase' hi => ?_,
    fun m _ _ hm _ => ⟨fun ins phase hi => own_same h (hm ins phase hi), True.intro⟩⟩
  obtain ⟨phase, hpc, hopens, hok⟩ := hpc ins phase' hi
  have hown := own_same h (ho ins phase hpc)
  exact ⟨fun h' => hown.first (hopens h'), fun hd => hok _ (hown.now hd), hown.later⟩

/-- The client in the first slot of a batch sets one of the two cells. -/
theorem write {ins : Insertion g ℕ} {phase phase' : InsertPhase g} {f : BatchState → BatchState}
    (hK : (deliveries g).shared s log) (hKo : (deliveries g).own s log (.insert ins phase))
    (hs : Shared s) (ho : Own s ins phase) (hopens : phase.opens = true)
    (hphase : phase.counted = false)
    (hok : phase'.OpeningOk (f (s.batchState ins.currentHead)).opening) :
    ThreadInv.Kept (deliveries g) (opening g) log s (.insert ins phase)
      (s.modifyState (g.cell ins.currentHead) (s.trackers (g.cell ins.currentHead)).generation f)
      (.insert ins phase') none := by
  have hdvd := ho.first hopens
  have howes := Pc.owes_currentHead hKo.1.1.1.2 hphase
  have hlt : ins.currentHead < s.head := (hK.1.2.taken _).2 (.inl (hKo.1.2.owes _ howes).1)
  rw [generation_eq hK hKo.1.2 howes]
  have hother : ∀ q, g.batchSize ∣ q → q ≠ ins.currentHead →
      (s.modifyState (g.cell ins.currentHead) (g.lap ins.currentHead) f).batchState q =
        s.batchState q := by
    intro q hq hne
    rw [s.batchState_modifyState hq hdvd, if_neg hne]
  refine ⟨fun p hp hle => ?_, fun ins' ph hi => ?_, fun m hm hma hmo _ => ⟨fun ins' ph hi => ?_,
    True.intro⟩⟩
  · rw [hother p hp (Nat.ne_of_gt (hlt.trans_le hle))]
    exact hs p hp hle
  · obtain ⟨rfl, rfl⟩ := Prod.mk.inj (Option.some.inj hi)
    refine ⟨fun _ => hdvd, fun _ => ?_, fun q hq h₁ h₂ => ?_⟩
    · rw [s.batchState_modifyState hdvd hdvd, if_pos rfl]
      exact hok
    · rw [hother q hq (Nat.ne_of_gt h₁)]
      exact ho.later q hq h₁ h₂
  · obtain rfl := Pc.eq_of_inserting hi
    have hown := hmo ins' ph rfl
    refine ⟨hown.first, fun hd => ?_, fun q hq h₁ h₂ => ?_⟩
    · rw [s.batchState_modifyState hd hdvd]
      split_ifs with heq
      · -- two clients at one first row: the other one has counted it
        cases hph : ph.counted with
        | false =>
          have hme := Pc.owes_currentHead hm.1.1.1.2 hph
          rw [heq] at hme
          exact absurd hme (hma.1.2 _ howes)
        | true => cases ph <;> first | exact True.intro | cases hph
      · exact hown.now hd
    · have hme : (Pc.insert ins' ph).Owes q := Pc.owes_of_later hq h₁ h₂
      have hne : q ≠ ins.currentHead := by
        rintro rfl
        exact hma.1.2 _ howes hme
      rw [hother q hq hne]
      exact hown.later q hq h₁ h₂

/-- The state that `reset_batch` gives the tracker is not opened. -/
theorem replaceState {x : Fin g.capacity} {n : ℕ} {f : DataTracker → DataTracker} (hs : Shared s)
    (hpc' : pc'.inserting = none) :
    ThreadInv.Kept K (opening g) log s pc
      ((s.modifyState x n fun _ => BatchState.new).modifyTracker x f) pc' e := by
  have h : ∀ y m, (((s.modifyState x n fun _ => BatchState.new).modifyTracker x f).states y m).opening =
      (none, none) ∨ (((s.modifyState x n fun _ => BatchState.new).modifyTracker x f).states y m) =
        s.states y m := by
    intro y m
    rw [SuperTensorBuffer.modifyTracker_states, SuperTensorBuffer.modifyState_states]
    split_ifs
    · exact .inl rfl
    · exact .inr rfl
  refine ⟨fun p hp hle => ?_, fun _ _ => elim_none hpc',
    fun m _ _ hmo _ => ⟨fun ins ph hi => ⟨(hmo ins ph hi).first, fun hd => ?_, fun q hq h₁ h₂ => ?_⟩,
    True.intro⟩⟩
  · rcases h (g.cell p) (g.lap p) with h | h
    · exact h
    · rw [SuperTensorBuffer.batchState, h]
      exact hs p hp hle
  · rcases h (g.cell ins.currentHead) (g.lap ins.currentHead) with h | h
    · rw [SuperTensorBuffer.batchState, h]
      exact ph.openingOk_none
    · rw [SuperTensorBuffer.batchState, h]
      exact (hmo ins ph hi).now hd
  · rcases h (g.cell q) (g.lap q) with h | h
    · exact h
    · rw [SuperTensorBuffer.batchState, h]
      exact (hmo ins ph hi).later q hq h₁ h₂

end Opening

/-- A write that leaves the two cells alone. -/
theorem SuperTensorBuffer.modifyState_opening (s : SuperTensorBuffer g α) {f : BatchState → BatchState}
    (hf : ∀ b, (f b).opening = b.opening) (x : Fin g.capacity) (n : ℕ) (y : Fin g.capacity) (m : ℕ) :
    ((s.modifyState x n f).states y m).opening = (s.states y m).opening :=
  s.modifyState_part hf x n y m

/-- Every step of a run whose requests fit keeps the openings. -/
theorem opening_step {i : ℕ} {s s' : SuperTensorBuffer g ℕ} {pc pc' : Pc g ℕ} {c : Choice}
    {e : Option (Event g ℕ)} {log : List (Event g ℕ)}
    (ht : Transition (CounterOps.unbounded g) i s pc c s' pc' e) (hK : (deliveries g).shared s log)
    (hKo : (deliveries g).own s log pc) (hs : Opening.Shared s) (ho : (opening g).own s log pc) :
    ThreadInv.Kept (deliveries g) (opening g) log s pc s' pc' e := by
  cases ht with
  | reserve request h n hh =>
    subst hh
    refine ⟨fun p hp hle => hs p hp ((Nat.le_add_right _ _).trans hle), fun ins phase hi => ?_,
      fun m _ _ hm _ => ⟨fun ins phase hi => ?_, True.intro⟩⟩
    · obtain ⟨rfl, rfl⟩ := Prod.mk.inj (Option.some.inj hi)
      exact ⟨fun h => absurd h Bool.false_ne_true, fun hd => hs _ hd le_rfl, fun q hq h₁ _ => hs q hq h₁.le⟩
    · have hown := hm ins phase hi
      exact ⟨hown.first, hown.now, hown.later⟩
  | copiedFirst ins j hj hslot =>
    have hown := ho ins (.copyInput j) rfl
    refine ⟨hs, fun ins' phase hi => ?_, fun m _ _ hm _ => ⟨hm, True.intro⟩⟩
    obtain ⟨rfl, rfl⟩ := Prod.mk.inj (Option.some.inj hi)
    exact ⟨fun _ => Nat.dvd_of_mod_eq_zero hslot, hown.now, hown.later⟩
  | setDeadline ins now hd =>
    have hown := ho ins (.setDeadline now) rfl
    have hok := hown.now (hown.first rfl)
    exact Opening.write hK hKo hs hown rfl rfl (congrArg Prod.snd hok)
  | setQueueStart ins now hd =>
    exact Opening.write hK hKo hs (ho ins (.setQueueStart now) rfl) rfl rfl True.intro
  | addWritten ins o t n r hr phase hp =>
    refine Opening.quiet hs ho le_rfl (fun _ _ => rfl) fun ins' phase' hi => ?_
    obtain ⟨rfl, rfl⟩ := Prod.mk.inj (Option.some.inj hi)
    refine ⟨_, rfl, ?_⟩
    rw [hp]
    split <;> exact ⟨fun h => absurd h Bool.false_ne_true, fun _ _ => True.intro⟩
  | nextBatch ins r h =>
    have hown := ho ins (.push r) rfl
    have heq : Blocks.lower g.batchSize ins.currentHead + g.batchSize =
      ins.currentHead + ins.toWrite (CounterOps.unbounded g) := ins.next_eq h
    have hle := ins.toWrite_le
    have hlt := Blocks.lt_lower_add g.batchSize_pos ins.currentHead
    refine ⟨hs, fun ins' phase hi => ?_, fun m _ _ hm _ => ⟨hm, True.intro⟩⟩
    obtain ⟨rfl, rfl⟩ := Prod.mk.inj (Option.some.inj hi)
    simp only [CounterOps.unbounded] at heq h hle
    refine ⟨fun h => absurd h Bool.false_ne_true, fun hd => hown.later _ hd ?_ ?_,
      fun q hq h₁ h₂ => hown.later q hq ?_ ?_⟩
    all_goals
      simp only [Insertion.next, CounterOps.unbounded] at *
      omega
  | replaceState e items => exact Opening.replaceState hs rfl
  | pad e h d hh =>
    subst hh
    exact Opening.quiet hs ho (Nat.le_add_right _ _) (fun _ _ => rfl) fun _ _ => elim_none rfl
  | deadlinePoll e n ticket phase hp =>
    rcases hp with rfl | rfl <;>
      exact Opening.quiet hs ho le_rfl (fun y m => s.modifyState_opening (by intro; rfl) _ _ y m)
        fun _ _ => elim_none rfl
  | _ =>
    refine Opening.quiet hs ho le_rfl ?_ ?_
    · first
        | exact fun _ _ => rfl
        | exact fun y m => s.modifyState_opening (by intro; rfl) _ _ y m
    · first
        | intro ins' phase' hi
          obtain ⟨rfl, rfl⟩ := Prod.mk.inj (Option.some.inj hi)
          exact ⟨_, rfl, fun h => h, fun _ h => h⟩
        | intro ins' phase' hi
          obtain ⟨rfl, rfl⟩ := Prod.mk.inj (Option.some.inj hi)
          exact ⟨_, rfl, fun h => absurd h Bool.false_ne_true, fun _ _ => True.intro⟩
        | exact fun _ _ => elim_none rfl

/-- The opening of batches, in every run of requests that fit. -/
theorem opening_holds {w : RingWorld g ℕ} (h : Runs (CounterOps.unbounded g) (Fits g) w) :
    (opening g).Holds w := by
  refine h.threadInv (deliveries g) (fun v hv => deliveries_hold hv)
    (fun inputTensors => ⟨fun _ _ _ => rfl, fun _ _ _ => elim_none rfl, fun _ _ _ => True.intro⟩)
    fun i s pc c s' pc' e log ht _ hK hKo hs ho => opening_step ht hK hKo hs ho

/-! ### Write-once cells -/

/-- `b'` is `b` with more of its cells set. -/
structure BatchState.Keeps (b b' : BatchState) : Prop where
  deadline : ∀ v, b.deadline = some v → b'.deadline = some v
  queueStart : ∀ v, b.executionTrace.queueStart = some v → b'.executionTrace.queueStart = some v
  execStart : ∀ v, b.executionTrace.execStart = some v → b'.executionTrace.execStart = some v
  execEnd : ∀ v, b.executionTrace.execEnd = some v → b'.executionTrace.execEnd = some v
  output : ∀ v, b.output = some v → b'.output = some v

namespace BatchState.Keeps

/-- A state keeps itself. -/
theorem refl (b : BatchState) : b.Keeps b :=
  ⟨fun _ => id, fun _ => id, fun _ => id, fun _ => id, fun _ => id⟩

/-- What is kept twice is kept. -/
theorem trans {a b c : BatchState} (h : a.Keeps b) (h' : b.Keeps c) : a.Keeps c :=
  ⟨fun v hv => h'.deadline v (h.deadline v hv), fun v hv => h'.queueStart v (h.queueStart v hv),
    fun v hv => h'.execStart v (h.execStart v hv), fun v hv => h'.execEnd v (h.execEnd v hv),
    fun v hv => h'.output v (h.output v hv)⟩

/-- A state with no cell set keeps nothing. -/
theorem of_unset {b b' : BatchState} (ho : b.opening = (none, none)) (hc : b.cells = (none, none, none)) :
    b.Keeps b' := by
  simp only [opening, cells, Prod.mk.injEq] at ho hc
  refine ⟨fun v hv => ?_, fun v hv => ?_, fun v hv => ?_, fun v hv => ?_, fun v hv => ?_⟩
  · exact elim_none ho.1 hv
  · exact elim_none ho.2 hv
  · exact elim_none hc.1 hv
  · exact elim_none hc.2.1 hv
  · exact elim_none hc.2.2 hv

/-- The times of an execution stay set. -/
theorem execCells {b b' : BatchState} (h : b.Keeps b')
    (hb : b.executionTrace.execStart.isSome ∧ b.executionTrace.execEnd.isSome) :
    b'.executionTrace.execStart.isSome ∧ b'.executionTrace.execEnd.isSome := by
  obtain ⟨⟨t, ht⟩, ⟨u, hu⟩⟩ := hb.imp Option.isSome_iff_exists.1 Option.isSome_iff_exists.1
  rw [h.execStart t ht, h.execEnd u hu]
  exact ⟨rfl, rfl⟩

end BatchState.Keeps

/-- A write to one state keeps the cells of all of them when it keeps those of that one. -/
theorem SuperTensorBuffer.modifyState_keeps (s : SuperTensorBuffer g α) {x : Fin g.capacity} {n : ℕ}
    {f : BatchState → BatchState} (hf : (s.states x n).Keeps (f (s.states x n))) (y : Fin g.capacity)
    (m : ℕ) : (s.states y m).Keeps ((s.modifyState x n f).states y m) := by
  rw [modifyState_states]
  split_ifs with h
  · rw [h.1, h.2]
    exact hf
  · exact BatchState.Keeps.refl _

/-- The invariants that make the cells write-once. -/
def lifecycle (g : Geometry) : RingInv g ℕ := (deliveries g).and (opening g)

/-- The cells and their opening, in every run of requests that fit. -/
theorem lifecycle_holds {w : RingWorld g ℕ} (h : Runs (CounterOps.unbounded g) (Fits g) w) :
    (lifecycle g).Holds w :=
  (deliveries_hold h).and (opening_holds h)

/-- The state that `reset_batch` overwrites has no cell set. -/
theorem unset_of_next {s : SuperTensorBuffer g ℕ} {log : List (Event g ℕ)} {p : ℕ}
    (hK : (lifecycle g).shared s log) (hp : Life.Own s log p .ran) :
    (s.states (g.cell p) ((s.trackers (g.cell p)).generation + 1)).opening = (none, none) ∧
      (s.states (g.cell p) ((s.trackers (g.cell p)).generation + 1)).cells = (none, none, none) := by
  obtain ⟨⟨⟨⟨⟨⟨hl, hw⟩, -⟩, hb⟩, hr⟩, hc⟩, ho⟩ := hK
  obtain ⟨h₁, -⟩ := Window.held_mem hw hp (by simp)
  have hE := hw.executorHead_le
  have hH : s.head ≤ s.tail + g.slots := hb
  have hdvd : g.batchSize ∣ p + g.slots := Nat.dvd_add hp.dvd g.batchSize_dvd_slots
  have hstate : s.states (g.cell p) ((s.trackers (g.cell p)).generation + 1) =
      s.batchState (p + g.slots) := by
    rw [Cells.generation_eq hw hp (by simp [Stage.rank]) hc, SuperTensorBuffer.batchState,
      Geometry.cell_add_slots, Geometry.lap_add_slots]
  rw [hstate]
  exact ⟨ho _ hdvd (by omega), hc.future _ hdvd (by omega)⟩

/-- **A set cell stays as it is**, whatever step is taken in a run whose requests fit. -/
theorem keeps_step {i : ℕ} {s s' : SuperTensorBuffer g ℕ} {pc pc' : Pc g ℕ} {c : Choice}
    {e : Option (Event g ℕ)} {log : List (Event g ℕ)}
    (ht : Transition (CounterOps.unbounded g) i s pc c s' pc' e) (hK : (lifecycle g).shared s log)
    (hKo : (lifecycle g).own s log pc) (y : Fin g.capacity) (m : ℕ) :
    (s.states y m).Keeps (s'.states y m) := by
  cases ht with
  | setDeadline ins now hd =>
    refine s.modifyState_keeps ⟨fun v hv => ?_, fun _ => id, fun _ => id, fun _ => id, fun _ => id⟩ y m
    exact elim_none hd hv
  | setQueueStart ins now hd =>
    refine s.modifyState_keeps ⟨fun _ => id, fun v hv => ?_, fun _ => id, fun _ => id, fun _ => id⟩ y m
    exact elim_none hd hv
  | setExecStart e now hd =>
    refine s.modifyState_keeps ⟨fun _ => id, fun _ => id, fun v hv => ?_, fun _ => id, fun _ => id⟩ y m
    exact elim_none hd hv
  | setExecEnd e items result now hd =>
    refine s.modifyState_keeps ⟨fun _ => id, fun _ => id, fun _ => id, fun v hv => ?_, fun _ => id⟩ y m
    exact elim_none hd hv
  | setOutput e items result hd =>
    refine s.modifyState_keeps ⟨fun _ => id, fun _ => id, fun _ => id, fun _ => id, fun v hv => ?_⟩ y m
    exact elim_none hd hv
  | replaceState e items =>
    obtain ⟨ho, hc⟩ := unset_of_next hK (hKo.1.1.1.1.1.1 e .ran rfl)
    rw [SuperTensorBuffer.modifyTracker_states]
    exact s.modifyState_keeps (.of_unset ho hc) y m
  | _ =>
    first
      | exact BatchState.Keeps.refl _
      | exact s.modifyState_keeps
          ⟨fun _ => id, fun _ => id, fun _ => id, fun _ => id, fun _ => id⟩ y m

end Toutates
