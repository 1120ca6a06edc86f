/-
# When a batch is padded

The executor of a batch that is not full waits for its last row or for its deadline before
`seal_current_batch` skips the slots that are left.  It has no other way to come there: as long as the
deadline of a batch does not pass, and nobody notifies its executor who has no row in it, the batch is sealed
when a client has counted a row in each of its slots (`sealed_full_before_deadline`).

A wait ends by what was notified, whoever notified it, so it matters how often the executor of a batch that is
not full is notified: once, by the client in the first slot, which has set the deadline by then (`deadlines`).
The first wait takes that, and the second one has nothing to take before the batch is full.
-/

import Toutates.Ring.Awaited

namespace Toutates

open Basis

variable {g : Geometry} {p k : ℕ} {w : RingWorld g ℕ}
  {inputTensors : Fin g.capacity → Fin g.numInputs → BatchableTensor g.batchSize}

/-- Whoever notifies the executor of the batch at `p` has rows in it. -/
def RungByOwn (g : Geometry) (p : ℕ) : RingGuard g ℕ := fun _ s pc c =>
  ∀ ins r, pc = .insert ins (.notifyExecutor r) → c = .go → g.cell ins.currentHead = g.cell p →
    (s.trackers (g.cell p)).generation = g.lap p → g.lap ins.currentHead = g.lap p

/-- Accepted requests fit, the executor of the batch at `p` is notified by its own clients, and the deadline of
the batch does not pass. -/
def Patient (g : Geometry) (p : ℕ) : RingGuard g ℕ := fun i s pc c =>
  Fits g i s pc c ∧ RungByOwn g p i s pc c ∧ ∀ n ticket, pc = .execute p (.deadlineWait n ticket) → c ≠ .timeout

/-- Requests of a patient run fit. -/
theorem ServedRing.fits_of_patient (h : ServedRing (Patient g p) k inputTensors w) :
    ServedRing (Fits g) k inputTensors w :=
  h.mono fun _ _ _ _ hok => hok.1

/-- A deadline stays set. -/
theorem BatchState.Keeps.deadline_isSome {b b' : BatchState} (h : b.Keeps b') (hd : b.deadline.isSome) :
    b'.deadline.isSome := by
  obtain ⟨v, hv⟩ := Option.isSome_iff_exists.1 hd
  exact Option.isSome_iff_exists.2 ⟨v, h.deadline v hv⟩

/-- A write to the state of a batch leaves the notifiers of the others alone. -/
theorem SuperTensorBuffer.executorNotifier_modifyState (s : SuperTensorBuffer g ℕ) {q : ℕ} (hp : g.batchSize ∣ p)
    (hq : g.batchSize ∣ q) (f : BatchState → BatchState) :
    (s.modifyState (g.cell q) (g.lap q) f).executorNotifier p =
      if p = q then (f (s.batchState q)).executorNotifier else s.executorNotifier p := by
  rw [executorNotifier, s.batchState_modifyState hp hq]
  split_ifs
  · rfl
  · rfl

/-! ### The invariant -/

/-- A client in this phase has set the deadline, if it is in the first slot of its batch. -/
def InsertPhase.timed : InsertPhase g → Bool
  | setQueueStart _ | cloneOutput | cloneTrace _ | cloneNotifier _ _ | addWritten _ _ _ => true
  | _ => false

/-- The thread is about to notify for the row at `p`. -/
def Pc.Announces (p : ℕ) : Pc g ℕ → Prop
  | .insert ins (.notifyExecutor _) => ins.currentHead = p
  | _ => False

/-- The executor of the batch at `p` is in its first wait, or before, and has not been notified. -/
structure Unrung (p : ℕ) (s : SuperTensorBuffer g ℕ) (log : List (Event g ℕ)) : Prop where
  silent : (s.executorNotifier p).Silent
  asleep : ¬ Reached log p .woken

/-- The shared part of `deadlines`. -/
structure Deadlines.Shared (p : ℕ) (s : SuperTensorBuffer g ℕ) (log : List (Event g ℕ)) : Prop where
  unrung : s.head < p + g.batchSize → p ∉ countedRows log → Unrung p s log
  taken : s.head < p + g.batchSize → Reached log p .woken → (s.executorNotifier p).Silent
  single : s.head < p + g.batchSize → (s.executorNotifier p).Single
  timed : p ∈ countedRows log → (s.batchState p).deadline.isSome
  whole : ∀ q, p ≤ q → q < p + g.batchSize → q ∉ paddedRows log

/-- What `deadlines` says about a thread. -/
def Deadlines.Own (p : ℕ) (s : SuperTensorBuffer g ℕ) (log : List (Event g ℕ)) : Pc g ℕ → Prop
  | .insert ins (.notifyExecutor _) =>
    (ins.batchSlot (CounterOps.unbounded g) = 0 ∨ ins.slotEnd (CounterOps.unbounded g) = g.batchSize) ∧
      (∀ q, ins.currentHead ≤ q → q < ins.currentHead + ins.toWrite (CounterOps.unbounded g) → q ∈ countedRows log) ∧
      (ins.currentHead = p → s.head < p + g.batchSize → Unrung p s log)
  | .insert ins phase => phase.timed = true → ins.currentHead = p → (s.batchState p).deadline.isSome
  | .execute q .sealLoadHead => q = p → p + g.batchSize ≤ s.head
  | .execute q (.sealCasHead _ _) => q ≠ p
  | _ => True

/-- **Nobody seals the batch at `p` before it is full.** -/
def deadlines (g : Geometry) (p : ℕ) : RingInv g ℕ where
  shared := Deadlines.Shared p
  own := Deadlines.Own p
  apart l m := ¬ (l.Announces p ∧ m.Announces p)
  symm h hml := h hml.symm

namespace Deadlines

variable {s s' : SuperTensorBuffer g ℕ} {log log' : List (Event g ℕ)} {pc pc' m : Pc g ℕ}
  {K : RingInv g ℕ} {e : Option (Event g ℕ)}

/-- What a thread knows stays true as the head and the counts grow. -/
theorem Own.mono (ho : Own p s log m) (hH : s.head ≤ s'.head) (hcount : countedRows log ⊆ countedRows log')
    (hd : (s.batchState p).deadline.isSome → (s'.batchState p).deadline.isSome)
    (hu : m.Announces p → s'.head < p + g.batchSize → Unrung p s log → Unrung p s' log') : Own p s' log' m := by
  cases m with
  | insert ins phase =>
    cases phase with
    | notifyExecutor r =>
      exact ⟨ho.1, fun q h₁ h₂ => hcount (ho.2.1 q h₁ h₂), fun hp hlt => hu hp hlt (ho.2.2 hp (hH.trans_lt hlt))⟩
    | _ => exact fun ht hp => hd (ho ht hp)
  | execute q phase =>
    cases phase with
    | sealLoadHead => exact fun hq => (ho hq).trans hH
    | sealCasHead h d => exact ho
    | _ => exact True.intro
  | _ => exact True.intro

/-- What a step has to show that notifies nobody for the batch. -/
theorem kept (hs : Shared p s log) (hH : s.head ≤ s'.head) (hcount : countedRows log ⊆ countedRows (e.toList ++ log))
    (hd : (s.batchState p).deadline.isSome → (s'.batchState p).deadline.isSome)
    (htimed : p ∈ countedRows (e.toList ++ log) → p ∈ countedRows log ∨ (s'.batchState p).deadline.isSome)
    (hwhole : ∀ q, p ≤ q → q < p + g.batchSize → q ∈ paddedRows (e.toList ++ log) → q ∈ paddedRows log)
    (hunrung : s'.head < p + g.batchSize → Unrung p s log → Unrung p s' (e.toList ++ log))
    (htaken : s'.head < p + g.batchSize → Reached (e.toList ++ log) p .woken → (s'.executorNotifier p).Silent)
    (hsingle : s'.head < p + g.batchSize → (s'.executorNotifier p).Single) (ho : Own p s' (e.toList ++ log) pc')
    (hapart : ∀ m, K.own s log m → Own p s log m → ¬ (pc'.Announces p ∧ m.Announces p)) :
    ThreadInv.Kept K (deadlines g p) log s pc s' pc' e :=
  ⟨⟨fun hlt hp => hunrung hlt (hs.unrung (hH.trans_lt hlt) fun hc => hp (hcount hc)), htaken, hsingle,
    fun hp => (htimed hp).elim (fun hc => hd (hs.timed hc)) id,
    fun q h₁ h₂ hq => hs.whole q h₁ h₂ (hwhole q h₁ h₂ hq)⟩, ho,
    fun m hm _ hmo _ => ⟨hmo.mono hH hcount hd fun _ => hunrung, hapart m hm hmo⟩⟩

/-- A step that counts nothing, skips nothing in the batch, and wakes nobody in it. -/
theorem quiet (hs : Shared p s log) (hH : s.head ≤ s'.head) (hk : ∀ x n, (s.states x n).Keeps (s'.states x n))
    (hcount : countedRows (e.toList ++ log) = countedRows log)
    (hwhole : ∀ q, p ≤ q → q < p + g.batchSize → q ∈ paddedRows (e.toList ++ log) → q ∈ paddedRows log)
    (hw : Reached (e.toList ++ log) p .woken → Reached log p .woken)
    (hsilent : (s.executorNotifier p).Silent → (s'.executorNotifier p).Silent)
    (hsingle : s.head < p + g.batchSize → (s'.executorNotifier p).Single) (ho : Own p s' (e.toList ++ log) pc')
    (hapart : ¬ pc'.Announces p) : ThreadInv.Kept K (deadlines g p) log s pc s' pc' e :=
  kept hs hH hcount.ge (hk _ _).deadline_isSome (fun hp => .inl (hcount ▸ hp)) hwhole
    (fun _ h => ⟨hsilent h.silent, fun hp => h.asleep (hw hp)⟩)
    (fun hlt hp => hsilent (hs.taken (hH.trans_lt hlt) (hw hp))) (fun hlt => hsingle (hH.trans_lt hlt)) ho
    fun _ _ _ h => hapart h.1

/-- ... and leaves its notifier alone. -/
theorem same (hs : Shared p s log) (hH : s.head ≤ s'.head) (hk : ∀ x n, (s.states x n).Keeps (s'.states x n))
    (hn : s'.executorNotifier p = s.executorNotifier p) (hcount : countedRows (e.toList ++ log) = countedRows log)
    (hwhole : ∀ q, p ≤ q → q < p + g.batchSize → q ∈ paddedRows (e.toList ++ log) → q ∈ paddedRows log)
    (hw : Reached (e.toList ++ log) p .woken → Reached log p .woken) (ho : Own p s' (e.toList ++ log) pc')
    (hapart : ¬ pc'.Announces p) : ThreadInv.Kept K (deadlines g p) log s pc s' pc' e :=
  quiet hs hH hk hcount hwhole hw (fun h => hn ▸ h) (fun hlt => hn ▸ hs.single hlt) ho hapart

/-- The piece with the first row of a batch starts with it. -/
theorem currentHead_eq_of_mem {ins : Insertion g ℕ} (hp : g.batchSize ∣ p) (h₁ : ins.currentHead ≤ p)
    (h₂ : p < ins.currentHead + ins.toWrite (CounterOps.unbounded g)) : ins.currentHead = p := by
  have hlower := Insertion.lower_eq_of_mem hp le_rfl (Nat.lt_add_of_pos_right g.batchSize_pos) h₁ h₂
  have hle := Blocks.lower_le g.batchSize ins.currentHead
  omega

/-- Whoever notifies the executor of a batch that is not full is in its first slot. -/
theorem first_of_notifying {ins : Insertion g ℕ} {r : WriteReservation g} (hr : Rows.Shared s log)
    (hpos : 0 < ins.clientBatchSize) (ho : Own p s log (.insert ins (.notifyExecutor r)))
    (hlower : Blocks.lower g.batchSize ins.currentHead = p) (hlt : s.head < p + g.batchSize) :
    ins.currentHead = p := by
  have hslot : Blocks.lower g.batchSize ins.currentHead + ins.batchSlot (CounterOps.unbounded g) = ins.currentHead :=
    Blocks.lower_add_mod g.batchSize ins.currentHead
  have hwrite := ins.toWrite_pos hpos
  rcases ho.1 with hfirst | hlast
  · omega
  · have hlastRow := ho.2.1 (ins.currentHead + ins.toWrite (CounterOps.unbounded g) - 1) (by omega) (by omega)
    have hhead := (hr.taken _).2 (.inl (hr.counted hlastRow))
    rw [ins.slotEnd_eq] at hlast
    omega

/-- A client notifies. -/
theorem ring {ins : Insertion g ℕ} {r : WriteReservation g} (hp : g.batchSize ∣ p) (hr : Rows.Shared s log)
    (hpos : 0 < ins.clientBatchSize) (hs : Shared p s log) (ho : Own p s log (.insert ins (.notifyExecutor r)))
    (hrung : RungByOwn g p 0 s (.insert ins (.notifyExecutor r)) .go) (hk : ∀ x n, (s.states x n).Keeps
      ((s.modifyState (g.cell ins.currentHead) (s.trackers (g.cell ins.currentHead)).generation
        fun b => { b with executorNotifier := b.executorNotifier.notifyOne }).states x n)) :
    ThreadInv.Kept K (deadlines g p) log s (.insert ins (.notifyExecutor r))
      (s.modifyState (g.cell ins.currentHead) (s.trackers (g.cell ins.currentHead)).generation
        fun b => { b with executorNotifier := b.executorNotifier.notifyOne }) (.insert ins (.push r)) none := by
  by_cases hmine : g.cell ins.currentHead = g.cell p ∧ (s.trackers (g.cell ins.currentHead)).generation = g.lap p
  · obtain ⟨hcell, hgen⟩ := hmine
    rw [hcell] at hgen
    have hlap := hrung ins r rfl rfl hcell hgen
    have hlower : Blocks.lower g.batchSize ins.currentHead = p :=
      Geometry.eq_of_cell_lap_eq (Blocks.lower_dvd _ _) hp (by rw [Geometry.cell_lower, hcell])
        (by rw [Geometry.lap_lower, hlap])
    have hfirst := first_of_notifying hr hpos ho hlower
    rw [hcell, hgen] at hk ⊢
    have hnotifier : (s.modifyState (g.cell p) (g.lap p)
        fun b => { b with executorNotifier := b.executorNotifier.notifyOne }).executorNotifier p =
          (s.executorNotifier p).notifyOne := by
      rw [s.executorNotifier_modifyState hp hp, if_pos rfl, SuperTensorBuffer.executorNotifier]
    have hunrung : s.head < p + g.batchSize → Unrung p s log := fun hlt => ho.2.2 (hfirst hlt) hlt
    refine ⟨⟨fun hlt hnot => absurd (ho.2.1 p ?_ ?_) hnot, fun hlt hw => absurd hw (hunrung hlt).asleep, fun hlt => ?_,
      fun hc => ?_, hs.whole⟩, fun h => absurd h Bool.false_ne_true, fun m _ _ hm hma => ⟨?_, fun h => h.1⟩⟩
    · exact (hfirst hlt).le
    · have := ins.toWrite_pos hpos
      have := hfirst hlt
      omega
    · rw [hnotifier]
      exact (hunrung hlt).silent.single_notifyOne
    · exact (hk _ _).deadline_isSome (hs.timed hc)
    · exact hm.mono le_rfl (Set.Subset.refl _) (hk _ _).deadline_isSome fun hme hlt => absurd ⟨hfirst hlt, hme⟩ hma
  · refine same hs le_rfl hk ?_ rfl (fun _ _ _ => id) id (fun h => absurd h Bool.false_ne_true) id
    rw [SuperTensorBuffer.executorNotifier, SuperTensorBuffer.batchState, SuperTensorBuffer.modifyState_states,
      if_neg fun h => hmine ⟨h.1.symm, h.2.symm⟩]
    rfl

/-- The rows that are counted after one more count. -/
theorem mem_countedRows_cons {q h n : ℕ} : q ∈ countedRows ((some (Event.counted h n)).toList ++ log) ↔
    q ∈ countedRows log ∨ h ≤ q ∧ q < h + n :=
  mem_rowsOf_cons rfl

/-- A client counts its piece; if that has the first row of the batch, nobody has been notified yet. -/
theorem count {ins : Insertion g ℕ} {o t n : ℕ} {r : WriteReservation g} {phase : InsertPhase g}
    {f : DataTracker → DataTracker} (hp : g.batchSize ∣ p) (hr : Rows.Own s log (.insert ins (.addWritten o t n)))
    (hpos : 0 < ins.clientBatchSize) (hs : Shared p s log) (ho : Own p s log (.insert ins (.addWritten o t n)))
    (hphase : phase = if ins.batchSlot (CounterOps.unbounded g) = 0 ∨
      ins.slotEnd (CounterOps.unbounded g) = g.batchSize then .notifyExecutor r else .push r) :
    ThreadInv.Kept ((lifecycle g).and (waits g)) (deadlines g p) log s (.insert ins (.addWritten o t n))
      (s.modifyTracker (g.cell ins.currentHead) f) (.insert ins phase)
      (some (.counted ins.currentHead (ins.toWrite (CounterOps.unbounded g)))) := by
  have hwrite := ins.toWrite_pos hpos
  have howes : ins.currentHead = p → p ∉ countedRows log := fun hch =>
    (hr.owes p (Pc.owes_of_not_counted rfl hch.le (by omega))).2
  have htimed : p ∈ countedRows ((some (Event.counted ins.currentHead
      (ins.toWrite (CounterOps.unbounded g)))).toList ++ log) →
        p ∈ countedRows log ∨ (s.batchState p).deadline.isSome := fun hq => by
    rcases mem_countedRows_cons.1 hq with hq | ⟨h₁, h₂⟩
    · exact .inl hq
    · exact .inr (ho rfl (currentHead_eq_of_mem hp h₁ h₂))
  refine kept hs le_rfl (fun q hq => mem_countedRows_cons.2 (.inl hq)) id htimed (fun _ _ _ => id)
    (fun _ h => ⟨h.silent, h.asleep⟩) hs.taken hs.single ?_ ?_
  · rw [hphase]
    split_ifs with hedge
    · refine ⟨hedge, fun q h₁ h₂ => mem_countedRows_cons.2 (.inr ⟨h₁, h₂⟩), fun hch hlt => ?_⟩
      have hunrung := hs.unrung hlt (howes hch)
      exact ⟨hunrung.silent, hunrung.asleep⟩
    · exact fun h => absurd h Bool.false_ne_true
  · rintro m hm hmo ⟨hme, hother⟩
    have hch : ins.currentHead = p := by
      rw [hphase] at hme
      split_ifs at hme
      · exact hme
      · exact hme.elim
    cases m with
    | insert ins' phase' =>
      cases phase' with
      | notifyExecutor r' =>
        have hpos' : 0 < ins'.clientBatchSize := hm.1.1.1.1.1.2.positive
        have hwrite' := ins'.toWrite_pos hpos'
        have heq : ins'.currentHead = p := hother
        exact howes hch (hmo.2.1 p heq.le (by omega))
      | _ => exact hother
    | _ => exact hother

/-- The executor of a batch that is not full does not seal it. -/
theorem Shared.open_of_woken (hs : Shared p s log) (hw : Reached log p .woken) (hlt : s.head < p + g.batchSize) :
    (s.executorNotifier p).Silent ∧ (s.batchState p).deadline.isSome := by
  refine ⟨hs.taken hlt hw, hs.timed ?_⟩
  by_contra hnot
  exact (hs.unrung hlt hnot).asleep hw

end Deadlines

/-- Every step of a patient run keeps the batch open until it is full. -/
theorem deadlines_step {i : ℕ} {s s' : SuperTensorBuffer g ℕ} {pc pc' : Pc g ℕ} {c : Choice} {e : Option (Event g ℕ)}
    {log : List (Event g ℕ)} (hP : program (CounterOps.unbounded g) i s pc c = .next s' pc' e)
    (hok : Patient g p i s pc c) (hp : g.batchSize ∣ p) (hK : ((lifecycle g).and (waits g)).shared s log)
    (hKo : ((lifecycle g).and (waits g)).own s log pc) (hs : Deadlines.Shared p s log)
    (ho : Deadlines.Own p s log pc) :
    ThreadInv.Kept ((lifecycle g).and (waits g)) (deadlines g p) log s pc s' pc' e := by
  have ht := transition_of_next hP
  have hk : ∀ x n, (s.states x n).Keeps (s'.states x n) := keeps_step ht hK.1 hKo.1
  obtain ⟨⟨hdeliveries, -⟩, -⟩ := hK
  obtain ⟨⟨⟨⟨⟨⟨⟨hlo, -⟩, hho⟩, -⟩, hro⟩, -⟩, -⟩, hwaits⟩ := hKo
  have hw : Window.Shared s log := hdeliveries.1.1.1.1.2
  have hc : Cells.Shared s log := hdeliveries.2
  cases ht with
  | reserve request h n hh =>
    subst hh
    exact Deadlines.same hs (Nat.le_add_right _ _) hk rfl rfl (fun _ _ _ => id) id
      (fun h => absurd h Bool.false_ne_true) id
  | copiedLater ins j hj hslot =>
    refine Deadlines.same hs le_rfl hk rfl rfl (fun _ _ _ => id) id (fun _ hch => ?_) id
    exact absurd (Nat.mod_eq_zero_of_dvd (hch ▸ hp)) hslot
  | setDeadline ins now hd =>
    refine Deadlines.same hs le_rfl hk (s.modifyState_executorNotifier (by intro; rfl) _ _ _ _) rfl
      (fun _ _ _ => id) id (fun _ hch => ?_) id
    have hgen := Opening.generation_eq hdeliveries hro (Pc.owes_currentHead hho rfl)
    subst hch
    show ((s.modifyState (g.cell ins.currentHead) (s.trackers (g.cell ins.currentHead)).generation _).batchState
      ins.currentHead).deadline.isSome
    rw [hgen, s.batchState_modifyState hp hp, if_pos rfl]
    rfl
  | setQueueStart ins now hd =>
    exact Deadlines.same hs le_rfl hk (s.modifyState_executorNotifier (by intro; rfl) _ _ _ _) rfl
      (fun _ _ _ => id) id (fun _ hch => (hk _ _).deadline_isSome (ho rfl hch)) id
  | cloneOutput ins => exact Deadlines.same hs le_rfl hk rfl rfl (fun _ _ _ => id) id (fun _ => ho rfl) id
  | cloneTrace ins o => exact Deadlines.same hs le_rfl hk rfl rfl (fun _ _ _ => id) id (fun _ => ho rfl) id
  | cloneNotifier ins o t => exact Deadlines.same hs le_rfl hk rfl rfl (fun _ _ _ => id) id (fun _ => ho rfl) id
  | addWritten ins o t n r hr phase hphase => exact Deadlines.count hp hro hho.positive hs ho hphase
  | notifyExecutor ins r => exact Deadlines.ring hp hdeliveries.1.2 hho.positive hs ho hok.2.1 hk
  | wake q n ticket hpoll =>
    obtain rfl := hwaits q n rfl
    have hq := (hlo q .claimed rfl).dvd
    have hnotifier := s.executorNotifier_modifyState hp hq fun b =>
      { b with executorNotifier := (b.executorNotifier.poll ticket i).2 }
    split_ifs at hnotifier with hpq
    · subst hpq
      refine Deadlines.kept hs le_rfl (Set.Subset.refl _) (hk _ _).deadline_isSome .inl (fun _ _ _ => id)
        (fun _ h => ?_) (fun hlt _ => ?_) (fun hlt => ?_) True.intro fun _ _ _ h => h.1
      · exact absurd ((h.silent.poll_fst ticket i).symm.trans hpoll) Bool.false_ne_true
      · exact hnotifier ▸ (hs.single hlt).poll_silent hpoll
      · exact hnotifier ▸ ((hs.single hlt).poll_silent hpoll).single
    · refine Deadlines.same hs le_rfl hk hnotifier rfl (fun _ _ _ => id) (fun h => ?_) True.intro id
      exact ((reached_cons rfl).1 h).resolve_left fun heq => hpq heq.1
  | stillWaiting q n ticket hpoll =>
    obtain rfl := hwaits q n rfl
    have hq := (hlo q .claimed rfl).dvd
    have hnotifier := s.executorNotifier_modifyState hp hq fun b =>
      { b with executorNotifier := (b.executorNotifier.poll ticket i).2 }
    split_ifs at hnotifier with hpq
    · subst hpq
      exact Deadlines.quiet hs le_rfl hk rfl (fun _ _ _ => id) id (fun h => hnotifier ▸ h.poll_snd ticket i)
        (fun hlt => hnotifier ▸ (hs.single hlt).poll hpoll) True.intro id
    · exact Deadlines.same hs le_rfl hk hnotifier rfl (fun _ _ _ => id) id True.intro id
  | deadlinePoll q n ticket phase hphase =>
    obtain rfl := hwaits q n rfl
    have hheld := hlo q .woken rfl
    have hnotifier := s.executorNotifier_modifyState hp hheld.dvd fun b =>
      { b with executorNotifier := (b.executorNotifier.poll ticket i).2 }
    split_ifs at hnotifier with hpq
    · subst hpq
      have hwoken := (hheld.reached .woken).2 le_rfl
      have hphase := phase_of_deadlinePoll hP
      refine Deadlines.quiet hs le_rfl hk rfl (fun _ _ _ => id) id (fun h => hnotifier ▸ h.poll_snd ticket i)
        (fun hlt => hnotifier ▸ ((hs.taken hlt hwoken).poll_snd ticket i).single) ?_ id
      split_ifs at hphase with hpoll
      · subst hphase
        refine fun _ => ?_
        by_contra hlt
        have hsilent := (hs.open_of_woken hwoken (Nat.lt_of_not_le hlt)).1
        exact absurd ((hsilent.poll_fst ticket i).symm.trans hpoll) Bool.false_ne_true
      · subst hphase
        exact True.intro
    · refine Deadlines.same hs le_rfl hk hnotifier rfl (fun _ _ _ => id) id ?_ id
      rcases hphase with rfl | rfl
      · exact fun heq => absurd heq.symm hpq
      · exact True.intro
  | deadlinePassed q n ticket =>
    obtain rfl := hwaits q n rfl
    have hnotifier := s.executorNotifier_modifyState hp (hlo q .woken rfl).dvd fun b =>
      { b with executorNotifier := b.executorNotifier.cancel i }
    have hpq : p ≠ q := fun hpq => by
      subst hpq
      exact hok.2.2 _ ticket rfl rfl
    rw [if_neg hpq] at hnotifier
    exact Deadlines.same hs le_rfl hk hnotifier rfl (fun _ _ _ => id) id (fun heq => absurd heq.symm hpq) id
  | batchFull q n ticket =>
    refine Deadlines.same hs le_rfl hk rfl rfl (fun _ _ _ => id) id (fun heq => ?_) id
    subst heq
    by_contra hlt
    have hopen : ((CounterOps.unbounded g).distToHigher q s.head).isSome := by
      simp only [CounterOps.unbounded, Blocks.lower_eq_of_dvd hp, if_pos (Nat.lt_of_not_le hlt), Option.isSome_some]
    simp [program, stepExecute, hopen] at hP
  | noDeadline q n ticket =>
    refine Deadlines.same hs le_rfl hk rfl rfl (fun _ _ _ => id) id (fun heq => ?_) id
    subst heq
    by_contra hlt
    have hheld := hlo q .woken rfl
    have hset := (hs.open_of_woken ((hheld.reached .woken).2 le_rfl) (Nat.lt_of_not_le hlt)).2
    rw [← Cells.state_eq hw hheld (by simp [Stage.rank]) hc] at hset
    have hset : (s.state ((CounterOps.unbounded g).batchId q)).deadline.isSome := hset
    simp [program, stepExecute, hset] at hP
  | sealOpen q d hb hd =>
    refine Deadlines.same hs le_rfl hk rfl rfl (fun _ _ _ => id) id (fun heq => ?_) id
    subst heq
    have hfull : q + g.batchSize ≤ s.head := ho rfl
    simp only [CounterOps.unbounded, Blocks.lower_eq_of_dvd hp, if_neg (Nat.not_lt_of_le hfull), reduceCtorEq] at hd
  | padFailed q h d c =>
    exact Deadlines.same hs le_rfl hk rfl rfl (fun _ _ _ => id) id (fun heq => absurd heq ho) id
  | pad q h d hh =>
    subst hh
    obtain ⟨hle, -, hend⟩ := hho.sealing q s.head d rfl
    refine Deadlines.same hs (Nat.le_add_right _ _) hk rfl rfl (fun r h₁ h₂ hr => ?_) id True.intro id
    refine ((mem_rowsOf_cons rfl).1 hr).resolve_right fun hskipped => ho ?_
    obtain ⟨h₃, h₄⟩ := hskipped
    rw [← Blocks.lower_eq g.batchSize_pos hp h₁ h₂]
    exact (Blocks.lower_eq g.batchSize_pos (hlo q .woken rfl).dvd (hle.trans h₃) (by omega)).symm
  | replaceState q items =>
    have hheld := hlo q .ran rfl
    have hgen := Cells.generation_eq hw hheld (by simp [Stage.rank]) hc
    have hstate := s.batchState_replace hheld.dvd hp hgen fun d => { d with generation := d.generation + 1 }
    split_ifs at hstate
    · have hsilent : BatchState.new.executorNotifier.Silent := Notify.new_silent
      rw [← hstate] at hsilent
      exact Deadlines.quiet hs le_rfl hk rfl (fun _ _ _ => id) (reached_cons_of_ne rfl (by decide)).1
        (fun _ => hsilent) (fun _ => hsilent.single) True.intro id
    · exact Deadlines.same hs le_rfl hk (congrArg BatchState.executorNotifier hstate) rfl (fun _ _ _ => id)
        (reached_cons_of_ne rfl (by decide)).1 True.intro id
  | _ =>
    refine Deadlines.same hs le_rfl hk ?_ rfl (fun _ _ _ => id) ?_ ?_ id
    · first
        | rfl
        | exact s.modifyState_executorNotifier (by intro; rfl) _ _ _ _
    · first
        | exact id
        | exact (reached_cons_of_ne rfl (by decide)).1
    · first
        | exact True.intro
        | exact fun h => absurd h Bool.false_ne_true

/-! ### Patient runs -/

/-- No batch past those of the warmups has been begun. -/
theorem deadlines_warm {s : SuperTensorBuffer g ℕ} (hs : s.Warm k) (hk : k * g.batchSize ≤ p) :
    (deadlines g p).Holds (warmWorld k s) := by
  have hnew : (s.executorNotifier p).Silent := by
    rw [SuperTensorBuffer.executorNotifier, SuperTensorBuffer.batchState, hs.states]
    exact Notify.new_silent
  have hbegun : ∀ st, ¬ Reached (warmLog g k) p st := fun st hr => by
    have hlt := (reached_warmLog.1 hr).2
    omega
  refine ⟨⟨fun _ _ => ⟨hnew, hbegun _⟩, fun _ _ => hnew, fun _ => hnew.single, fun hp => ?_, fun q h₁ _ hq => ?_⟩,
    fun _ => True.intro, fun _ _ _ h => h.1⟩
  · rw [show countedRows (warmWorld k s).log = ∅ from countedRows_warmLog k] at hp
    exact absurd hp (Set.notMem_empty p)
  · have hlt := mem_paddedRows_warmLog.1 hq
    omega

/-- Nobody seals the batch before it is full, in a patient run. -/
theorem deadlines_of_served (hp : g.batchSize ∣ p) (hk : k * g.batchSize ≤ p)
    (h : ServedRing (Patient g p) k inputTensors w) : (deadlines g p).Holds w := by
  refine h.threadInv (K := (lifecycle g).and (waits g)) (fun v hv => ?_) (fun s hs => deadlines_warm hs hk)
    fun i s pc c s' pc' e log hP hok hK hKo hs ho => deadlines_step hP hok hp hK hKo hs ho
  have hv := hv.fits_of_patient
  exact (responding_of_served hv).left.left.and (waits_of_served hv)

/-- **A batch is padded only after its deadline.**  In a run from a warm ring whose accepted requests fit, as long
as the deadline of the batch at `p` does not pass, and nobody without a row in it notifies its executor: no slot of
it is skipped, and once it is sealed a client has counted a row in each of its slots. -/
theorem sealed_full_before_deadline (hp : g.batchSize ∣ p) (hk : k * g.batchSize ≤ p)
    (h : ServedRing (Patient g p) k inputTensors w) :
    (∀ q, p ≤ q → q < p + g.batchSize → q ∉ paddedRows w.log) ∧
      (Reached w.log p .sealed → p + g.batchSize ≤ w.shared.head ∧
        ∀ q, p ≤ q → q < p + g.batchSize → q ∈ countedRows w.log) := by
  have hwhole := (deadlines_of_served hp hk h).shared.whole
  have hrows := (deliveries_of_served h.fits_of_patient).shared.1.2
  refine ⟨hwhole, fun hsealed => ?_⟩
  obtain ⟨hfull, hcounted⟩ := hrows.sealed p hsealed
  refine ⟨hfull, fun q h₁ h₂ => hcounted q h₁ h₂ ?_⟩
  exact ((hrows.taken q).1 (by omega)).resolve_right (hwhole q h₁ h₂)

/-- `Patient`, evaluated. -/
def patient (g : Geometry) (p i : ℕ) (s : SuperTensorBuffer g ℕ) (pc : Pc g ℕ) (c : Choice) : Bool :=
  fits g i s pc c && match pc, c with
    | .insert ins (.notifyExecutor _), .go =>
      g.cell ins.currentHead != g.cell p || (s.trackers (g.cell p)).generation != g.lap p ||
        g.lap ins.currentHead == g.lap p
    | .execute q (.deadlineWait _ _), .timeout => q != p
    | _, _ => true

/-- A step that is checked to be patient is. -/
theorem patient_spec {i : ℕ} {s : SuperTensorBuffer g ℕ} {pc : Pc g ℕ} {c : Choice}
    (h : patient g p i s pc c = true) : Patient g p i s pc c := by
  obtain ⟨hfits, hpatient⟩ := Bool.and_eq_true_iff.1 h
  refine ⟨fits_spec hfits, ?_, ?_⟩
  · rintro ins r rfl rfl hcell hgen
    simpa [hcell, hgen] using hpatient
  · rintro n ticket rfl rfl
    simp at hpatient

/-- The two rows of a batch come one after the other, and its executor sleeps in between. -/
theorem sealed_full_before_deadline_twoByTwo :
    ∃ w : RingWorld twoByTwo ℕ, Reached w.log 6 .sealed ∧ 6 ∈ countedRows w.log ∧ 7 ∈ countedRows w.log := by
  have hrun : (runServed (patient twoByTwo 6) 3 (fun _ _ => byteTensor 2)
      (reserve 2 byteRequest ++ insertRow 2 ++ claimBatch 0 ++ go 0 7 ++ reserve 3 byteRequest ++ go 3 8 ++ go 0 3)).map
      (fun w => decide (Reached w.log 6 .sealed)) = some true := by decide +kernel
  obtain ⟨w, hrun, hw⟩ := Option.map_eq_some_iff.1 hrun
  have hsealed := of_decide_eq_true hw
  have hserved := ServedRing.of_runServed (fun _ _ _ _ => patient_spec) hrun
  obtain ⟨-, hcounted⟩ := sealed_full_before_deadline (p := 6) (by decide) (by decide) hserved
  obtain ⟨-, hall⟩ := hcounted hsealed
  exact ⟨w, hsealed, hall 6 (by decide) (by decide), hall 7 (by decide) (by decide)⟩

/-- Client `2` counts the first row of the batch at `6` and stops there, before it notifies.  The batch goes on
without it; so does the next one; and it wakes the executor of the one in the same cell a turn later. -/
def staleNotification : List (Action Choice) :=
  reserve 2 byteRequest ++ go 2 2 ++ ⟨2, .clock 0⟩ :: go 2 6 ++ reserve 3 byteRequest ++ go 3 7 ++
    claimBatch 0 ++ runBatch 0 ++ go 0 9 ++
    reserve 4 byteRequest ++ insertRow 4 ++ reserve 5 byteRequest ++ go 5 7 ++ claimBatch 0 ++ runBatch 0 ++ go 0 9 ++
    reserve 6 byteRequest ++ insertRow 6 ++ claimBatch 0 ++ go 0 7 ++ go 2 1 ++ go 0 3

-- Without `RungByOwn` the second slot is skipped although no deadline has passed.
example : (runServed (fits twoByTwo) 3 (fun _ _ => byteTensor 2) staleNotification).map
    (fun w => w.log.head?.bind Event.padding) = some (some (11, 1)) := by decide +kernel

end Toutates
