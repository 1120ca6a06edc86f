/-
# The window of claimable batches

Executors claim batches at `executor_head` and retire them at `tail`.  The full check
of a claim and the tail CAS of a retirement read their counters at different times,
any executor may move the tail, and the token of a finished batch, a `dirty` flag of
`2`, sits in a tracker that every lap of the ring uses again.

`window` is the invariant that makes this safe in every run, whatever the clients do:
both counters stay on batch borders with at most one turn of the ring between them,
everything behind the tail is finished, and a flag that is `2` belongs to the batch of
its tracker in the current window, which is finished.
-/

import Toutates.Ring.Life
import Toutates.Ring.Sample

namespace Toutates

open Basis

variable {g : Geometry} {α : Type}

/-- The executor head that an executor is about to claim. -/
def Pc.mayClaim : Pc g α → Option α
  | .claim (.casExecutorHead e) => some e
  | _ => none

/-- The tail that a retiring executor has loaded. -/
def Pc.loadedTail : Pc g α → Option α
  | .moveTail _ (.loadHead t) | .moveTail _ (.loadDirty t) | .moveTail _ (.casDirty t)
  | .moveTail _ (.casTail t) => some t
  | _ => none

/-- The loaded tail, once its flag is taken. -/
def Pc.taken : Pc g α → Option α
  | .moveTail _ (.casTail t) => some t
  | _ => none

/-- The shared part of `window`. -/
structure Window.Shared (s : SuperTensorBuffer g ℕ) (log : List (Event g ℕ)) : Prop where
  tail_dvd : g.batchSize ∣ s.tail
  tail_le : s.tail ≤ s.executorHead
  executorHead_le : s.executorHead ≤ s.tail + g.slots
  passed : ∀ p, g.batchSize ∣ p → p < s.tail → Reached log p .finished
  flag : ∀ p, g.batchSize ∣ p → s.tail ≤ p → p < s.tail + g.slots →
    (s.trackers (g.cell p)).dirty = 2 → Reached log p .finished

/-- What `window` says about a thread. -/
structure Window.Own (s : SuperTensorBuffer g ℕ) (log : List (Event g ℕ)) (pc : Pc g ℕ) : Prop where
  mayClaim : ∀ e, pc.mayClaim = some e → e < s.tail + g.slots
  loadedTail : ∀ t, pc.loadedTail = some t → g.batchSize ∣ t ∧ t ≤ s.tail
  taken : ∀ t, pc.taken = some t → Reached log t .finished ∧
    (t = s.tail → (s.trackers (g.cell t)).dirty ≠ 2)

/-- **The window of claimable batches.** -/
def window (g : Geometry) : RingInv g ℕ where
  shared := Window.Shared
  own := Window.Own
  apart _ _ := True
  symm _ := True.intro

namespace Window

variable {s s' : SuperTensorBuffer g ℕ} {log : List (Event g ℕ)} {pc pc' m : Pc g ℕ}
  {e : Option (Event g ℕ)}

/-- The only batch that enters the window when the tail moves on is the one a turn of the ring
ahead. -/
theorem lt_or_eq_of_lt_next {p : ℕ} (hs : Shared s log) (hp : g.batchSize ∣ p)
    (h : p < s.tail + g.batchSize + g.slots) : p < s.tail + g.slots ∨ p = s.tail + g.slots :=
  Blocks.lt_or_eq_of_lt_add (Nat.dvd_add hs.tail_dvd g.batchSize_dvd_slots) hp (by omega)

/-- Nothing has happened yet to that batch. -/
theorem not_reached_next {st : Stage} (hl : Life.Shared s log) (hs : Shared s log) :
    ¬ Reached log (s.tail + g.slots) st := by
  intro h
  exact absurd (hl.claimed h).2 (Nat.not_lt_of_le hs.executorHead_le)

/-- Who has taken a flag has loaded the tail. -/
theorem loadedTail_of_taken {t : ℕ} (h : pc.taken = some t) : pc.loadedTail = some t := by
  unfold Pc.taken at h
  split at h
  · exact h
  · cases h

/-- A step that leaves the counters alone and sets no flag to `2`. -/
theorem shared_same (hs : Shared s log) (hE : s'.executorHead = s.executorHead)
    (hT : s'.tail = s.tail) (hd : ∀ x, (s'.trackers x).dirty = 2 → (s.trackers x).dirty = 2) :
    Shared s' (e.toList ++ log) := by
  refine ⟨by rw [hT]; exact hs.tail_dvd, by rw [hT, hE]; exact hs.tail_le,
    by rw [hT, hE]; exact hs.executorHead_le, fun p hp h => ?_, fun p hp h₁ h₂ hdirty => ?_⟩
  · rw [hT] at h
    exact (hs.passed p hp h).mono _
  · rw [hT] at h₁ h₂
    exact (hs.flag p hp h₁ h₂ (hd _ hdirty)).mono _

/-- The facts of a thread survive a step that leaves the tail alone and sets no flag
of a finished tail to `2`. -/
theorem own_same (ho : Own s log m) (hT : s'.tail = s.tail)
    (hd : Reached log s.tail .finished → (s'.trackers (g.cell s.tail)).dirty = 2 →
      (s.trackers (g.cell s.tail)).dirty = 2) :
    Own s' (e.toList ++ log) m := by
  refine ⟨fun q hq => ?_, fun t ht => ?_, fun t ht => ?_⟩
  · rw [hT]
    exact ho.mayClaim q hq
  · rw [hT]
    exact ho.loadedTail t ht
  · obtain ⟨hf, hne⟩ := ho.taken t ht
    refine ⟨hf.mono _, fun htT h => ?_⟩
    rw [hT] at htT
    subst htT
    exact hne rfl (hd hf h)

/-- A step with nothing to say about the window. -/
theorem quiet {K : RingInv g ℕ} (hs : Shared s log) (ho : Own s log pc)
    (hE : s'.executorHead = s.executorHead) (hT : s'.tail = s.tail)
    (hd : ∀ x, (s'.trackers x).dirty = (s.trackers x).dirty) (h₁ : pc'.mayClaim = none)
    (h₂ : pc'.loadedTail = none ∨ pc'.loadedTail = pc.loadedTail) (h₃ : pc'.taken = none) :
    ThreadInv.Kept K (window g) log s pc s' pc' e := by
  have hd' : ∀ x, (s'.trackers x).dirty = 2 → (s.trackers x).dirty = 2 := fun x h => by rwa [← hd]
  refine ⟨shared_same hs hE hT hd', ⟨fun q hq => ?_, fun t ht => ?_, fun t ht => ?_⟩,
    fun m _ _ hm _ => ⟨own_same hm hT fun _ => hd' _, True.intro⟩⟩
  · exact elim_none h₁ hq
  · rcases h₂ with h₂ | h₂
    · exact elim_none h₂ ht
    · rw [hT]
      exact ho.loadedTail t (h₂ ▸ ht)
  · exact elim_none h₃ ht

/-- A client marks a tracker as written. -/
theorem storeDirty {K : RingInv g ℕ} {x : Fin g.capacity} (hs : Shared s log)
    (h₁ : pc'.mayClaim = none) (h₂ : pc'.loadedTail = none) :
    ThreadInv.Kept K (window g) log s pc (s.modifyTracker x fun d => { d with dirty := 1 }) pc' none := by
  have hd : ∀ y, ((s.modifyTracker x fun d => { d with dirty := 1 }).trackers y).dirty = 2 →
      (s.trackers y).dirty = 2 := by
    intro y h
    rw [SuperTensorBuffer.modifyTracker_trackers] at h
    split at h
    · exact absurd h (by simp)
    · exact h
  refine ⟨shared_same hs rfl rfl hd, ⟨fun q hq => ?_, fun t ht => ?_, fun t ht => ?_⟩,
    fun m _ _ hm _ => ⟨own_same hm rfl fun _ => hd _, True.intro⟩⟩
  · exact elim_none h₁ hq
  · rw [h₂] at ht
    cases ht
  · rw [loadedTail_of_taken ht] at h₂
    cases h₂

/-- A claim takes a batch that is less than a turn of the ring ahead of the tail, so the
border behind it is at most a turn ahead. -/
theorem claim {K : RingInv g ℕ} (hl : Life.Shared s log) (hs : Shared s log)
    (hlt : s.executorHead < s.tail + g.slots) (h₁ : pc'.mayClaim = none) (h₂ : pc'.loadedTail = none) :
    ThreadInv.Kept K (window g) log s pc { s with executorHead := s.executorHead + g.batchSize } pc' e := by
  have hle : s.executorHead + g.batchSize ≤ s.tail + g.slots :=
    Blocks.add_le_of_dvd hl.executorHead_dvd (Nat.dvd_add hs.tail_dvd g.batchSize_dvd_slots) hlt
  refine ⟨⟨hs.tail_dvd, Nat.le_add_right_of_le hs.tail_le, hle, fun p hp h => (hs.passed p hp h).mono _,
    fun p hp h h' hd => (hs.flag p hp h h' hd).mono _⟩, ⟨fun q hq => ?_, fun t ht => ?_, fun t ht => ?_⟩,
    fun m _ _ hm _ => ⟨own_same hm rfl fun _ => id, True.intro⟩⟩
  · exact elim_none h₁ hq
  · rw [h₂] at ht
    cases ht
  · rw [loadedTail_of_taken ht] at h₂
    cases h₂

/-- The batch of a holder lies in the window. -/
theorem held_mem {p : ℕ} {st : Stage} (hs : Shared s log) (hp : Life.Own s log p st)
    (hst : st ≠ .finished) : s.tail ≤ p ∧ p < s.tail + g.slots := by
  have hlt := hp.lt
  have hle := hs.executorHead_le
  refine ⟨?_, by omega⟩
  by_contra hnot
  have hf := (hp.reached .finished).1 (hs.passed p hp.dvd (Nat.lt_of_not_le hnot))
  cases st <;> simp [Stage.rank] at hf hst

/-- The executor of the batch at `p` sets its flag to `2`, and the batch is finished. -/
theorem resetDirty {K : RingInv g ℕ} {p : ℕ} (hs : Shared s log) (hp : Life.Own s log p .wiped)
    (h₁ : pc'.mayClaim = none) (h₂ : pc'.loadedTail = none) :
    ThreadInv.Kept K (window g) log s pc (s.modifyTracker (g.cell p) fun d => { d with dirty := 2 }) pc'
      (some (.finished p)) := by
  obtain ⟨hle, hlt⟩ := held_mem hs hp (by simp)
  have hnot : ¬ Reached log p .finished := fun h => by simpa [Stage.rank] using (hp.reached _).1 h
  have hdirty : ∀ y, y ≠ g.cell p →
      ((s.modifyTracker (g.cell p) fun d => { d with dirty := 2 }).trackers y).dirty =
        (s.trackers y).dirty := by
    intro y hy
    rw [SuperTensorBuffer.modifyTracker_trackers, if_neg hy]
  refine ⟨⟨hs.tail_dvd, hs.tail_le, hs.executorHead_le, fun q hq h => (hs.passed q hq h).mono _,
    fun q hq h h' hd => ?_⟩, ⟨fun q hq => ?_, fun t ht => ?_, fun t ht => ?_⟩,
    fun m _ _ hm _ => ⟨own_same hm rfl fun hf hd => ?_, True.intro⟩⟩
  · by_cases hcell : g.cell q = g.cell p
    · obtain rfl : q = p := Geometry.eq_of_cell_eq hq hp.dvd h h' hle hlt hcell
      exact (reached_cons rfl).2 (.inl ⟨rfl, rfl⟩)
    · rw [hdirty _ hcell] at hd
      exact (hs.flag q hq h h' hd).mono _
  · exact elim_none h₁ hq
  · rw [h₂] at ht
    cases ht
  · rw [loadedTail_of_taken ht] at h₂
    cases h₂
  · by_cases hcell : g.cell s.tail = g.cell p
    · have hslots := g.slots_pos
      obtain rfl : s.tail = p :=
        Geometry.eq_of_cell_eq hs.tail_dvd hp.dvd le_rfl (by omega) hle hlt hcell
      exact absurd hf hnot
    · rwa [hdirty _ hcell] at hd

/-- A retiring executor takes the flag of the tail it has loaded.  The tail may have moved
on since, but what it has passed is finished, so the flag was that of a finished batch. -/
theorem takeFlag {K : RingInv g ℕ} {t : ℕ} (hs : Shared s log) (ho : Own s log pc)
    (hd : (s.trackers (g.cell t)).dirty = 2) (hpc : pc.loadedTail = some t)
    (h₁ : pc'.mayClaim = none) (h₂ : pc'.loadedTail = some t) (h₃ : pc'.taken = some t) :
    ThreadInv.Kept K (window g) log s pc (s.modifyTracker (g.cell t) fun d => { d with dirty := 0 }) pc' e := by
  obtain ⟨hdvd, hle⟩ := ho.loadedTail t hpc
  have hslots := g.slots_pos
  have hf : Reached log t .finished := by
    rcases Nat.lt_or_ge t s.tail with hlt | hge
    · exact hs.passed t hdvd hlt
    · exact hs.flag t hdvd hge (by omega) hd
  have hdirty : ∀ y, ((s.modifyTracker (g.cell t) fun d => { d with dirty := 0 }).trackers y).dirty = 2 →
      (s.trackers y).dirty = 2 := by
    intro y h
    rw [SuperTensorBuffer.modifyTracker_trackers] at h
    split at h
    · exact absurd h (by simp)
    · exact h
  refine ⟨shared_same hs rfl rfl hdirty, ⟨fun q hq => ?_, fun u hu => ?_, fun u hu => ?_⟩,
    fun m _ _ hm _ => ⟨own_same hm rfl fun _ => hdirty _, True.intro⟩⟩
  · exact elim_none h₁ hq
  · obtain rfl := Option.some.inj (h₂.symm.trans hu)
    exact ⟨hdvd, hle⟩
  · obtain rfl := Option.some.inj (h₃.symm.trans hu)
    refine ⟨hf.mono _, fun _ => ?_⟩
    rw [SuperTensorBuffer.modifyTracker_trackers, if_pos rfl]
    simp

/-- The tail moves over the batch it is at. -/
theorem retire {K : RingInv g ℕ} (hl : Life.Shared s log) (hs : Shared s log) (ho : Own s log pc)
    (hpc : pc.taken = some s.tail) (h₁ : pc'.mayClaim = none) (h₂ : pc'.loadedTail = none) :
    ThreadInv.Kept K (window g) log s pc
      { s with tail := Blocks.lower g.batchSize s.tail + g.batchSize } pc' e := by
  rw [Blocks.lower_eq_of_dvd hs.tail_dvd]
  obtain ⟨hf, hne⟩ := ho.taken _ hpc
  have hB := g.batchSize_pos
  have hE := hs.executorHead_le
  have hle : s.tail + g.batchSize ≤ s.executorHead :=
    Blocks.add_le_of_dvd hs.tail_dvd hl.executorHead_dvd (hl.claimed hf).2
  refine ⟨⟨Nat.dvd_add hs.tail_dvd (Nat.dvd_refl _), hle, by simp only; omega, fun p hp h => ?_,
    fun p hp h h' hd => ?_⟩, ⟨fun q hq => ?_, fun t ht => ?_, fun t ht => ?_⟩,
    fun m _ _ hm _ => ⟨⟨fun q hq => ?_, fun t ht => ?_, fun t ht => ?_⟩, True.intro⟩⟩
  · rcases Blocks.lt_or_eq_of_lt_add hs.tail_dvd hp h with hlt | rfl
    · exact (hs.passed p hp hlt).mono _
    · exact hf.mono _
  · simp only at h h' hd
    rcases lt_or_eq_of_lt_next hs hp h' with hlt | rfl
    · exact (hs.flag p hp (by omega) hlt hd).mono _
    · rw [Geometry.cell_add_slots] at hd
      exact absurd hd (hne rfl)
  · exact elim_none h₁ hq
  · rw [h₂] at ht
    cases ht
  · rw [loadedTail_of_taken ht] at h₂
    cases h₂
  · have := hm.mayClaim q hq
    simp only
    omega
  · have := hm.loadedTail t ht
    exact ⟨this.1, by simp only; omega⟩
  · have hlt := (hm.loadedTail t (loadedTail_of_taken ht)).2
    refine ⟨(hm.taken t ht).1.mono _, fun heq => ?_⟩
    simp only at heq
    omega

end Window

/-- Every step keeps the window. -/
theorem window_step {i : ℕ} {s s' : SuperTensorBuffer g ℕ} {pc pc' : Pc g ℕ} {c : Choice}
    {e : Option (Event g ℕ)} {log : List (Event g ℕ)}
    (ht : Transition (CounterOps.unbounded g) i s pc c s' pc' e) (hl : (life g).shared s log)
    (hlo : (life g).own s log pc) (hs : Window.Shared s log) (ho : Window.Own s log pc) :
    ThreadInv.Kept (life g) (window g) log s pc s' pc' e := by
  cases ht with
  | storeDirty ins now => exact Window.storeDirty hs rfl rfl
  | addWritten ins o t n r hr phase hp =>
    exact Window.quiet hs ho rfl rfl (s.modifyTracker_dirty _ fun _ => rfl) rfl (.inl rfl) rfl
  | awaitFull ticket phase hp =>
    rcases hp with rfl | rfl <;>
      exact Window.quiet hs ho rfl rfl (fun _ => rfl) rfl (.inl rfl) rfl
  | room e hfull =>
    have hlt : e < s.tail + g.slots := by
      have h := of_decide_eq_false hfull
      omega
    refine ⟨Window.shared_same hs rfl rfl fun _ => id, ⟨fun q hq => ?_, fun t ht => ?_, fun t ht => ?_⟩,
      fun m _ _ hm _ => ⟨Window.own_same hm rfl fun _ => id, True.intro⟩⟩
    · obtain rfl := Option.some.inj hq
      exact hlt
    · cases ht
    · cases ht
  | claim e he =>
    subst he
    exact Window.claim hl hs (ho.mayClaim _ rfl) rfl rfl
  | replaceState e items =>
    exact Window.quiet hs ho rfl rfl
      (SuperTensorBuffer.modifyTracker_dirty _ _ fun _ => rfl) rfl (.inl rfl) rfl
  | resetWritten e items =>
    exact Window.quiet hs ho rfl rfl (s.modifyTracker_dirty _ fun _ => rfl) rfl (.inl rfl) rfl
  | resetDirty e items => exact Window.resetDirty hs (hlo e .wiped rfl) rfl rfl
  | moveLoadTail items =>
    refine ⟨Window.shared_same hs rfl rfl fun _ => id, ⟨fun q hq => ?_, fun t ht => ?_, fun t ht => ?_⟩,
      fun m _ _ hm _ => ⟨Window.own_same hm rfl fun _ => id, True.intro⟩⟩
    · cases hq
    · obtain rfl := Option.some.inj ht
      exact ⟨hs.tail_dvd, le_rfl⟩
    · cases ht
  | takeFlag items t hd => exact Window.takeFlag hs ho hd rfl rfl rfl rfl
  | retire items t htail =>
    subst htail
    exact Window.retire hl hs ho rfl rfl rfl
  | _ =>
    exact Window.quiet hs ho rfl rfl (fun _ => rfl) rfl (by first | exact .inl rfl | exact .inr rfl) rfl

/-- The window, in every run. -/
theorem window_holds {ok : RingGuard g ℕ} {w : RingWorld g ℕ}
    (h : Runs (CounterOps.unbounded g) ok w) : (window g).Holds w := by
  refine h.threadInv (life g) (fun v hv => life_holds hv) (fun inputTensors => ⟨?_, ?_, ?_⟩)
    fun i s pc c s' pc' e log ht _ hl hlo hs ho => window_step ht hl hlo hs ho
  · exact ⟨Nat.dvd_zero _, le_rfl, Nat.zero_le _, fun p _ h => absurd h (Nat.not_lt_zero p),
      fun p _ _ _ hd => absurd hd (by simp [fresh, SuperTensorBuffer.new])⟩
  · intro i
    exact ⟨fun _ => elim_none rfl, fun _ => elim_none rfl, fun _ => elim_none rfl⟩
  · exact fun _ _ _ => True.intro

/-- A batch is claimed by the `compare_exchange` of the executors' head. -/
theorem Transition.of_claimed {ops : CounterOps g α} {i : ℕ} {s s' : SuperTensorBuffer g α} {pc pc' : Pc g α}
    {c : Choice} {p : α} (ht : Transition ops i s pc c s' pc' (some (.claimed p))) :
    pc = .claim (.casExecutorHead p) ∧ s.executorHead = p := by
  cases ht with
  | claim e he => exact ⟨rfl, he⟩

/-- The invariants on executors, together. -/
theorem executors_hold {ok : RingGuard g ℕ} {w : RingWorld g ℕ}
    (h : Runs (CounterOps.unbounded g) ok w) : ((life g).and (window g)).Holds w :=
  (life_holds h).and (window_holds h)

/-- What the window says where a claim succeeds: the claimed batch starts at the executor
head, less than a turn of the ring ahead of the tail. -/
theorem claimed_lt {ok : RingGuard g ℕ} {w w' : RingWorld g ℕ} {a : Action Choice} {p : ℕ}
    (h : Runs (CounterOps.unbounded g) ok w) (hs : (program (CounterOps.unbounded g)).step w a = some w')
    (hlog : w'.log = .claimed p :: w.log) :
    p = w.shared.executorHead ∧ p < w.shared.tail + g.slots := by
  obtain ⟨hpc, hp⟩ := (transition_of_logged hs hlog).of_claimed
  exact ⟨hp.symm, ((window_holds h).own a.thread).mayClaim p (by rw [hpc, Pc.mayClaim])⟩

/-- **Executor claims are exclusive.**  In every run, the executor head and the tail stay on
batch borders, at most a turn of the ring apart; two executors never hold batches of one
tracker at a time; the tail passes only batches that went through every stage; and when a
batch is claimed, the one before it in its tracker is reset and retired. -/
theorem executor_claims_exclusive {w : RingWorld g ℕ}
    (h : Runs (CounterOps.unbounded g) anyStep w) :
    (g.batchSize ∣ w.shared.executorHead ∧ g.batchSize ∣ w.shared.tail ∧
      w.shared.tail ≤ w.shared.executorHead ∧
      w.shared.executorHead ≤ w.shared.tail + g.slots) ∧
    (∀ i j p q st st', i ≠ j → (w.threads i).held = some (p, st) →
      (w.threads j).held = some (q, st') → g.cell p ≠ g.cell q) ∧
    (∀ p, g.batchSize ∣ p → p < w.shared.tail → ∀ st, Reached w.log p st) ∧
    ∀ a w' p, (program (CounterOps.unbounded g)).step w a = some w' →
      w'.log = .claimed p :: w.log → p = w.shared.executorHead ∧
        ∀ q, q + g.slots = p → Reached w.log q .finished ∧ q + g.batchSize ≤ w.shared.tail := by
  have hl := life_holds h
  have hw := window_holds h
  have hsh := hw.shared
  refine ⟨⟨hl.shared.executorHead_dvd, hsh.tail_dvd, hsh.tail_le, hsh.executorHead_le⟩, ?_, ?_, ?_⟩
  · intro i j p q st st' hij hp hq hcell
    have hpo := hl.own i p st hp
    have hqo := hl.own j q st' hq
    obtain ⟨hp₁, hp₂⟩ := Window.held_mem hsh hpo (Pc.held_ne_finished hp)
    obtain ⟨hq₁, hq₂⟩ := Window.held_mem hsh hqo (Pc.held_ne_finished hq)
    exact hl.apart i j hij p st q st' hp hq
      (Geometry.eq_of_cell_eq hpo.dvd hqo.dvd hp₁ hp₂ hq₁ hq₂ hcell)
  · intro p hp hlt st
    exact hl.shared.closed (hsh.passed p hp hlt) st.rank_le_finished
  · intro a w' p hs hlog
    obtain ⟨rfl, hlt⟩ := claimed_lt h hs hlog
    refine ⟨rfl, fun q hq => ?_⟩
    have hqlt : q < w.shared.tail := by omega
    have hdvd : g.batchSize ∣ q := by
      have hsum := hl.shared.executorHead_dvd
      rw [← hq] at hsum
      exact (Nat.dvd_add_left g.batchSize_dvd_slots).1 hsum
    exact ⟨hsh.passed q hdvd hqlt, Blocks.add_le_of_dvd hdvd hsh.tail_dvd hqlt⟩

/-- Two executors hold the two batches of a small ring. -/
theorem executor_claims_exclusive_twoByOne :
    ∃ w : RingWorld twoByOne ℕ, (w.threads 0).held = some (0, .claimed) ∧
      (w.threads 1).held = some (1, .claimed) ∧ twoByOne.cell 0 ≠ twoByOne.cell 1 := by
  have hrun : (runFresh (CounterOps.unbounded twoByOne) (fun _ _ _ _ => true) (fun _ _ => byteTensor 1)
      (claimBatch 0 ++ claimBatch 1)).map (fun w => ((w.threads 0).held, (w.threads 1).held)) =
      some (some (0, .claimed), some (1, .claimed)) := by decide +kernel
  obtain ⟨w, hrun, hw⟩ := world_of_runFresh _ hrun
  obtain ⟨h₀, h₁⟩ := Prod.mk.inj hw
  have hruns : Runs (CounterOps.unbounded twoByOne) anyStep w :=
    Runs.of_runFresh (fun _ _ _ _ _ => True.intro) hrun
  exact ⟨w, h₀, h₁, (executor_claims_exclusive hruns).2.1 0 1 0 1 _ _ (by decide) h₀ h₁⟩

end Toutates
