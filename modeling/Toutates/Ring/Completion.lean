/-
# The order in which batches are completed

A batch that is done is reset, and then the tail walks on: over the batches whose flag says
that they are finished, and no further than the batch that the head is in or at the end of
(`Walked`).  The walk does not care which of these batches was finished last.  So after a
completion the tail is where a walk from the old tail over all finished batches stops, and after
all completions it is where they stop in any other order.
-/

import Toutates.Basis.Frontier
import Toutates.Ring.Sequential
import Toutates.Ring.Window

namespace Toutates

open Basis

variable {g : Geometry}

namespace SuperTensorBuffer

/-- A batch that the tail may move over: its flag is up, and the head is past its end. -/
def Retirable (s : SuperTensorBuffer g ℕ) (q : ℕ) : Prop :=
  (s.trackers (g.cell q)).dirty = 2 ∧ q < s.tail + g.slots ∧ q + g.batchSize < s.head

/-- The buffer with its first batch retired. -/
def retire (s : SuperTensorBuffer g ℕ) : SuperTensorBuffer g ℕ :=
  { s.modifyTracker (g.cell s.tail) fun d => { d with dirty := 0 } with
    tail := s.tail + g.batchSize
    executorFullNotifier := s.executorFullNotifier.notifyWaiters }

/-- What `move_tail_to_next_non_dirty_buffer` does: the tail walks over the batches that may be
retired, and takes their flags. -/
structure Walked (s s' : SuperTensorBuffer g ℕ) : Prop where
  frontier : Frontier g.batchSize s.Retirable s.tail s'.tail
  passed : ∀ q, g.batchSize ∣ q → s.tail ≤ q → q < s'.tail →
    s'.trackers (g.cell q) = { s.trackers (g.cell q) with dirty := 0 }
  kept : ∀ q, g.batchSize ∣ q → s'.tail ≤ q → q < s.tail + g.slots →
    s'.trackers (g.cell q) = s.trackers (g.cell q)
  head : s'.head = s.head
  executorHead : s'.executorHead = s.executorHead
  states : s'.states = s.states
  inputTensors : s'.inputTensors = s.inputTensors

namespace Walked

variable {s s' : SuperTensorBuffer g ℕ}

/-- Retiring clears one flag. -/
theorem retire_trackers (s : SuperTensorBuffer g ℕ) (x : Fin g.capacity) :
    s.retire.trackers x =
      if x = g.cell s.tail then { s.trackers x with dirty := 0 } else s.trackers x := by
  have h : s.retire.trackers x = (s.modifyTracker (g.cell s.tail) fun d => { d with dirty := 0 }).trackers x := rfl
  rw [h, SuperTensorBuffer.modifyTracker_trackers]
  split_ifs with hx
  · rw [hx]
  · rfl

/-- A batch of the window behind its first has another tracker. -/
theorem cell_ne {q : ℕ} (hs : g.batchSize ∣ s.tail) (hq : g.batchSize ∣ q) (h₁ : s.tail + g.batchSize ≤ q)
    (h₂ : q < s.tail + g.slots) : g.cell q ≠ g.cell s.tail := by
  have hB := g.batchSize_pos
  intro heq
  have := Geometry.eq_of_cell_eq hq hs (by omega) h₂ le_rfl (by have := g.slots_pos; omega) heq
  omega

/-- Behind the first batch the same batches may be retired, before and after it is. -/
theorem retirable_retire {q : ℕ} (hs : g.batchSize ∣ s.tail) (hq : g.batchSize ∣ q)
    (h₁ : s.tail + g.batchSize ≤ q) : s.retire.Retirable q ↔ s.Retirable q := by
  have htail : s.retire.tail = s.tail + g.batchSize := rfl
  have hhead : s.retire.head = s.head := rfl
  rw [Retirable, Retirable, htail, hhead, retire_trackers]
  constructor
  · rintro ⟨hd, hlt, hle⟩
    have hcell : g.cell q ≠ g.cell s.tail := by
      intro heq
      rw [if_pos heq] at hd
      exact absurd (show (0 : ℕ) = 2 from hd) (by decide)
    rw [if_neg hcell] at hd
    refine ⟨hd, ?_, hle⟩
    rcases Blocks.lt_or_eq_of_lt_add (Nat.dvd_add hs g.batchSize_dvd_slots) hq (by omega) with h | h
    · exact h
    · exact absurd (by rw [h, Geometry.cell_add_slots]) hcell
  · rintro ⟨hd, hlt, hle⟩
    rw [if_neg (cell_ne hs hq h₁ hlt)]
    exact ⟨hd, by omega, hle⟩

/-- A tail that does not move. -/
theorem refl (hs : g.batchSize ∣ s.tail) (h : ¬ s.Retirable s.tail) : Walked s s where
  frontier := .here hs h
  passed _ _ h₁ h₂ := absurd h₁ (Nat.not_le_of_lt h₂)
  kept _ _ _ _ := rfl
  head := rfl
  executorHead := rfl
  states := rfl
  inputTensors := rfl

/-- A tail that moves on. -/
theorem step (hs : g.batchSize ∣ s.tail) (h : s.Retirable s.tail) (hw : Walked s.retire s') : Walked s s' := by
  have hB := g.batchSize_pos
  have htail : s.retire.tail = s.tail + g.batchSize := rfl
  have hslots := g.batchSize_dvd_slots
  have hle : s'.tail ≤ s.tail + g.slots := by
    by_contra hnot
    have hdvd := Nat.dvd_add hs hslots
    have := (hw.frontier.holds _ hdvd (by have := Nat.le_of_dvd g.slots_pos hslots; omega) (by omega))
    rw [retirable_retire hs hdvd (by have := Nat.le_of_dvd g.slots_pos hslots; omega)] at this
    exact absurd this.2.1 (lt_irrefl _)
  refine ⟨.step hs h ((hw.frontier).congr fun q hq h₁ => retirable_retire hs hq h₁), fun q hq h₁ h₂ => ?_,
    fun q hq h₁ h₂ => ?_, hw.head, hw.executorHead, hw.states, hw.inputTensors⟩
  · rcases h₁.eq_or_lt with rfl | hlt
    · have hkept := hw.kept (s.tail + g.slots) (Nat.dvd_add hs hslots) hle (by omega)
      rw [Geometry.cell_add_slots, retire_trackers, if_pos rfl] at hkept
      exact hkept
    · have hge := Blocks.add_le_of_dvd hs hq hlt
      rw [hw.passed q hq hge h₂, retire_trackers, if_neg (cell_ne hs hq hge (by omega))]
  · have hge : s.tail + g.batchSize ≤ q := hw.frontier.le.trans h₁
    rw [hw.kept q hq h₁ (by omega), retire_trackers, if_neg (cell_ne hs hq hge h₂)]

end Walked

/-! ### The calls of a completion -/

/-- As long as there is fuel for the flags that are up, the walk comes to its end. -/
theorem moveTailLoop_walked {m k : ℕ} (hm : m < k) {s : SuperTensorBuffer g ℕ} (hs : g.batchSize ∣ s.tail)
    (hflags : ∀ q, g.batchSize ∣ q → s.tail + m * g.batchSize ≤ q → q < s.tail + g.slots →
      (s.trackers (g.cell q)).dirty ≠ 2) :
    ∃ s', moveTailLoop (CounterOps.unbounded g) k s = some (.ok (), s') ∧ Walked s s' := by
  have hB := g.batchSize_pos
  induction k generalizing m s with
  | zero => exact absurd hm (Nat.not_lt_zero m)
  | succ k ih =>
    have hlower := Blocks.lower_eq_of_dvd hs
    by_cases hstop : s.head ≤ s.tail + g.batchSize
    · refine ⟨s, ?_, Walked.refl hs fun h => absurd h.2.2 (Nat.not_lt_of_le hstop)⟩
      simp [moveTailLoop, CounterOps.unbounded, hlower, hstop]
    by_cases hd : (s.trackers (g.cell s.tail)).dirty = 2
    · have hret : s.Retirable s.tail := ⟨hd, Nat.lt_add_of_pos_right g.slots_pos, Nat.lt_of_not_le hstop⟩
      have hm0 : m ≠ 0 := by
        rintro rfl
        exact hflags s.tail hs (by omega) (Nat.lt_add_of_pos_right g.slots_pos) hd
      obtain ⟨m, rfl⟩ := Nat.exists_eq_succ_of_ne_zero hm0
      obtain ⟨s', hrun, hw⟩ := ih (m := m) (s := s.retire) (by omega) (Nat.dvd_add hs dvd_rfl) (by
        intro q hq h₁ h₂ hdirty
        have htail : s.retire.tail = s.tail + g.batchSize := rfl
        rw [htail] at h₁ h₂
        rw [Walked.retire_trackers] at hdirty
        split_ifs at hdirty with hcell
        rcases Blocks.lt_or_eq_of_lt_add (Nat.dvd_add hs g.batchSize_dvd_slots) hq (by omega) with h | h
        · rw [Nat.succ_mul] at hflags
          exact hflags q hq (by omega) h hdirty
        · exact hcell (by rw [h, Geometry.cell_add_slots]))
      refine ⟨s', ?_, hw.step hs hret⟩
      have hrun' : moveTailLoop (CounterOps.unbounded g) (k + 1) s =
          moveTailLoop (CounterOps.unbounded g) k s.retire := by
        simp [moveTailLoop, CounterOps.unbounded, hlower, hstop, hd, retire]
      rw [hrun', hrun]
    · refine ⟨s, ?_, Walked.refl hs fun h => absurd h.1 hd⟩
      simp [moveTailLoop, CounterOps.unbounded, hlower, hstop, hd]

/-- **`move_tail_to_next_non_dirty_buffer` comes to its end, and is a walk.** -/
theorem moveTail_walked {s : SuperTensorBuffer g ℕ} (hs : g.batchSize ∣ s.tail) :
    ∃ s', moveTail (CounterOps.unbounded g) s = some (.ok (), s') ∧ Walked s s' := by
  refine moveTailLoop_walked (m := g.capacity) (Nat.lt_succ_self _) hs fun q _ h₁ h₂ => ?_
  rw [Geometry.slots] at h₂
  omega

/-- `move_tail_to_next_non_dirty_buffer` walks to its end. -/
theorem walked_of_moveTail {s s' : SuperTensorBuffer g ℕ} (hs : g.batchSize ∣ s.tail)
    (h : moveTail (CounterOps.unbounded g) s = some (.ok (), s')) : Walked s s' := by
  obtain ⟨v, hv, hw⟩ := moveTail_walked hs
  obtain ⟨-, rfl⟩ := Prod.mk.inj (Option.some.inj (h.symm.trans hv))
  exact hw

namespace Walked

variable {s s' : SuperTensorBuffer g ℕ}

/-- A tracker loses at most its flag. -/
theorem tracker_eq (hs : g.batchSize ∣ s.tail) (hw : Walked s s') (x : Fin g.capacity) :
    s'.trackers x = s.trackers x ∨ s'.trackers x = { s.trackers x with dirty := 0 } := by
  obtain ⟨q, hq, h₁, h₂, rfl⟩ := Geometry.exists_cell_eq hs x
  rcases Nat.lt_or_ge q s'.tail with hlt | hge
  · exact .inr (hw.passed q hq h₁ hlt)
  · exact .inl (hw.kept q hq hge h₂)

/-- The walk leaves the counts. -/
theorem writtenSlots_eq (hs : g.batchSize ∣ s.tail) (hw : Walked s s') (x : Fin g.capacity) :
    (s'.trackers x).writtenSlots = (s.trackers x).writtenSlots := by
  rcases hw.tracker_eq hs x with h | h <;> rw [h]

/-- The number of executors in use is nothing to a walk. -/
theorem leave (hw : Walked s s') (n : ℕ) : Walked s { s' with executorsInUse := n } :=
  ⟨hw.frontier, hw.passed, hw.kept, hw.head, hw.executorHead, hw.states, hw.inputTensors⟩

/-- A flag that is clear stays clear. -/
theorem dirty_eq_zero (hs : g.batchSize ∣ s.tail) (hw : Walked s s') {x : Fin g.capacity}
    (hx : (s.trackers x).dirty = 0) : (s'.trackers x).dirty = 0 := by
  rcases hw.tracker_eq hs x with h | h <;> rw [h]
  exact hx

end Walked

/-- The buffer after `reset_batch`. -/
def reset (s : SuperTensorBuffer g ℕ) (x : Fin g.capacity) : SuperTensorBuffer g ℕ :=
  (s.modifyState x ((s.trackers x).generation + 1) fun _ => BatchState.new).modifyTracker x
    fun d => ⟨2, 0, d.generation + 1⟩

/-- `reset_batch` always returns. -/
theorem resetBatch_eq (s : SuperTensorBuffer g ℕ) (x : Fin g.capacity) :
    resetBatch x s = some (.ok (), s.reset x) := by
  simp [resetBatch, reset, modifyTracker, Function.update_idem]

/-- `reset_batch` renews one tracker. -/
theorem reset_trackers (s : SuperTensorBuffer g ℕ) (x y : Fin g.capacity) :
    (s.reset x).trackers y = if y = x then ⟨2, 0, (s.trackers x).generation + 1⟩ else s.trackers y := by
  rw [reset, modifyTracker_trackers, modifyState_trackers]

/-- A completion of the batch at `p`: `reset_batch`, and a whole
`move_tail_to_next_non_dirty_buffer`. -/
def complete (p : ℕ) : Call g ℕ Unit := do
  resetBatch (g.cell p)
  moveTail (CounterOps.unbounded g)

/-- Completions, one after the other. -/
def completeAll : List ℕ → Call g ℕ Unit
  | [] => pure ()
  | p :: ps => do
    complete p
    completeAll ps

/-- Completions before others. -/
theorem completeAll_append {ps qs : List ℕ} {s v : SuperTensorBuffer g ℕ}
    (h : completeAll ps s = some (.ok (), v)) : completeAll (ps ++ qs) s = completeAll qs v := by
  induction ps generalizing s with
  | nil =>
    obtain ⟨-, rfl⟩ := Prod.mk.inj (Option.some.inj h)
    rfl
  | cons p ps ih =>
    obtain ⟨_, u, hu, hv⟩ := Call.bind_eq_ok.1 h
    rw [List.cons_append, completeAll, Call.bind_of_ok hu]
    exact ih hv

/-- Batches that are in flight: different ones of the window, none of them finished. -/
structure InFlight (s : SuperTensorBuffer g ℕ) (batches : List ℕ) : Prop where
  tail_dvd : g.batchSize ∣ s.tail
  nodup : batches.Nodup
  dvd : ∀ p ∈ batches, g.batchSize ∣ p
  window : ∀ p ∈ batches, s.tail ≤ p ∧ p < s.tail + g.slots
  running : ∀ p ∈ batches, (s.trackers (g.cell p)).dirty ≠ 2

/-- A batch of the window is finished once those of `done` are: its flag was up, or it is one of
them. -/
def Finished (s : SuperTensorBuffer g ℕ) (done : List ℕ) (q : ℕ) : Prop :=
  q < s.tail + g.slots ∧ ((s.trackers (g.cell q)).dirty = 2 ∨ q ∈ done)

/-- The buffer `v` after the batches of `done` were completed on `s`. -/
structure Completed (s : SuperTensorBuffer g ℕ) (done : List ℕ) (v : SuperTensorBuffer g ℕ) : Prop where
  tail_dvd : g.batchSize ∣ v.tail
  tail_le : s.tail ≤ v.tail
  passed : ∀ q, g.batchSize ∣ q → s.tail ≤ q → q < v.tail → s.Finished done q ∧ q + g.batchSize < s.head
  head : v.head = s.head
  dirty : ∀ q, g.batchSize ∣ q → s.tail ≤ q → q < s.tail + g.slots → (v.trackers (g.cell q)).dirty =
    if q < v.tail then 0 else if q ∈ done then 2 else (s.trackers (g.cell q)).dirty
  writtenSlots : ∀ q, g.batchSize ∣ q → s.tail ≤ q → q < s.tail + g.slots →
    (v.trackers (g.cell q)).writtenSlots = if q ∈ done then 0 else (s.trackers (g.cell q)).writtenSlots

namespace Completed

variable {s v : SuperTensorBuffer g ℕ} {done batches : List ℕ} {p : ℕ}

/-- Nothing has been completed yet. -/
theorem start (hs : g.batchSize ∣ s.tail) : Completed s [] s where
  tail_dvd := hs
  tail_le := le_rfl
  passed _ _ h₁ h₂ := absurd h₁ (Nat.not_le_of_lt h₂)
  head := rfl
  dirty _ _ h₁ _ := by rw [if_neg (Nat.not_lt_of_le h₁), if_neg List.not_mem_nil]
  writtenSlots _ _ _ _ := by rw [if_neg List.not_mem_nil]

/-- A batch that is still in flight is not behind the tail. -/
theorem tail_le_of_running (hv : Completed s done v) (hs : s.InFlight batches) (hp : p ∈ batches)
    (hnot : p ∉ done) : v.tail ≤ p := by
  by_contra hlt
  obtain ⟨hfin, -⟩ := hv.passed p (hs.dvd p hp) (hs.window p hp).1 (Nat.lt_of_not_le hlt)
  rcases hfin.2 with h | h
  · exact hs.running p hp h
  · exact hnot h

/-- After the reset of the next batch, the tail may move over the batches that are finished. -/
theorem retirable_iff (hv : Completed s done v) (hs : s.InFlight batches) (hp : p ∈ batches)
    (hnot : p ∉ done) {q : ℕ} (hq : g.batchSize ∣ q) (hle : v.tail ≤ q) :
    (v.reset (g.cell p)).Retirable q ↔ s.Finished (done ++ [p]) q ∧ q + g.batchSize < s.head := by
  have hpv := hv.tail_le_of_running hs hp hnot
  have hpw := hs.window p hp
  have htail : (v.reset (g.cell p)).tail = v.tail := rfl
  have hhead : (v.reset (g.cell p)).head = s.head := hv.head
  have hsv := hv.tail_le
  rw [Retirable, Finished, htail, hhead, reset_trackers, List.mem_append, List.mem_singleton]
  constructor
  · rintro ⟨hd, hlt, hend⟩
    refine ⟨?_, hend⟩
    rcases Nat.lt_or_ge q (s.tail + g.slots) with hin | hout
    · refine ⟨hin, ?_⟩
      split_ifs at hd with hcell
      · exact .inr (.inr (Geometry.eq_of_cell_eq hq (hs.dvd p hp) (hsv.trans hle) hin hpw.1 hpw.2 hcell))
      · rw [hv.dirty q hq (hsv.trans hle) hin, if_neg (Nat.not_lt_of_le hle)] at hd
        split_ifs at hd with hdone
        · exact .inr (.inl hdone)
        · exact .inl hd
    · -- one turn of the ring behind, this is a batch that the tail has passed
      obtain ⟨r, rfl⟩ := Nat.exists_eq_add_of_le' (le_trans (Nat.le_add_left _ _) hout)
      have hr : g.batchSize ∣ r := (Nat.dvd_add_left g.batchSize_dvd_slots).1 hq
      have hr₁ : s.tail ≤ r := by omega
      have hr₂ : r < v.tail := by omega
      have hfin := hv.passed r hr hr₁ hr₂
      rw [Geometry.cell_add_slots, if_neg (fun hcell => ?_), hv.dirty r hr hr₁ hfin.1.1, if_pos hr₂] at hd
      · exact absurd hd (by decide)
      · have := Geometry.eq_of_cell_eq hr (hs.dvd p hp) hr₁ hfin.1.1 hpw.1 hpw.2 hcell
        omega
  · rintro ⟨⟨hin, hfin⟩, hend⟩
    refine ⟨?_, by omega, hend⟩
    split_ifs with hcell
    · rfl
    · rw [hv.dirty q hq (hsv.trans hle) hin, if_neg (Nat.not_lt_of_le hle)]
      rcases hfin with h | h | rfl
      · rw [h, ite_self]
      · rw [if_pos h]
      · exact absurd rfl hcell

/-- **One more completion.** -/
theorem step (hv : Completed s done v) (hs : s.InFlight batches) (hp : p ∈ batches) (hnot : p ∉ done) :
    ∃ v', complete p v = some (.ok (), v') ∧ Completed s (done ++ [p]) v' ∧
      Frontier g.batchSize (fun q => s.Finished (done ++ [p]) q ∧ q + g.batchSize < s.head) v.tail v'.tail := by
  have hpv := hv.tail_le_of_running hs hp hnot
  have hpw := hs.window p hp
  have hsv := hv.tail_le
  have htail : (v.reset (g.cell p)).tail = v.tail := rfl
  have hdvd : g.batchSize ∣ (v.reset (g.cell p)).tail := hv.tail_dvd
  obtain ⟨v', hrun, hw⟩ := moveTail_walked hdvd
  have hfront : Frontier g.batchSize (fun q => s.Finished (done ++ [p]) q ∧ q + g.batchSize < s.head)
      v.tail v'.tail := hw.frontier.congr fun q hq hle => hv.retirable_iff hs hp hnot hq hle
  have hpassed : ∀ q, g.batchSize ∣ q → s.tail ≤ q → q < v'.tail →
      s.Finished (done ++ [p]) q ∧ q + g.batchSize < s.head := by
    refine (Frontier.extend hsv (fun q hq h₁ h₂ => ?_) hfront).holds
    obtain ⟨⟨hlt, hfin⟩, hend⟩ := hv.passed q hq h₁ h₂
    exact ⟨⟨hlt, hfin.imp_right (List.mem_append_left _)⟩, hend⟩
  have hcell : ∀ q, g.batchSize ∣ q → s.tail ≤ q → q < s.tail + g.slots → (g.cell q = g.cell p ↔ q = p) :=
    fun q hq h₁ h₂ => ⟨Geometry.eq_of_cell_eq hq (hs.dvd p hp) h₁ h₂ hpw.1 hpw.2, congrArg g.cell⟩
  refine ⟨v', ?_, ⟨hw.frontier.dvd, hsv.trans hfront.le, hpassed, hw.head.trans hv.head, fun q hq h₁ h₂ => ?_,
    fun q hq h₁ h₂ => ?_⟩, hfront⟩
  · rw [complete, Call.bind_of_ok (resetBatch_eq v (g.cell p)), hrun]
  · rcases Nat.lt_or_ge q v.tail with hlt | hge
    · rw [if_pos (hlt.trans_le hfront.le)]
      refine hw.dirty_eq_zero hdvd ?_
      rw [reset_trackers, if_neg (by rw [hcell q hq h₁ h₂]; omega), hv.dirty q hq h₁ h₂, if_pos hlt]
    · rcases Nat.lt_or_ge q v'.tail with hlt' | hge'
      · rw [if_pos hlt', hw.passed q hq hge hlt']
      · rw [if_neg (Nat.not_lt_of_le hge'), hw.kept q hq hge' (by rw [htail]; omega), reset_trackers]
        simp only [hcell q hq h₁ h₂, List.mem_append, List.mem_singleton]
        by_cases hqp : q = p
        · rw [if_pos hqp, if_pos (.inr hqp)]
        · rw [if_neg hqp, hv.dirty q hq h₁ h₂, if_neg (Nat.not_lt_of_le hge)]
          simp only [hqp, or_false]
  · rw [hw.writtenSlots_eq hdvd, reset_trackers]
    simp only [hcell q hq h₁ h₂, List.mem_append, List.mem_singleton]
    by_cases hqp : q = p
    · rw [if_pos hqp, if_pos (.inr hqp)]
    · rw [if_neg hqp, hv.writtenSlots q hq h₁ h₂]
      simp only [hqp, or_false]

end Completed

section Order

variable {s v : SuperTensorBuffer g ℕ} {done batches : List ℕ} {p : ℕ}

/-- What is finished stays finished. -/
theorem Finished.mono {q : ℕ} (h : s.Finished done q) (l : List ℕ) : s.Finished (done ++ l) q :=
  ⟨h.1, h.2.imp_right (List.mem_append_left l)⟩

/-- Batches in flight can be completed, in whatever order. -/
theorem InFlight.completeAll (hs : s.InFlight batches) (hnodup : done.Nodup) (hsub : ∀ p ∈ done, p ∈ batches) :
    ∃ v, completeAll done s = some (.ok (), v) ∧ Completed s done v := by
  induction done using List.reverseRecOn with
  | nil => exact ⟨s, rfl, .start hs.tail_dvd⟩
  | append_singleton done p ih =>
    obtain ⟨hdone, -, hdisj⟩ := List.nodup_append.1 hnodup
    obtain ⟨v, hrun, hv⟩ := ih hdone fun q hq => hsub q (List.mem_append_left _ hq)
    have hnot : p ∉ done := fun hp => hdisj p hp p List.mem_cons_self rfl
    obtain ⟨v', hrun', hv', -⟩ := hv.step hs (hsub p (List.mem_append_right _ List.mem_cons_self)) hnot
    refine ⟨v', ?_, hv'⟩
    rw [completeAll_append hrun, SuperTensorBuffer.completeAll, Call.bind_of_ok hrun']
    rfl

/-- After the last completion the tail is where a walk over the finished batches stops. -/
theorem InFlight.frontier (hs : s.InFlight batches) (hnodup : done.Nodup) (hsub : ∀ p ∈ done, p ∈ batches)
    (hne : done ≠ []) (hrun : SuperTensorBuffer.completeAll done s = some (.ok (), v)) :
    Frontier g.batchSize (fun q => s.Finished done q ∧ q + g.batchSize < s.head) s.tail v.tail := by
  obtain ⟨done, p, rfl⟩ := (List.eq_nil_or_concat done).resolve_left hne
  rw [List.concat_eq_append] at *
  obtain ⟨hdone, -, hdisj⟩ := List.nodup_append.1 hnodup
  obtain ⟨u, hu, hv⟩ := hs.completeAll hdone fun q hq => hsub q (List.mem_append_left _ hq)
  have hnot : p ∉ done := fun hp => hdisj p hp p List.mem_cons_self rfl
  obtain ⟨v', hrun', -, hfront⟩ := hv.step hs (hsub p (List.mem_append_right _ List.mem_cons_self)) hnot
  rw [completeAll_append hu, SuperTensorBuffer.completeAll, Call.bind_of_ok hrun'] at hrun
  obtain ⟨-, rfl⟩ := Prod.mk.inj (Option.some.inj hrun)
  refine hfront.extend hv.tail_le fun q hq h₁ h₂ => ?_
  obtain ⟨hfin, hend⟩ := hv.passed q hq h₁ h₂
  exact ⟨hfin.mono _, hend⟩

/-- What is left does not depend on the order. -/
theorem Completed.eq_of_perm {order : List ℕ} {v v' : SuperTensorBuffer g ℕ} (hs : g.batchSize ∣ s.tail)
    (hv : Completed s order v) (hv' : Completed s batches v') (hp : order.Perm batches) (htail : v.tail = v'.tail)
    (x : Fin g.capacity) : (v.trackers x).dirty = (v'.trackers x).dirty ∧
      (v.trackers x).writtenSlots = (v'.trackers x).writtenSlots := by
  obtain ⟨q, hq, h₁, h₂, rfl⟩ := Geometry.exists_cell_eq hs x
  rw [hv.dirty q hq h₁ h₂, hv'.dirty q hq h₁ h₂, hv.writtenSlots q hq h₁ h₂, hv'.writtenSlots q hq h₁ h₂, htail]
  simp only [hp.mem_iff, and_self]

/-- One completion in the course of an order. -/
theorem InFlight.complete_next {rest : List ℕ} (hs : s.InFlight batches) (hperm : (done ++ p :: rest).Perm batches) :
    ∃ v v', SuperTensorBuffer.completeAll done s = some (.ok (), v) ∧ complete p v = some (.ok (), v') ∧
      v'.head = s.head ∧
      Frontier g.batchSize (fun q => s.Finished (done ++ [p]) q ∧ q + g.batchSize < s.head) v.tail v'.tail ∧
      ∀ q ∈ rest, v'.tail ≤ q := by
  obtain ⟨hdone, hrest, hdisj⟩ := List.nodup_append.1 (hperm.nodup_iff.2 hs.nodup)
  have hmem : ∀ q, q ∈ done ++ p :: rest → q ∈ batches := fun q => hperm.mem_iff.1
  have hp : p ∈ batches := hmem p (List.mem_append_right _ List.mem_cons_self)
  obtain ⟨v, hrun, hv⟩ := hs.completeAll hdone fun q hq => hmem q (List.mem_append_left _ hq)
  have hnot : p ∉ done := fun h => hdisj p h p List.mem_cons_self rfl
  obtain ⟨v', hrun', hv', hfront⟩ := hv.step hs hp hnot
  refine ⟨v, v', hrun, hrun', hv'.head, hfront, fun q hq => ?_⟩
  refine hv'.tail_le_of_running hs (hmem q (List.mem_append_right _ (List.mem_cons_of_mem p hq))) fun h => ?_
  rcases List.mem_append.1 h with h | h
  · exact hdisj q h q (List.mem_cons_of_mem p hq) rfl
  · rw [List.mem_singleton.1 h] at hq
    exact (List.nodup_cons.1 hrest).1 hq

/-- The frontier of a whole order, of at least one completion. -/
theorem InFlight.frontier_of_perm {order : List ℕ} (hs : s.InFlight batches) (hperm : order.Perm batches)
    (hne : batches ≠ []) (hrun : SuperTensorBuffer.completeAll order s = some (.ok (), v)) :
    Frontier g.batchSize (fun q => s.Finished batches q ∧ q + g.batchSize < s.head) s.tail v.tail := by
  have horder : order ≠ [] := by
    rintro rfl
    exact hne (List.nil_perm.1 hperm)
  have hfront := hs.frontier (hperm.nodup_iff.2 hs.nodup) (fun q => hperm.mem_iff.1) horder hrun
  refine hfront.congr fun q _ _ => ?_
  simp only [Finished, hperm.mem_iff]

/-- All orders take the tail to the same place. -/
theorem InFlight.tail_eq_of_perm {order : List ℕ} {v₀ : SuperTensorBuffer g ℕ} (hs : s.InFlight batches)
    (hperm : order.Perm batches) (hrun : SuperTensorBuffer.completeAll order s = some (.ok (), v))
    (hrun₀ : SuperTensorBuffer.completeAll batches s = some (.ok (), v₀)) : v.tail = v₀.tail := by
  by_cases hne : batches = []
  · subst hne
    rw [List.perm_nil.1 hperm] at hrun
    obtain ⟨-, rfl⟩ := Prod.mk.inj (Option.some.inj (hrun.symm.trans hrun₀))
    rfl
  · exact (hs.frontier_of_perm hperm hne hrun).unique (hs.frontier_of_perm (.refl batches) hne hrun₀)

end Order

/-- **The order of completions does not matter.**  Batches of the window in flight, and any order in which
they are completed, one after the other and with no `compare_exchange_weak` that fails for no reason: every
completion comes to its end, with the head where it was; the tail is
then at the first batch, counting from the old tail, that is not finished or does not end below
the head, so it has not passed a batch that is not finished; all orders leave the tail and
every tracker with the same flag and the same count; and when all claimed batches are finished
then, those that end below the head are retired. -/
theorem completion_order_irrelevant {s : SuperTensorBuffer g ℕ} {batches : List ℕ} (hs : s.InFlight batches) :
    (∀ done p rest, (done ++ p :: rest).Perm batches → ∃ v v',
      completeAll done s = some (.ok (), v) ∧ complete p v = some (.ok (), v') ∧ v'.head = s.head ∧
        Frontier g.batchSize (fun q => s.Finished (done ++ [p]) q ∧ q + g.batchSize < s.head) v.tail v'.tail ∧
        ∀ q ∈ rest, v'.tail ≤ q) ∧
    (∃ (tail : ℕ) (dirty writtenSlots : Fin g.capacity → ℕ), ∀ order, order.Perm batches →
      ∃ v, completeAll order s = some (.ok (), v) ∧ v.tail = tail ∧ ∀ x,
        (v.trackers x).dirty = dirty x ∧ (v.trackers x).writtenSlots = writtenSlots x) ∧
    ∀ order v, order.Perm batches → completeAll order s = some (.ok (), v) → batches ≠ [] →
      (∀ q, g.batchSize ∣ q → s.tail ≤ q → q < s.executorHead → s.Finished batches q) →
      ∀ q, g.batchSize ∣ q → s.tail ≤ q → q < s.executorHead → q + g.batchSize < s.head → q < v.tail := by
  refine ⟨fun done p rest hperm => hs.complete_next hperm, ?_,
    fun order v hperm hrun hne hclaimed q hq h₁ h₂ hend => ?_⟩
  · obtain ⟨v₀, hrun₀, hv₀⟩ := hs.completeAll hs.nodup fun _ => id
    refine ⟨v₀.tail, fun x => (v₀.trackers x).dirty, fun x => (v₀.trackers x).writtenSlots, fun order hperm => ?_⟩
    obtain ⟨v, hrun, hv⟩ := hs.completeAll (hperm.nodup_iff.2 hs.nodup) fun q => hperm.mem_iff.1
    have htail := hs.tail_eq_of_perm hperm hrun hrun₀
    exact ⟨v, hrun, htail, hv.eq_of_perm hs.tail_dvd hv₀ hperm htail⟩
  · have hfront := hs.frontier_of_perm hperm hne hrun
    by_contra hnot
    exact hfront.stops ⟨hclaimed v.tail hfront.dvd hfront.le (by omega), by omega⟩

end SuperTensorBuffer

/-- The batches of a run that are sealed and not finished are in flight. -/
theorem inFlight_of_runs {ok : RingGuard g ℕ} {w : RingWorld g ℕ} (h : Runs (CounterOps.unbounded g) ok w)
    {batches : List ℕ} (hnodup : batches.Nodup)
    (hb : ∀ p ∈ batches, Reached w.log p .sealed ∧ ¬ Reached w.log p .finished) : w.shared.InFlight batches := by
  obtain ⟨hl, hw⟩ := (executors_hold h).shared
  have hwin : ∀ p ∈ batches, w.shared.tail ≤ p ∧ p < w.shared.tail + g.slots := by
    intro p hp
    obtain ⟨hdvd, hlt⟩ := hl.claimed (hb p hp).1
    refine ⟨?_, hlt.trans_le hw.executorHead_le⟩
    by_contra hnot
    exact (hb p hp).2 (hw.passed p hdvd (Nat.lt_of_not_le hnot))
  refine ⟨hw.tail_dvd, hnodup, fun p hp => (hl.claimed (hb p hp).1).1, hwin, fun p hp hd => ?_⟩
  exact (hb p hp).2 (hw.flag p (hl.claimed (hb p hp).1).1 (hwin p hp).1 (hwin p hp).2 hd)

/-- Four batches, the first three of them in flight. -/
def threeInFlight : SuperTensorBuffer fourByOne ℕ :=
  { SuperTensorBuffer.new (CounterOps.unbounded fourByOne) fun _ _ => byteTensor 1 with
    trackers := fun _ => ⟨1, 1, 0⟩
    head := 4
    executorHead := 3 }

/-- Two orders that leave the same tail. -/
theorem completion_order_irrelevant_fourByOne : ∃ v v',
    SuperTensorBuffer.completeAll [1, 0, 2] threeInFlight = some (.ok (), v) ∧
      SuperTensorBuffer.completeAll [2, 1, 0] threeInFlight = some (.ok (), v') ∧ v.tail = v'.tail := by
  have hs : threeInFlight.InFlight [0, 1, 2] := ⟨by decide, by decide, by decide, by decide, by decide⟩
  obtain ⟨tail, _, _, hall⟩ := (SuperTensorBuffer.completion_order_irrelevant hs).2.1
  obtain ⟨v, hv, ht, -⟩ := hall [1, 0, 2] (by decide)
  obtain ⟨v', hv', ht', -⟩ := hall [2, 1, 0] (by decide)
  exact ⟨v, v', hv, hv', ht.trans ht'.symm⟩

end Toutates
