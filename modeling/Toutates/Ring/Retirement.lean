/-
# Retiring a batch takes two steps

`move_tail_to_next_non_dirty_buffer` takes the token of the batch at the tail, a `dirty`
flag of `2`, and then moves the tail with a second CAS.  The flag it takes is that of the
tail it loaded.  When the tail has gone round the ring since, the flag is the token of a
later batch of the same tracker; the tail CAS then fails, and that token is gone.

`retirement` holds in the runs in which nobody takes a flag with a stale tail
(`CurrentFlag`) and the tail CAS does not fail for no reason (`NoSpurious`): one executor
at a time is between the two steps, its tail is the tail, and its CAS succeeds.
-/

import Toutates.Ring.Occupancy

namespace Toutates

open Basis

variable {g : Geometry}

/-- `compare_exchange_weak` fails only when the value differs. -/
def NoSpurious : RingGuard g ℕ := fun _ _ _ c => c ≠ .spurious

/-- A call that takes a flag of `2` has loaded the tail that is still the tail. -/
def CurrentFlag (g : Geometry) : RingGuard g ℕ := fun _ s pc c =>
  ∀ items t, pc = .moveTail items (.casDirty t) → c = .go → (s.trackers (g.cell t)).dirty = 2 →
    s.tail = t

/-- **A flag that is taken is followed by the tail.**  Ahead of the tail no finished batch
has lost its flag, and the executor that took the flag at the tail is alone there. -/
def retirement (g : Geometry) : RingInv g ℕ where
  shared s log := ∀ p, g.batchSize ∣ p → s.tail < p → p < s.tail + g.slots →
    Reached log p .finished → (s.trackers (g.cell p)).dirty ≠ 0
  own s _ pc := ∀ t, pc.taken = some t → s.tail = t
  apart l m := ∀ t u, l.taken = some t → m.taken = some u → False
  symm h t u ht hu := h u t hu ht

namespace Retirement

variable {s s' : SuperTensorBuffer g ℕ} {log : List (Event g ℕ)} {pc pc' : Pc g ℕ} {K : RingInv g ℕ}
  {e : Option (Event g ℕ)}

/-- A step that clears no flag and finishes nothing. -/
theorem quiet (hs : (retirement g).shared s log) (hT : s'.tail = s.tail)
    (hd : ∀ x, (s'.trackers x).dirty = (s.trackers x).dirty)
    (hf : ∀ p, Reached (e.toList ++ log) p .finished → Reached log p .finished)
    (hpc : pc'.taken = none) : ThreadInv.Kept K (retirement g) log s pc s' pc' e := by
  refine ⟨fun p hp h₁ h₂ hfin h₀ => ?_, fun t ht => ?_, fun m _ _ hm _ => ⟨fun t ht => ?_, ?_⟩⟩
  · rw [hT] at h₁ h₂
    rw [hd] at h₀
    exact hs p hp h₁ h₂ (hf p hfin) h₀
  · exact elim_none hpc ht
  · rw [hT]
    exact hm t ht
  · exact fun _ _ => elim_none hpc

/-- A client marks a tracker as written. -/
theorem storeDirty {x : Fin g.capacity} (hs : (retirement g).shared s log) (hpc : pc'.taken = none) :
    ThreadInv.Kept K (retirement g) log s pc (s.modifyTracker x fun d => { d with dirty := 1 }) pc'
      none := by
  refine ⟨fun q hq h₁ h₂ hfin h₀ => ?_, fun t ht => ?_, fun m _ _ hm _ => ⟨fun t ht => hm t ht, ?_⟩⟩
  · rw [SuperTensorBuffer.modifyTracker_trackers] at h₀
    split at h₀
    · exact absurd h₀ (by simp)
    · exact hs q hq h₁ h₂ hfin h₀
  · exact elim_none hpc ht
  · exact fun _ _ => elim_none hpc

/-- A finished batch has its flag. -/
theorem resetDirty {p : ℕ} (hs : (retirement g).shared s log) (hpc : pc'.taken = none) :
    ThreadInv.Kept K (retirement g) log s pc
      (s.modifyTracker (g.cell p) fun d => { d with dirty := 2 }) pc' (some (.finished p)) := by
  refine ⟨fun q hq h₁ h₂ hfin h₀ => ?_, fun t ht => ?_, fun m _ _ hm _ => ⟨fun t ht => hm t ht, ?_⟩⟩
  · rw [SuperTensorBuffer.modifyTracker_trackers] at h₀
    split at h₀
    · exact absurd h₀ (by simp)
    · rename_i hcell
      rcases (reached_cons rfl).1 hfin with ⟨rfl, -⟩ | hfin
      · exact hcell rfl
      · exact hs q hq h₁ h₂ hfin h₀
  · exact elim_none hpc ht
  · exact fun _ _ => elim_none hpc

/-- The flag at the tail is taken.  Nobody else is between the two steps: the flag would not
be `2`. -/
theorem takeFlag (hw : Window.Shared s log) (hs : (retirement g).shared s log)
    (hd : (s.trackers (g.cell s.tail)).dirty = 2) (hpc : pc'.taken = some s.tail) :
    ThreadInv.Kept ((life g).and (window g)) (retirement g) log s pc
      (s.modifyTracker (g.cell s.tail) fun d => { d with dirty := 0 }) pc' (some (.flagTaken s.tail)) := by
  refine ⟨fun q hq h₁ h₂ hfin h₀ => ?_, fun t ht => ?_, fun m hwm _ hm _ => ⟨fun t ht => hm t ht, ?_⟩⟩
  · have hslots := g.slots_pos
    rw [SuperTensorBuffer.modifyTracker_trackers] at h₀
    split at h₀
    · rename_i hcell
      exact h₁.ne' (Geometry.eq_of_cell_eq hq hw.tail_dvd h₁.le h₂ le_rfl (by omega) hcell)
    · exact hs q hq h₁ h₂ hfin h₀
  · exact Option.some.inj (hpc.symm.trans ht)
  · intro t u _ hu
    have hu' := hm u hu
    subst hu'
    exact (hwm.2.taken _ hu).2 rfl hd

/-- The tail moves on. -/
theorem retire (hl : Life.Shared s log) (hw : Window.Shared s log) (hs : (retirement g).shared s log)
    (hpc : pc.taken = some s.tail) (hpc' : pc'.taken = none) :
    ThreadInv.Kept K (retirement g) log s pc
      { s with tail := Blocks.lower g.batchSize s.tail + g.batchSize } pc' (some (.retired s.tail)) := by
  rw [Blocks.lower_eq_of_dvd hw.tail_dvd]
  have hB := g.batchSize_pos
  refine ⟨fun q hq h₁ h₂ hfin h₀ => ?_, fun t ht => ?_, fun m _ _ hm ha => ⟨fun t ht => ?_, ?_⟩⟩
  · simp only at h₁ h₂ h₀
    have hfin' : Reached log q .finished := hfin
    rcases Window.lt_or_eq_of_lt_next hw hq h₂ with hlt | rfl
    · exact hs q hq (by omega) hlt hfin' h₀
    · exact absurd hfin' (Window.not_reached_next hl hw)
  · exact elim_none hpc' ht
  · exact (ha _ _ hpc ht).elim
  · exact fun _ _ => elim_none hpc'

end Retirement

/-- A step that reads a current flag keeps `retirement`. -/
theorem retirement_step {i : ℕ} {s s' : SuperTensorBuffer g ℕ} {pc pc' : Pc g ℕ} {c : Choice}
    {e : Option (Event g ℕ)} {log : List (Event g ℕ)}
    (ht : Transition (CounterOps.unbounded g) i s pc c s' pc' e) (hok : CurrentFlag g i s pc c)
    (hl : Life.Shared s log) (hw : Window.Shared s log) (hs : (retirement g).shared s log) :
    ThreadInv.Kept ((life g).and (window g)) (retirement g) log s pc s' pc' e := by
  cases ht with
  | storeDirty ins now => exact Retirement.storeDirty hs rfl
  | addWritten ins o t n r hr phase hp =>
    exact Retirement.quiet hs rfl (s.modifyTracker_dirty _ fun _ => rfl) (fun _ => id) rfl
  | replaceState e items =>
    exact Retirement.quiet hs rfl (SuperTensorBuffer.modifyTracker_dirty _ _ fun _ => rfl)
      (fun p => (reached_cons_of_ne rfl (by decide)).1) rfl
  | resetWritten e items =>
    exact Retirement.quiet hs rfl (s.modifyTracker_dirty _ fun _ => rfl)
      (fun p => (reached_cons_of_ne rfl (by decide)).1) rfl
  | resetDirty e items => exact Retirement.resetDirty hs rfl
  | takeFlag items t hd =>
    obtain rfl := hok items t rfl rfl hd
    exact Retirement.takeFlag hw hs hd rfl
  | retire items t htail =>
    subst htail
    exact Retirement.retire hl hw hs rfl rfl
  | _ =>
    refine Retirement.quiet hs rfl (fun _ => rfl) ?_ rfl
    first
      | exact fun _ => id
      | exact fun p => (reached_cons_of_ne rfl (by decide)).1

/-- In every run that reads current flags the tail follows a flag that is taken. -/
theorem retirement_holds {ok : RingGuard g ℕ} {w : RingWorld g ℕ}
    (h : Runs (CounterOps.unbounded g) ok w) (hok : ∀ i s pc c, ok i s pc c → CurrentFlag g i s pc c) :
    (retirement g).Holds w := by
  refine h.threadInv ((life g).and (window g)) (fun v hv => executors_hold hv)
    (fun inputTensors => ⟨fun p _ _ _ hf => absurd hf List.not_mem_nil, fun _ _ => elim_none rfl,
      fun _ _ _ _ _ => elim_none rfl⟩)
    fun i s pc c s' pc' e log ht hc hsh _ hs _ => retirement_step ht (hok i s pc c hc) hsh.1 hsh.2 hs

/-- The batch at the tail is finished and its flag is gone. -/
def Orphaned (s : SuperTensorBuffer g ℕ) (log : List (Event g ℕ)) : Prop :=
  Reached log s.tail .finished ∧ (s.trackers (g.cell s.tail)).dirty = 0

/-- A step that orphans the batch at the tail is that of an executor that takes its flag. -/
theorem orphaned_step {i : ℕ} {s s' : SuperTensorBuffer g ℕ} {pc pc' : Pc g ℕ} {c : Choice}
    {e : Option (Event g ℕ)} {log : List (Event g ℕ)}
    (ht : Transition (CounterOps.unbounded g) i s pc c s' pc' e) (hok : CurrentFlag g i s pc c)
    (hc : c ≠ .spurious) (hl : Life.Shared s log) (hw : Window.Shared s log)
    (hs : (retirement g).shared s log) (ho : (retirement g).own s log pc)
    (h : Orphaned s' (e.toList ++ log)) :
    pc'.taken = some s'.tail ∨ (Orphaned s log ∧ s'.tail = s.tail ∧ pc.taken = none) := by
  have same : s'.tail = s.tail → (∀ x, (s'.trackers x).dirty = (s.trackers x).dirty) →
      (∀ p, Reached (e.toList ++ log) p .finished → Reached log p .finished) → Orphaned s log := by
    intro hT hd hf
    obtain ⟨hfin, h₀⟩ := h
    rw [hT] at hfin h₀
    exact ⟨hf _ hfin, by rw [← hd]; exact h₀⟩
  cases ht with
  | storeDirty ins now =>
    obtain ⟨hfin, h₀⟩ := h
    rw [SuperTensorBuffer.modifyTracker_trackers] at h₀
    split at h₀
    · exact absurd h₀ (by simp)
    · exact .inr ⟨⟨hfin, h₀⟩, rfl, rfl⟩
  | addWritten ins o t n r hr phase hp =>
    exact .inr ⟨same rfl (s.modifyTracker_dirty _ fun _ => rfl) fun _ => id, rfl, rfl⟩
  | replaceState e items =>
    exact .inr ⟨same rfl (SuperTensorBuffer.modifyTracker_dirty _ _ fun _ => rfl)
      (fun p => (reached_cons_of_ne rfl (by decide)).1), rfl, rfl⟩
  | resetWritten e items =>
    exact .inr ⟨same rfl (s.modifyTracker_dirty _ fun _ => rfl)
      (fun p => (reached_cons_of_ne rfl (by decide)).1), rfl, rfl⟩
  | resetDirty e items =>
    obtain ⟨hfin, h₀⟩ := h
    rw [SuperTensorBuffer.modifyTracker_trackers] at h₀
    split at h₀
    · exact absurd h₀ (by simp)
    · rename_i hcell
      rcases (reached_cons rfl).1 hfin with ⟨heq, -⟩ | hfin
      · exact absurd (congrArg g.cell heq) hcell
      · exact .inr ⟨⟨hfin, h₀⟩, rfl, rfl⟩
  | takeFlag items t hd =>
    obtain rfl := hok items t rfl rfl hd
    exact .inl rfl
  | retire items t htail =>
    subst htail
    -- the next batch, if it is finished, still has its flag
    obtain ⟨hfin, h₀⟩ := h
    simp only [CounterOps.unbounded, Blocks.lower_eq_of_dvd hw.tail_dvd] at hfin h₀
    have hB := g.batchSize_pos
    have hfin' : Reached log (s.tail + g.batchSize) .finished := hfin
    have hlt := (hl.claimed hfin').2
    have hE := hw.executorHead_le
    exact absurd h₀ (hs _ (Nat.dvd_add hw.tail_dvd (Nat.dvd_refl _)) (by omega) (by omega) hfin')
  | retireFailed items t c h' =>
    rcases h' with rfl | hne
    · exact absurd rfl hc
    · exact absurd (ho t rfl) hne
  | _ =>
    refine .inr ⟨same rfl (fun _ => rfl) ?_, rfl, rfl⟩
    first
      | exact fun _ => id
      | exact fun p => (reached_cons_of_ne rfl (by decide)).1

/-- An orphaned batch at the tail has an executor about to move the tail. -/
def Attended (w : RingWorld g ℕ) : Prop :=
  Orphaned w.shared w.log → ∃ i, (w.threads i).taken = some w.shared.tail

/-- In such a run, without needless failures, an orphaned batch is attended to. -/
theorem attended {ok : RingGuard g ℕ} {w : RingWorld g ℕ}
    (h : Runs (CounterOps.unbounded g) ok w)
    (hok : ∀ i s pc c, ok i s pc c → c ≠ .spurious ∧ CurrentFlag g i s pc c) : Attended w := by
  obtain ⟨inputTensors, h⟩ := h
  refine h.invariant (fun hO => absurd hO.1 List.not_mem_nil) fun v a v' hv ih hc hs hO => ?_
  have hruns : Runs (CounterOps.unbounded g) ok v := ⟨inputTensors, hv⟩
  have hJ := retirement_holds hruns fun i s pc c h => (hok i s pc c h).2
  obtain ⟨e, ht, hlog⟩ := transition_of_step hs
  rw [hlog] at hO
  obtain ⟨hns, hcur⟩ := hok _ _ _ _ hc
  rcases orphaned_step ht hcur hns (life_holds hruns).shared (window_holds hruns).shared hJ.shared
      (hJ.own a.thread) hO with htaken | ⟨hO, hT, hnone⟩
  · exact ⟨a.thread, htaken⟩
  · obtain ⟨i, hi⟩ := ih hO
    have hne : i ≠ a.thread := fun heq => by
      rw [heq, hnone] at hi
      cases hi
    exact ⟨i, by rw [Program.step_threads hs hne, hi, hT]⟩

/-- Who has taken a flag retires its batch, unless the `compare_exchange` fails. -/
theorem Transition.of_taken {ops : CounterOps g ℕ} {i t : ℕ} {s s' : SuperTensorBuffer g ℕ}
    {pc pc' : Pc g ℕ} {c : Choice} {e : Option (Event g ℕ)} (hpc : pc.taken = some t)
    (ht : Transition ops i s pc c s' pc' e) :
    (s.tail = t ∧ s'.tail = ops.higherBound t ∧ e = some (.retired t)) ∨ c = .spurious ∨ s.tail ≠ t := by
  cases ht with
  | retire items u htail =>
    obtain rfl := Option.some.inj hpc
    exact .inl ⟨htail, rfl, rfl⟩
  | retireFailed items u c h =>
    obtain rfl := Option.some.inj hpc
    exact .inr h
  | _ => cases hpc

/-- **Retirement is not lost while flags are taken with a current tail.**  In a run in which
a weak CAS fails only when the value differs and every flag CAS that succeeds is that of a
call whose loaded tail is still the tail: an executor that took a flag took that of the
finished batch at the tail, its tail CAS retires exactly that batch, and a finished batch
at the tail whose flag is gone has an executor about to retire it. -/
theorem retirement_not_lost_when_flags_current {w : RingWorld g ℕ}
    (h : Runs (CounterOps.unbounded g)
      (fun i s pc c => NoSpurious i s pc c ∧ CurrentFlag g i s pc c) w) :
    (∀ i t, (w.threads i).taken = some t → t = w.shared.tail ∧ Reached w.log t .finished ∧
      ∀ c w', c ≠ .spurious → (program (CounterOps.unbounded g)).step w ⟨i, c⟩ = some w' →
        w'.log = .retired t :: w.log ∧ w'.shared.tail = t + g.batchSize) ∧
    (Reached w.log w.shared.tail .finished →
      (w.shared.trackers (g.cell w.shared.tail)).dirty = 0 →
        ∃ i, (w.threads i).taken = some w.shared.tail) := by
  refine ⟨fun i t ht => ?_, fun hfin h₀ => attended h (fun _ _ _ _ h => h) ⟨hfin, h₀⟩⟩
  have hT : w.shared.tail = t := (retirement_holds h fun _ _ _ _ h => h.2).own i t ht
  have hw := window_holds h
  refine ⟨hT.symm, ((hw.own i).taken t ht).1, fun c w' hc hs => ?_⟩
  obtain ⟨e, hstep, hlog⟩ := transition_of_step hs
  rcases hstep.of_taken ht with ⟨-, htail, rfl⟩ | hsp | hne
  · refine ⟨hlog, htail.trans ?_⟩
    subst hT
    simp only [CounterOps.unbounded, Blocks.lower_eq_of_dvd hw.shared.tail_dvd]
  · exact absurd hsp hc
  · exact absurd hT hne

/-- `NoSpurious`, evaluated. -/
def noSpurious : ℕ → SuperTensorBuffer g ℕ → Pc g ℕ → Choice → Bool
  | _, _, _, .spurious => false
  | _, _, _, _ => true

/-- A step that is checked not to fail for no reason does not. -/
theorem noSpurious_spec {i : ℕ} {s : SuperTensorBuffer g ℕ} {pc : Pc g ℕ} {c : Choice}
    (h : noSpurious i s pc c = true) : NoSpurious i s pc c := by
  rintro rfl
  simp [noSpurious] at h

/-- `CurrentFlag`, evaluated. -/
def currentFlag (g : Geometry) : ℕ → SuperTensorBuffer g ℕ → Pc g ℕ → Choice → Bool
  | _, s, .moveTail _ (.casDirty t), .go => (s.trackers (g.cell t)).dirty != 2 || s.tail == t
  | _, _, _, _ => true

/-- A step that is checked to read a current flag does. -/
theorem currentFlag_spec {i : ℕ} {s : SuperTensorBuffer g ℕ} {pc : Pc g ℕ} {c : Choice}
    (h : currentFlag g i s pc c = true) : CurrentFlag g i s pc c := by
  rintro items t rfl rfl hd
  simpa [currentFlag, hd] using h

/-- An executor has taken the flag of the first batch of a small ring. -/
theorem retirement_not_lost_when_flags_current_twoByOne :
    ∃ w : RingWorld twoByOne ℕ, (w.threads 0).taken = some 0 ∧ Reached w.log 0 .finished := by
  have hrun : (runFresh (CounterOps.unbounded twoByOne)
      (fun i s pc c => noSpurious i s pc c && currentFlag twoByOne i s pc c) (fun _ _ => byteTensor 1)
      (reserve 2 byteRequest ++ insertRow 2 ++ reserve 3 byteRequest ++ claimBatch 0 ++ runBatch 0 ++
        go 0 4)).map (fun w => (w.threads 0).taken) = some (some 0) := by decide +kernel
  obtain ⟨w, hrun, hw⟩ := world_of_runFresh _ hrun
  refine ⟨w, hw, ((retirement_not_lost_when_flags_current
    (Runs.of_runFresh (fun i s pc c h => ?_) hrun)).1 0 0 hw).2.1⟩
  obtain ⟨h₁, h₂⟩ := Bool.and_eq_true_iff.1 h
  exact ⟨noSpurious_spec h₁, currentFlag_spec h₂⟩

/-- A run in a ring of two slots with one-row requests.  Executor `0` finishes batch `0`, loads
the tail `0` and its flag `2`, and sleeps; executor `1` finishes batch `1`, retires batch `0` and
finishes batch `2`, which is in the same tracker; executor `0` takes the flag of batch `2` with
the tail `0` and fails to move the tail; executor `1` retires batch `1`. -/
def lostRetirement : List (Action Choice) :=
  reserve 2 byteRequest ++ insertRow 2 ++ reserve 3 byteRequest ++ insertRow 3 ++
    claimBatch 0 ++ runBatch 0 ++ go 0 3 ++
    claimBatch 1 ++ runBatch 1 ++ go 1 9 ++
    reserve 4 byteRequest ++ insertRow 4 ++ claimBatch 1 ++ runBatch 1 ++
    go 0 3 ++ go 1 9

/-- The finished batch at the tail has no flag, and nobody is about to move the tail. -/
theorem retirement_can_be_lost :
    ¬ ∀ (g : Geometry) (w : RingWorld g ℕ),
      Runs (CounterOps.unbounded g) (fun i s pc c => NoSpurious i s pc c ∧ Fits g i s pc c) w →
      Reached w.log w.shared.tail .finished →
      (w.shared.trackers (g.cell w.shared.tail)).dirty = 0 → ∃ i t, (w.threads i).taken = some t := by
  intro hall
  have hrun : (runFresh (CounterOps.unbounded twoByOne)
      (fun i s pc c => noSpurious i s pc c && fits twoByOne i s pc c) (fun _ _ => byteTensor 1)
      lostRetirement).map (fun w => (w.shared.tail, (w.shared.trackers (twoByOne.cell 2)).dirty,
        decide (Reached w.log 2 .finished),
        (List.range 5).all fun i => (w.threads i).taken.isNone)) = some (2, 0, true, true) := by
    decide +kernel
  obtain ⟨w, hrun, hw⟩ := world_of_runFresh _ hrun
  obtain ⟨htail, hw⟩ := Prod.mk.inj hw
  obtain ⟨hdirty, hw⟩ := Prod.mk.inj hw
  obtain ⟨hfin, hthreads⟩ := Prod.mk.inj hw
  have hruns : Runs (CounterOps.unbounded twoByOne)
      (fun i s pc c => NoSpurious i s pc c ∧ Fits twoByOne i s pc c) w := by
    refine Runs.of_runFresh (fun i s pc c h => ?_) hrun
    obtain ⟨h₁, h₂⟩ := Bool.and_eq_true_iff.1 h
    exact ⟨noSpurious_spec h₁, fits_spec h₂⟩
  obtain ⟨i, t, ht⟩ := hall twoByOne w hruns (by rw [htail]; exact of_decide_eq_true hfin)
    (by rw [htail]; exact hdirty)
  have hnone := forall_threads_of_runFresh (p := fun pc => pc.taken.isNone) hrun
    (by decide +kernel) rfl hthreads i
  rw [ht] at hnone
  cases hnone

end Toutates
