/-
# A ring that has been warmed up

`load_model` runs every session three times on the new buffer before it publishes the model
(`warmup`), so the ring that clients meet is not new: its heads are some batches on, and the batch
that was run last is still there, since the tail does not move over it.

`Warm` says what so many warmups leave, and `warmups_warm` that they leave it.  `warmLog` is the log
of a run that leaves the same, in which executors skipped every slot of each batch; with it the
invariants of the concurrent runs hold of a warm ring, and so in every run from there
(`responding_of_reach`).
-/

import Toutates.Ring.ExactlyOnce
import Toutates.Ring.Idle

namespace Toutates

open Basis

variable {g : Geometry} {α : Type}

/-- Two trackers that differ are more than one. -/
theorem one_lt_capacity {x y : Fin g.capacity} (h : x ≠ y) : 1 < g.capacity := by
  have hval : x.val ≠ y.val := fun heq => h (Fin.ext heq)
  omega

namespace SuperTensorBuffer

/-- The warmups of `load_model`, one after the other; no `compare_exchange_weak` in them fails for no reason. -/
def warmups (ops : CounterOps g α) : ℕ → Call g α Unit
  | 0 => pure ()
  | k + 1 => do
    warmup ops
    warmups ops k

/-- What `k` warmups leave of a new buffer. -/
structure Warm (k : ℕ) (s : SuperTensorBuffer g ℕ) : Prop where
  head : s.head = k * g.batchSize
  executorHead : s.executorHead = k * g.batchSize
  tail : s.tail = (k - 1) * g.batchSize
  writtenSlots : ∀ x, (s.trackers x).writtenSlots = 0
  last : 0 < k → 1 < g.capacity → (s.trackers (g.cell s.tail)).dirty = 2
  ahead : ∀ p, g.batchSize ∣ p → s.head ≤ p → p < s.tail + g.slots → (s.trackers (g.cell p)).dirty ≠ 2
  generation : ∀ p, g.batchSize ∣ p → s.head ≤ p → p < s.head + g.slots →
    (s.trackers (g.cell p)).generation = g.lap p
  states : ∀ x n, s.states x n = BatchState.new
  executorsInUse : s.executorsInUse = 0

namespace Warm

variable {k : ℕ} {s : SuperTensorBuffer g ℕ}

/-- A new ring is warm. -/
theorem new (inputTensors : Fin g.capacity → Fin g.numInputs → BatchableTensor g.batchSize) :
    Warm 0 (new (CounterOps.unbounded g) inputTensors) where
  head := (Nat.zero_mul _).symm
  executorHead := (Nat.zero_mul _).symm
  tail := (Nat.zero_mul _).symm
  writtenSlots _ := rfl
  last h _ := absurd h (Nat.lt_irrefl 0)
  ahead _ _ _ _ := Nat.zero_ne_add_one 1
  generation p _ _ hlt := (Geometry.lap_eq_zero (by simpa [SuperTensorBuffer.new, CounterOps.unbounded] using hlt)).symm
  states _ _ := rfl
  executorsInUse := rfl

/-- The head is at the start of a batch. -/
theorem head_dvd (h : Warm k s) : g.batchSize ∣ s.head := h.head ▸ Nat.dvd_mul_left _ _

/-- The tail is at the start of a batch. -/
theorem tail_dvd (h : Warm k s) : g.batchSize ∣ s.tail := h.tail ▸ Nat.dvd_mul_left _ _

/-- The tail is one batch behind. -/
theorem head_eq (h : Warm k s) (hk : 0 < k) : s.head = s.tail + g.batchSize := by
  obtain ⟨j, rfl⟩ := Nat.exists_eq_succ_of_ne_zero hk.ne'
  rw [h.head, h.tail, Nat.succ_sub_one, Nat.succ_mul]

/-- The tail is not above the head. -/
theorem tail_le (h : Warm k s) : s.tail ≤ s.head := by
  rw [h.head, h.tail]
  exact Nat.mul_le_mul_right _ (Nat.sub_le k 1)

/-- The head is at most a turn above the tail. -/
theorem head_le (h : Warm k s) : s.head ≤ s.tail + g.slots := by
  rcases Nat.eq_zero_or_pos k with rfl | hk
  · rw [h.head, Nat.zero_mul]
    exact Nat.zero_le _
  · rw [h.head_eq hk]
    exact Nat.add_le_add_left (Nat.le_of_dvd g.slots_pos g.batchSize_dvd_slots) _

end Warm

/-- The buffer of a warmup before `move_tail_to_next_non_dirty_buffer`. -/
def afterWarmup (s : SuperTensorBuffer g ℕ) : SuperTensorBuffer g ℕ :=
  ({ (s.modifyTracker (g.cell s.head) fun d => { d with dirty := 1 }) with
      head := s.head + g.batchSize, executorHead := s.executorHead + g.batchSize,
      executorsInUse := s.executorsInUse + 1 } : SuperTensorBuffer g ℕ).reset (g.cell s.head)

/-- A warmup renews one tracker. -/
theorem afterWarmup_trackers (s : SuperTensorBuffer g ℕ) (y : Fin g.capacity) :
    s.afterWarmup.trackers y =
      if y = g.cell s.head then ⟨2, 0, (s.trackers y).generation + 1⟩ else s.trackers y := by
  rw [afterWarmup, reset_trackers]
  split_ifs with hy
  · rw [hy]
    simp only [modifyTracker_trackers, if_true]
  · simp only [modifyTracker_trackers, if_neg hy]

/-- A warmup leaves states that are new. -/
theorem afterWarmup_states {s : SuperTensorBuffer g ℕ} (hs : ∀ x n, s.states x n = BatchState.new)
    (x : Fin g.capacity) (n : ℕ) : s.afterWarmup.states x n = BatchState.new := by
  rw [afterWarmup, reset, modifyTracker_states, modifyState_states]
  split_ifs
  · rfl
  · exact hs x n

/-- Moving the tail counts no executor. -/
theorem moveTailLoop_executorsInUse {ops : CounterOps g α} {k : ℕ} {s s' : SuperTensorBuffer g α}
    {r : Attempt InferError Unit} (h : moveTailLoop ops k s = some (r, s')) :
    s'.executorsInUse = s.executorsInUse := by
  induction k generalizing s with
  | zero => cases h
  | succ k ih =>
    rw [moveTailLoop, Call.read_bind_apply] at h
    split_ifs at h
    · obtain ⟨-, rfl⟩ := Prod.mk.inj (Option.some.inj h)
      rfl
    · simp only [Call.modify_bind_apply] at h
      exact (ih h).trans rfl
    · obtain ⟨-, rfl⟩ := Prod.mk.inj (Option.some.inj h)
      rfl

/-- A warmup is a reset of the batch at the head, and a walk. -/
theorem warmup_eq {s : SuperTensorBuffer g ℕ} (ht : g.batchSize ∣ s.tail) :
    ∃ v, warmup (CounterOps.unbounded g) s = some (.ok (), v) ∧ Walked s.afterWarmup v ∧
      v.executorsInUse = s.executorsInUse := by
  obtain ⟨v, hmove, hwalk⟩ := moveTail_walked (s := s.afterWarmup) ht
  have huse : v.executorsInUse = s.executorsInUse + 1 := moveTailLoop_executorsInUse hmove
  refine ⟨_, ?_, hwalk.leave (v.executorsInUse - 1), Nat.sub_eq_of_eq_add huse⟩
  rw [warmup, Call.read_bind_apply]
  simp only [Call.modify_bind_apply]
  rw [show (CounterOps.unbounded g).batchId s.head = g.cell s.head from rfl, Call.bind_of_ok (resetBatch_eq _ _)]
  exact Call.bind_of_ok hmove

namespace Warm

variable {k : ℕ} {s v : SuperTensorBuffer g ℕ} {p : ℕ}

/-- The walk of a warmup moves the tail over the batch that the warmup before it left, if any. -/
theorem tail_eq (h : Warm k s) (hwalk : Walked s.afterWarmup v) : v.tail = s.head := by
  have hf := hwalk.frontier
  have htail : s.afterWarmup.tail = s.tail := rfl
  have hhead : s.afterWarmup.head = s.head + g.batchSize := rfl
  rw [htail] at hf
  -- the batch at the new head is not retired, and the one before it is
  have hle : v.tail ≤ s.head := by
    by_contra hlt
    have hret := hf.holds s.head h.head_dvd h.tail_le (Nat.lt_of_not_le hlt)
    have := hret.2.2
    omega
  refine le_antisymm hle ?_
  rcases Nat.eq_zero_or_pos k with rfl | hk
  · rw [h.head, Nat.zero_mul]
    exact Nat.zero_le _
  by_contra hlt
  have hnext := h.head_eq hk
  have heq : v.tail = s.tail := by
    have hge := hf.le
    rcases Blocks.lt_or_eq_of_lt_add h.tail_dvd hf.dvd (by omega) with hlt | heq
    · omega
    · exact heq
  refine hf.stops (heq ▸ ⟨?_, ?_, ?_⟩)
  · rw [afterWarmup_trackers]
    split_ifs with hcell
    · rfl
    · exact h.last hk (one_lt_capacity hcell)
  · rw [htail]
    exact Nat.lt_add_of_pos_right g.slots_pos
  · rw [hhead, hnext]
    omega

/-- The reset of a warmup is all that happens to a tracker, but for its flag. -/
theorem tracker_eq (h : Warm k s) (hwalk : Walked s.afterWarmup v) (x : Fin g.capacity) :
    v.trackers x = s.afterWarmup.trackers x ∨ v.trackers x = { s.afterWarmup.trackers x with dirty := 0 } := by
  have hdvd : g.batchSize ∣ s.afterWarmup.tail := h.tail_dvd
  exact hwalk.tracker_eq hdvd x

/-- Only the batch of the warmup has the tracker that is reset. -/
theorem cell_ne (h : Warm k s) (hp : g.batchSize ∣ p) (h₁ : s.head < p) (h₂ : p < s.head + g.slots) :
    g.cell p ≠ g.cell s.head := by
  intro hcell
  have := Geometry.eq_of_cell_eq hp h.head_dvd h₁.le h₂ le_rfl (by omega) hcell
  omega

/-- The batch of the warmup keeps its flag, in a ring of more than one. -/
theorem last_step (h : Warm k s) (hwalk : Walked s.afterWarmup v) (hcap : 1 < g.capacity) :
    (v.trackers (g.cell v.tail)).dirty = 2 := by
  have hlt : s.head < s.tail + g.slots := by
    have hB := g.batchSize_pos
    have hmul : 2 * g.batchSize ≤ g.slots := Nat.mul_le_mul_right _ hcap
    rcases Nat.eq_zero_or_pos k with rfl | hk
    · rw [h.head, Nat.zero_mul]
      omega
    · rw [h.head_eq hk]
      omega
  have htail := h.tail_eq hwalk
  rw [htail, hwalk.kept s.head h.head_dvd htail.le hlt, afterWarmup_trackers, if_pos rfl]

/-- The batch before it has lost its flag, and those ahead had none. -/
theorem ahead_step (h : Warm k s) (hwalk : Walked s.afterWarmup v) (hp : g.batchSize ∣ p) (h₁ : s.head < p)
    (h₂ : p < s.head + g.slots) : (v.trackers (g.cell p)).dirty ≠ 2 := by
  have hB := g.batchSize_pos
  rcases Nat.lt_or_ge p (s.tail + g.slots) with hlt | hge
  · have hold := h.ahead p hp h₁.le hlt
    rcases h.tracker_eq hwalk (g.cell p) with heq | heq
    · rw [heq, afterWarmup_trackers, if_neg (h.cell_ne hp h₁ h₂)]
      exact hold
    · rw [heq]
      exact Nat.zero_ne_add_one 1
  · have hk : 0 < k := by
      by_contra hzero
      have hhead := h.head
      have htail := h.tail
      obtain rfl : k = 0 := by omega
      rw [Nat.zero_mul] at hhead
      rw [Nat.zero_sub, Nat.zero_mul] at htail
      omega
    have hnext := h.head_eq hk
    have hlast : p = s.tail + g.slots := by
      rcases Blocks.lt_or_eq_of_lt_add (Nat.dvd_add h.tail_dvd g.batchSize_dvd_slots) hp (by omega) with hlt | heq
      · omega
      · exact heq
    have hlt : s.tail < v.tail := by
      rw [h.tail_eq hwalk]
      omega
    rw [hlast, Geometry.cell_add_slots, hwalk.passed s.tail h.tail_dvd le_rfl hlt]
    exact Nat.zero_ne_add_one 1

/-- The tracker of the warmup is a lap on, the others are where they were. -/
theorem generation_step (h : Warm k s) (hwalk : Walked s.afterWarmup v) (hp : g.batchSize ∣ p)
    (h₁ : s.head + g.batchSize ≤ p) (h₂ : p < s.head + g.batchSize + g.slots) :
    (v.trackers (g.cell p)).generation = g.lap p := by
  have hB := g.batchSize_pos
  have hS := g.slots_pos
  have hgen : (v.trackers (g.cell p)).generation = (s.afterWarmup.trackers (g.cell p)).generation := by
    rcases h.tracker_eq hwalk (g.cell p) with heq | heq <;> rw [heq]
  rw [hgen, afterWarmup_trackers]
  rcases Nat.lt_or_ge p (s.head + g.slots) with hlt | hge
  · rw [if_neg (h.cell_ne hp (by omega) hlt)]
    exact h.generation p hp (by omega) hlt
  · have hlast : p = s.head + g.slots := by
      rcases Blocks.lt_or_eq_of_lt_add (Nat.dvd_add h.head_dvd g.batchSize_dvd_slots) hp (by omega) with hlt | heq
      · omega
      · exact heq
    rw [hlast, Geometry.cell_add_slots, Geometry.lap_add_slots, if_pos rfl]
    exact congrArg (· + 1) (h.generation s.head h.head_dvd le_rfl (by omega))

/-- **One more warmup** comes to its end and leaves the ring as `Warm` says. -/
theorem step (h : Warm k s) : ∃ s', warmup (CounterOps.unbounded g) s = some (.ok (), s') ∧ Warm (k + 1) s' ∧
    s'.inputTensors = s.inputTensors := by
  obtain ⟨v, hrun, hwalk, huse⟩ := warmup_eq h.tail_dvd
  have htail := h.tail_eq hwalk
  have hhead : v.head = s.head + g.batchSize := hwalk.head
  have hexec : v.executorHead = s.executorHead + g.batchSize := hwalk.executorHead
  have hB := g.batchSize_pos
  refine ⟨_, hrun, ⟨?_, ?_, htail.trans h.head, fun x => ?_, fun _ => h.last_step hwalk, fun p hp h₁ h₂ => ?_,
    fun p hp h₁ h₂ => ?_, fun x n => ?_, huse.trans h.executorsInUse⟩, hwalk.inputTensors⟩
  · exact hhead.trans (by rw [h.head, Nat.succ_mul])
  · exact hexec.trans (by rw [h.executorHead, Nat.succ_mul])
  · have hwritten : (s.afterWarmup.trackers x).writtenSlots = 0 := by
      rw [afterWarmup_trackers]
      split_ifs
      · rfl
      · exact h.writtenSlots x
    rcases h.tracker_eq hwalk x with heq | heq <;> exact heq ▸ hwritten
  · have h₁ : s.head + g.batchSize ≤ p := hhead ▸ h₁
    exact h.ahead_step hwalk hp (by omega) (htail ▸ h₂)
  · exact h.generation_step hwalk hp (hhead ▸ h₁) (hhead ▸ h₂)
  · exact (congrFun (congrFun hwalk.states x) n).trans (afterWarmup_states h.states x n)

end Warm

/-- Any number of warmups come to their end on a new buffer. -/
theorem warmups_warm {j k : ℕ} {s : SuperTensorBuffer g ℕ} (h : Warm j s) :
    ∃ s', warmups (CounterOps.unbounded g) k s = some (.ok (), s') ∧ Warm (j + k) s' ∧
      s'.inputTensors = s.inputTensors := by
  induction k generalizing j s with
  | zero => exact ⟨s, rfl, h, rfl⟩
  | succ k ih =>
    obtain ⟨v, hrun, hv, htensors⟩ := h.step
    obtain ⟨s', hrun', hs', htensors'⟩ := ih hv
    refine ⟨s', ?_, by rwa [Nat.add_right_comm, Nat.add_assoc] at hs', htensors'.trans htensors⟩
    rw [warmups, Call.bind_of_ok hrun]
    exact hrun'

end SuperTensorBuffer

/-! ### Runs from any world -/

/-- What is known of a run whose requests fit, wherever it starts. -/
def responding (g : Geometry) : RingInv g ℕ := ((lifecycle g).and (responses g)).and (ledger g)

/-- **The invariants hold in every run from a world in which they hold.** -/
theorem responding_of_reach {w₀ w : RingWorld g ℕ} (h₀ : (responding g).Holds w₀)
    (h : Reach (program (CounterOps.unbounded g)) (Fits g) w₀ w) : (responding g).Holds w := by
  have hresponses₀ : ((lifecycle g).and (responses g)).Holds w₀ := h₀.left
  have hopening₀ : (lifecycle g).Holds w₀ := hresponses₀.left
  have hcells₀ : (deliveries g).Holds w₀ := hopening₀.left
  have hrows₀ : ((counters g).and (rows g)).Holds w₀ := hcells₀.left
  have hbounded₀ : (counters g).Holds w₀ := hrows₀.left
  have hheads₀ : (((life g).and (window g)).and (heads g)).Holds w₀ := hbounded₀.left
  have hwindow₀ : ((life g).and (window g)).Holds w₀ := hheads₀.left
  have hlife : ∀ v, Reach (program (CounterOps.unbounded g)) (Fits g) w₀ v → (life g).Holds v := fun v hv =>
    hv.threadInv (fun u _ => ThreadInv.trivial_holds u) hwindow₀.left
      fun _ _ _ _ _ _ _ _ hs _ _ _ hJ ho => life_step (transition_of_next hs) hJ ho
  have hwindow := fun v => Reach.threadInv_and (w := v) hlife hwindow₀.right
    fun _ _ _ _ _ _ _ _ hs _ hK hKo hJ ho => window_step (transition_of_next hs) hK hKo hJ ho
  have hheads := fun v => Reach.threadInv_and (w := v) hwindow hheads₀.right
    fun _ _ _ _ _ _ _ _ hs _ hK hKo hJ ho => heads_step (transition_of_next hs) hKo.1 hK.2 hKo.2 hJ ho
  have hbounded := fun v => Reach.threadInv_and (w := v) hheads hbounded₀.right
    fun _ _ _ _ _ _ _ _ hs hfit hK hKo hJ _ =>
      bounded_step (transition_of_next hs) hfit hK.1.1 hKo.1.1 hK.1.2 hKo.2 hJ
  have hrows := fun v => Reach.threadInv_and (w := v) hbounded hrows₀.right
    fun _ _ _ _ _ _ _ _ hs _ hK hKo hJ ho => rows_step (transition_of_next hs) hK hKo hJ ho
  have hdeliveries : ∀ v, Reach (program (CounterOps.unbounded g)) (Fits g) w₀ v → (deliveries g).Holds v :=
    fun v hv => (hrows v hv).and (hv.threadInv hwindow hcells₀.right
      fun _ _ _ _ _ _ _ _ hs _ hK hKo hJ ho => cells_step (transition_of_next hs) hK.1 hK.2 hKo.1 hKo.2 hJ ho)
  have hlifecycle := fun v => Reach.threadInv_and (w := v) hdeliveries hopening₀.right
    fun _ _ _ _ _ _ _ _ hs _ hK hKo hJ ho => opening_step (transition_of_next hs) hK hKo hJ ho
  have hresponses := Reach.threadInv_and (w := w) hlifecycle hresponses₀.right
    fun _ _ _ _ _ _ _ _ hs _ hK hKo hJ ho => responses_step (transition_of_next hs) hK hKo hJ ho
  exact (hresponses h).and (h.threadInv (fun u _ => ThreadInv.trivial_holds u) h₀.right
    fun _ _ _ _ _ _ _ _ hs _ _ _ hJ ho => ledger_step (transition_of_next hs) hJ ho)

/-! ### The log of a warm ring -/

/-- A batch of which every slot was skipped, from its claim to its reset. -/
def skippedBatch (g : Geometry) (p : ℕ) : List (Event g ℕ) :=
  [.finished p, .wiped p, .replaced p, .ran p (.ok []), .invoked p, .sealed p, .padded p p g.batchSize, .woken p,
    .claimed p]

/-- The log of a ring that has been warmed up so many times. -/
def warmLog (g : Geometry) : ℕ → List (Event g ℕ)
  | 0 => []
  | k + 1 => skippedBatch g (k * g.batchSize) ++ warmLog g k

/-- A warmup goes through all stages. -/
theorem marks_skippedBatch (p : ℕ) : marks (skippedBatch g p) =
    [(p, .finished), (p, .wiped), (p, .replaced), (p, .ran), (p, .invoked), (p, .sealed), (p, .woken),
      (p, .claimed)] := rfl

/-- A warmup goes through the stages of its own batch. -/
theorem mem_marks_skippedBatch {p q : ℕ} {st : Stage} : (q, st) ∈ marks (skippedBatch g p) ↔ q = p := by
  rw [marks_skippedBatch]
  cases st <;> simp

/-- A warmup goes through each stage once. -/
theorem nodup_marks_skippedBatch (p : ℕ) : (marks (skippedBatch g p)).Nodup := by
  rw [marks_skippedBatch]
  simp

/-- The stages of one more warmup. -/
theorem marks_warmLog_succ (k : ℕ) :
    marks (warmLog g (k + 1)) = marks (skippedBatch g (k * g.batchSize)) ++ marks (warmLog g k) :=
  List.filterMap_append

/-- In the log of a warm ring the batches below the head have been through all stages. -/
theorem reached_warmLog {k p : ℕ} {st : Stage} :
    Reached (warmLog g k) p st ↔ g.batchSize ∣ p ∧ p < k * g.batchSize := by
  have hB := g.batchSize_pos
  induction k with
  | zero =>
    rw [Nat.zero_mul]
    exact ⟨fun h => absurd h List.not_mem_nil, fun h => absurd h.2 (Nat.not_lt_zero p)⟩
  | succ k ih =>
    have hmem : (p, st) ∈ marks (warmLog g k) ↔ g.batchSize ∣ p ∧ p < k * g.batchSize := ih
    rw [Reached, marks_warmLog_succ, List.mem_append, mem_marks_skippedBatch, hmem, Nat.succ_mul]
    constructor
    · rintro (rfl | ⟨hp, hlt⟩)
      · exact ⟨Nat.dvd_mul_left _ _, by omega⟩
      · exact ⟨hp, by omega⟩
    · rintro ⟨hp, hlt⟩
      rcases Blocks.lt_or_eq_of_lt_add (Nat.dvd_mul_left _ _) hp hlt with hlt | heq
      · exact .inr ⟨hp, hlt⟩
      · exact .inl heq

/-- No stage is reached twice. -/
theorem nodup_marks_warmLog (k : ℕ) : (marks (warmLog g k)).Nodup := by
  induction k with
  | zero => exact List.nodup_nil
  | succ k ih =>
    rw [marks_warmLog_succ]
    refine (nodup_marks_skippedBatch _).append ih ?_
    rintro ⟨q, st⟩ h₁ h₂
    have heq := mem_marks_skippedBatch.1 h₁
    have hlt := (reached_warmLog.1 h₂).2
    omega

/-- The rows of events after events. -/
theorem rowsOf_append (f : Event g ℕ → Option (ℕ × ℕ)) (l log : List (Event g ℕ)) :
    rowsOf f (l ++ log) = rowsOf f l ∪ rowsOf f log := by
  ext q
  simp [rowsOf, covered, or_and_right, exists_or]

/-- Warmups have no rows. -/
theorem rowsOf_warmLog {f : Event g ℕ → Option (ℕ × ℕ)} (hf : ∀ p, rowsOf f (skippedBatch g p) = ∅) (k : ℕ) :
    rowsOf f (warmLog g k) = ∅ := by
  induction k with
  | zero => exact covered_nil
  | succ k ih => rw [warmLog, rowsOf_append, ih, hf, Set.union_empty]

/-- Warmups reserve no rows. -/
theorem reservedRows_warmLog (k : ℕ) : reservedRows (warmLog g k) = ∅ :=
  rowsOf_warmLog (f := Event.reservation) (fun _ => covered_nil) k

/-- Warmups count no rows. -/
theorem countedRows_warmLog (k : ℕ) : countedRows (warmLog g k) = ∅ :=
  rowsOf_warmLog (f := Event.counting) (fun _ => covered_nil) k

/-- Every position below the head was skipped. -/
theorem mem_paddedRows_warmLog {k q : ℕ} : q ∈ paddedRows (warmLog g k) ↔ q < k * g.batchSize := by
  induction k with
  | zero =>
    rw [Nat.zero_mul]
    exact ⟨fun h => absurd h (by simp [warmLog, rowsOf]), fun h => absurd h (Nat.not_lt_zero q)⟩
  | succ k ih =>
    have hskipped : q ∈ rowsOf Event.padding (skippedBatch g (k * g.batchSize)) ↔
        k * g.batchSize ≤ q ∧ q < k * g.batchSize + g.batchSize := by
      simp [rowsOf, skippedBatch, Event.padding, covered]
    have hrest : q ∈ rowsOf Event.padding (warmLog g k) ↔ q < k * g.batchSize := ih
    rw [warmLog, paddedRows, rowsOf_append, Set.mem_union, hskipped, hrest, Nat.succ_mul]
    omega

/-- Each event of the warmups is one of a warmup. -/
theorem mem_warmLog {k : ℕ} {ev : Event g ℕ} (h : ev ∈ warmLog g k) : ∃ p, ev ∈ skippedBatch g p := by
  induction k with
  | zero => exact absurd h List.not_mem_nil
  | succ k ih =>
    rcases List.mem_append.1 h with h | h
    · exact ⟨_, h⟩
    · exact ih h

/-- No client has taken anything of a warm ring, or been given anything. -/
theorem not_reserved_warmLog {k t h n : ℕ} : Event.reserved t h n ∉ warmLog g k := fun hmem => by
  obtain ⟨p, hp⟩ := mem_warmLog hmem
  simp [skippedBatch] at hp

/-- No warmup responds. -/
theorem not_responded_warmLog {k t h n : ℕ} {response : List (WriteReservation g)} :
    Event.responded t h n response ∉ warmLog g k := fun hmem => by
  obtain ⟨p, hp⟩ := mem_warmLog hmem
  simp [skippedBatch] at hp

/-- The batches of the warmups are one behind the other. -/
theorem stacked_warmLog (k : ℕ) : Stacked ((warmLog g k).filterMap Event.span) (k * g.batchSize) := by
  induction k with
  | zero =>
    rw [Nat.zero_mul]
    exact Stacked.nil
  | succ k ih =>
    rw [Nat.succ_mul]
    exact ih.cons g.batchSize

/-! ### The invariants of a warm ring -/

/-- A ring that nobody has called yet but `load_model`. -/
def warmWorld (k : ℕ) (s : SuperTensorBuffer g ℕ) : RingWorld g ℕ where
  shared := s
  threads _ := .idle
  log := warmLog g k

namespace SuperTensorBuffer.Warm

variable {k : ℕ} {s : SuperTensorBuffer g ℕ}

/-- The batches of the warmups are finished, the others not begun. -/
theorem reached_iff (h : Warm k s) {p : ℕ} (hp : g.batchSize ∣ p) (st : Stage) :
    Reached (warmLog g k) p st ↔ p < s.head := by
  rw [reached_warmLog, h.head]
  exact and_iff_right hp

/-- The invariant on lives holds after warmups. -/
theorem life (h : Warm k s) : Life.Shared s (warmLog g k) where
  executorHead_dvd := h.executorHead ▸ Nat.dvd_mul_left _ _
  nodup := nodup_marks_warmLog k
  claimed hr := ⟨(reached_warmLog.1 hr).1, h.executorHead ▸ (reached_warmLog.1 hr).2⟩
  closed hr _ := reached_warmLog.2 (reached_warmLog.1 hr)

/-- The invariant on the window holds after warmups. -/
theorem window (h : Warm k s) : Window.Shared s (warmLog g k) := by
  have hexec : s.executorHead = s.head := h.executorHead.trans h.head.symm
  refine ⟨h.tail_dvd, hexec ▸ h.tail_le, hexec ▸ h.head_le, fun p hp hlt => ?_, fun p hp h₁ h₂ hd => ?_⟩
  · exact (h.reached_iff hp _).2 (hlt.trans_le h.tail_le)
  · rw [h.reached_iff hp]
    by_contra hge
    exact h.ahead p hp (Nat.le_of_not_lt hge) h₂ hd

/-- The invariant on rows holds after warmups. -/
theorem rows (h : Warm k s) : Rows.Shared s (warmLog g k) := by
  have hpadded : ∀ q, q ∈ paddedRows (warmLog g k) ↔ q < s.head := fun q => by
    rw [mem_paddedRows_warmLog, h.head]
  have hexec : s.executorHead = s.head := h.executorHead.trans h.head.symm
  have hcount : ∀ p, filled (countedRows (warmLog g k)) p g.batchSize = 0 := fun p => by
    rw [countedRows_warmLog]
    exact filled_of_initial (Nat.zero_le _) fun q hq _ => ⟨fun h => h.elim, fun h => absurd hq (Nat.not_le_of_lt h)⟩
  refine ⟨fun q => ?_, fun q hq => ?_, fun q hq => ?_, ?_, fun p hp => ⟨?_, fun q _ _ hq => ?_⟩, fun p _ _ _ =>
    ⟨fun _ => h.writtenSlots _, fun _ => by rw [hcount, h.writtenSlots]⟩⟩
  · rw [reservedRows_warmLog, hpadded]
    exact ⟨.inr, fun hq => hq.resolve_left (Set.notMem_empty q)⟩
  · rw [reservedRows_warmLog] at hq
    exact absurd hq (Set.notMem_empty q)
  · exact hexec ▸ (hpadded q).1 hq
  · rw [countedRows_warmLog]
    exact Set.empty_subset _
  · obtain ⟨hdvd, hlt⟩ := reached_warmLog.1 hp
    exact Blocks.add_le_of_dvd hdvd h.head_dvd (h.head ▸ hlt)
  · rw [reservedRows_warmLog] at hq
    exact absurd hq (Set.notMem_empty q)

/-- The invariant on the cells holds after warmups. -/
theorem cells (h : Warm k s) : Cells.Shared s (warmLog g k) := by
  refine ⟨fun p hp h₁ h₂ => ⟨fun hr => ?_, fun hr => ?_⟩, fun p _ _ => ?_, fun p result _ hout => ?_⟩
  · -- the batch below the head has been replaced in this lap
    rw [h.reached_iff hp] at hr
    have hle := h.head_le
    have hnext : s.head ≤ p + g.slots := by omega
    have hgen := h.generation (p + g.slots) (Nat.dvd_add hp g.batchSize_dvd_slots) hnext (by omega)
    rwa [Geometry.cell_add_slots, Geometry.lap_add_slots] at hgen
  · rw [h.reached_iff hp, Nat.not_lt] at hr
    have := h.tail_le
    exact h.generation p hp hr (by omega)
  · rw [batchState, h.states]
    rfl
  · rw [batchState, h.states] at hout
    cases hout

end SuperTensorBuffer.Warm

/-- **A warm ring is a ring of a run.**  What is known of the runs from a new buffer is known of a ring
that has been warmed up. -/
theorem responding_of_warm {k : ℕ} {s : SuperTensorBuffer g ℕ} (h : s.Warm k) :
    (responding g).Holds (warmWorld k s) := by
  have hlife : (life g).Holds (warmWorld k s) :=
    ⟨h.life, fun _ _ _ => elim_none rfl, fun _ _ _ _ _ _ _ => elim_none rfl⟩
  have hwindow : (window g).Holds (warmWorld k s) :=
    ⟨h.window, fun _ => ⟨fun _ => elim_none rfl, fun _ => elim_none rfl, fun _ => elim_none rfl⟩,
      fun _ _ _ => True.intro⟩
  have hheads : (heads g).Holds (warmWorld k s) :=
    ⟨h.tail_le, fun _ => Heads.own_none True.intro rfl rfl rfl rfl, fun _ _ _ => True.intro⟩
  have hbounded : (bounded g).Holds (warmWorld k s) := ⟨h.head_le, fun _ => True.intro, fun _ _ _ => True.intro⟩
  have hrows : (rows g).Holds (warmWorld k s) :=
    ⟨h.rows, fun _ => Rows.own_none (fun _ => id) rfl rfl, fun _ _ _ q hq => absurd hq id⟩
  have hcells : (cells g).Holds (warmWorld k s) :=
    ⟨h.cells, fun _ _ _ => elim_none rfl, fun _ _ _ => True.intro⟩
  have hopening : (opening g).Holds (warmWorld k s) :=
    ⟨fun _ _ _ => congrArg BatchState.opening (h.states _ _), fun _ _ _ => elim_none rfl,
      fun _ _ _ => True.intro⟩
  have hresponses : (responses g).Holds (warmWorld k s) :=
    ⟨fun _ _ _ _ hr => absurd hr not_responded_warmLog, fun _ => Responses.own_none rfl rfl, fun _ _ _ => True.intro⟩
  have hledger : (ledger g).Holds (warmWorld k s) := by
    refine ⟨⟨h.head ▸ stacked_warmLog k, fun _ _ => ?_⟩, fun _ _ _ => elim_none rfl, fun _ _ _ => True.intro⟩
    rw [show countedRows (warmWorld k s).log = ∅ from countedRows_warmLog k]
    exact Set.empty_subset _
  exact (((((((hlife.and hwindow).and hheads).and hbounded).and hrows).and hcells).and hopening).and
    hresponses).and hledger

/-! ### Serving from a warm ring -/

/-- The worlds of a ring that `load_model` has warmed up `k` times and that is called from then on.  In the warmups
no `compare_exchange_weak` failed for no reason; from then on any may. -/
def ServedRing (ok : RingGuard g ℕ) (k : ℕ)
    (inputTensors : Fin g.capacity → Fin g.numInputs → BatchableTensor g.batchSize) (w : RingWorld g ℕ) : Prop :=
  ∃ s, SuperTensorBuffer.warmups (CounterOps.unbounded g) k (.new (CounterOps.unbounded g) inputTensors) =
    some (.ok (), s) ∧ Reach (program (CounterOps.unbounded g)) ok (warmWorld k s) w

section

variable {ok : RingGuard g ℕ} {k : ℕ} {w w' : RingWorld g ℕ}
  {inputTensors : Fin g.capacity → Fin g.numInputs → BatchableTensor g.batchSize}

/-- A ring after warmups, in which no `compare_exchange_weak` failed for no reason, is warm. -/
theorem warm_of_warmups {s : SuperTensorBuffer g ℕ}
    (h : SuperTensorBuffer.warmups (CounterOps.unbounded g) k (.new (CounterOps.unbounded g) inputTensors) =
      some (.ok (), s)) : s.Warm k ∧ s.inputTensors = inputTensors := by
  obtain ⟨s', hrun, hwarm, htensors⟩ := SuperTensorBuffer.warmups_warm (k := k) (.new inputTensors)
  obtain ⟨-, rfl⟩ := Prod.mk.inj (Option.some.inj (h.symm.trans hrun))
  rw [Nat.zero_add] at hwarm
  exact ⟨hwarm, htensors⟩

/-- A served ring stays one. -/
theorem ServedRing.reach (h : ServedRing ok k inputTensors w) (hr : Reach (program (CounterOps.unbounded g)) ok w w') :
    ServedRing ok k inputTensors w' := by
  obtain ⟨s, hrun, h⟩ := h
  exact ⟨s, hrun, Relation.ReflTransGen.trans h hr⟩

/-- A served ring is one for a weaker guard. -/
theorem ServedRing.mono {ok' : RingGuard g ℕ} (h : ServedRing ok k inputTensors w)
    (hok : ∀ i s pc c, ok i s pc c → ok' i s pc c) : ServedRing ok' k inputTensors w := by
  obtain ⟨s, hrun, h⟩ := h
  exact ⟨s, hrun, h.mono hok⟩

/-- The invariants hold in a served ring. -/
theorem responding_of_served (h : ServedRing (Fits g) k inputTensors w) : (responding g).Holds w := by
  obtain ⟨s, hrun, h⟩ := h
  exact responding_of_reach (responding_of_warm (warm_of_warmups hrun).1) h

end

end Toutates
