/-
# A ring that nobody uses

Calls that run one at a time: `warmup`, `infer`, `execute_on_batch`.  When every batch that was
given a row has been executed, nothing is on the ring.

The tail does not know it.  Its walk stops at a batch that does not end below the head, and the
last batch that was executed ends at the head, so this one stays: the tail is a batch behind the
head of a ring that was ever used, `metrics_snapshot` counts its slots as in flight, and a ring of
one batch has no room left for good.  The counters that `metrics_snapshot` reads are the wrapped ones,
and its difference saturates: it counts none when the head has just come back to zero.
-/

import Toutates.Basis.Spans
import Toutates.Ring.Completion
import Toutates.Ring.Solo
import Toutates.Ring.Failure
import Toutates.Ring.Wrapping

namespace Toutates

open Basis

variable {g : Geometry}

/-- A call moves no counter, and sets flags of trackers in `X` only, to `1`. -/
structure Inserts (X : Set (Fin g.capacity)) (s s' : SuperTensorBuffer g ℕ) : Prop where
  head : s'.head = s.head
  executorHead : s'.executorHead = s.executorHead
  tail : s'.tail = s.tail
  dirty : ∀ x, (s'.trackers x).dirty = (s.trackers x).dirty ∨ x ∈ X ∧ (s'.trackers x).dirty = 1

namespace Inserts

variable {X : Set (Fin g.capacity)} {s s₁ s₂ : SuperTensorBuffer g ℕ}

/-- Where nothing is done, no flag is set. -/
theorem refl (s : SuperTensorBuffer g ℕ) : Inserts X s s := ⟨rfl, rfl, rfl, fun _ => .inl rfl⟩

/-- One insertion after the other. -/
theorem trans (h₁ : Inserts X s s₁) (h₂ : Inserts X s₁ s₂) : Inserts X s s₂ := by
  refine ⟨h₂.head.trans h₁.head, h₂.executorHead.trans h₁.executorHead, h₂.tail.trans h₁.tail, fun x => ?_⟩
  rcases h₂.dirty x with h | h
  · rw [h]
    exact h₁.dirty x
  · exact .inr h

/-- A write to a tracker that leaves its flag sets none. -/
theorem modifyTracker {x : Fin g.capacity} {f : DataTracker → DataTracker} (hf : ∀ d, (f d).dirty = d.dirty) :
    Inserts X s (s.modifyTracker x f) :=
  ⟨rfl, rfl, rfl, fun y => .inl (s.modifyTracker_dirty x hf y)⟩

/-- A write to a state sets no flag. -/
theorem modifyState {x : Fin g.capacity} {n : ℕ} {f : BatchState → BatchState} :
    Inserts X s (s.modifyState x n f) :=
  ⟨rfl, rfl, rfl, fun _ => .inl rfl⟩

/-- A write to a tensor sets no flag. -/
theorem setTensor {x : Fin g.capacity} {i : Fin g.numInputs} {t : BatchableTensor g.batchSize} :
    Inserts X s (s.setTensor x i t) :=
  ⟨rfl, rfl, rfl, fun _ => .inl rfl⟩

/-- A flag of the set may be set. -/
theorem storeDirty {x : Fin g.capacity} (hx : x ∈ X) :
    Inserts X s (s.modifyTracker x fun d => { d with dirty := 1 }) := by
  refine ⟨rfl, rfl, rfl, fun y => ?_⟩
  rw [SuperTensorBuffer.modifyTracker_trackers]
  split_ifs with hy
  · rw [hy]
    exact .inr ⟨hx, rfl⟩
  · exact .inl rfl

/-- Where no flag may be set, none is. -/
theorem dirty_eq (h : Inserts ∅ s s₁) (x : Fin g.capacity) : (s₁.trackers x).dirty = (s.trackers x).dirty :=
  (h.dirty x).resolve_right fun hx => hx.1

end Inserts

namespace SuperTensorBuffer

variable {X : Set (Fin g.capacity)} {ins : Insertion g ℕ}

/-- Copies set no flag. -/
theorem copyInputs_inserts (is : List (Fin g.numInputs)) :
    (copyInputs (CounterOps.unbounded g) ins is).Ensures (Inserts X) := by
  induction is with
  | nil => exact .pure Inserts.refl _
  | cons i is ih =>
    refine .read fun s => .bind (fun _ _ _ => Inserts.trans) (.attempt Inserts.refl _) fun t => ?_
    exact .bind (fun _ _ _ => Inserts.trans) (.modify fun _ => .setTensor) fun _ => ih

/-- Opening a batch sets its flag. -/
theorem openBatch_inserts {x : Fin g.capacity} {now : Instant} (hx : x ∈ X) :
    (openBatch x now : Call g ℕ Unit).Ensures (Inserts X) := by
  refine .bind (fun _ _ _ => Inserts.trans) (.modify fun _ => .storeDirty hx) fun _ => .read fun s => ?_
  refine .bind (fun _ _ _ => Inserts.trans) (.expect Inserts.refl _ _) fun _ => ?_
  refine .bind (fun _ _ _ => Inserts.trans) (.modify fun _ => .modifyState) fun _ => .read fun s => ?_
  refine .bind (fun _ _ _ => Inserts.trans) (.expect Inserts.refl _ _) fun _ => ?_
  exact .modify fun _ => .modifyState

/-- Counting rows sets no flag. -/
theorem reserveSlots_inserts : (reserveSlots (CounterOps.unbounded g) ins).Ensures (Inserts X) := by
  refine .read fun s => .bind (fun _ _ _ => Inserts.trans) (.modify fun _ => .modifyTracker fun _ => rfl) fun _ => ?_
  refine .bind (fun _ _ _ => Inserts.trans) (.when Inserts.refl fun _ => .modify fun _ => .modifyState) fun _ => ?_
  exact .pure Inserts.refl _

/-- A piece sets the flag of a batch that it opens. -/
theorem insertTensorsAt_inserts {now : Instant}
    (hX : ins.batchSlot (CounterOps.unbounded g) = 0 → ins.tracker (CounterOps.unbounded g) ∈ X) :
    (insertTensorsAt (CounterOps.unbounded g) now ins).Ensures (Inserts X) := by
  refine .bind (fun _ _ _ => Inserts.trans) (copyInputs_inserts _) fun _ => ?_
  refine .bind (fun _ _ _ => Inserts.trans) (.when Inserts.refl fun h => openBatch_inserts (hX h)) fun _ => ?_
  exact reserveSlots_inserts

/-- The trackers of the batches that start in a range. -/
def opened (g : Geometry) (h n : ℕ) : Set (Fin g.capacity) :=
  {x | ∃ q, g.batchSize ∣ q ∧ h ≤ q ∧ q < h + n ∧ g.cell q = x}

/-- A request sets the flags of the batches that it opens. -/
theorem insertAll_inserts {clock : ℕ → Instant} {h n k : ℕ} (hpos : 0 < ins.clientBatchSize)
    (hle : h ≤ ins.currentHead) (hend : ins.currentHead + ins.clientBatchSize = h + n) :
    (insertAll (CounterOps.unbounded g) clock k ins).Ensures (Inserts (opened g h n)) := by
  induction k generalizing ins with
  | zero => exact .wait
  | succ k ih =>
    refine .bind (fun _ _ _ => Inserts.trans) (insertTensorsAt_inserts fun hslot => ?_) fun r => ?_
    · exact ⟨ins.currentHead, Nat.dvd_of_mod_eq_zero hslot, hle, by omega, rfl⟩
    · split_ifs with hlast
      · exact .pure Inserts.refl _
      · have hnext : (ins.next (CounterOps.unbounded g) r).currentHead =
            ins.currentHead + ins.toWrite (CounterOps.unbounded g) := ins.next_eq hlast
        have hsize : (ins.next (CounterOps.unbounded g) r).clientBatchSize =
            ins.clientBatchSize - ins.toWrite (CounterOps.unbounded g) := rfl
        exact ih (Nat.pos_of_ne_zero hlast) (by omega) (by omega)

/-- What `infer` does to the counters and the flags, whatever it returns. -/
theorem infer_inserts {clock : ℕ → Instant} {request : Request} {n : ℕ} (hn : request.clientBatchSize = .ok n)
    {s s' : SuperTensorBuffer g ℕ} {r : Attempt InferError (List (WriteReservation g))} (hroom : s.HasRoom n)
    (hrun : infer (CounterOps.unbounded g) clock request s = some (r, s')) :
    Inserts (opened g s.head n) { s with head := s.head + n } s' := by
  have hpos := Request.clientBatchSize_pos hn
  have hfull : ¬ (CounterOps.unbounded g).isFull s.head s.tail = true := by
    obtain ⟨h₁, h₂⟩ := hroom
    simp only [CounterOps.unbounded, decide_eq_true_eq]
    omega
  rw [infer, Call.read_bind_apply, if_neg hfull, hn] at hrun
  have hall : (insertAll (CounterOps.unbounded g) clock (n + 1) ⟨request, s.head, s.head, 0, n, []⟩).Ensures
      (Inserts (opened g s.head n)) := insertAll_inserts hpos le_rfl rfl
  exact hall _ _ _ hrun

/-- Waiting sets no flag. -/
theorem awaitNotified_inserts {tid n : ℕ} {x : Fin g.capacity} :
    (awaitNotified tid x n : Call g ℕ Unit).Ensures (Inserts X) := by
  refine .read fun s => .bind (fun _ _ _ => Inserts.trans) (.modify fun _ => .modifyState) fun _ => ?_
  split_ifs
  · exact .pure Inserts.refl _
  · exact .wait

/-- Waiting for a batch sets no flag. -/
theorem awaitBatch_inserts {tid e : ℕ} {timedOut : Bool} :
    (awaitBatch (CounterOps.unbounded g) tid timedOut e).Ensures (Inserts X) := by
  refine .read fun s => .bind (fun _ _ _ => Inserts.trans) awaitNotified_inserts fun _ => .read fun s' => ?_
  refine .when Inserts.refl fun _ => ?_
  split_ifs
  · exact .modify fun _ => .modifyState
  · exact awaitNotified_inserts

/-- Executing a batch sets no flag. -/
theorem executeCurrentBatch_inserts {execEnd : Instant} {result : Except InferError SessionValues}
    {x : Fin g.capacity} : (executeCurrentBatch execEnd result x : Call g ℕ Unit).Ensures (Inserts X) := by
  refine .read fun s => .bind (fun _ _ _ => Inserts.trans) (.expect Inserts.refl _ _) fun _ => ?_
  refine .bind (fun _ _ _ => Inserts.trans) (.modify fun _ => .modifyState) fun _ => .read fun s => ?_
  refine .bind (fun _ _ _ => Inserts.trans) (.expect Inserts.refl _ _) fun _ => ?_
  refine .bind (fun _ _ _ => Inserts.trans) (.modify fun _ => .modifyState) fun _ => ?_
  exact .modify fun _ => .modifyState

/-- The seal of a batch that the head has reached rounds the head up to its end. -/
theorem sealCurrentBatch_ok {e : ℕ} (he : g.batchSize ∣ e) {s s' : SuperTensorBuffer g ℕ}
    (hrun : sealCurrentBatch (CounterOps.unbounded g) e s = some (.ok (), s')) :
    e ≤ s.head ∧ s' = { s with head := max s.head (e + g.batchSize) } := by
  have hlower := Blocks.lower_eq_of_dvd he
  obtain ⟨d, s₁, hclose, hspin⟩ := Call.bind_eq_ok.1 hrun
  have hs₁ : s' = s₁ := by
    rw [Call.read_bind_apply] at hspin
    split_ifs at hspin
    · exact (Prod.mk.inj (Option.some.inj hspin)).2.symm
    · cases hspin
    · cases hspin
  subst hs₁
  rw [closeBatch, Call.read_bind_apply] at hclose
  by_cases hb : e ≤ s.head
  · rw [Call.expect_bind_of_true (by simp [CounterOps.unbounded, hlower, hb])] at hclose
    refine ⟨hb, ?_⟩
    by_cases hopen : s.head < e + g.batchSize
    · simp only [CounterOps.unbounded, hlower, hopen, if_true, Call.modify_bind_apply] at hclose
      rw [← (Prod.mk.inj (Option.some.inj hclose)).2, max_eq_right hopen.le, Nat.add_sub_cancel' hopen.le]
    · simp only [CounterOps.unbounded, hlower, hopen, if_false] at hclose
      rw [← (Prod.mk.inj (Option.some.inj hclose)).2, max_eq_left (Nat.le_of_not_lt hopen)]
  · rw [Call.expect_bind_of_false (by simp [CounterOps.unbounded, hlower, hb])] at hclose
    cases hclose

/-- A whole call of `execute_on_batch` that returns: its batch is claimed, closed and reset, and
the tail walks. -/
theorem executeOnBatch_ok {x : Execution} {items : ℕ} {s s' : SuperTensorBuffer g ℕ}
    (he : g.batchSize ∣ s.executorHead) (ht : g.batchSize ∣ s.tail)
    (hrun : executeOnBatch (CounterOps.unbounded g) x s = some (.ok items, s')) :
    s.tail ≤ s.executorHead ∧ s.executorHead < s.tail + g.slots ∧ s.executorHead ≤ s.head ∧ ∃ v,
      Inserts ∅ { s with
        head := max s.head (s.executorHead + g.batchSize)
        executorHead := s.executorHead + g.batchSize } v ∧
      Walked (v.reset (g.cell s.executorHead)) s' := by
  obtain ⟨e, s₁, hclaim, hrun⟩ := Call.bind_eq_ok.1 hrun
  rw [claimBatch, Call.read_bind_apply] at hclaim
  split_ifs at hclaim with hfull
  · cases hclaim
  obtain ⟨he', rfl⟩ := Prod.mk.inj (Option.some.inj hclaim)
  obtain rfl : s.executorHead = e := Attempt.ok.inj he'
  obtain ⟨_, s₂, hawait, hrun⟩ := Call.bind_eq_ok.1 hrun
  have h₂ : Inserts ∅ _ s₂ := awaitBatch_inserts _ _ _ hawait
  obtain ⟨_, s₃, hseal, hrun⟩ := Call.bind_eq_ok.1 hrun
  obtain ⟨hle, rfl⟩ := sealCurrentBatch_ok he hseal
  rw [Call.read_bind_apply, Call.expect_bind_eq_ok] at hrun
  obtain ⟨-, hrun⟩ := hrun
  rw [Call.modify_bind_apply, Call.read_bind_apply, Call.modify_bind_apply] at hrun
  obtain ⟨_, v, hexec, hrun⟩ := Call.bind_eq_ok.1 hrun
  have h₃ : Inserts ∅ _ v := executeCurrentBatch_inserts _ _ _ hexec
  rw [show (CounterOps.unbounded g).batchId s.executorHead = g.cell s.executorHead from rfl,
    Call.bind_of_ok (resetBatch_eq v _)] at hrun
  obtain ⟨_, v', hmove, hrun⟩ := Call.bind_eq_ok.1 hrun
  rw [Call.modify_bind_apply, Call.pure_apply] at hrun
  have hvtail : v.tail = s.tail := h₃.tail.trans h₂.tail
  have hwalk := walked_of_moveTail (s := v.reset (g.cell s.executorHead)) (hvtail.symm ▸ ht) hmove
  obtain ⟨-, rfl⟩ := Prod.mk.inj (Option.some.inj hrun)
  simp only [CounterOps.unbounded, decide_eq_true_eq] at hfull
  have hhead : s₂.head = s.head := h₂.head
  refine ⟨by omega, by omega, by rwa [hhead] at hle, v, ⟨?_, h₃.executorHead.trans h₂.executorHead, hvtail,
    fun x => .inl ?_⟩, hwalk.leave _⟩
  · rw [h₃.head]
    simp only [modifyState_head, hhead]
  · rw [h₃.dirty_eq]
    exact h₂.dirty_eq x

/-- A whole call of `warmup`. -/
theorem warmup_ok {s s' : SuperTensorBuffer g ℕ} (ht : g.batchSize ∣ s.tail)
    (hrun : warmup (CounterOps.unbounded g) s = some (.ok (), s')) : ∃ v : SuperTensorBuffer g ℕ,
      v.head = s.head + g.batchSize ∧ v.executorHead = s.executorHead + g.batchSize ∧ v.tail = s.tail ∧
      (∀ x, x ≠ g.cell s.head → (v.trackers x).dirty = (s.trackers x).dirty) ∧
      Walked (v.reset (g.cell s.head)) s' := by
  rw [warmup, Call.read_bind_apply] at hrun
  simp only [Call.modify_bind_apply] at hrun
  rw [show (CounterOps.unbounded g).batchId s.head = g.cell s.head from rfl,
    Call.bind_of_ok (resetBatch_eq _ _)] at hrun
  obtain ⟨_, v', hmove, hrun⟩ := Call.bind_eq_ok.1 hrun
  have hwalk := walked_of_moveTail (by exact ht) hmove
  obtain ⟨-, rfl⟩ := Prod.mk.inj (Option.some.inj hrun)
  refine ⟨_, ?_, ?_, ?_, fun x hx => ?_, hwalk.leave _⟩
  · rfl
  · rfl
  · rfl
  · simp only [modifyTracker_trackers, if_neg hx]

end SuperTensorBuffer

/-! ### Calls one at a time -/

/-- Calls that ran one at a time on a new buffer: the buffer they left, how many of them were
`warmup`, the rows that were taken by `infer`, and the batches that were executed.  No
`compare_exchange_weak` in them failed for no reason. -/
inductive Calls (g : Geometry) : SuperTensorBuffer g ℕ → ℕ → List (ℕ × ℕ) → List ℕ → Prop where
  | new (inputTensors) : Calls g (.new (CounterOps.unbounded g) inputTensors) 0 [] []
  | warmup {s s' warmups rows executed} (h : Calls g s warmups rows executed)
      (hrun : SuperTensorBuffer.warmup (CounterOps.unbounded g) s = some (.ok (), s')) :
      Calls g s' (warmups + 1) rows executed
  | infer {s s' warmups rows executed} (h : Calls g s warmups rows executed) (clock request n r)
      (hn : request.clientBatchSize = .ok n) (hroom : s.HasRoom n) (hr : ∀ site, r ≠ .panicked site)
      (hrun : SuperTensorBuffer.infer (CounterOps.unbounded g) clock request s = some (r, s')) :
      Calls g s' warmups ((s.head, n) :: rows) executed
  | executeOnBatch {s s' warmups rows executed} (h : Calls g s warmups rows executed) (x items)
      (hrun : SuperTensorBuffer.executeOnBatch (CounterOps.unbounded g) x s = some (.ok items, s')) :
      Calls g s' warmups rows (s.executorHead :: executed)

/-- Every batch that was given a row has been executed. -/
def Idle (g : Geometry) (rows : List (ℕ × ℕ)) (executed : List ℕ) : Prop :=
  ∀ q ∈ covered rows, Blocks.lower g.batchSize q ∈ executed

/-- Nobody has called, or no call has got a row. -/
def Unused (warmups : ℕ) (rows : List (ℕ × ℕ)) : Prop := warmups = 0 ∧ rows = []

/-- **Calls that ran one at a time are a run of the ring**, each made by a thread that did nothing
else then; `idle` is any set of threads that are still to call. -/
theorem Calls.runs {s : SuperTensorBuffer g ℕ} {warmups : ℕ} {rows : List (ℕ × ℕ)} {executed : List ℕ}
    (h : Calls g s warmups rows executed) (hcold : warmups = 0) (idle : Finset ℕ) :
    ∃ w, Runs (CounterOps.unbounded g) (Fits g) w ∧ w.shared = s ∧ ∀ i ∈ idle, w.threads i = .idle := by
  induction h generalizing idle with
  | new inputTensors => exact ⟨_, ⟨inputTensors, Reach.start⟩, rfl, fun _ _ => rfl⟩
  | warmup => exact absurd hcold (Nat.succ_ne_zero _)
  | @infer s s' warmups rows executed _ clock request n r hn hroom hr hrun ih =>
    -- A thread that nobody needs any more makes the call.
    obtain ⟨i, hi⟩ := idle.exists_notMem
    obtain ⟨w, hw, rfl, hidle⟩ := ih hcold (insert i idle)
    have hplays : Plays i (w.threads i) w.shared (fun response => .getData ⟨response, [], none⟩ .createNotified)
        (some (r, s')) := by
      rw [hidle i (Finset.mem_insert_self i idle), ← hrun]
      refine plays_infer fun m hm => ?_
      obtain rfl := Except.ok.inj (hn.symm.trans hm)
      exact hroom.2
    obtain ⟨w', hw', hs', -, hothers⟩ := hplays.runs hw hr
    refine ⟨w', hw', hs', fun j hj => ?_⟩
    rw [hothers j fun hji => hi (hji ▸ hj)]
    exact hidle j (Finset.mem_insert_of_mem hj)
  | @executeOnBatch s s' warmups rows executed _ x items hrun ih =>
    obtain ⟨w, hw, rfl, hidle⟩ := ih hcold (insert x.tid idle)
    have hplays : Plays x.tid (w.threads x.tid) w.shared (fun _ => .idle) (some (.ok items, s')) := by
      rw [hidle x.tid (Finset.mem_insert_self x.tid idle), ← hrun]
      exact plays_executeOnBatch
    obtain ⟨w', hw', hs', hpc, hothers⟩ := hplays.runs hw fun site => by simp
    refine ⟨w', hw', hs', fun j hj => ?_⟩
    by_cases hji : j = x.tid
    · subst hji
      rcases hpc with hpc | ⟨-, hpc⟩
      · exact hpc
      · exact hpc
    · rw [hothers j hji]
      exact hidle j (Finset.mem_insert_of_mem hj)

/-- The counters between two calls. -/
structure Counters (s : SuperTensorBuffer g ℕ) (executed : List ℕ) : Prop where
  tail_dvd : g.batchSize ∣ s.tail
  executorHead_dvd : g.batchSize ∣ s.executorHead
  tail_lt : s.head = 0 ∧ s.tail = 0 ∨ s.tail < s.head
  executed : ∀ p ∈ executed, p < s.executorHead

/-- A walk does not take the tail to the head. -/
theorem SuperTensorBuffer.Walked.tail_lt {s s' : SuperTensorBuffer g ℕ} (hs : g.batchSize ∣ s.tail)
    (hw : SuperTensorBuffer.Walked s s') (h : s.tail < s.head) : s'.tail < s'.head := by
  rw [hw.head]
  rcases hw.frontier.le.eq_or_lt with heq | hlt
  · rwa [← heq]
  · have hadd := Blocks.add_le_of_dvd hs hw.frontier.dvd hlt
    have hlast := hw.frontier.holds (s'.tail - g.batchSize) (Nat.dvd_sub hw.frontier.dvd dvd_rfl) (by omega)
      (by have := g.batchSize_pos; omega)
    have := hlast.2.2
    omega

/-- What the counters are after calls one after the other. -/
theorem Calls.counters {s : SuperTensorBuffer g ℕ} {warmups : ℕ} {rows : List (ℕ × ℕ)} {executed : List ℕ}
    (h : Calls g s warmups rows executed) : Counters s executed := by
  have hB := g.batchSize_pos
  induction h with
  | new => exact ⟨dvd_zero _, dvd_zero _, .inl ⟨rfl, rfl⟩, fun _ hp => absurd hp List.not_mem_nil⟩
  | @warmup s s' warmups rows executed _ hrun ih =>
    obtain ⟨v, hhead, hexec, htail, -, hwalk⟩ := SuperTensorBuffer.warmup_ok ih.tail_dvd hrun
    have hreset : (v.reset (g.cell s.head)).tail = s.tail := htail
    have hlt : (v.reset (g.cell s.head)).tail < (v.reset (g.cell s.head)).head := by
      rw [hreset, show (v.reset (g.cell s.head)).head = s.head + g.batchSize from hhead]
      have := ih.tail_lt
      omega
    have hexec' : s'.executorHead = s.executorHead + g.batchSize := hwalk.executorHead.trans hexec
    refine ⟨hwalk.frontier.dvd, ?_, .inr (hwalk.tail_lt (hreset ▸ ih.tail_dvd) hlt), fun p hp => ?_⟩
    · exact hexec' ▸ Nat.dvd_add ih.executorHead_dvd dvd_rfl
    · have := ih.executed p hp
      exact hexec' ▸ this.trans (Nat.lt_add_of_pos_right hB)
  | @infer s s' warmups rows executed _ clock request n r hn hroom _ hrun ih =>
    have hins := SuperTensorBuffer.infer_inserts hn hroom hrun
    have hpos := Request.clientBatchSize_pos hn
    have hhead : s'.head = s.head + n := hins.head
    refine ⟨hins.tail ▸ ih.tail_dvd, hins.executorHead ▸ ih.executorHead_dvd, .inr ?_, fun p hp => ?_⟩
    · have htail : s'.tail = s.tail := hins.tail
      have := ih.tail_lt
      omega
    · exact hins.executorHead ▸ ih.executed p hp
  | @executeOnBatch s s' warmups rows executed _ x items hrun ih =>
    obtain ⟨hle, -, -, v, hins, hwalk⟩ :=
      SuperTensorBuffer.executeOnBatch_ok ih.executorHead_dvd ih.tail_dvd hrun
    have hreset : (v.reset (g.cell s.executorHead)).tail = s.tail := hins.tail
    have hlt : (v.reset (g.cell s.executorHead)).tail < (v.reset (g.cell s.executorHead)).head := by
      rw [hreset,
        show (v.reset (g.cell s.executorHead)).head = max s.head (s.executorHead + g.batchSize) from hins.head]
      omega
    have hexec' : s'.executorHead = s.executorHead + g.batchSize := hwalk.executorHead.trans hins.executorHead
    refine ⟨hwalk.frontier.dvd, ?_, .inr (hwalk.tail_lt (hreset ▸ ih.tail_dvd) hlt), fun p hp => ?_⟩
    · exact hexec' ▸ Nat.dvd_add ih.executorHead_dvd dvd_rfl
    · refine hexec' ▸ ?_
      rcases List.mem_cons.1 hp with rfl | hp
      · exact Nat.lt_add_of_pos_right hB
      · exact (ih.executed p hp).trans (Nat.lt_add_of_pos_right hB)

/-- Between two calls every batch behind the executor head is finished, and the tail is there or one
batch behind; no batch ahead of it is finished, and the head got ahead of it by rows only. -/
structure Orderly (s : SuperTensorBuffer g ℕ) (rows : List (ℕ × ℕ)) : Prop where
  tail : s.tail = s.executorHead ∨ s.tail + g.batchSize = s.executorHead
  executorHead_le : s.executorHead ≤ s.head
  flag : 1 < g.capacity → s.tail + g.batchSize = s.executorHead → (s.trackers (g.cell s.tail)).dirty = 2
  unfinished : ∀ q, g.batchSize ∣ q → s.executorHead ≤ q → q < s.tail + g.slots →
    (s.trackers (g.cell q)).dirty ≠ 2
  reserved : ∀ q, s.executorHead ≤ q → q < s.head → q ∈ covered rows

/-- A batch with rows was passed by the executor head and not executed. -/
def Skipped (s : SuperTensorBuffer g ℕ) (rows : List (ℕ × ℕ)) (executed : List ℕ) : Prop :=
  ∃ q ∈ covered rows, Blocks.lower g.batchSize q < s.executorHead ∧ Blocks.lower g.batchSize q ∉ executed

namespace Orderly

variable {s w s' : SuperTensorBuffer g ℕ} {rows : List (ℕ × ℕ)}

/-- A ring of one batch, or of more. -/
theorem slots_eq_or (g : Geometry) : g.capacity = 1 ∧ g.slots = g.batchSize ∨
    1 < g.capacity ∧ g.batchSize < g.slots := by
  rcases (Nat.succ_le_of_lt g.capacity_pos).eq_or_lt with h | h
  · exact .inl ⟨h.symm, by rw [Geometry.slots, ← h, Nat.one_mul]⟩
  · exact .inr ⟨h, by rw [Geometry.slots]; exact lt_mul_left g.batchSize_pos h⟩

section Advance

variable (ho : Orderly s rows) (ht : g.batchSize ∣ s.tail) (he : g.batchSize ∣ s.executorHead)
  (htail : w.tail = s.tail) (hhead : s.executorHead + g.batchSize ≤ w.head)
  (hd : ∀ x, x ≠ g.cell s.executorHead → (w.trackers x).dirty = (s.trackers x).dirty)

include ho he hd

/-- The reset of the batch at the executor head leaves the flags of the other batches. -/
theorem dirty_reset {q : ℕ} (hq : g.batchSize ∣ q) (h₁ : s.tail ≤ q) (h₂ : q < s.tail + g.slots)
    (hroom : s.executorHead < s.tail + g.slots) (hne : q ≠ s.executorHead) :
    ((w.reset (g.cell s.executorHead)).trackers (g.cell q)).dirty = (s.trackers (g.cell q)).dirty := by
  have hle : s.tail ≤ s.executorHead := by
    have := ho.tail
    omega
  have hcell : g.cell q ≠ g.cell s.executorHead := fun h => hne (Geometry.eq_of_cell_eq hq he h₁ h₂ hle hroom h)
  rw [SuperTensorBuffer.reset_trackers, if_neg hcell, hd _ hcell]

include ht htail hhead

/-- The batch behind the executor head, if it is still there, is retired. -/
theorem retirable_behind {q : ℕ} (hq : g.batchSize ∣ q) (h₁ : s.tail ≤ q) (h₂ : q < s.executorHead) :
    (w.reset (g.cell s.executorHead)).Retirable q := by
  have hB := g.batchSize_pos
  have hstail := ho.tail
  have hvtail : (w.reset (g.cell s.executorHead)).tail = s.tail := htail
  have hvhead : (w.reset (g.cell s.executorHead)).head = w.head := rfl
  obtain rfl : q = s.tail := by
    have := Blocks.lt_or_eq_of_lt_add ht hq (by omega)
    omega
  refine ⟨?_, by rw [hvtail]; exact Nat.lt_add_of_pos_right g.slots_pos, by rw [hvhead]; omega⟩
  rcases slots_eq_or g with ⟨-, hone⟩ | ⟨hcap, hmore⟩
  · -- on a ring of one batch it shares its tracker with the one that is finished now
    have hcell : g.cell s.tail = g.cell s.executorHead := by
      rw [← Geometry.cell_add_slots, show s.tail + g.slots = s.executorHead by omega]
    rw [SuperTensorBuffer.reset_trackers, if_pos hcell]
  · rw [ho.dirty_reset he hd ht le_rfl (by omega) (by omega) (by omega)]
    exact ho.flag hcap (by omega)

/-- The walk stops at the batch that is finished now, or behind it. -/
theorem tail_of_walked (hw : SuperTensorBuffer.Walked (w.reset (g.cell s.executorHead)) s') :
    s'.tail = s.executorHead ∧ ¬ (s.executorHead < s.tail + g.slots ∧ s.executorHead + g.batchSize < w.head) ∨
      s'.tail = s.executorHead + g.batchSize := by
  have hstail := ho.tail
  have hvtail : (w.reset (g.cell s.executorHead)).tail = s.tail := htail
  have hbehind : ∀ q, g.batchSize ∣ q → (w.reset (g.cell s.executorHead)).tail ≤ q → q < s.executorHead →
      (w.reset (g.cell s.executorHead)).Retirable q := fun q hq h₁ h₂ =>
    ho.retirable_behind ht he htail hhead hd hq (hvtail ▸ h₁) h₂
  have hnext : g.batchSize ∣ s.executorHead + g.batchSize := Nat.dvd_add he dvd_rfl
  by_cases hret : s.executorHead < s.tail + g.slots ∧ s.executorHead + g.batchSize < w.head
  · refine .inr (hw.frontier.unique (.extend (by rw [hvtail]; omega) hbehind (.step he ⟨?_, ?_, hret.2⟩
      (.here hnext ?_))))
    · rw [SuperTensorBuffer.reset_trackers, if_pos rfl]
    · rw [hvtail]
      exact hret.1
    · rintro ⟨hflag, hlt, -⟩
      rw [hvtail] at hlt
      have hB := g.batchSize_pos
      refine ho.unfinished _ hnext (Nat.le_add_right _ _) hlt ?_
      rw [← ho.dirty_reset he hd hnext (by omega) hlt hret.1 (by omega)]
      exact hflag
  · refine .inl ⟨hw.frontier.unique (.extend (by rw [hvtail]; omega) hbehind (.here he ?_)), hret⟩
    rintro ⟨-, hlt, hhigh⟩
    exact hret ⟨hvtail ▸ hlt, hhigh⟩

/-- The batch at the executor head is finished, and the tail walks. -/
theorem advance (hexec : w.executorHead = s.executorHead + g.batchSize)
    (_ : s.executorHead < s.tail + g.slots ∨ w.head = s.executorHead + g.batchSize)
    (hrows : ∀ q, s.executorHead + g.batchSize ≤ q → q < w.head → q ∈ covered rows)
    (hw : SuperTensorBuffer.Walked (w.reset (g.cell s.executorHead)) s') : Orderly s' rows := by
  have hB := g.batchSize_pos
  have hslots := slots_eq_or g
  have hstail := ho.tail
  have hvtail : (w.reset (g.cell s.executorHead)).tail = s.tail := htail
  have hstop := ho.tail_of_walked ht he htail hhead hd hw
  have hexec' : s'.executorHead = s.executorHead + g.batchSize := hw.executorHead.trans hexec
  have hhead' : s'.head = w.head := hw.head
  refine ⟨by omega, by omega, fun hcap hlag => ?_, fun q hq h₁ h₂ => ?_, fun q h₁ h₂ => ?_⟩
  · have htail' : s'.tail = s.executorHead := by omega
    rw [hw.kept s'.tail hw.frontier.dvd le_rfl (by rw [hvtail]; omega), htail', SuperTensorBuffer.reset_trackers,
      if_pos rfl]
  · rcases Nat.lt_or_ge q (s.tail + g.slots) with hlt | hge
    · rw [hw.kept q hq (by omega) (by rw [hvtail]; exact hlt),
        ho.dirty_reset he hd hq (by omega) hlt (by omega) (by omega)]
      exact ho.unfinished q hq (by omega) hlt
    · have hback : q - g.slots + g.slots = q := by omega
      rw [← hback, Geometry.cell_add_slots,
        hw.passed (q - g.slots) (Nat.dvd_sub hq g.batchSize_dvd_slots) (by rw [hvtail]; omega) (by omega)]
      exact Nat.zero_ne_add_one 1
  · exact hrows q (by omega) (by omega)

end Advance

/-- `infer` puts rows in front of the executor head. -/
theorem infer {n : ℕ} (ho : Orderly s rows) (ht : g.batchSize ∣ s.tail) (hroom : s.HasRoom n)
    (hins : Inserts (SuperTensorBuffer.opened g s.head n) { s with head := s.head + n } s') :
    Orderly s' ((s.head, n) :: rows) := by
  have hB := g.batchSize_pos
  have htail : s'.tail = s.tail := hins.tail
  have hexec : s'.executorHead = s.executorHead := hins.executorHead
  have hhead : s'.head = s.head + n := hins.head
  have hle := ho.executorHead_le
  refine ⟨by rw [htail, hexec]; exact ho.tail, by omega, fun hcap hlag => ?_, fun q hq h₁ h₂ => ?_, fun q h₁ h₂ => ?_⟩
  · rw [htail]
    rcases hins.dirty (g.cell s.tail) with hsame | ⟨⟨p, hp, h₁, h₂, hcell⟩, -⟩
    · rw [hsame]
      exact ho.flag hcap (by omega)
    · -- a batch that is opened is in the window, behind the first
      have hroom' := hroom.2
      have := Geometry.eq_of_cell_eq hp ht (by omega) (by omega) le_rfl
        (Nat.lt_add_of_pos_right g.slots_pos) hcell
      omega
  · rcases hins.dirty (g.cell q) with hsame | ⟨-, hone⟩
    · rw [hsame]
      exact ho.unfinished q hq (by omega) (by omega)
    · rw [hone]
      decide
  · refine mem_covered_cons.2 ?_
    rcases Nat.lt_or_ge q s.head with hlt | hge
    · exact .inl (ho.reserved q (by omega) hlt)
    · exact .inr ⟨hge, by omega⟩

end Orderly

/-- The ring of calls one at a time is orderly, or a batch was skipped for good. -/
theorem Calls.orderly {s : SuperTensorBuffer g ℕ} {warmups : ℕ} {rows : List (ℕ × ℕ)} {executed : List ℕ}
    (h : Calls g s warmups rows executed) : Skipped s rows executed ∨ Orderly s rows := by
  have hB := g.batchSize_pos
  induction h with
  | new inputTensors =>
    have hhead : (SuperTensorBuffer.new (CounterOps.unbounded g) inputTensors).head = 0 := rfl
    refine .inr ⟨.inl rfl, le_rfl, fun _ hlag => ?_, fun _ _ _ _ => Nat.zero_ne_add_one 1, fun q _ hlt => ?_⟩
    · have : 0 + g.batchSize = 0 := hlag
      omega
    · exact absurd (hhead ▸ hlt) (Nat.not_lt_zero q)
  | @warmup s s' warmups rows executed hcalls hrun ih =>
    have hc := hcalls.counters
    obtain ⟨v, hhead, hexec, htail, hdirty, hwalk⟩ := SuperTensorBuffer.warmup_ok hc.tail_dvd hrun
    have hexec' : s'.executorHead = s.executorHead + g.batchSize := hwalk.executorHead.trans hexec
    rcases ih with ⟨q, hq, hlt, hnot⟩ | ho
    · exact .inl ⟨q, hq, by omega, hnot⟩
    rcases ho.executorHead_le.eq_or_lt with heq | hlt
    · rw [← heq] at hhead hdirty hwalk
      exact .inr (ho.advance hc.tail_dvd hc.executorHead_dvd htail hhead.ge hdirty hexec (.inr hhead)
        (fun q h₁ h₂ => absurd (hhead ▸ h₂) (Nat.not_lt_of_le h₁)) hwalk)
    · -- rows wait for the executor head, which moves over them
      refine .inl ⟨s.executorHead, ho.reserved _ le_rfl hlt, ?_, ?_⟩
      · rw [Blocks.lower_eq_of_dvd hc.executorHead_dvd]
        omega
      · rw [Blocks.lower_eq_of_dvd hc.executorHead_dvd]
        exact fun hmem => absurd (hc.executed _ hmem) (lt_irrefl _)
  | @infer s s' warmups rows executed hcalls clock request n r hn hroom _ hrun ih =>
    have hins := SuperTensorBuffer.infer_inserts hn hroom hrun
    rcases ih with ⟨q, hq, hlt, hnot⟩ | ho
    · exact .inl ⟨q, mem_covered_cons.2 (.inl hq), hins.executorHead ▸ hlt, hnot⟩
    · exact .inr (ho.infer hcalls.counters.tail_dvd hroom hins)
  | @executeOnBatch s s' warmups rows executed hcalls x items hrun ih =>
    have hc := hcalls.counters
    obtain ⟨-, hin, -, v, hins, hwalk⟩ := SuperTensorBuffer.executeOnBatch_ok hc.executorHead_dvd hc.tail_dvd hrun
    have hexec' : s'.executorHead = s.executorHead + g.batchSize := hwalk.executorHead.trans hins.executorHead
    have hhead : v.head = max s.head (s.executorHead + g.batchSize) := hins.head
    rcases ih with ⟨q, hq, hlt, hnot⟩ | ho
    · refine .inl ⟨q, hq, by omega, fun hmem => ?_⟩
      rcases List.mem_cons.1 hmem with heq | hmem
      · omega
      · exact hnot hmem
    · refine .inr (ho.advance hc.tail_dvd hc.executorHead_dvd hins.tail (by omega) (fun x _ => hins.dirty_eq x)
        hins.executorHead (.inl hin) (fun q h₁ h₂ => ho.reserved q (by omega) (by omega)) hwalk)

/-! ### Room for one row -/

namespace SuperTensorBuffer

variable {s : SuperTensorBuffer g ℕ} {ins : Insertion g ℕ}

/-- A copy is never refused for want of room. -/
theorem copyInputs_raises (is : List (Fin g.numInputs)) :
    (copyInputs (CounterOps.unbounded g) ins is).Raises (· = .unsupportedDataType) := by
  induction is with
  | nil => exact .pure ()
  | cons i is ih =>
    refine .read fun s => .bind (.attempt fun e he => ?_) fun t => .bind (.modify _) fun _ => ih
    have hnone : (ins.copy s i).t.dataType.copyWidth = none := Copy.of_result_err he
    unfold BatchableTensor.copyInput at he
    split at he
    · cases he
    · split at he
      · cases he
      · exact (Attempt.err.inj ((BatchableTensor.copyAtFromBytes_err hnone).symm.trans he)).symm

/-- A piece fails for its type only. -/
theorem insertTensorsAt_raises {now : Instant} :
    (insertTensorsAt (CounterOps.unbounded g) now ins).Raises (· = .unsupportedDataType) := by
  refine .bind (copyInputs_raises _) fun _ => .bind (.when fun _ => ?_) fun _ => ?_
  · refine .bind (.modify _) fun _ => .read fun s => .bind (.expect _ _) fun _ => ?_
    exact .bind (.modify _) fun _ => .read fun s => .bind (.expect _ _) fun _ => .modify _
  · exact .read fun s => .bind (.modify _) fun _ => .bind (.when fun _ => .modify _) fun _ => .pure _

/-- A request fails for its type only. -/
theorem insertAll_raises {clock : ℕ → Instant} {k : ℕ} :
    (insertAll (CounterOps.unbounded g) clock k ins).Raises (· = .unsupportedDataType) := by
  induction k generalizing ins with
  | zero => exact .wait
  | succ k ih =>
    refine .bind insertTensorsAt_raises fun r => ?_
    split_ifs
    · exact .pure _
    · exact ih

/-- `infer` refuses a request for want of room only when the ring is full. -/
theorem infer_ringFull_iff {clock : ℕ → Instant} {request : Request} {n : ℕ}
    (hn : request.clientBatchSize = .ok n) :
    (∃ s', infer (CounterOps.unbounded g) clock request s = some (.err .ringFull, s')) ↔
      (CounterOps.unbounded g).isFull s.head s.tail = true := by
  rw [infer, Call.read_bind_apply]
  by_cases hfull : (CounterOps.unbounded g).isFull s.head s.tail = true
  · rw [if_pos hfull]
    exact ⟨fun _ => hfull, fun _ => ⟨s, rfl⟩⟩
  · rw [if_neg hfull, hn]
    constructor
    · rintro ⟨s', hrun⟩
      exact absurd (insertAll_raises _ _ _ hrun) (by decide)
    · exact fun h => absurd h hfull

end SuperTensorBuffer

/-- The next `infer` of one row is not answered `RingFull`. -/
def TakesARow (s : SuperTensorBuffer g ℕ) : Prop :=
  ∀ clock request, request.clientBatchSize = .ok 1 →
    ¬ ∃ s', SuperTensorBuffer.infer (CounterOps.unbounded g) clock request s = some (.err .ringFull, s')

/-- A ring takes a row unless it is full. -/
theorem takesARow_iff {s : SuperTensorBuffer g ℕ} :
    TakesARow s ↔ ¬ (CounterOps.unbounded g).isFull s.head s.tail = true := by
  constructor
  · intro h hfull
    exact h (fun _ => 0) byteRequest rfl ((SuperTensorBuffer.infer_ringFull_iff rfl).2 hfull)
  · intro h clock request hn hrun
    exact h ((SuperTensorBuffer.infer_ringFull_iff hn).1 hrun)

/-- An executor waits on a new buffer for ever. -/
theorem executeOnBatch_new (x : SuperTensorBuffer.Execution) (inputTensors) :
    SuperTensorBuffer.executeOnBatch (CounterOps.unbounded g) x (.new (CounterOps.unbounded g) inputTensors) =
      none := by
  have hslots := g.slots_pos
  have hroom : ¬ (CounterOps.unbounded g).isFull
      (SuperTensorBuffer.new (CounterOps.unbounded g) inputTensors).executorHead
      (SuperTensorBuffer.new (CounterOps.unbounded g) inputTensors).tail = true := by
    simp only [CounterOps.unbounded, SuperTensorBuffer.new, decide_eq_true_eq]
    omega
  have hclaim : SuperTensorBuffer.claimBatch (CounterOps.unbounded g) (.new (CounterOps.unbounded g) inputTensors) =
      some (.ok 0,
        { SuperTensorBuffer.new (CounterOps.unbounded g) inputTensors with executorHead := 0 + g.batchSize }) := by
    rw [SuperTensorBuffer.claimBatch, Call.read_bind_apply, if_neg hroom]
    rfl
  rw [SuperTensorBuffer.executeOnBatch, Call.bind_of_ok hclaim]
  rfl

/-- A buffer that has not been used is new. -/
theorem Calls.eq_new {s : SuperTensorBuffer g ℕ} {warmups : ℕ} {rows : List (ℕ × ℕ)} {executed : List ℕ}
    (h : Calls g s warmups rows executed) (hun : Unused warmups rows) :
    ∃ inputTensors, s = .new (CounterOps.unbounded g) inputTensors := by
  induction h with
  | new inputTensors => exact ⟨inputTensors, rfl⟩
  | warmup => exact absurd hun.1 (Nat.succ_ne_zero _)
  | infer => exact absurd hun.2 (List.cons_ne_nil _ _)
  | executeOnBatch _ x items hrun ih =>
    obtain ⟨inputTensors, rfl⟩ := ih hun
    rw [executeOnBatch_new] at hrun
    cases hrun

/-- Only a buffer that has not been used has its head at zero. -/
theorem Calls.head_eq_zero_iff {s : SuperTensorBuffer g ℕ} {warmups : ℕ} {rows : List (ℕ × ℕ)}
    {executed : List ℕ} (h : Calls g s warmups rows executed) : s.head = 0 ↔ Unused warmups rows := by
  have hB := g.batchSize_pos
  constructor
  · intro hzero
    cases h with
    | new => exact ⟨rfl, rfl⟩
    | warmup hcalls hrun =>
      obtain ⟨v, hhead, -, -, -, hwalk⟩ := SuperTensorBuffer.warmup_ok hcalls.counters.tail_dvd hrun
      have : s.head = v.head := hwalk.head
      omega
    | infer hcalls clock request n r hn hroom _ hrun =>
      have hhead := (SuperTensorBuffer.infer_inserts hn hroom hrun).head
      have hpos := Request.clientBatchSize_pos hn
      simp only at hhead
      omega
    | executeOnBatch hcalls x items hrun =>
      have hc := hcalls.counters
      obtain ⟨-, -, -, v, hins, hwalk⟩ := SuperTensorBuffer.executeOnBatch_ok hc.executorHead_dvd hc.tail_dvd hrun
      have hhead : s.head = v.head := hwalk.head
      have hv := hins.head
      simp only at hv
      omega
  · intro hun
    obtain ⟨inputTensors, rfl⟩ := h.eq_new hun
    rfl

/-- The head of an idle ring is a batch ahead of the tail, once there is a batch. -/
theorem Calls.idle_head {s : SuperTensorBuffer g ℕ} {warmups : ℕ} {rows : List (ℕ × ℕ)} {executed : List ℕ}
    (h : Calls g s warmups rows executed) (hidle : Idle g rows executed) (hhead : s.head ≠ 0) :
    s.tail + g.batchSize = s.head := by
  have hc := h.counters
  have hlt : s.tail < s.head := hc.tail_lt.resolve_left fun hzero => hhead hzero.1
  rcases h.orderly with ⟨q, hq, -, hnot⟩ | ho
  · exact absurd (hidle q hq) hnot
  rcases ho.executorHead_le.eq_or_lt with heq | hbehind
  · have := ho.tail
    omega
  · -- rows that wait for an executor were not executed
    have hmem := hidle _ (ho.reserved _ le_rfl hbehind)
    rw [Blocks.lower_eq_of_dvd hc.executorHead_dvd] at hmem
    exact absurd (hc.executed _ hmem) (lt_irrefl _)

/-- What `metrics_snapshot` counts as in flight when the tail is a batch behind the head. -/
theorem inflight_of_lag {s : SuperTensorBuffer g ℕ} (hdvd : g.batchSize ∣ s.tail)
    (hlag : s.tail + g.batchSize = s.head) :
    (s.map wrap).metricsSnapshot.inflight = if 2 ^ 64 ∣ s.head then 0 else g.batchSize := by
  have hB := g.batchSize_pos
  have hslots : g.batchSize ≤ g.slots := g.batchSize_le_slots
  show min (saturatingSub (wrap s.head) (wrap s.tail)).toNat g.slots = _
  obtain ⟨k, hk, hpow⟩ := g.batchSize_eq_pow
  split_ifs with hwrap
  · rw [saturatingSub_wrap, Nat.mod_eq_zero_of_dvd hwrap, Nat.zero_sub, Nat.zero_min]
  · -- a batch that does not end at a wrap lies in one turn
    have hturn : s.head / 2 ^ 64 = s.tail / 2 ^ 64 := by
      have hBdvd : g.batchSize ∣ 2 ^ 64 := hpow ▸ pow_dvd_pow 2 hk
      have hhead : g.batchSize ∣ s.head % 2 ^ 64 :=
        (Nat.dvd_mod_iff hBdvd).2 (hlag ▸ Nat.dvd_add_self_right.2 hdvd)
      have hle := Nat.le_of_dvd (Nat.pos_of_ne_zero fun h => hwrap (Nat.dvd_of_mod_eq_zero h)) hhead
      omega
    rw [saturatingSub_wrap_of_turn hturn]
    omega

/-- **An idle ring is empty when it has never been used, and at no other time**: after the first
warmup or the first request its last batch stays.  A ring of more than one batch has room all the
same, a ring of one batch has not.  The metrics count the batch that stays, unless the head has just
wrapped to zero.  The calls are whole ones, in which no `compare_exchange_weak` fails for no reason. -/
theorem idle_ring_empty_iff_unused {s : SuperTensorBuffer g ℕ} {warmups : ℕ} {rows : List (ℕ × ℕ)}
    {executed : List ℕ} (h : Calls g s warmups rows executed) (hidle : Idle g rows executed) :
    (s.tail = s.head ∧ (s.map wrap).metricsSnapshot.inflight = 0 ∧ TakesARow s ↔ Unused warmups rows) ∧
    (s.tail = s.head ↔ Unused warmups rows) ∧
    (TakesARow s ↔ Unused warmups rows ∨ 1 < g.capacity) ∧
    (¬ Unused warmups rows → s.tail + g.batchSize = s.head ∧
      (s.map wrap).metricsSnapshot.inflight = if 2 ^ 64 ∣ s.head then 0 else g.batchSize) ∧
    (s.head < 2 ^ 64 → ((s.map wrap).metricsSnapshot.inflight = 0 ↔ Unused warmups rows)) := by
  have hB := g.batchSize_pos
  have hslots := Orderly.slots_eq_or g
  have hc := h.counters
  have hun := h.head_eq_zero_iff
  have hlag := h.idle_head hidle
  have hzero := hc.tail_lt
  have htail : s.tail = s.head ↔ Unused warmups rows := by
    rw [← hun]
    omega
  have htakes : TakesARow s ↔ Unused warmups rows ∨ 1 < g.capacity := by
    rw [takesARow_iff, ← hun]
    simp only [CounterOps.unbounded, decide_eq_true_eq]
    omega
  have hempty : s.tail = s.head → (s.map wrap).metricsSnapshot.inflight = 0 := by
    intro heq
    show min (saturatingSub (wrap s.head) (wrap s.tail)).toNat g.slots = 0
    rw [heq, saturatingSub_wrap, Nat.sub_self, Nat.zero_min]
  have hused : ¬ Unused warmups rows → s.tail + g.batchSize = s.head ∧
      (s.map wrap).metricsSnapshot.inflight = if 2 ^ 64 ∣ s.head then 0 else g.batchSize := by
    intro hused
    have hlag' := hlag fun hhead => hused (hun.1 hhead)
    exact ⟨hlag', inflight_of_lag hc.tail_dvd hlag'⟩
  refine ⟨?_, htail, htakes, hused, fun hlt => ⟨fun hnone => ?_, fun hunused => hempty (htail.2 hunused)⟩⟩
  · constructor
    · rintro ⟨heq, -, -⟩
      exact htail.1 heq
    · intro hunused
      exact ⟨htail.2 hunused, hempty (htail.2 hunused), htakes.2 (.inl hunused)⟩
  · by_contra hnot
    have hhead : s.head ≠ 0 := fun hhead => hnot (hun.1 hhead)
    rw [(hused hnot).2, if_neg fun hdvd => hhead (Nat.eq_zero_of_dvd_of_lt hdvd hlt)] at hnone
    exact absurd hnone hB.ne'

/-- One row on a ring of one batch, and its execution. -/
theorem calls_oneByOne : ∃ s : SuperTensorBuffer oneByOne ℕ,
    Calls oneByOne s 0 [(0, 1)] [0] ∧ Idle oneByOne [(0, 1)] [0] ∧ s.head = 1 ∧ s.tail = 0 := by
  obtain ⟨r, s₁, items, s₂, h₁, h₂, hexec, hhead, htail⟩ : ∃ r s₁ items s₂,
      SuperTensorBuffer.infer (CounterOps.unbounded oneByOne) (fun _ => 0) byteRequest
        (.new (CounterOps.unbounded oneByOne) fun _ _ => byteTensor 1) = some (.ok r, s₁) ∧
      SuperTensorBuffer.executeOnBatch (CounterOps.unbounded oneByOne) ⟨0, false, 1, 2, .ok []⟩ s₁ =
        some (.ok items, s₂) ∧
      s₁.executorHead = 0 ∧ s₂.head = 1 ∧ s₂.tail = 0 := ⟨_, _, _, _, rfl, rfl, rfl, rfl, rfl⟩
  have hinfer := (Calls.new (g := oneByOne) fun _ _ => byteTensor 1).infer (fun _ => 0) byteRequest 1 (.ok r) rfl
    (by decide) (by rintro site ⟨⟩) h₁
  have hcalls := hinfer.executeOnBatch ⟨0, false, 1, 2, .ok []⟩ items h₂
  rw [hexec] at hcalls
  refine ⟨s₂, hcalls, fun q hq => ?_, hhead, htail⟩
  rcases mem_covered_cons.1 hq with hq | ⟨-, hlt⟩
  · rw [covered_nil] at hq
    exact absurd hq (Set.notMem_empty q)
  · obtain rfl : q = 0 := Nat.lt_one_iff.1 hlt
    decide

/-- A ring of one batch that was used takes no row. -/
theorem idle_ring_empty_iff_unused_oneByOne :
    ∃ s : SuperTensorBuffer oneByOne ℕ, Calls oneByOne s 0 [(0, 1)] [0] ∧ ¬ TakesARow s := by
  obtain ⟨s, hcalls, hidle, -, -⟩ := calls_oneByOne
  obtain ⟨-, -, htakes, -, -⟩ := idle_ring_empty_iff_unused hcalls hidle
  exact ⟨s, hcalls, fun h => by simpa [Unused, oneByOne] using htakes.1 h⟩

/-- **A ring of one batch is full once its first batch has been executed.** -/
theorem idle_ring_can_be_full : ∃ s : SuperTensorBuffer oneByOne ℕ,
    Calls oneByOne s 0 [(0, 1)] [0] ∧ Idle oneByOne [(0, 1)] [0] ∧
      s.tail ≠ s.head ∧ (s.map wrap).metricsSnapshot.inflight = 1 ∧ ¬ TakesARow s := by
  obtain ⟨s, hcalls, hidle, hhead, htail⟩ := calls_oneByOne
  refine ⟨s, hcalls, hidle, by omega, ?_, fun h => takesARow_iff.1 h ?_⟩
  · show min (saturatingSub (wrap s.head) (wrap s.tail)).toNat oneByOne.slots = 1
    rw [hhead, htail]
    rfl
  · rw [hhead, htail]
    rfl

end Toutates
