/-
# What the metrics of a ring say

`metrics_snapshot` loads the tail, the head and the number of executors in use one after the
other while clients and executors move, and `OnnxExecutor::run` observes what
`execute_on_batch` returns as the size of its batch.

The number of executors in use is that of the executors between the call of the session and the
return (`executorsInUse_eq_ncard`).  Until the counters wrap, a snapshot shows at least what was in flight
at each of its loads, and never shows nothing of a ring that was warmed up, since the tail does not
reach the head again; its difference saturates, so it shows nothing while the head has wrapped and the
tail has not (`snapshot_honest`).  The batch sizes that have been returned, the rows that executors have
in hand and those that wait are all rows that clients have counted (`items_balance`).
-/

import Toutates.Basis.Census
import Toutates.Ring.Served
import Toutates.Ring.Wrapping

namespace Toutates

open Basis

variable {g : Geometry} {α : Type} {k : ℕ}
  {inputTensors : Fin g.capacity → Fin g.numInputs → BatchableTensor g.batchSize}

/-! ### Executors in use -/

/-- An executor holds its `ExecutorsInUseGuard` from here on. -/
def ExecPhase.inUse : ExecPhase α → ℕ
  | invoke _ | running _ | setExecEnd _ _ | setOutput _ _ | cloneResponseNotifier _ | notifyResponse _ _
  | replaceState _ | resetWritten _ | resetDirty _ => 1
  | _ => 0

/-- A thread holds an `ExecutorsInUseGuard`. -/
def Pc.inUse : Pc g α → ℕ
  | .execute _ phase => phase.inUse
  | .moveTail _ _ => 1
  | _ => 0

/-- A thread holds at most one guard. -/
theorem Pc.inUse_le_one (pc : Pc g α) : pc.inUse ≤ 1 := by
  cases pc with
  | execute e phase => cases phase <;> simp [inUse, ExecPhase.inUse]
  | moveTail items phase => exact le_rfl
  | _ => exact Nat.zero_le 1

/-- A step moves the counter with the guard of its thread. -/
theorem Transition.inUse {ops : CounterOps g α} {i : ℕ} {s s' : SuperTensorBuffer g α} {pc pc' : Pc g α}
    {c : Choice} {e : Option (Event g α)} (ht : Transition ops i s pc c s' pc' e)
    (hle : pc.inUse ≤ s.executorsInUse) : s'.executorsInUse + pc.inUse = s.executorsInUse + pc'.inUse := by
  cases ht with
  | awaitFull ticket phase hp => rfl
  | deadlinePoll e n ticket phase hp => rcases hp with rfl | rfl <;> rfl
  | leave items => exact Nat.sub_add_cancel hle
  | _ => rfl

/-- The guards that are counted are those that are held. -/
theorem inUse_balance {ok : RingGuard g ℕ} {w : RingWorld g ℕ} (h : ServedRing ok k inputTensors w) :
    Settled Pc.inUse w.threads ∧ w.shared.executorsInUse = census Pc.inUse w.threads := by
  obtain ⟨s, hrun, h⟩ := h
  have hrest : (Pc.idle : Pc g ℕ).inUse = 0 := rfl
  have hstart : s.executorsInUse = 0 := (warm_of_warmups hrun).1.executorsInUse
  obtain ⟨hset, hbal⟩ := h.balance Pc.inUse (fun s _ => s.executorsInUse) (fun _ _ => 0)
    (settled_of_rest hrest) (by rw [Nat.zero_add]; exact hstart.trans (census_of_rest hrest).symm)
    fun v a s' l' e _ _ hP hle => by
      rw [Nat.zero_add] at hle
      exact (transition_of_next hP).inUse hle
  exact ⟨hset, by rw [hbal, Nat.zero_add]⟩

/-- **The executors in use.**  In every run `executors_in_use` is the number of threads that hold a
guard, so it never underflows and is zero when no session is called. -/
theorem executorsInUse_eq_ncard {ok : RingGuard g ℕ} {w : RingWorld g ℕ} (h : ServedRing ok k inputTensors w) :
    w.shared.executorsInUse = {i | (w.threads i).inUse = 1}.ncard := by
  obtain ⟨hset, hbal⟩ := inUse_balance h
  rw [hbal]
  exact census_eq_ncard hset Pc.inUse_le_one

/-! ### A snapshot -/

/-- A step moves the head and the tail on, if at all. -/
theorem Transition.counters_le {i : ℕ} {s s' : SuperTensorBuffer g ℕ} {pc pc' : Pc g ℕ} {c : Choice}
    {e : Option (Event g ℕ)} (ht : Transition (CounterOps.unbounded g) i s pc c s' pc' e) :
    s.head ≤ s'.head ∧ s.tail ≤ s'.tail := by
  cases ht with
  | reserve request h n hh =>
    subst hh
    exact ⟨Nat.le_add_right _ _, le_rfl⟩
  | pad e h d hh =>
    subst hh
    exact ⟨Nat.le_add_right _ _, le_rfl⟩
  | retire items t htail =>
    subst htail
    exact ⟨le_rfl, (Blocks.lt_lower_add g.batchSize_pos _).le⟩
  | _ => exact ⟨le_rfl, le_rfl⟩

/-- Head and tail do not go back. -/
theorem counters_le_of_reach {ok : RingGuard g ℕ} {w w' : RingWorld g ℕ}
    (h : Reach (program (CounterOps.unbounded g)) ok w w') :
    w.shared.head ≤ w'.shared.head ∧ w.shared.tail ≤ w'.shared.tail := by
  refine h.invariant (I := fun v => w.shared.head ≤ v.shared.head ∧ w.shared.tail ≤ v.shared.tail)
    ⟨le_rfl, le_rfl⟩ fun v a v' _ hI _ hs => ?_
  obtain ⟨e, ht, -⟩ := transition_of_step hs
  obtain ⟨h₁, h₂⟩ := ht.counters_le
  exact ⟨hI.1.trans h₁, hI.2.trans h₂⟩

/-- The tail moves over a batch that ends below the head only. -/
theorem Transition.tail_lt {i : ℕ} {s s' : SuperTensorBuffer g ℕ} {pc pc' : Pc g ℕ} {c : Choice}
    {e : Option (Event g ℕ)} (ht : Transition (CounterOps.unbounded g) i s pc c s' pc' e) (ho : Heads.Own s pc)
    (hdvd : g.batchSize ∣ s.tail) (hbehind : s.tail ≤ s.head) (hlag : s.head = 0 ∨ s.tail < s.head) :
    s'.head = 0 ∨ s'.tail < s'.head := by
  cases ht with
  | reserve request h n hh =>
    subst hh
    have hpos : 0 < n := ho.positive
    show s.head + n = 0 ∨ s.tail < s.head + n
    omega
  | pad p h d hh =>
    subst hh
    have hpos := (ho.sealing p s.head d rfl).2.1
    show s.head + d = 0 ∨ s.tail < s.head + d
    omega
  | retire items t htail =>
    subst htail
    have hlt := ho.cleared _ rfl
    refine .inr ?_
    simp only [CounterOps.unbounded, Blocks.lower_eq_of_dvd hdvd]
    exact hlt
  | _ => exact hlag

/-- Once the ring has been used, the tail stays strictly behind the head. -/
theorem tail_lt_head {w : RingWorld g ℕ} (h : ServedRing (Fits g) k inputTensors w) :
    w.shared.head = 0 ∨ w.shared.tail < w.shared.head := by
  have hserved := h
  obtain ⟨s, hrun, h⟩ := h
  have hwarm := (warm_of_warmups hrun).1
  refine h.invariant (I := fun v => v.shared.head = 0 ∨ v.shared.tail < v.shared.head) ?_ fun v a v' hv hI _ hs => ?_
  · show s.head = 0 ∨ s.tail < s.head
    rcases Nat.eq_zero_or_pos k with rfl | hk
    · exact .inl (hwarm.head.trans (Nat.zero_mul _))
    · have hB := g.batchSize_pos
      have hnext := hwarm.head_eq hk
      omega
  · have hall := responding_of_served ⟨s, hrun, hv⟩
    obtain ⟨⟨⟨⟨⟨⟨⟨⟨-, hw⟩, hbehind⟩, -⟩, -⟩, -⟩, -⟩, -⟩, -⟩ := hall.shared
    have hheads := hall.left.left.left.left.left.left.right.own a.thread
    obtain ⟨e, ht, -⟩ := transition_of_step hs
    exact ht.tail_lt hheads hw.tail_dvd hbehind hI

/-- **A snapshot is honest within a turn of the counters.**  In a run whose accepted requests fit,
whatever moves between the loads: the rows in flight that `metrics_snapshot` reports are at most
those between the tail it loaded and the head it loaded, and at most the capacity.  If the head it loaded
has not wrapped past the tail it loaded, they are at least those in flight when it loaded either, and
it reports none only if the ring had never been used when it loaded the head, so never once it has been
warmed up.  If it has wrapped, it reports none, unless the ring moved by a whole turn between the loads.
The executors in use are those that hold a guard at the last load. -/
theorem snapshot_honest {w₁ w₂ w₃ : RingWorld g ℕ} (h : ServedRing (Fits g) k inputTensors w₁)
    (h₁₂ : Reach (program (CounterOps.unbounded g)) (Fits g) w₁ w₂)
    (h₂₃ : Reach (program (CounterOps.unbounded g)) (Fits g) w₂ w₃) {snapshot : SuperTensorBuffer.MetricsSnapshot}
    (hsnap : snapshot = SuperTensorBuffer.metricsSnapshotAt (w₁.shared.map wrap) (w₂.shared.map wrap)
      (w₃.shared.map wrap)) :
    snapshot.inflight ≤ snapshot.capacity ∧ snapshot.inflight ≤ w₂.shared.head - w₁.shared.tail ∧
      snapshot.executorsInUse = {i | (w₃.threads i).inUse = 1}.ncard ∧
      (w₂.shared.head / 2 ^ 64 = w₁.shared.tail / 2 ^ 64 →
        w₁.shared.head - w₁.shared.tail ≤ snapshot.inflight ∧ w₂.shared.head - w₂.shared.tail ≤ snapshot.inflight ∧
          (snapshot.inflight = 0 ↔ w₂.shared.head = 0) ∧ (0 < k → 0 < snapshot.inflight)) ∧
      (w₂.shared.head / 2 ^ 64 ≠ w₁.shared.tail / 2 ^ 64 → w₂.shared.head < w₁.shared.tail + 2 ^ 64 →
        snapshot.inflight = 0) := by
  subst hsnap
  have h₂ := h.reach h₁₂
  obtain ⟨hhead, htail⟩ := counters_le_of_reach h₁₂
  have hle₁ : w₁.shared.head ≤ w₁.shared.tail + g.slots := h.head_le
  have hle₂ : w₂.shared.head ≤ w₂.shared.tail + g.slots := h₂.head_le
  have hlag := tail_lt_head h₂
  have hpos := g.slots_pos
  have hinflight : (SuperTensorBuffer.metricsSnapshotAt (w₁.shared.map wrap) (w₂.shared.map wrap)
      (w₃.shared.map wrap)).inflight =
        min (saturatingSub (wrap w₂.shared.head) (wrap w₁.shared.tail)).toNat g.slots := rfl
  have hle : w₁.shared.tail ≤ w₂.shared.head := h.tail_le.trans hhead
  refine ⟨Nat.min_le_right _ _, (Nat.min_le_left _ _).trans (saturatingSub_wrap_le hle),
    executorsInUse_eq_ncard (h₂.reach h₂₃), fun hturn => ?_, fun hturn hlt => ?_⟩
  · rw [hinflight, saturatingSub_wrap_of_turn hturn]
    have hzero : min (w₂.shared.head - w₁.shared.tail) g.slots = 0 ↔ w₂.shared.head = 0 := by omega
    refine ⟨Nat.le_min.2 ⟨by omega, by omega⟩, Nat.le_min.2 ⟨by omega, by omega⟩, hzero,
      fun hk => Nat.pos_of_ne_zero fun h₀ => ?_⟩
    have hwarm := h₂.warm_le.1
    have hB := Nat.mul_pos hk g.batchSize_pos
    have hhead₀ := hzero.1 h₀
    omega
  · rw [hinflight, saturatingSub_wrap_of_wrapped hturn hle hlt, Nat.zero_min]

/-- A snapshot of a ring that its session has warmed up, which loads the head once a row has been
reserved, and the executors in use while the session runs. -/
theorem snapshot_honest_twoByOne :
    ∃ w : RingWorld twoByOne ℕ, ∃ snapshot : SuperTensorBuffer.MetricsSnapshot,
      0 < snapshot.inflight ∧ snapshot.inflight ≤ snapshot.capacity ∧
        snapshot.executorsInUse = {i | (w.threads i).inUse = 1}.ncard := by
  have hrun : (runServed (fits twoByOne) 3 (fun _ _ => byteTensor 1)
      (reserve 2 byteRequest ++ insertRow 2 ++ claimBatch 0 ++ go 0 7 ++ ⟨0, .clock 1⟩ :: go 0 3)).map
      (fun w => (w.shared.executorsInUse, w.shared.head)) = some (1, 4) := by decide +kernel
  obtain ⟨w, hrun, hw⟩ := Option.map_eq_some_iff.1 hrun
  obtain ⟨s, hwarm, hreach⟩ := ServedRing.of_runServed (fun _ _ _ _ => fits_spec) hrun
  have hserved : ServedRing (Fits twoByOne) 3 (fun _ _ => byteTensor 1) ⟨s, fun _ => .idle, warmLog twoByOne 3⟩ :=
    ⟨s, hwarm, Reach.start⟩
  have hhead : w.shared.head = 4 := (Prod.mk.inj hw).2
  have htail : s.tail ≤ w.shared.head := hserved.tail_le.trans (counters_le_of_reach hreach).1
  obtain ⟨hcapacity, -, huse, hturn, -⟩ := snapshot_honest hserved hreach Reach.start rfl
  obtain ⟨-, -, -, hpos⟩ := hturn (by show w.shared.head / 2 ^ 64 = s.tail / 2 ^ 64; omega)
  exact ⟨w, _, hpos (by decide), hcapacity, huse⟩

/-! ### Batch sizes -/

/-- The batch size that an event returned. -/
def Event.executedItems : Event g α → ℕ
  | executed items => items
  | _ => 0

/-- The sum of the batch sizes that have been returned. -/
def executedItems (log : List (Event g α)) : ℕ := (log.map Event.executedItems).sum

/-- The items after one more event. -/
theorem executedItems_cons (ev : Event g α) (log : List (Event g α)) :
    executedItems ((some ev).toList ++ log) = ev.executedItems + executedItems log := List.sum_cons

/-- The warmups had none. -/
theorem executedItems_warmLog (k : ℕ) : executedItems (warmLog g k) = 0 := by
  refine List.sum_eq_zero fun n hn => ?_
  obtain ⟨ev, hev, rfl⟩ := List.mem_map.1 hn
  obtain ⟨p, hp⟩ := mem_warmLog hev
  simp only [skippedBatch, List.mem_cons, List.not_mem_nil, or_false] at hp
  rcases hp with rfl | rfl | rfl | rfl | rfl | rfl | rfl | rfl | rfl <;> rfl

/-- The rows that the trackers have counted and not wiped. -/
def SuperTensorBuffer.pendingRows (s : SuperTensorBuffer g α) : ℕ := ∑ x, (s.trackers x).writtenSlots

/-- The batch size that an executor has in hand once its tracker is wiped. -/
def Pc.items : Pc g α → ℕ
  | .execute _ (.resetDirty items) => items
  | .moveTail items _ => items
  | _ => 0

/-- An executor with a batch size in hand is in use. -/
theorem Pc.items_le {pc : Pc g α} (h : pc.items ≤ g.batchSize) : pc.items ≤ pc.inUse * g.batchSize := by
  cases pc with
  | execute e phase =>
    cases phase with
    | resetDirty items => exact h.trans_eq (Nat.one_mul _).symm
    | _ => exact Nat.zero_le _
  | moveTail items phase => exact h.trans_eq (Nat.one_mul _).symm
  | _ => exact Nat.zero_le _

/-- The batch of an executor that has loaded its size and not yet wiped its tracker, and the size. -/
def Pc.loaded : Pc g α → Option (α × ℕ)
  | .execute e (.enterUse items) | .execute e (.invoke items) | .execute e (.running items)
  | .execute e (.setExecEnd items _) | .execute e (.setOutput items _) | .execute e (.cloneResponseNotifier items)
  | .execute e (.notifyResponse items _) | .execute e (.replaceState items) | .execute e (.resetWritten items) =>
    some (e, items)
  | _ => none

/-- **The sizes in hand.**  The size that an executor has loaded is that of the counted rows of its
batch. -/
def sizes (g : Geometry) : RingInv g ℕ where
  shared _ _ := True
  own _ log pc := (∀ e items, pc.loaded = some (e, items) → items = filled (countedRows log) e g.batchSize) ∧
    pc.items ≤ g.batchSize
  apart _ _ := True
  symm _ := True.intro

/-- A thread with a size has a batch that is sealed. -/
theorem Pc.held_of_loaded {pc : Pc g α} {e : α} {items : ℕ} (h : pc.loaded = some (e, items)) :
    ∃ st : Stage, pc.held = some (e, st) ∧ Stage.sealed.rank ≤ st.rank := by
  unfold Pc.loaded at h
  split at h <;> first
    | cases h
      exact ⟨_, rfl, by simp [ExecPhase.stage, Stage.rank]⟩
    | cases h

namespace Sizes

variable {s s' : SuperTensorBuffer g ℕ} {log : List (Event g ℕ)} {pc pc' : Pc g ℕ} {e : Option (Event g ℕ)}

/-- A step that counts nothing and loads nothing. -/
theorem quiet {K : RingInv g ℕ} (ho : (sizes g).own s log pc)
    (hcount : countedRows (e.toList ++ log) = countedRows log)
    (hpc : pc'.loaded = none ∨ pc'.loaded = pc.loaded) (hitems : pc'.items ≤ g.batchSize) :
    ThreadInv.Kept K (sizes g) log s pc s' pc' e := by
  refine ⟨True.intro, ⟨fun p items hp => ?_, hitems⟩, fun m _ _ hm _ => ⟨⟨fun p items hp => ?_, hm.2⟩, True.intro⟩⟩
  · rw [hcount]
    rcases hpc with hpc | hpc
    · exact elim_none hpc hp
    · exact ho.1 p items (hpc.symm.trans hp)
  · rw [hcount]
    exact hm.1 p items hp

/-- No client counts a row of a sealed batch. -/
theorem addWritten {ins : Insertion g ℕ} {phase : InsertPhase g} (hK : (lifecycle g).shared s log)
    (hKo : (lifecycle g).own s log (.insert ins phase)) (hphase : phase.counted = false) (hpc : pc'.loaded = none)
    (hitems : pc'.items ≤ g.batchSize) : ThreadInv.Kept (lifecycle g) (sizes g) log s (.insert ins phase) s' pc'
      (some (.counted ins.currentHead (ins.toWrite (CounterOps.unbounded g)))) := by
  refine ⟨True.intro, ⟨fun _ _ => elim_none hpc, hitems⟩,
    fun m hm _ hmo _ => ⟨⟨fun p items hp => ?_, hmo.2⟩, True.intro⟩⟩
  obtain ⟨st, hheld, hrank⟩ := Pc.held_of_loaded hp
  have hlife : Life.Own s log p st := hm.1.1.1.1.1.1 p st hheld
  have hsealed : Reached log p .sealed := (hlife.reached .sealed).2 hrank
  rw [hmo.1 p items hp]
  refine filled_congr fun q h₁ h₂ => ?_
  rw [mem_rowsOf_cons rfl]
  refine ⟨.inl, fun hq => hq.resolve_right fun hpiece => ?_⟩
  have howes : (Pc.insert ins phase).Owes q :=
    Pc.owes_of_not_counted hphase hpiece.1 (by have := ins.toWrite_le; omega)
  refine Rows.not_sealed_of_owes hK.1.1.2 hKo.1.1.2 howes ?_
  rwa [Blocks.lower_eq g.batchSize_pos hlife.dvd h₁ h₂]

end Sizes

/-- The counter of the batch of an executor that has sealed it is the number of its counted rows. -/
theorem writtenSlots_of_held {s : SuperTensorBuffer g ℕ} {log : List (Event g ℕ)} {p : ℕ} {st : Stage}
    (hK : (lifecycle g).shared s log) (hp : Life.Own s log p st) (hrank : st.rank < Stage.wiped.rank) :
    (s.trackers (g.cell p)).writtenSlots = filled (countedRows log) p g.batchSize := by
  obtain ⟨⟨⟨⟨⟨⟨-, hw⟩, -⟩, -⟩, hr⟩, -⟩, -⟩ := hK
  obtain ⟨h₁, h₂⟩ := Window.held_mem hw hp (by rintro rfl; simp [Stage.rank] at hrank)
  refine (hr.written p hp.dvd h₁ h₂).2 fun hwiped => ?_
  have := (hp.reached .wiped).1 hwiped
  omega

/-- A step keeps the sizes that threads have. -/
theorem sizes_step {i : ℕ} {s s' : SuperTensorBuffer g ℕ} {pc pc' : Pc g ℕ} {c : Choice}
    {e : Option (Event g ℕ)} {log : List (Event g ℕ)}
    (ht : Transition (CounterOps.unbounded g) i s pc c s' pc' e) (hK : (lifecycle g).shared s log)
    (hKo : (lifecycle g).own s log pc) (ho : (sizes g).own s log pc) :
    ThreadInv.Kept (lifecycle g) (sizes g) log s pc s' pc' e := by
  cases ht with
  | addWritten ins o t n r hr phase hp => exact Sizes.addWritten hK hKo rfl rfl (Nat.zero_le _)
  | loadBatchItems p =>
    refine ⟨True.intro, ⟨fun p' items hp => ?_, Nat.zero_le _⟩, fun m _ _ hm _ => ⟨hm, True.intro⟩⟩
    obtain ⟨rfl, rfl⟩ := Prod.mk.inj (Option.some.inj hp)
    exact writtenSlots_of_held hK (hKo.1.1.1.1.1.1 p .sealed rfl) (by simp [Stage.rank])
  | resetWritten p items => exact Sizes.quiet ho rfl (.inl rfl) ((ho.1 p items rfl).trans_le filled_le)
  | deadlinePoll e n ticket phase hp =>
    rcases hp with rfl | rfl <;> exact Sizes.quiet ho rfl (.inl rfl) (Nat.zero_le _)
  | _ =>
    refine Sizes.quiet ho rfl ?_ ?_
    · first
        | exact .inl rfl
        | exact .inr rfl
    · first
        | exact Nat.zero_le _
        | exact ho.2

/-- The sizes, in every run. -/
theorem sizes_hold {w : RingWorld g ℕ} (h : ServedRing (Fits g) k inputTensors w) : (sizes g).Holds w := by
  obtain ⟨s, hrun, h⟩ := h
  exact h.threadInv (K := lifecycle g) (fun _ hv => (responding_of_served ⟨s, hrun, hv⟩).left.left)
    ⟨True.intro, fun _ => ⟨fun _ _ => elim_none rfl, Nat.zero_le _⟩, fun _ _ _ => True.intro⟩
    fun _ _ _ _ _ _ _ _ hs _ hK hKo _ ho => sizes_step (transition_of_next hs) hK hKo ho

/-- A write to one tracker changes the pending rows by what it changes there. -/
theorem SuperTensorBuffer.pendingRows_modifyTracker (s : SuperTensorBuffer g α) (x : Fin g.capacity)
    (f : DataTracker → DataTracker) :
    (s.modifyTracker x f).pendingRows + (s.trackers x).writtenSlots =
      s.pendingRows + (f (s.trackers x)).writtenSlots := by
  have hsum : (s.modifyTracker x f).pendingRows =
      ∑ y, Function.update (fun y => (s.trackers y).writtenSlots) x (f (s.trackers x)).writtenSlots y := by
    refine Finset.sum_congr rfl fun y _ => ?_
    rw [modifyTracker_trackers, Function.update_apply]
    split_ifs <;> rfl
  rw [hsum, Finset.sum_update_of_mem (Finset.mem_univ x), pendingRows, ← Finset.add_sum_erase _ _ (Finset.mem_univ x),
    Finset.sdiff_singleton_eq_erase]
  omega

/-- A write that leaves the count leaves the rows that are pending. -/
theorem SuperTensorBuffer.pendingRows_eq (s : SuperTensorBuffer g α) (x : Fin g.capacity)
    (f : DataTracker → DataTracker) (hf : (f (s.trackers x)).writtenSlots = (s.trackers x).writtenSlots) :
    (s.modifyTracker x f).pendingRows = s.pendingRows := by
  have := s.pendingRows_modifyTracker x f
  omega

/-- Finitely many rows are counted. -/
theorem finite_countedRows {s : SuperTensorBuffer g ℕ} {log : List (Event g ℕ)} (hr : Rows.Shared s log) :
    (countedRows log).Finite :=
  (Set.finite_Iio s.head).subset fun q hq => (hr.taken q).2 (.inl (hr.counted hq))

/-- A client counts rows that have not been counted. -/
theorem ncard_countedRows {s : SuperTensorBuffer g ℕ} {log : List (Event g ℕ)} {ins : Insertion g ℕ}
    {phase : InsertPhase g} (hr : Rows.Shared s log) (ho : Rows.Own s log (.insert ins phase))
    (hphase : phase.counted = false) :
    (countedRows ((some (.counted ins.currentHead (ins.toWrite (CounterOps.unbounded g)))).toList ++ log)).ncard =
      (countedRows log).ncard + ins.toWrite (CounterOps.unbounded g) := by
  have hset : countedRows
      ((some (.counted ins.currentHead (ins.toWrite (CounterOps.unbounded g)))).toList ++ log) =
        countedRows log ∪ Set.Ico ins.currentHead (ins.currentHead + ins.toWrite (CounterOps.unbounded g)) :=
    rowsOf_cons rfl
  have hdis : Disjoint (countedRows log)
      (Set.Ico ins.currentHead (ins.currentHead + ins.toWrite (CounterOps.unbounded g))) := by
    rw [Set.disjoint_right]
    rintro q ⟨h₁, h₂⟩
    have := ins.toWrite_le
    exact (ho.owes q (Pc.owes_of_not_counted hphase h₁ (by omega))).2
  rw [hset, Set.ncard_union_eq hdis (finite_countedRows hr) (Set.finite_Ico _ _), ← Finset.coe_Ico,
    Set.ncard_coe_finset, Nat.card_Ico, Nat.add_sub_cancel_left]

/-- A step that neither counts, returns nor wipes rows. -/
theorem items_of {s s' : SuperTensorBuffer g ℕ} {pc pc' : Pc g ℕ} {e : Option (Event g ℕ)} {log : List (Event g ℕ)}
    (hcount : countedRows (e.toList ++ log) = countedRows log) (hexec : e.elim 0 Event.executedItems = 0)
    (hpend : s'.pendingRows = s.pendingRows) (hitems : pc'.items = pc.items) :
    (countedRows (e.toList ++ log)).ncard + (executedItems log + s.pendingRows) + pc.items =
      (countedRows log).ncard + (executedItems (e.toList ++ log) + s'.pendingRows) + pc'.items := by
  have hsum : executedItems (e.toList ++ log) = executedItems log := by
    cases e with
    | none => rfl
    | some ev => exact (executedItems_cons ev log).trans (by simpa using hexec)
  rw [hcount, hsum, hpend, hitems]

/-- A step keeps the account of the rows. -/
theorem Transition.items {i : ℕ} {s s' : SuperTensorBuffer g ℕ} {pc pc' : Pc g ℕ} {c : Choice}
    {e : Option (Event g ℕ)} {log : List (Event g ℕ)}
    (ht : Transition (CounterOps.unbounded g) i s pc c s' pc' e) (hK : (lifecycle g).shared s log)
    (hKo : (lifecycle g).own s log pc) (ho : (sizes g).own s log pc) :
    (countedRows (e.toList ++ log)).ncard + (executedItems log + s.pendingRows) + pc.items =
      (countedRows log).ncard + (executedItems (e.toList ++ log) + s'.pendingRows) + pc'.items := by
  cases ht with
  | addWritten ins o t n r hr phase hp =>
    have hpend := s.pendingRows_modifyTracker (ins.tracker (CounterOps.unbounded g)) fun d => { d with
      writtenSlots := d.writtenSlots + (ins.slotEnd (CounterOps.unbounded g) - ins.batchSlot (CounterOps.unbounded g)) }
    rw [ncard_countedRows hK.1.1.2 hKo.1.1.2 rfl, executedItems_cons]
    simp only [ins.slotEnd_eq, Nat.add_sub_cancel_left] at hpend ⊢
    simp only [Event.executedItems, Pc.items]
    omega
  | resetWritten p items =>
    -- what the tracker counted is what the executor loaded
    have hpend := s.pendingRows_modifyTracker (g.cell p) fun d => { d with writtenSlots := 0 }
    have hitems : items = filled (countedRows log) p g.batchSize := ho.1 p items rfl
    rw [← writtenSlots_of_held hK (hKo.1.1.1.1.1.1 p .replaced rfl) (by simp [Stage.rank])] at hitems
    have hstate : (s.modifyTracker ((CounterOps.unbounded g).batchId p) fun d =>
        { d with writtenSlots := 0 }) = s.modifyTracker (g.cell p) fun d => { d with writtenSlots := 0 } := rfl
    rw [executedItems_cons, hstate]
    show (countedRows log).ncard + _ + _ = _
    simp only [Event.executedItems, Pc.items] at hpend ⊢
    omega
  | storeDirty ins now =>
    have hpend := s.pendingRows_eq (ins.tracker (CounterOps.unbounded g)) (fun d => { d with dirty := 1 }) rfl
    exact items_of rfl rfl hpend rfl
  | replaceState p items =>
    have hpend := (s.modifyState (g.cell p) ((s.trackers (g.cell p)).generation + 1) fun _ =>
      BatchState.new).pendingRows_eq (g.cell p) (fun d => { d with generation := d.generation + 1 }) rfl
    exact items_of rfl rfl (hpend.trans rfl) rfl
  | resetDirty p items =>
    exact items_of rfl rfl (s.pendingRows_eq (g.cell p) (fun d => { d with dirty := 2 }) rfl) rfl
  | takeFlag items t hd =>
    exact items_of rfl rfl (s.pendingRows_eq (g.cell t) (fun d => { d with dirty := 0 }) rfl) rfl
  | leave items =>
    have hpend : ({ s with executorsInUse := s.executorsInUse - 1 } : SuperTensorBuffer g ℕ).pendingRows =
      s.pendingRows := rfl
    rw [executedItems_cons, hpend]
    show (countedRows log).ncard + _ + _ = _
    simp only [Event.executedItems, Pc.items]
    omega
  | deadlinePoll p n ticket phase hp => rcases hp with rfl | rfl <;> exact items_of rfl rfl rfl rfl
  | _ => exact items_of rfl rfl rfl rfl

/-- The trackers count a turn of the ring at most. -/
theorem pendingRows_le {s : SuperTensorBuffer g ℕ} {log : List (Event g ℕ)} (hK : (lifecycle g).shared s log) :
    s.pendingRows ≤ g.slots := by
  obtain ⟨⟨⟨⟨⟨⟨-, hw⟩, -⟩, -⟩, hr⟩, -⟩, -⟩ := hK
  have hle : ∀ x, (s.trackers x).writtenSlots ≤ g.batchSize := by
    intro x
    obtain ⟨p, hp, h₁, h₂, rfl⟩ := Geometry.exists_cell_eq hw.tail_dvd x
    by_cases hwiped : Reached log p .wiped
    · rw [(hr.written p hp h₁ h₂).1 hwiped]
      exact Nat.zero_le _
    · rw [(hr.written p hp h₁ h₂).2 hwiped]
      exact filled_le
  calc s.pendingRows ≤ ∑ _x : Fin g.capacity, g.batchSize := Finset.sum_le_sum fun x _ => hle x
    _ = g.slots := by rw [Finset.sum_const, Finset.card_univ, Fintype.card_fin, smul_eq_mul, Geometry.slots]

/-- The rows that were counted are in the batch sizes that were returned, or still counted, or in hand. -/
theorem countedRows_balance {w : RingWorld g ℕ} (h : ServedRing (Fits g) k inputTensors w) :
    Settled Pc.items w.threads ∧
      (countedRows w.log).ncard = executedItems w.log + w.shared.pendingRows + census Pc.items w.threads := by
  have hrest : (Pc.idle : Pc g ℕ).items = 0 := rfl
  obtain ⟨s, hrun, h⟩ := h
  have hwarm := (warm_of_warmups hrun).1
  refine h.balance Pc.items (fun _ log => (countedRows log).ncard)
    (fun s log => executedItems log + s.pendingRows) (settled_of_rest hrest) ?_ fun v a s' l' e hv _ hP _ => ?_
  · have hcensus : census Pc.items (warmWorld k s).threads = 0 := census_of_rest hrest
    have hpending : (warmWorld k s).shared.pendingRows = 0 := Finset.sum_eq_zero fun x _ => hwarm.writtenSlots x
    rw [hcensus, hpending, show (warmWorld k s).log = warmLog g k from rfl, countedRows_warmLog,
      executedItems_warmLog, Set.ncard_empty]
  · have hserved : ServedRing (Fits g) k inputTensors v := ⟨s, hrun, hv⟩
    have hlife := (responding_of_served hserved).left.left
    exact (transition_of_next hP).items hlife.shared (hlife.own a.thread) ((sizes_hold hserved).own a.thread)

/-- An executor in use has at most a batch in hand. -/
theorem items_le_inUse {w : RingWorld g ℕ} (h : ServedRing (Fits g) k inputTensors w) :
    census Pc.items w.threads ≤ w.shared.executorsInUse * g.batchSize := by
  obtain ⟨hsettled, hinUse⟩ := inUse_balance h
  rw [hinUse]
  exact census_le_mul (countedRows_balance h).1 hsettled fun i => Pc.items_le ((sizes_hold h).own i).2

/-- **The batch sizes account for the rows.**  In a run from a warm ring whose accepted requests fit, the rows that
clients have counted are those in the batch sizes that `execute_on_batch` has returned, those that
the trackers still count and those that executors have in hand: at most a turn of the ring, and a
batch for each executor in use, are still to be returned. -/
theorem items_balance {w : RingWorld g ℕ} (h : ServedRing (Fits g) k inputTensors w) :
    (countedRows w.log).ncard = executedItems w.log + w.shared.pendingRows + census Pc.items w.threads ∧
      w.shared.pendingRows ≤ g.slots ∧
      census Pc.items w.threads ≤ w.shared.executorsInUse * g.batchSize :=
  ⟨(countedRows_balance h).2, pendingRows_le (responding_of_served h).left.left.shared, items_le_inUse h⟩

/-- The one row of a small ring that has been executed after the warmups is in the batch size that was
returned. -/
theorem items_balance_twoByOne :
    ∃ w : RingWorld twoByOne ℕ, executedItems w.log = 1 ∧
      (countedRows w.log).ncard = executedItems w.log + w.shared.pendingRows + census Pc.items w.threads := by
  have hrun : (runServed (fits twoByOne) 3 (fun _ _ => byteTensor 1)
      (reserve 2 byteRequest ++ insertRow 2 ++ claimBatch 0 ++ runBatch 0 ++ go 0 9)).map
      (fun w => executedItems w.log) = some 1 := by decide +kernel
  obtain ⟨w, hrun, hw⟩ := Option.map_eq_some_iff.1 hrun
  exact ⟨w, hw, (items_balance (ServedRing.of_runServed (fun _ _ _ _ => fits_spec) hrun)).1⟩

end Toutates
