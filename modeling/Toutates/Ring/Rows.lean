/-
# The rows of a batch

A position of the ring below `head` was taken by the head CAS of a request, which owes a
row there, or skipped by a seal.  A row that is owed is written by the client that took
it, piece by piece, and `written_slots` of its tracker counts it.  A seal waits for the
counter, and the counter is that of a tracker, which every lap of the ring uses again.

`rows` is the invariant of the runs whose accepted requests fit: a row that a client still
owes is reserved and not counted, no two clients owe the same row, `written_slots` of a
batch in the window is the number of its counted rows, and in a sealed batch every reserved
row is counted.
-/

import Toutates.Basis.Spans
import Toutates.Ring.Occupancy

namespace Toutates

open Basis

variable {g : Geometry} {α : Type}

/-! ### Pieces of a request -/

namespace Insertion

variable (ins : Insertion g ℕ)

/-- A piece is no longer than the request. -/
theorem toWrite_le : ins.toWrite (CounterOps.unbounded g) ≤ ins.clientBatchSize := Nat.min_le_left _ _

/-- A piece ends with its batch at the latest. -/
theorem piece_le : ins.currentHead + ins.toWrite (CounterOps.unbounded g) ≤
    Blocks.lower g.batchSize ins.currentHead + g.batchSize := by
  have hlt := Blocks.lt_lower_add g.batchSize_pos ins.currentHead
  have hle : ins.toWrite (CounterOps.unbounded g) ≤
      Blocks.lower g.batchSize ins.currentHead + g.batchSize - ins.currentHead := Nat.min_le_right _ _
  omega

/-- A piece has a row. -/
theorem toWrite_pos (h : 0 < ins.clientBatchSize) : 0 < ins.toWrite (CounterOps.unbounded g) := by
  have hlt := Blocks.lt_lower_add g.batchSize_pos ins.currentHead
  refine Nat.lt_min.2 ⟨h, ?_⟩
  simp only [CounterOps.unbounded]
  omega

/-- The slot behind a piece. -/
theorem slotEnd_eq : ins.slotEnd (CounterOps.unbounded g) =
    ins.batchSlot (CounterOps.unbounded g) + ins.toWrite (CounterOps.unbounded g) := by
  simp only [slotEnd, inputEnd, Nat.add_sub_cancel_left]

/-- When rows are left after a piece, the next one starts where it ended. -/
theorem next_eq (h : ins.clientBatchSize - ins.toWrite (CounterOps.unbounded g) ≠ 0) :
    Blocks.lower g.batchSize ins.currentHead + g.batchSize =
      ins.currentHead + ins.toWrite (CounterOps.unbounded g) := by
  have hlt := Blocks.lt_lower_add g.batchSize_pos ins.currentHead
  simp only [toWrite, CounterOps.unbounded] at h ⊢
  omega

end Insertion

/-! ### Rows of a log -/

/-- The positions that a request took. -/
def Event.reservation : Event g ℕ → Option (ℕ × ℕ)
  | reserved _ h n => some (h, n)
  | _ => none

/-- The positions that a seal skipped. -/
def Event.padding : Event g ℕ → Option (ℕ × ℕ)
  | padded _ h d => some (h, d)
  | _ => none

/-- The positions that were counted. -/
def Event.counting : Event g ℕ → Option (ℕ × ℕ)
  | counted h n => some (h, n)
  | _ => none

/-- The positions of the events of a log that `f` picks. -/
def rowsOf (f : Event g ℕ → Option (ℕ × ℕ)) (log : List (Event g ℕ)) : Set ℕ :=
  covered (log.filterMap f)

/-- The rows that requests have reserved. -/
abbrev reservedRows (log : List (Event g ℕ)) : Set ℕ := rowsOf Event.reservation log

/-- The positions that seals have skipped. -/
abbrev paddedRows (log : List (Event g ℕ)) : Set ℕ := rowsOf Event.padding log

/-- The rows that `written_slots` has counted. -/
abbrev countedRows (log : List (Event g ℕ)) : Set ℕ := rowsOf Event.counting log

/-- The rows after one more event. -/
theorem mem_rowsOf_cons {f : Event g ℕ → Option (ℕ × ℕ)} {log : List (Event g ℕ)} {ev : Event g ℕ}
    {h n q : ℕ} (hf : f ev = some (h, n)) :
    q ∈ rowsOf f ((some ev).toList ++ log) ↔ q ∈ rowsOf f log ∨ h ≤ q ∧ q < h + n := by
  simp only [rowsOf, Option.toList_some, List.singleton_append, List.filterMap_cons, hf]
  exact mem_covered_cons

/-- The set of the rows after one more event. -/
theorem rowsOf_cons {f : Event g ℕ → Option (ℕ × ℕ)} {log : List (Event g ℕ)} {ev : Event g ℕ}
    {h n : ℕ} (hf : f ev = some (h, n)) :
    rowsOf f ((some ev).toList ++ log) = rowsOf f log ∪ Set.Ico h (h + n) := by
  ext q
  rw [mem_rowsOf_cons hf, Set.mem_union, Set.mem_Ico]

/-! ### What a thread owes and holds -/

/-- The piece in hand is counted. -/
def InsertPhase.counted : InsertPhase g → Bool
  | notifyExecutor _ | push _ => true
  | _ => false

/-- The row at `q` is owed by a client that has taken it and not yet counted it. -/
def Pc.Owes : Pc g ℕ → ℕ → Prop
  | .insert ins phase, q =>
    (bif phase.counted then ins.currentHead + ins.toWrite (CounterOps.unbounded g)
      else ins.currentHead) ≤ q ∧ q < ins.currentHead + ins.clientBatchSize
  | _, _ => False

/-- The batch that an executor holds before it has skipped the open slots. -/
def Pc.unsealed : Pc g α → Option α
  | .execute e .cloneNotifier | .execute e (.createNotified _) | .execute e (.firstWait _ _)
  | .execute e (.createNotifiedFull _) | .execute e (.loadHead _ _) | .execute e (.readDeadline _ _)
  | .execute e (.deadlineWait _ _) | .execute e .sealLoadHead | .execute e (.sealCasHead _ _) => some e
  | _ => none

/-- The batch, and the number of slots skipped in it, of an executor that waits for its
writers. -/
def Pc.spinning : Pc g α → Option (α × ℕ)
  | .execute e (.sealSpin d) => some (e, d)
  | _ => none

/-- The shared part of `rows`. -/
structure Rows.Shared (s : SuperTensorBuffer g ℕ) (log : List (Event g ℕ)) : Prop where
  taken : ∀ q, q < s.head ↔ q ∈ reservedRows log ∨ q ∈ paddedRows log
  once : ∀ q, q ∈ reservedRows log → q ∉ paddedRows log
  padded : ∀ q, q ∈ paddedRows log → q < s.executorHead
  counted : countedRows log ⊆ reservedRows log
  sealed : ∀ p, Reached log p .sealed → p + g.batchSize ≤ s.head ∧
    ∀ q, p ≤ q → q < p + g.batchSize → q ∈ reservedRows log → q ∈ countedRows log
  written : ∀ p, g.batchSize ∣ p → s.tail ≤ p → p < s.tail + g.slots →
    (Reached log p .wiped → (s.trackers (g.cell p)).writtenSlots = 0) ∧
    (¬ Reached log p .wiped →
      (s.trackers (g.cell p)).writtenSlots = filled (countedRows log) p g.batchSize)

/-- What `rows` says about a thread. -/
structure Rows.Own (s : SuperTensorBuffer g ℕ) (log : List (Event g ℕ)) (pc : Pc g ℕ) : Prop where
  owes : ∀ q, pc.Owes q → q ∈ reservedRows log ∧ q ∉ countedRows log
  unsealed : ∀ e, pc.unsealed = some e → ∀ q, e ≤ q → q < e + g.batchSize → q ∉ paddedRows log
  spinning : ∀ e d, pc.spinning = some (e, d) → d ≤ g.batchSize ∧ e + g.batchSize ≤ s.head ∧
    ∀ q, e ≤ q → q < e + g.batchSize → (q ∈ reservedRows log ↔ q < e + (g.batchSize - d))

/-- **The rows of the batches.** -/
def rows (g : Geometry) : RingInv g ℕ where
  shared := Rows.Shared
  own := Rows.Own
  apart l m := ∀ q, l.Owes q → ¬ m.Owes q
  symm h q hm hl := h q hl hm

/-- What is known of the executors and the counters in a run whose requests fit. -/
def counters (g : Geometry) : RingInv g ℕ := (((life g).and (window g)).and (heads g)).and (bounded g)

/-- Who has not sealed a batch holds it. -/
theorem Pc.held_of_unsealed {pc : Pc g α} {e : α} (h : pc.unsealed = some e) :
    ∃ st, pc.held = some (e, st) := by
  unfold Pc.unsealed at h
  split at h <;> first
    | cases h
      exact ⟨_, rfl⟩
    | cases h

namespace Rows

variable {s s' : SuperTensorBuffer g ℕ} {log log' : List (Event g ℕ)} {pc pc' m : Pc g ℕ}
  {K : RingInv g ℕ} {e : Option (Event g ℕ)} {p : ℕ}

/-- A step that changes nothing `rows` speaks of, except that it may claim a batch. -/
structure Same (s : SuperTensorBuffer g ℕ) (log : List (Event g ℕ)) (s' : SuperTensorBuffer g ℕ)
    (log' : List (Event g ℕ)) : Prop where
  head : s'.head = s.head
  tail : s'.tail = s.tail
  executorHead : s.executorHead ≤ s'.executorHead
  written : ∀ x, (s'.trackers x).writtenSlots = (s.trackers x).writtenSlots
  reserved : reservedRows log' = reservedRows log
  padded : paddedRows log' = paddedRows log
  counted : countedRows log' = countedRows log
  sealed : ∀ p, Reached log' p .sealed ↔ Reached log p .sealed
  wiped : ∀ p, Reached log' p .wiped ↔ Reached log p .wiped

/-- What is not touched stays. -/
theorem shared_same (hs : Shared s log) (h : Same s log s' log') : Shared s' log' := by
  refine ⟨fun q => ?_, fun q => ?_, fun q hq => ?_, ?_, fun p hp => ?_, fun p hp h₁ h₂ => ?_⟩
  · rw [h.head, h.reserved, h.padded]
    exact hs.taken q
  · rw [h.reserved, h.padded]
    exact hs.once q
  · rw [h.padded] at hq
    exact (hs.padded q hq).trans_le h.executorHead
  · rw [h.counted, h.reserved]
    exact hs.counted
  · rw [h.head, h.reserved, h.counted]
    exact hs.sealed p ((h.sealed p).1 hp)
  · rw [h.tail] at h₁ h₂
    rw [h.wiped, h.written, h.counted]
    exact hs.written p hp h₁ h₂

/-- What a thread knows of rows that are not touched stays true. -/
theorem own_same (ho : Own s log pc) (h : Same s log s' log') (howes : ∀ q, pc'.Owes q → pc.Owes q)
    (hu : pc'.unsealed = none ∨ pc'.unsealed = pc.unsealed)
    (hsp : pc'.spinning = none ∨ pc'.spinning = pc.spinning) : Own s' log' pc' := by
  refine ⟨fun q hq => ?_, fun e he q h₁ h₂ => ?_, fun e d he => ?_⟩
  · rw [h.reserved, h.counted]
    exact ho.owes q (howes q hq)
  · rw [h.padded]
    rcases hu with hu | hu
    · exact elim_none hu he
    · exact ho.unsealed e (hu.symm.trans he) q h₁ h₂
  · rw [h.reserved, h.head]
    rcases hsp with hsp | hsp
    · exact elim_none hsp he
    · exact ho.spinning e d (hsp.symm.trans he)

/-- A thread that owes nothing and holds no batch that is being sealed. -/
theorem own_none (howes : ∀ q, ¬ pc'.Owes q) (hu : pc'.unsealed = none) (hsp : pc'.spinning = none) :
    Own s log pc' :=
  ⟨fun q hq => absurd hq (howes q), fun _ => elim_none hu, fun _ _ => elim_none hsp⟩

/-- A step with nothing to say about rows. -/
theorem quiet (hs : Shared s log) (ho : Own s log pc) (h : Same s log s' (e.toList ++ log))
    (howes : ∀ q, pc'.Owes q → pc.Owes q)
    (hu : pc'.unsealed = none ∨ pc'.unsealed = pc.unsealed)
    (hsp : pc'.spinning = none ∨ pc'.spinning = pc.spinning) :
    ThreadInv.Kept K (rows g) log s pc s' pc' e :=
  ⟨shared_same hs h, own_same ho h howes hu hsp, fun _ _ _ hm ha =>
    ⟨own_same hm h (fun _ => id) (.inr rfl) (.inr rfl), fun q hq => ha q (howes q hq)⟩⟩

/-- A client that owes a row has not seen its batch sealed. -/
theorem not_sealed_of_owes {q : ℕ} (hs : Shared s log) (ho : Own s log pc) (hq : pc.Owes q) :
    ¬ Reached log (Blocks.lower g.batchSize q) .sealed := by
  intro hsealed
  obtain ⟨hres, hnot⟩ := ho.owes q hq
  exact hnot ((hs.sealed _ hsealed).2 q (Blocks.lower_le _ q)
    (Blocks.lt_lower_add g.batchSize_pos q) hres)

/-- The batch of an owed row is in the window. -/
theorem owes_mem {q : ℕ} (hl : Life.Shared s log) (hw : Window.Shared s log)
    (hb : s.head ≤ s.tail + g.slots) (hs : Shared s log) (ho : Own s log pc) (hq : pc.Owes q) :
    s.tail ≤ Blocks.lower g.batchSize q ∧ Blocks.lower g.batchSize q < s.tail + g.slots := by
  have hlow := Blocks.lower_le g.batchSize q
  have hhead := (hs.taken q).2 (.inl (ho.owes q hq).1)
  refine ⟨?_, by omega⟩
  by_contra hlt
  have hfin := hw.passed _ (Blocks.lower_dvd _ q) (Nat.lt_of_not_le hlt)
  exact not_sealed_of_owes hs ho hq (hl.closed hfin (by simp [Stage.rank]))

/-- A request takes the positions from the head on. -/
theorem reserve {t n : ℕ} (hs : Shared s log)
    (howes : ∀ q, pc'.Owes q → s.head ≤ q ∧ q < s.head + n) (hu : pc'.unsealed = none)
    (hsp : pc'.spinning = none) :
    ThreadInv.Kept K (rows g) log s pc { s with head := s.head + n } pc'
      (some (.reserved t s.head n)) := by
  have hmem : ∀ q, q ∈ reservedRows ((some (Event.reserved t s.head n)).toList ++ log) ↔
      q ∈ reservedRows log ∨ s.head ≤ q ∧ q < s.head + n := fun q => mem_rowsOf_cons rfl
  have hold : ∀ q, q ∈ countedRows log → q < s.head := fun q hq => (hs.taken q).2 (.inl (hs.counted hq))
  refine ⟨⟨fun q => ?_, fun q hq hp => ?_, hs.padded, fun q hq => (hmem q).2 (.inl (hs.counted hq)),
    fun p hp => ?_, hs.written⟩, ⟨fun q hq => ?_, fun _ => elim_none hu, fun _ _ => elim_none hsp⟩,
    fun m _ _ hm _ => ⟨⟨fun q hq => ?_, hm.unsealed, fun e d he => ?_⟩, fun q hq hmq => ?_⟩⟩
  · rw [hmem]
    have := hs.taken q
    constructor
    · intro hq
      rcases Nat.lt_or_ge q s.head with hlt | hge
      · exact (this.1 hlt).imp_left .inl
      · exact .inl (.inr ⟨hge, hq⟩)
    · rintro ((hq | hq) | hq)
      · exact Nat.lt_add_right n (this.2 (.inl hq))
      · exact hq.2
      · exact Nat.lt_add_right n (this.2 (.inr hq))
  · have hlt : q < s.head := (hs.taken q).2 (.inr hp)
    rcases (hmem q).1 hq with hq | hq
    · exact hs.once q hq hp
    · omega
  · obtain ⟨hle, hall⟩ := hs.sealed p hp
    refine ⟨Nat.le_add_right_of_le hle, fun q h₁ h₂ hq => ?_⟩
    rcases (hmem q).1 hq with hq | hq
    · exact hall q h₁ h₂ hq
    · omega
  · have hq' := howes q hq
    exact ⟨(hmem q).2 (.inr hq'), fun hc => absurd (hold q hc) (by omega)⟩
  · exact ⟨(hmem q).2 (.inl (hm.owes q hq).1), (hm.owes q hq).2⟩
  · obtain ⟨hd, hle, hall⟩ := hm.spinning e d he
    refine ⟨hd, Nat.le_add_right_of_le hle, fun q h₁ h₂ => ?_⟩
    rw [hmem, hall q h₁ h₂]
    omega
  · have := (hs.taken q).2 (.inl (hm.owes q hmq).1)
    have := howes q hq
    omega

/-- A piece is counted. -/
theorem addWritten {ins : Insertion g ℕ} (hl : Life.Shared s log) (hw : Window.Shared s log)
    (hb : s.head ≤ s.tail + g.slots) (hs : Shared s log) (ho : Own s log pc)
    (hpos : 0 < ins.clientBatchSize) (hpc : ∀ q, pc.Owes q ↔
      ins.currentHead ≤ q ∧ q < ins.currentHead + ins.clientBatchSize)
    (hpc' : ∀ q, pc'.Owes q ↔ ins.currentHead + ins.toWrite (CounterOps.unbounded g) ≤ q ∧
      q < ins.currentHead + ins.clientBatchSize) (hu : pc'.unsealed = none)
    (hsp : pc'.spinning = none) :
    ThreadInv.Kept K (rows g) log s pc
      (s.modifyTracker (g.cell ins.currentHead) fun d =>
        { d with writtenSlots := d.writtenSlots +
          (ins.slotEnd (CounterOps.unbounded g) - ins.batchSlot (CounterOps.unbounded g)) }) pc'
      (some (.counted ins.currentHead (ins.toWrite (CounterOps.unbounded g)))) := by
  have hk : ins.slotEnd (CounterOps.unbounded g) - ins.batchSlot (CounterOps.unbounded g) =
      ins.toWrite (CounterOps.unbounded g) := by
    rw [ins.slotEnd_eq, Nat.add_sub_cancel_left]
  have hkpos := ins.toWrite_pos hpos
  have hkle := ins.toWrite_le
  have hend := ins.piece_le
  rw [hk]
  generalize ins.toWrite (CounterOps.unbounded g) = k at hkpos hkle hend hpc' ⊢
  have howes : ∀ q, ins.currentHead ≤ q → q < ins.currentHead + k → pc.Owes q := fun q h₁ h₂ =>
    (hpc q).2 ⟨h₁, by omega⟩
  have hfirst : pc.Owes ins.currentHead := howes _ le_rfl (by omega)
  obtain ⟨hmem₁, hmem₂⟩ := owes_mem hl hw hb hs ho hfirst
  have hlow := Blocks.lower_le g.batchSize ins.currentHead
  have hdvd := Blocks.lower_dvd g.batchSize ins.currentHead
  have hmem : ∀ q, q ∈ countedRows ((some (Event.counted ins.currentHead k)).toList ++ log) ↔
      q ∈ countedRows log ∨ ins.currentHead ≤ q ∧ q < ins.currentHead + k := fun q => mem_rowsOf_cons rfl
  refine ⟨⟨hs.taken, hs.once, hs.padded, fun q hq => ?_, fun p hp => ?_, fun p hp h₁ h₂ => ?_⟩,
    ⟨fun q hq => ?_, fun _ => elim_none hu, fun _ _ => elim_none hsp⟩,
    fun m _ _ hm ha => ⟨⟨fun q hq => ⟨(hm.owes q hq).1, fun hc => ?_⟩, hm.unsealed,
    hm.spinning⟩, fun q hq => ha q ((hpc q).2 ?_)⟩⟩
  · rcases (hmem q).1 hq with hq | hq
    · exact hs.counted hq
    · exact (ho.owes q (howes q hq.1 hq.2)).1
  · obtain ⟨hle, hall⟩ := hs.sealed p hp
    exact ⟨hle, fun q h₁ h₂ hq => (hmem q).2 (.inl (hall q h₁ h₂ hq))⟩
  · have hcell : g.cell p = g.cell ins.currentHead ↔ p = Blocks.lower g.batchSize ins.currentHead := by
      constructor
      · intro h
        exact Geometry.eq_of_cell_eq hp hdvd h₁ h₂ hmem₁ hmem₂ (by rw [h, Geometry.cell_lower])
      · rintro rfl
        exact Geometry.cell_lower _
    rw [SuperTensorBuffer.modifyTracker_trackers]
    by_cases hp' : p = Blocks.lower g.batchSize ins.currentHead
    · rw [if_pos (hcell.2 hp')]
      have hnot : ¬ Reached log p .wiped := fun h => by
        rw [hp'] at h
        exact not_sealed_of_owes hs ho hfirst (hl.closed h (by simp [Stage.rank]))
      refine ⟨fun h => absurd h hnot, fun _ => ?_⟩
      have hset : countedRows ((some (Event.counted ins.currentHead k)).toList ++ log) =
          countedRows log ∪ Set.Ico ins.currentHead (ins.currentHead + k) := rowsOf_cons rfl
      rw [hset, filled_union_Ico (by omega) (by omega)]
      · rw [← (hs.written p hp h₁ h₂).2 hnot, ← hcell.2 hp']
      · exact fun q h h' => (ho.owes q (howes q h h')).2
    · rw [if_neg (fun h => hp' (hcell.1 h))]
      have hsame : filled (countedRows ((some (Event.counted ins.currentHead k)).toList ++ log)) p
          g.batchSize = filled (countedRows log) p g.batchSize := by
        refine filled_congr fun q hq₁ hq₂ => ?_
        rw [hmem]
        refine ⟨fun h => h.resolve_right fun h => hp' ?_, .inl⟩
        rw [← Blocks.lower_eq g.batchSize_pos hp hq₁ hq₂]
        exact Blocks.lower_eq g.batchSize_pos hdvd (by omega) (by omega)
      rw [hsame]
      exact hs.written p hp h₁ h₂
  · obtain ⟨hq₁, hq₂⟩ := (hpc' q).1 hq
    obtain ⟨hres, hnot⟩ := ho.owes q ((hpc q).2 ⟨by omega, hq₂⟩)
    refine ⟨hres, fun hc => ?_⟩
    rcases (hmem q).1 hc with hc | hc
    · exact hnot hc
    · omega
  · rcases (hmem q).1 hc with hc | hc
    · exact (hm.owes q hq).2 hc
    · exact ha q (howes q hc.1 hc.2) hq
  · have := (hpc' q).1 hq
    omega

/-- A seal skips the open slots of the batch. -/
theorem pad {d : ℕ} (hp : Life.Own s log p .woken) (hE : p + g.batchSize ≤ s.executorHead)
    (hheld : pc.held = some (p, .woken)) (hle : p ≤ s.head) (hend : s.head + d = p + g.batchSize)
    (hs : Shared s log) (ho : Own s log pc) (hpc : pc.unsealed = some p)
    (howes : ∀ q, ¬ pc'.Owes q) (hu : pc'.unsealed = none)
    (hsp : pc'.spinning = some (p, d)) :
    ThreadInv.Kept (counters g) (rows g) log s pc { s with head := s.head + d } pc'
      (some (.padded p s.head d)) := by
  have hmem : ∀ q, q ∈ paddedRows ((some (Event.padded p s.head d)).toList ++ log) ↔
      q ∈ paddedRows log ∨ s.head ≤ q ∧ q < s.head + d := fun q => mem_rowsOf_cons rfl
  have hmine := ho.unsealed p hpc
  refine ⟨⟨fun q => ?_, fun q hq hp => ?_, fun q hq => ?_, hs.counted, fun p hp => ?_, hs.written⟩,
    ⟨fun q hq => absurd hq (howes q), fun _ => elim_none hu,
    fun e d' he => ?_⟩, fun m hml hma hm _ => ⟨⟨hm.owes, fun e he q h₁ h₂ hq => ?_,
    fun e d' he => ?_⟩, fun q hq => absurd hq (howes q)⟩⟩
  · rw [hmem]
    have := hs.taken q
    constructor
    · intro hq
      rcases Nat.lt_or_ge q s.head with hlt | hge
      · exact (this.1 hlt).imp_right .inl
      · exact .inr (.inr ⟨hge, hq⟩)
    · rintro (hq | hq | hq)
      · exact Nat.lt_add_right d (this.2 (.inl hq))
      · exact Nat.lt_add_right d (this.2 (.inr hq))
      · exact hq.2
  · have hlt : q < s.head := (hs.taken q).2 (.inl hq)
    rcases (hmem q).1 hp with hp | hp
    · exact hs.once q hq hp
    · omega
  · rcases (hmem q).1 hq with hq | hq
    · exact hs.padded q hq
    · simp only
      omega
  · obtain ⟨hle, hall⟩ := hs.sealed p hp
    exact ⟨Nat.le_add_right_of_le hle, hall⟩
  · obtain ⟨rfl, rfl⟩ := Prod.mk.inj (Option.some.inj (hsp.symm.trans he))
    refine ⟨by omega, hend.ge, fun q h₁ h₂ => ?_⟩
    have hq := hs.taken q
    constructor
    · intro hres
      have := hq.2 (.inl hres)
      omega
    · intro hlt
      exact (hq.1 (by omega)).resolve_right (hmine q h₁ h₂)
  · rcases (hmem q).1 hq with hq | hq
    · exact hm.unsealed e he q h₁ h₂ hq
    · -- the skipped slots are in a batch that another executor does not hold
      obtain ⟨st, hme⟩ := Pc.held_of_unsealed he
      have heq : Blocks.lower g.batchSize q = e :=
        Blocks.lower_eq g.batchSize_pos (hml.1.1.1 e st hme).dvd h₁ h₂
      have hpq : Blocks.lower g.batchSize q = p :=
        Blocks.lower_eq g.batchSize_pos hp.dvd (by omega) (by omega)
      exact hma.1.1.1 p .woken e st hheld hme (hpq.symm.trans heq)
  · obtain ⟨hd, hle, hall⟩ := hm.spinning e d' he
    exact ⟨hd, Nat.le_add_right_of_le hle, hall⟩

/-- A seal finds no open slots. -/
theorem sealClosed (hs : Shared s log) (ho : Own s log pc) (hpc : pc.unsealed = some p)
    (hle : p + g.batchSize ≤ s.head) (howes : ∀ q, ¬ pc'.Owes q)
    (hu : pc'.unsealed = none) (hsp : pc'.spinning = some (p, 0)) :
    ThreadInv.Kept K (rows g) log s pc s pc' none := by
  refine ⟨hs, ⟨fun q hq => absurd hq (howes q), fun _ => elim_none hu,
    fun e d he => ?_⟩, fun m _ _ hm _ => ⟨hm, fun q hq => absurd hq (howes q)⟩⟩
  obtain ⟨rfl, rfl⟩ := Prod.mk.inj (Option.some.inj (hsp.symm.trans he))
  refine ⟨Nat.zero_le _, hle, fun q h₁ h₂ => ⟨fun _ => h₂, fun _ => ?_⟩⟩
  exact ((hs.taken q).1 (by omega)).resolve_right (ho.unsealed p hpc q h₁ h₂)

/-- The counter of the batch of a spinning executor counts some of its reserved rows. -/
theorem written_le {d : ℕ} (hp : Life.Own s log p .woken) (hw : Window.Shared s log)
    (hs : Shared s log) (ho : Own s log pc) (hpc : pc.spinning = some (p, d)) :
    (s.trackers (g.cell p)).writtenSlots = filled (countedRows log) p g.batchSize ∧
      filled (reservedRows log) p g.batchSize = g.batchSize - d ∧
      (s.trackers (g.cell p)).writtenSlots ≤ g.batchSize - d := by
  obtain ⟨hd, -, hall⟩ := ho.spinning p d hpc
  obtain ⟨h₁, h₂⟩ := Window.held_mem hw hp (by simp)
  have hnot : ¬ Reached log p .wiped := fun h => by
    simpa [Stage.rank] using (hp.reached .wiped).1 h
  have hwritten := (hs.written p hp.dvd h₁ h₂).2 hnot
  have hres : filled (reservedRows log) p g.batchSize = g.batchSize - d :=
    filled_of_initial (Nat.sub_le _ _) hall
  refine ⟨hwritten, hres, ?_⟩
  rw [hwritten, ← hres]
  exact filled_mono hs.counted

/-- A seal returns when the counter has reached the number of reserved rows, so all of
them are counted. -/
theorem sealed {d : ℕ} (hp : Life.Own s log p .woken) (hw : Window.Shared s log)
    (hs : Shared s log) (ho : Own s log pc) (hpc : pc.spinning = some (p, d))
    (hd : (s.trackers (g.cell p)).writtenSlots = g.batchSize - d) (howes : ∀ q, ¬ pc'.Owes q)
    (hu : pc'.unsealed = none) (hsp : pc'.spinning = none) :
    ThreadInv.Kept K (rows g) log s pc s pc' (some (.sealed p)) := by
  obtain ⟨hwritten, hres, -⟩ := written_le hp hw hs ho hpc
  have hsame : ∀ q, Reached ((some (Event.sealed p)).toList ++ log) q .wiped ↔ Reached log q .wiped :=
    fun q => reached_cons_of_ne rfl (by decide)
  refine ⟨⟨hs.taken, hs.once, hs.padded, hs.counted, fun q hq => ?_, fun q hq h₁ h₂ => ?_⟩,
    own_none howes hu hsp, fun m _ _ hm _ =>
    ⟨⟨hm.owes, hm.unsealed, hm.spinning⟩, fun q hq => absurd hq (howes q)⟩⟩
  · rcases (reached_cons rfl).1 hq with ⟨rfl, -⟩ | hq
    · refine ⟨(ho.spinning q d hpc).2.1, fun r h₁ h₂ hr => ?_⟩
      exact mem_of_filled_eq hs.counted (by rw [← hwritten, hd, hres]) h₁ h₂ hr
    · exact hs.sealed q hq
  · rw [hsame]
    exact hs.written q hq h₁ h₂

/-- The counter of a batch that is being reset. -/
theorem resetWritten (hp : Life.Own s log p .replaced) (hw : Window.Shared s log) (hs : Shared s log)
    (howes : ∀ q, ¬ pc'.Owes q) (hu : pc'.unsealed = none)
    (hsp : pc'.spinning = none) :
    ThreadInv.Kept K (rows g) log s pc
      (s.modifyTracker (g.cell p) fun d => { d with writtenSlots := 0 }) pc' (some (.wiped p)) := by
  obtain ⟨hp₁, hp₂⟩ := Window.held_mem hw hp (by simp)
  refine ⟨⟨hs.taken, hs.once, hs.padded, hs.counted, fun q hq => ?_, fun q hq h₁ h₂ => ?_⟩,
    own_none howes hu hsp, fun m _ _ hm _ =>
    ⟨⟨hm.owes, hm.unsealed, hm.spinning⟩, fun q hq => absurd hq (howes q)⟩⟩
  · exact hs.sealed q ((reached_cons_of_ne rfl (by decide)).1 hq)
  · rw [SuperTensorBuffer.modifyTracker_trackers, reached_cons rfl]
    by_cases heq : q = p
    · subst heq
      rw [if_pos rfl]
      exact ⟨fun _ => rfl, fun h => absurd (.inl ⟨rfl, rfl⟩) h⟩
    · rw [if_neg fun hcell => heq (Geometry.eq_of_cell_eq hq hp.dvd h₁ h₂ hp₁ hp₂ hcell)]
      obtain ⟨h, h'⟩ := hs.written q hq h₁ h₂
      exact ⟨fun hw => h (hw.resolve_left fun h => heq h.1), fun hw => h' fun h => hw (.inr h)⟩

/-- The window moves on; the tracker it gives to the next lap has been wiped. -/
theorem retire (hl : Life.Shared s log) (hw : Window.Shared s log) (hb : s.head ≤ s.tail + g.slots)
    (hf : Reached log s.tail .finished) (hs : Shared s log) (ho : ∀ q, ¬ pc'.Owes q)
    (hu : pc'.unsealed = none) (hsp : pc'.spinning = none) :
    ThreadInv.Kept K (rows g) log s pc
      { s with tail := Blocks.lower g.batchSize s.tail + g.batchSize } pc' (some (.retired s.tail)) := by
  rw [Blocks.lower_eq_of_dvd hw.tail_dvd]
  refine ⟨⟨hs.taken, hs.once, hs.padded, hs.counted, hs.sealed, fun q hq h₁ h₂ => ?_⟩,
    own_none ho hu hsp, fun m _ _ hm _ =>
    ⟨⟨hm.owes, hm.unsealed, hm.spinning⟩, fun q hq => absurd hq (ho q)⟩⟩
  simp only at h₁ h₂ ⊢
  rcases Window.lt_or_eq_of_lt_next hw hq h₂ with hlt | rfl
  · exact hs.written q hq (by omega) hlt
  · have hslots := g.slots_pos
    have hzero := (hs.written s.tail hw.tail_dvd le_rfl (by omega)).1 (hl.closed hf (by simp [Stage.rank]))
    have hnot : ¬ Reached log (s.tail + g.slots) .wiped := Window.not_reached_next hl hw
    refine ⟨fun h => absurd h hnot, fun _ => ?_⟩
    rw [Geometry.cell_add_slots, hzero]
    refine (filled_of_initial (Nat.zero_le _) fun r hr₁ hr₂ => ⟨fun hc => ?_, fun h => ?_⟩).symm
    · have := (hs.taken r).2 (.inl (hs.counted hc))
      omega
    · omega

/-- A claim: nothing is skipped in the batch yet. -/
theorem claim (hs : Shared s log) (hpc' : pc'.unsealed = some s.executorHead)
    (howes : ∀ q, ¬ pc'.Owes q) (hsp : pc'.spinning = none) :
    ThreadInv.Kept K (rows g) log s pc { s with executorHead := s.executorHead + g.batchSize } pc'
      (some (.claimed s.executorHead)) := by
  have hsame : Same s log { s with executorHead := s.executorHead + g.batchSize }
      ((some (Event.claimed s.executorHead)).toList ++ log) :=
    ⟨rfl, rfl, Nat.le_add_right _ _, fun _ => rfl, rfl, rfl, rfl,
      fun p => reached_cons_of_ne rfl (by decide),
      fun p => reached_cons_of_ne rfl (by decide)⟩
  refine ⟨shared_same hs hsame, ⟨fun q hq => absurd hq (howes q), fun e he q h₁ _ hq => ?_,
    fun _ _ => elim_none hsp⟩, fun m _ _ hm _ =>
    ⟨own_same hm hsame (fun _ => id) (.inr rfl) (.inr rfl),
      fun q hq => absurd hq (howes q)⟩⟩
  obtain rfl := Option.some.inj (hpc'.symm.trans he)
  have := hs.padded q hq
  omega

end Rows

/-- Every step of a run whose requests fit keeps the rows. -/
theorem rows_step {i : ℕ} {s s' : SuperTensorBuffer g ℕ} {pc pc' : Pc g ℕ} {c : Choice}
    {e : Option (Event g ℕ)} {log : List (Event g ℕ)}
    (ht : Transition (CounterOps.unbounded g) i s pc c s' pc' e) (hK : (counters g).shared s log)
    (hKo : (counters g).own s log pc) (hs : Rows.Shared s log) (ho : Rows.Own s log pc) :
    ThreadInv.Kept (counters g) (rows g) log s pc s' pc' e := by
  obtain ⟨⟨⟨hl, hw⟩, -⟩, hb⟩ := hK
  obtain ⟨⟨⟨hlo, hwo⟩, hho⟩, -⟩ := hKo
  cases ht with
  | reserve request h n hh =>
    subst hh
    exact Rows.reserve hs (fun _ => id) rfl rfl
  | addWritten ins o t n r hr phase hp =>
    have hphase : phase.counted = true := by
      rw [hp]
      split <;> rfl
    refine Rows.addWritten hl hw hb hs ho hho.positive (fun _ => .rfl) (fun q => ?_) rfl rfl
    rw [Pc.Owes, hphase]
    exact .rfl
  | nextBatch ins r h =>
    refine Rows.quiet hs ho ⟨rfl, rfl, le_rfl, fun _ => rfl, rfl, rfl, rfl, fun _ => .rfl, fun _ => .rfl⟩
      (fun q hq => ?_) (.inl rfl) (.inl rfl)
    have heq := ins.next_eq h
    have hle := ins.toWrite_le
    simp only [Pc.Owes, InsertPhase.counted, Insertion.next, CounterOps.unbounded, cond_true,
      cond_false] at hq heq hle ⊢
    omega
  | deadlinePoll e n ticket phase hp =>
    rcases hp with rfl | rfl <;>
      exact Rows.quiet hs ho
        ⟨rfl, rfl, le_rfl, fun _ => rfl, rfl, rfl, rfl, fun _ => .rfl, fun _ => .rfl⟩ (fun _ => id)
        (.inr rfl) (.inl rfl)
  | claim e he =>
    subst he
    exact Rows.claim hs rfl (fun _ => id) rfl
  | sealClosed e hb hd =>
    have hheld := hlo e .woken rfl
    refine Rows.sealClosed hs ho rfl ?_ (fun _ => id) rfl rfl
    by_contra hlt
    simp only [CounterOps.unbounded, Blocks.lower_eq_of_dvd hheld.dvd, if_pos (Nat.lt_of_not_le hlt),
      reduceCtorEq] at hd
  | pad e h d hh =>
    subst hh
    have hheld := hlo e .woken rfl
    obtain ⟨hle, -, hend⟩ := hho.sealing e s.head d rfl
    exact Rows.pad hheld (Blocks.add_le_of_dvd hheld.dvd hl.executorHead_dvd hheld.lt) rfl hle hend hs ho
      rfl (fun _ => id) rfl rfl
  | sealed e d hwr =>
    exact Rows.sealed (hlo e .woken rfl) hw hs ho rfl hwr (fun _ => id) rfl rfl
  | resetWritten e items =>
    exact Rows.resetWritten (hlo e .replaced rfl) hw hs (fun _ => id) rfl rfl
  | retire items t htail =>
    subst htail
    exact Rows.retire hl hw hb (hwo.taken _ rfl).1 hs (fun _ => id) rfl rfl
  | _ =>
    refine Rows.quiet hs ho ⟨rfl, rfl, le_rfl, ?_, rfl, rfl, rfl, ?_, ?_⟩ ?_ ?_ ?_
    · first
        | exact fun _ => rfl
        | exact SuperTensorBuffer.modifyTracker_writtenSlots _ _ fun _ => rfl
    · first
        | exact fun _ => .rfl
        | exact fun p => reached_cons_of_ne rfl (by decide)
    · first
        | exact fun _ => .rfl
        | exact fun p => reached_cons_of_ne rfl (by decide)
    · first
        | exact fun _ => id
        | exact fun _ => False.elim
    · first
        | exact .inl rfl
        | exact .inr rfl
    · first
        | exact .inl rfl
        | exact .inr rfl

/-- The counters, in every run. -/
theorem counters_hold {w : RingWorld g ℕ} (h : Runs (CounterOps.unbounded g) (Fits g) w) :
    (counters g).Holds w :=
  (heads_all h).and ⟨head_le h, fun _ => True.intro, fun _ _ _ => True.intro⟩

/-- The rows of a new buffer. -/
theorem Rows.fresh_shared (inputTensors : Fin g.capacity → Fin g.numInputs → BatchableTensor g.batchSize) :
    Rows.Shared (fresh (CounterOps.unbounded g) inputTensors).shared [] := by
  have hnone : ∀ f : Event g ℕ → Option (ℕ × ℕ), rowsOf f [] = ∅ := fun f => covered_nil
  refine ⟨fun q => ?_, fun q hq => ?_, fun q hq => ?_, ?_, fun p hp => absurd hp List.not_mem_nil,
    fun p hp _ _ => ⟨fun h => absurd h List.not_mem_nil, fun _ => ?_⟩⟩
  · rw [reservedRows, paddedRows, hnone, hnone]
    simp [fresh, SuperTensorBuffer.new, CounterOps.unbounded]
  · rw [reservedRows, hnone] at hq
    exact absurd hq (Set.notMem_empty q)
  · rw [paddedRows, hnone] at hq
    exact absurd hq (Set.notMem_empty q)
  · rw [countedRows, hnone]
    exact Set.empty_subset _
  · rw [countedRows, hnone]
    exact (filled_of_initial (Nat.zero_le _) fun q h _ => by simp [h]).symm

/-- The rows, in every run. -/
theorem rows_hold {w : RingWorld g ℕ} (h : Runs (CounterOps.unbounded g) (Fits g) w) :
    (rows g).Holds w := by
  refine h.threadInv (counters g) (fun v hv => counters_hold hv)
    (fun inputTensors => ⟨Rows.fresh_shared inputTensors, fun i => ?_, fun i j _ q hq => ?_⟩)
    fun i s pc c s' pc' e log ht _ hK hKo hs ho => rows_step ht hK hKo hs ho
  · exact Rows.own_none (fun _ => id) rfl rfl
  · exact absurd hq id

end Toutates
