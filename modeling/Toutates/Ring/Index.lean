/-
# Positions on the ring

`RingBufferIndex` and the counters of `src/tensor/supertensor.rs`.

The ring has `capacity` batches of `batch_size` slots.  Three counters (`head`,
`executor_head`, `tail`) only ever grow; a counter is turned into a batch and a
slot by masking, which works because both sizes are powers of two
(`Geometry`).

Everything the protocol does with a counter goes through a handful of
operations and tests, collected in `CounterOps`.  They come twice.
`CounterOps.wrapping` is the code: `usize` counters that wrap at `2 ^ 64`, masks,
and `HALF_RANGE` comparisons for "ahead of" and "behind".  `CounterOps.unbounded`
is the same ring on natural numbers, where positions never come back.  A test
`a.wrapping_sub(b) >= n` that the code makes without looking at the order of `a`
and `b` is true when `a` is behind `b`: the difference wraps to a number larger
than any ring, so `isFull` on the naturals says so too.
-/

import Toutates.Basis.Blocks
import Mathlib.Data.Fin.Basic

namespace Toutates

open Basis

/-- `is_power_of_two`. -/
def isPowerOfTwo (n : ℕ) : Bool := n != 0 && (n &&& (n - 1)) == 0

/-- The sizes that `SuperTensorBuffer::new_with_overrides` accepts (two `usize`,
both powers of two), and the number of model inputs it lays out in each batch. -/
structure Geometry where
  capacity : ℕ
  batchSize : ℕ
  numInputs : ℕ
  capacity_lt : capacity < 2 ^ 64
  batchSize_lt : batchSize < 2 ^ 64
  capacity_pow2 : isPowerOfTwo capacity = true
  batchSize_pow2 : isPowerOfTwo batchSize = true

namespace Geometry

variable (g : Geometry)

/-- A power of two is not 0. -/
theorem pos_of_isPowerOfTwo {n : ℕ} (h : isPowerOfTwo n = true) : 0 < n := by
  rw [isPowerOfTwo, Bool.and_eq_true, bne_iff_ne] at h
  exact Nat.pos_of_ne_zero h.1

/-- A ring has a batch. -/
theorem capacity_pos : 0 < g.capacity := pos_of_isPowerOfTwo g.capacity_pow2

/-- A batch has a slot. -/
theorem batchSize_pos : 0 < g.batchSize := pos_of_isPowerOfTwo g.batchSize_pow2

/-- All slots of the ring: `capacity * batch_size`. -/
def slots : ℕ := g.capacity * g.batchSize

/-- A ring has a slot. -/
theorem slots_pos : 0 < g.slots := Nat.mul_pos g.capacity_pos g.batchSize_pos

/-- A ring is so many batches. -/
theorem batchSize_dvd_slots : g.batchSize ∣ g.slots := Dvd.intro_left _ rfl

/-- The batch that the position `p` falls in: which of the `capacity` ones. -/
def cell (p : ℕ) : Fin g.capacity :=
  ⟨Blocks.cell g.batchSize g.capacity p, Blocks.cell_lt g.capacity_pos p⟩

/-- How often the ring has been around at `p`. -/
def lap (p : ℕ) : ℕ := Blocks.lap g.batchSize g.capacity p

/-- The batch that tracker `x` has in lap `k`. -/
def start (x : Fin g.capacity) (k : ℕ) : ℕ := Blocks.start g.batchSize g.capacity x k

/-- The batch of a tracker starts at a multiple of the batch size. -/
theorem start_dvd (x : Fin g.capacity) (k : ℕ) : g.batchSize ∣ g.start x k := Blocks.start_dvd _ _ _ _

/-- The batch of a tracker in a lap is in that tracker. -/
@[simp] theorem cell_start (x : Fin g.capacity) (k : ℕ) : g.cell (g.start x k) = x :=
  Fin.ext (Blocks.cell_start g.batchSize_pos x.isLt k)

/-- The batch of a tracker in a lap is in that lap. -/
@[simp] theorem lap_start (x : Fin g.capacity) (k : ℕ) : g.lap (g.start x k) = k :=
  Blocks.lap_start g.batchSize_pos x.isLt k

variable {g}

/-- A batch is that of its tracker in its lap. -/
theorem start_cell_lap {p : ℕ} (hp : g.batchSize ∣ p) : g.start (g.cell p) (g.lap p) = p :=
  Blocks.start_cell_lap hp

/-- Batches of one turn of the ring are different batches. -/
theorem eq_of_cell_eq {t p q : ℕ} (hp : g.batchSize ∣ p) (hq : g.batchSize ∣ q) (hp₁ : t ≤ p)
    (hp₂ : p < t + g.slots) (hq₁ : t ≤ q) (hq₂ : q < t + g.slots) (h : g.cell p = g.cell q) : p = q :=
  Blocks.eq_of_cell_eq g.batchSize_pos hp hq hp₁ hp₂ hq₁ hq₂ (congrArg Fin.val h)

/-- Every tracker has a batch in every turn of the ring. -/
theorem exists_cell_eq {t : ℕ} (ht : g.batchSize ∣ t) (x : Fin g.capacity) :
    ∃ q, g.batchSize ∣ q ∧ t ≤ q ∧ q < t + g.slots ∧ g.cell q = x := by
  obtain ⟨q, hq, h₁, h₂, hx⟩ := Blocks.exists_cell_eq g.batchSize_pos ht x.isLt
  exact ⟨q, hq, h₁, h₂, Fin.ext hx⟩

/-- Batches with the same tracker and the same lap are the same. -/
theorem eq_of_cell_lap_eq {p q : ℕ} (hp : g.batchSize ∣ p) (hq : g.batchSize ∣ q)
    (hcell : g.cell p = g.cell q) (hlap : g.lap p = g.lap q) : p = q :=
  Blocks.eq_of_cell_lap_eq hp hq (congrArg Fin.val hcell) hlap

/-- A turn of the ring ends at the same tracker. -/
@[simp] theorem cell_add_slots (p : ℕ) : g.cell (p + g.slots) = g.cell p :=
  Fin.ext (Blocks.cell_add_ring g.batchSize_pos g.capacity p)

/-- A turn of the ring ends in the next lap. -/
@[simp] theorem lap_add_slots (p : ℕ) : g.lap (p + g.slots) = g.lap p + 1 :=
  Blocks.lap_add_ring g.batchSize_pos g.capacity_pos p

/-- The first turn is lap 0. -/
theorem lap_eq_zero {p : ℕ} (h : p < g.slots) : g.lap p = 0 := by
  rw [lap, Blocks.lap, Nat.div_div_eq_div_mul]
  exact Nat.div_eq_of_lt (by rwa [Nat.mul_comm])

/-- A row is in the tracker of its batch. -/
@[simp] theorem cell_lower (p : ℕ) : g.cell (Blocks.lower g.batchSize p) = g.cell p :=
  Fin.ext (Blocks.cell_lower g.batchSize_pos g.capacity p)

/-- A row is in the lap of its batch. -/
@[simp] theorem lap_lower (p : ℕ) : g.lap (Blocks.lower g.batchSize p) = g.lap p :=
  Blocks.lap_lower g.batchSize_pos g.capacity p

/-- Tracker, lap and slot of a position give it back. -/
theorem start_add_mod (p : ℕ) : g.start (g.cell p) (g.lap p) + p % g.batchSize = p := by
  rw [← cell_lower p, ← lap_lower p, start_cell_lap (Blocks.lower_dvd _ p), Blocks.lower_add_mod]

end Geometry

/-! ### The code: `usize` counters -/

/-- `usize` on a 64-bit machine. -/
abbrev Usize := BitVec 64

/-- `HALF_RANGE`: `usize::MAX / 2`. -/
def halfRange : Usize := BitVec.ofNat 64 (2 ^ 63 - 1)

/-- `saturating_sub`. -/
def saturatingSub (a b : Usize) : Usize := if b ≤ a then a - b else 0

/-- `PaddedAtomic` without its value: the masks and the batch size of a counter. -/
structure PaddedAtomic where
  ringMask : Usize
  batchMask : Usize
  batchSize : Usize

/-- The masks that `new_with_overrides` gives all three counters. -/
def Geometry.atomicRef (g : Geometry) : PaddedAtomic where
  ringMask := BitVec.ofNat 64 (g.capacity * g.batchSize - 1)
  batchMask := BitVec.ofNat 64 (g.batchSize - 1)
  batchSize := BitVec.ofNat 64 g.batchSize

/-- `RingBufferIndex`: an absolute index and the counter it was loaded from. -/
structure RingBufferIndex where
  index : Usize
  atomicRef : PaddedAtomic

namespace RingBufferIndex

/-- `as_batch_slot_id`. -/
def asBatchSlotId (i : RingBufferIndex) : Usize := i.index &&& i.atomicRef.batchMask

/-- `as_batch_id`. -/
def asBatchId (i : RingBufferIndex) : Usize := (i.index &&& i.atomicRef.ringMask) / i.atomicRef.batchSize

/-- `as_absolute_batch_lower_bound`. -/
def asAbsoluteBatchLowerBound (i : RingBufferIndex) : Usize := i.index - i.asBatchSlotId

/-- `as_absolute_batch_higher_bound`. -/
def asAbsoluteBatchHigherBound (i : RingBufferIndex) : Usize :=
  i.asAbsoluteBatchLowerBound + i.atomicRef.batchSize

/-- The masked index is below the capacity, whatever the index. -/
theorem asBatchId_lt (g : Geometry) (n : Usize) :
    (asBatchId ⟨n, g.atomicRef⟩).toNat < g.capacity := by
  have hmask : (n &&& g.atomicRef.ringMask).toNat < g.capacity * g.batchSize := by
    refine lt_of_le_of_lt (b := g.capacity * g.batchSize - 1) ?_
      (Nat.sub_lt g.slots_pos Nat.one_pos)
    rw [BitVec.toNat_and]
    exact Nat.and_le_right.trans (by rw [Geometry.atomicRef, BitVec.toNat_ofNat]; exact Nat.mod_le _ _)
  rw [asBatchId, BitVec.toNat_udiv, show g.atomicRef.batchSize.toNat = g.batchSize by
    rw [Geometry.atomicRef, BitVec.toNat_ofNat, Nat.mod_eq_of_lt g.batchSize_lt]]
  exact Nat.div_lt_of_lt_mul (by rwa [Nat.mul_comm])

end RingBufferIndex

/-! ### The operations of the protocol on its counters -/

/-- What the protocol does with positions of type `α`. -/
structure CounterOps (g : Geometry) (α : Type) where
  /-- The value of a counter of a new buffer. -/
  zero : α
  /-- `as_batch_id`. -/
  batchId : α → Fin g.capacity
  /-- `as_batch_slot_id`. -/
  slotId : α → ℕ
  /-- `as_absolute_batch_lower_bound`. -/
  lowerBound : α → α
  /-- `as_absolute_batch_higher_bound`. -/
  higherBound : α → α
  /-- `wrapping_add`. -/
  add : α → ℕ → α
  /-- `as_absolute_batch_higher_bound().wrapping_sub(as_absolute_index())`. -/
  capacityInBatch : α → ℕ
  /-- `a.wrapping_sub(&b) >= capacity * batch_size`. -/
  isFull : α → α → Bool
  /-- `dist_to_higher` of a batch and a head, where
  `dist_to_higher > 0 && dist_to_higher < HALF_RANGE`. -/
  distToHigher : α → α → Option ℕ
  /-- `a.wrapping_sub(b) < HALF_RANGE`. -/
  notBehind : α → α → Bool

/-- The code's counters. -/
def CounterOps.wrapping (g : Geometry) : CounterOps g Usize where
  zero := 0
  batchId n := ⟨(RingBufferIndex.asBatchId ⟨n, g.atomicRef⟩).toNat, RingBufferIndex.asBatchId_lt g n⟩
  slotId n := (RingBufferIndex.asBatchSlotId ⟨n, g.atomicRef⟩).toNat
  lowerBound n := RingBufferIndex.asAbsoluteBatchLowerBound ⟨n, g.atomicRef⟩
  higherBound n := RingBufferIndex.asAbsoluteBatchHigherBound ⟨n, g.atomicRef⟩
  add n k := n + BitVec.ofNat 64 k
  capacityInBatch n := (RingBufferIndex.asAbsoluteBatchHigherBound ⟨n, g.atomicRef⟩ - n).toNat
  isFull a b := decide (BitVec.ofNat 64 (g.capacity * g.batchSize) ≤ a - b)
  distToHigher n h :=
    let dist := RingBufferIndex.asAbsoluteBatchHigherBound ⟨n, g.atomicRef⟩ - h
    if 0 < dist ∧ dist < halfRange then some dist.toNat else none
  notBehind a b := decide (a - b < halfRange)

/-- The same ring on natural numbers. -/
def CounterOps.unbounded (g : Geometry) : CounterOps g ℕ where
  zero := 0
  batchId n := g.cell n
  slotId n := n % g.batchSize
  lowerBound n := Blocks.lower g.batchSize n
  higherBound n := Blocks.lower g.batchSize n + g.batchSize
  add n k := n + k
  capacityInBatch n := Blocks.lower g.batchSize n + g.batchSize - n
  isFull a b := decide (a < b ∨ g.slots ≤ a - b)
  distToHigher n h :=
    if h < Blocks.lower g.batchSize n + g.batchSize then
      some (Blocks.lower g.batchSize n + g.batchSize - h)
    else none
  notBehind a b := decide (b ≤ a)

end Toutates
