/-
# Counters that wrap, on positions that do not

A `usize` counter is a position modulo `2 ^ 64` (`wrap`).  The sizes of the ring are powers of
two, so masks and bounds commute with `wrap` whatever the position.  The comparisons of
`src/tensor/supertensor.rs` do not: `a.wrapping_sub(b)` is the distance from `b` to `a` around a
circle of `2 ^ 64`, and it says which of the two is ahead only while they are near each other.

Positions at most `2 ^ 62` apart (`Near`) on a ring of at most `2 ^ 61` slots are near enough for
every comparison the protocol makes.
-/

import Toutates.Ring.Index
import Mathlib.Tactic.Linarith

namespace Toutates

open Basis

/-- The counter that stands for a position. -/
def wrap (n : ℕ) : Usize := BitVec.ofNat 64 n

/-- Positions at most `2 ^ 62` apart. -/
def Near (a b : ℕ) : Prop := a ≤ b + 2 ^ 62 ∧ b ≤ a + 2 ^ 62

/-- Near the other way round. -/
theorem Near.symm {a b : ℕ} (h : Near a b) : Near b a := ⟨h.2, h.1⟩

/-- A number is near itself. -/
theorem Near.refl (a : ℕ) : Near a a := ⟨Nat.le_add_right _ _, Nat.le_add_right _ _⟩

/-- A wrapped number is the rest. -/
theorem wrap_toNat (n : ℕ) : (wrap n).toNat = n % 2 ^ 64 := BitVec.toNat_ofNat n 64

/-- Sums wrap. -/
theorem wrap_add (a b : ℕ) : wrap a + wrap b = wrap (a + b) := (BitVec.ofNat_add a b).symm

/-- Differences wrap. -/
theorem wrap_sub {a b : ℕ} (h : b ≤ a) : wrap a - wrap b = wrap (a - b) := by
  obtain ⟨d, rfl⟩ := Nat.exists_eq_add_of_le h
  rw [← wrap_add, BitVec.add_comm, BitVec.add_sub_cancel, Nat.add_sub_cancel_left]

/-- The difference of two counters, when the first is ahead. -/
theorem toNat_wrap_sub {a b : ℕ} (h : b ≤ a) (hd : a - b < 2 ^ 64) : (wrap a - wrap b).toNat = a - b := by
  rw [wrap_sub h, wrap_toNat, Nat.mod_eq_of_lt hd]

/-- The difference of two counters, when the first is behind, goes the other way around. -/
theorem toNat_wrap_sub_of_lt {a b : ℕ} (h : a < b) (hd : b - a ≤ 2 ^ 64) :
    (wrap a - wrap b).toNat = 2 ^ 64 - (b - a) := by
  have hb : (wrap b).toNat = ((wrap a).toNat + (b - a)) % 2 ^ 64 := by
    rw [wrap_toNat, wrap_toNat, Nat.mod_add_mod, Nat.add_sub_cancel' h.le]
  have ha := (wrap a).isLt
  rw [BitVec.toNat_sub, hb]
  omega

/-- `saturating_sub` is the difference of naturals. -/
theorem toNat_saturatingSub (a b : Usize) : (saturatingSub a b).toNat = a.toNat - b.toNat := by
  rw [saturatingSub]
  split_ifs with h
  · exact BitVec.toNat_sub_of_le h
  · have hlt : a.toNat < b.toNat := Nat.lt_of_not_le h
    show (0 : Usize).toNat = a.toNat - b.toNat
    rw [Nat.sub_eq_zero_of_le hlt.le]
    rfl

/-- The saturated difference of two counters is that of their positions within one turn. -/
theorem saturatingSub_wrap (a b : ℕ) :
    (saturatingSub (wrap a) (wrap b)).toNat = a % 2 ^ 64 - b % 2 ^ 64 := by
  rw [toNat_saturatingSub, wrap_toNat, wrap_toNat]

/-- On wrapped numbers it is at most the difference. -/
theorem saturatingSub_wrap_le {a b : ℕ} (h : b ≤ a) : (saturatingSub (wrap a) (wrap b)).toNat ≤ a - b := by
  rw [saturatingSub_wrap]
  omega

/-- In one turn of the counter it is the difference. -/
theorem saturatingSub_wrap_of_turn {a b : ℕ} (h : a / 2 ^ 64 = b / 2 ^ 64) :
    (saturatingSub (wrap a) (wrap b)).toNat = a - b := by
  rw [saturatingSub_wrap]
  omega

/-- Once the first counter has wrapped and the second has not, nothing is left of the difference. -/
theorem saturatingSub_wrap_of_wrapped {a b : ℕ} (h : a / 2 ^ 64 ≠ b / 2 ^ 64) (hle : b ≤ a) (hd : a < b + 2 ^ 64) :
    (saturatingSub (wrap a) (wrap b)).toNat = 0 := by
  rw [saturatingSub_wrap]
  omega

/-- Numbers that are near are told apart. -/
theorem wrap_eq_iff {a b : ℕ} (h : Near a b) : wrap a = wrap b ↔ a = b := by
  refine ⟨fun heq => ?_, congrArg wrap⟩
  obtain ⟨h₁, h₂⟩ := h
  have hmod : a % 2 ^ 64 = b % 2 ^ 64 := by rw [← wrap_toNat, heq, wrap_toNat]
  omega

/-! ### Sizes that are powers of two -/

/-- A number that passes the test is a power of two. -/
theorem exists_of_isPowerOfTwo {n : ℕ} (h : isPowerOfTwo n = true) : ∃ k, n = 2 ^ k := by
  rw [isPowerOfTwo, Bool.and_eq_true, bne_iff_ne, beq_iff_eq] at h
  exact Nat.ne_zero_and_sub_one_eq_zero_iff_isPowerOfTwo.1 h

namespace Geometry

variable {g : Geometry}

/-- The batch size is a power of two. -/
theorem batchSize_eq_pow (g : Geometry) : ∃ k ≤ 64, g.batchSize = 2 ^ k := by
  obtain ⟨k, hk⟩ := exists_of_isPowerOfTwo g.batchSize_pow2
  exact ⟨k, (Nat.pow_lt_pow_iff_right (by decide)).1 (hk ▸ g.batchSize_lt) |>.le, hk⟩

/-- The number of slots is a power of two. -/
theorem slots_eq_pow {m : ℕ} (h : g.slots ≤ 2 ^ m) : ∃ k ≤ m, g.slots = 2 ^ k := by
  obtain ⟨a, ha⟩ := exists_of_isPowerOfTwo g.capacity_pow2
  obtain ⟨b, hb⟩ := exists_of_isPowerOfTwo g.batchSize_pow2
  have hslots : g.slots = 2 ^ (a + b) := by rw [slots, ha, hb, Nat.pow_add]
  exact ⟨a + b, (Nat.pow_le_pow_iff_right (by decide)).1 (hslots ▸ h), hslots⟩

/-- A ring has a batch. -/
theorem batchSize_le_slots (g : Geometry) : g.batchSize ≤ g.slots :=
  Nat.le_of_dvd g.slots_pos g.batchSize_dvd_slots

end Geometry

/-- Masking a counter with `2 ^ k - 1` is the remainder of its position. -/
theorem toNat_wrap_and_mask (n : ℕ) {k : ℕ} (hk : k ≤ 64) :
    (wrap n &&& BitVec.ofNat 64 (2 ^ k - 1)).toNat = n % 2 ^ k := by
  have hlt : 2 ^ k - 1 < 2 ^ 64 :=
    lt_of_lt_of_le (Nat.sub_lt (Nat.two_pow_pos k) Nat.one_pos) (Nat.pow_le_pow_right (by decide) hk)
  rw [BitVec.toNat_and, wrap_toNat, BitVec.toNat_ofNat, Nat.mod_eq_of_lt hlt, Nat.and_two_pow_sub_one_eq_mod,
    Nat.mod_mod_of_dvd _ (Nat.pow_dvd_pow 2 hk)]

/-! ### The operations of the protocol -/

namespace Wrapping

variable {g : Geometry}

/-- The slot of a wrapped position. -/
theorem slotId_wrap (n : ℕ) : (CounterOps.wrapping g).slotId (wrap n) = n % g.batchSize := by
  obtain ⟨k, hk, hB⟩ := g.batchSize_eq_pow
  simp only [CounterOps.wrapping, RingBufferIndex.asBatchSlotId, Geometry.atomicRef, hB]
  exact toNat_wrap_and_mask n hk

/-- The slot of a wrapped position, as a counter. -/
theorem asBatchSlotId_wrap (n : ℕ) :
    RingBufferIndex.asBatchSlotId ⟨wrap n, g.atomicRef⟩ = wrap (n % g.batchSize) := by
  refine BitVec.eq_of_toNat_eq ?_
  rw [wrap_toNat, Nat.mod_eq_of_lt ((Nat.mod_lt _ g.batchSize_pos).trans g.batchSize_lt)]
  exact slotId_wrap n

/-- The start of the batch of a wrapped position. -/
theorem lowerBound_wrap (n : ℕ) :
    (CounterOps.wrapping g).lowerBound (wrap n) = wrap (Blocks.lower g.batchSize n) := by
  simp only [CounterOps.wrapping, RingBufferIndex.asAbsoluteBatchLowerBound, asBatchSlotId_wrap]
  exact wrap_sub (Nat.mod_le n g.batchSize)

/-- The end of the batch of a wrapped position. -/
theorem higherBound_wrap (n : ℕ) :
    (CounterOps.wrapping g).higherBound (wrap n) = wrap (Blocks.lower g.batchSize n + g.batchSize) := by
  rw [← wrap_add, ← lowerBound_wrap]
  rfl

/-- A wrapped position further on. -/
theorem add_wrap (n k : ℕ) : (CounterOps.wrapping g).add (wrap n) k = wrap (n + k) := wrap_add n k

/-- The tracker of a wrapped position. -/
theorem batchId_wrap (hg : g.slots ≤ 2 ^ 64) (n : ℕ) :
    ((CounterOps.wrapping g).batchId (wrap n)).val = n / g.batchSize % g.capacity := by
  obtain ⟨k, hk, hslots⟩ := g.slots_eq_pow hg
  have hmask : (wrap n &&& g.atomicRef.ringMask).toNat = n % g.slots := by
    rw [Geometry.atomicRef, ← Geometry.slots, hslots]
    exact toNat_wrap_and_mask n hk
  simp only [CounterOps.wrapping, RingBufferIndex.asBatchId, BitVec.toNat_udiv, hmask]
  rw [Geometry.atomicRef, BitVec.toNat_ofNat, Nat.mod_eq_of_lt g.batchSize_lt, Geometry.slots,
    Nat.mul_comm, Nat.mod_mul_right_div_self]

/-- The slots that are left in the batch of a wrapped position. -/
theorem capacityInBatch_wrap (n : ℕ) :
    (CounterOps.wrapping g).capacityInBatch (wrap n) = Blocks.lower g.batchSize n + g.batchSize - n := by
  have hle := Blocks.lower_le g.batchSize n
  have hlt := Blocks.lt_lower_add g.batchSize_pos n
  have hB := g.batchSize_lt
  refine Eq.trans ?_ (toNat_wrap_sub hlt.le (by omega))
  rw [← higherBound_wrap]
  rfl

/-- The number of slots fits into a counter. -/
theorem toNat_slots (hg : g.slots < 2 ^ 64) : (BitVec.ofNat 64 (g.capacity * g.batchSize)).toNat = g.slots := by
  rw [BitVec.toNat_ofNat]
  exact Nat.mod_eq_of_lt hg

/-- The full check of a counter that is not behind the tail, on any ring whose size is a `usize`. -/
theorem isFull_wrap_of_le (hg : g.slots < 2 ^ 64) {a b : ℕ} (h : b ≤ a) (hd : a - b < 2 ^ 64) :
    (CounterOps.wrapping g).isFull (wrap a) (wrap b) = decide (g.slots ≤ a - b) := by
  simp only [CounterOps.wrapping, BitVec.le_def, toNat_slots hg, decide_eq_decide]
  rw [toNat_wrap_sub h hd]

/-- The full check of a counter behind the tail: the difference wraps around. -/
theorem isFull_wrap_of_lt (hg : g.slots ≤ 2 ^ 61) {a b : ℕ} (h : a < b) (hd : b ≤ a + 2 ^ 62) :
    (CounterOps.wrapping g).isFull (wrap a) (wrap b) = true := by
  simp only [CounterOps.wrapping, BitVec.le_def, toNat_slots (hg.trans_lt (by decide)), decide_eq_true_eq]
  rw [toNat_wrap_sub_of_lt h (by omega)]
  omega

/-- The full check: the distance when the counter is ahead of the tail, and full behind it. -/
theorem isFull_wrap (hg : g.slots ≤ 2 ^ 61) {a b : ℕ} (h : Near a b) :
    (CounterOps.wrapping g).isFull (wrap a) (wrap b) = decide (a < b ∨ g.slots ≤ a - b) := by
  obtain ⟨h₁, h₂⟩ := h
  rcases Nat.lt_or_ge a b with hlt | hge
  · rw [isFull_wrap_of_lt hg hlt h₂, decide_eq_true (.inl hlt)]
  · rw [isFull_wrap_of_le (hg.trans_lt (by decide)) hge (by omega), decide_eq_decide]
    omega

/-- Half of the range of a counter. -/
theorem halfRange_toNat : halfRange.toNat = 2 ^ 63 - 1 := rfl

/-- The comparison of `seal_current_batch` and of the tail walk. -/
theorem notBehind_wrap {a b : ℕ} (h₁ : a ≤ b + (2 ^ 62 + 2 ^ 61)) (h₂ : b ≤ a + (2 ^ 62 + 2 ^ 61)) :
    (CounterOps.wrapping g).notBehind (wrap a) (wrap b) = decide (b ≤ a) := by
  simp only [CounterOps.wrapping, BitVec.lt_def, halfRange_toNat, decide_eq_decide]
  rcases Nat.lt_or_ge a b with hlt | hge
  · rw [toNat_wrap_sub_of_lt hlt (by omega)]
    omega
  · rw [toNat_wrap_sub hge (by omega)]
    omega

/-- The assertion of `seal_current_batch`. -/
theorem notBehind_lowerBound_wrap (hg : g.slots ≤ 2 ^ 61) {a b : ℕ} (h : Near a b) :
    (CounterOps.wrapping g).notBehind (wrap a) ((CounterOps.wrapping g).lowerBound (wrap b)) =
      decide (Blocks.lower g.batchSize b ≤ a) := by
  obtain ⟨h₁, h₂⟩ := h
  have hB := g.batchSize_le_slots
  have hle := Blocks.lower_le g.batchSize b
  have hlt := Blocks.lt_lower_add g.batchSize_pos b
  rw [lowerBound_wrap]
  exact notBehind_wrap (by omega) (by omega)

/-- The stop test of the tail walk. -/
theorem notBehind_higherBound_wrap (hg : g.slots ≤ 2 ^ 61) {a b : ℕ} (h : Near a b) :
    (CounterOps.wrapping g).notBehind ((CounterOps.wrapping g).higherBound (wrap b)) (wrap a) =
      decide (a ≤ Blocks.lower g.batchSize b + g.batchSize) := by
  obtain ⟨h₁, h₂⟩ := h
  have hB := g.batchSize_le_slots
  have hle := Blocks.lower_le g.batchSize b
  have hlt := Blocks.lt_lower_add g.batchSize_pos b
  rw [higherBound_wrap]
  exact notBehind_wrap (by omega) (by omega)

/-- `head < upper bound`, with the distance. -/
theorem distToHigher_wrap (hg : g.slots ≤ 2 ^ 61) {n h : ℕ} (hnear : Near n h) :
    (CounterOps.wrapping g).distToHigher (wrap n) (wrap h) =
      if h < Blocks.lower g.batchSize n + g.batchSize then some (Blocks.lower g.batchSize n + g.batchSize - h)
      else none := by
  obtain ⟨h₁, h₂⟩ := hnear
  have hB := g.batchSize_le_slots
  have hle := Blocks.lower_le g.batchSize n
  have hlt := Blocks.lt_lower_add g.batchSize_pos n
  have hhigher : RingBufferIndex.asAbsoluteBatchHigherBound ⟨wrap n, g.atomicRef⟩ =
      wrap (Blocks.lower g.batchSize n + g.batchSize) := higherBound_wrap n
  simp only [CounterOps.wrapping, hhigher, BitVec.lt_def, halfRange_toNat,
    show (0 : Usize).toNat = 0 from rfl]
  rcases Nat.lt_or_ge h (Blocks.lower g.batchSize n + g.batchSize) with hin | hout
  · rw [toNat_wrap_sub hin.le (by omega), if_pos hin, if_pos (by omega)]
  · rw [if_neg (Nat.not_lt_of_le hout)]
    rcases hout.lt_or_eq with hlt' | heq
    · rw [toNat_wrap_sub_of_lt hlt' (by omega), if_neg (by omega)]
    · rw [heq, BitVec.sub_self]
      exact if_neg (by simp)

end Wrapping

/-- Counters of a kind that stand for positions, as far as `infer` uses them. -/
structure CounterOps.Represents {g : Geometry} {α : Type} (ops : CounterOps g α) (rep : ℕ → α) : Prop where
  batchId : ∀ p, ops.batchId (rep p) = g.cell p
  slotId : ∀ p, ops.slotId (rep p) = p % g.batchSize
  higherBound : ∀ p, ops.higherBound (rep p) = rep (Blocks.lower g.batchSize p + g.batchSize)
  capacityInBatch : ∀ p, ops.capacityInBatch (rep p) = Blocks.lower g.batchSize p + g.batchSize - p
  add : ∀ p k, ops.add (rep p) k = rep (p + k)

/-- Naturals represent themselves. -/
theorem CounterOps.unbounded_represents (g : Geometry) : (CounterOps.unbounded g).Represents id :=
  ⟨fun _ => rfl, fun _ => rfl, fun _ => rfl, fun _ => rfl, fun _ _ => rfl⟩

/-- Wrapped counters represent naturals. -/
theorem CounterOps.wrapping_represents {g : Geometry} (hg : g.slots ≤ 2 ^ 64) :
    (CounterOps.wrapping g).Represents wrap :=
  ⟨fun p => Fin.ext (Wrapping.batchId_wrap hg p), Wrapping.slotId_wrap, Wrapping.higherBound_wrap,
    Wrapping.capacityInBatch_wrap, Wrapping.add_wrap⟩

end Toutates
