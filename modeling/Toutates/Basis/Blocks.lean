/-
# Positions cut into blocks, blocks arranged in a ring

A counter that only grows, read as a position: positions fall into blocks of `B`
consecutive ones, and the blocks are dealt to `c` cells in turn, so cell `x`
holds block `x` in lap `0`, block `x + c` in lap `1`, and so on.

A position is given by its offset in its block, the cell (`cell`) and the lap
(`lap`) of that block; a block is its first position, a multiple of `B`
(`lower`).  Two blocks of one window of `c * B` positions are held by different
cells (`eq_of_cell_eq`), and cell and lap together name one block
(`eq_of_cell_lap_eq`, `start`).

`filled S p B` counts the positions of the block at `p` that lie in a set `S`;
it is the arithmetic of a counter that is increased once per position, by pieces
of a block, each position at most once.
-/

import Mathlib.Data.Set.Card
import Mathlib.Data.Nat.ModEq
import Mathlib.Order.Interval.Finset.Nat

namespace Basis

namespace Blocks

/-- The first position of the block that `n` lies in. -/
def lower (B n : ℕ) : ℕ := n - n % B

/-- The cell that holds the block of `n`. -/
def cell (B c n : ℕ) : ℕ := n / B % c

/-- The lap in which that cell holds it. -/
def lap (B c n : ℕ) : ℕ := n / B / c

/-- The block that cell `x` holds in lap `k`. -/
def start (B c x k : ℕ) : ℕ := (x + c * k) * B

variable {B c : ℕ}

/-- The bound below a number is the start of a block. -/
theorem lower_dvd (B n : ℕ) : B ∣ lower B n := Nat.dvd_sub_mod n

/-- The bound below a number is not above it. -/
theorem lower_le (B n : ℕ) : lower B n ≤ n := Nat.sub_le _ _

/-- What a number is into its block is the rest. -/
theorem lower_add_mod (B n : ℕ) : lower B n + n % B = n := Nat.sub_add_cancel (Nat.mod_le n B)

/-- A number is below the end of its block. -/
theorem lt_lower_add (hB : 0 < B) (n : ℕ) : n < lower B n + B := by
  have h₁ := lower_add_mod B n
  have h₂ := Nat.mod_lt n hB
  omega

/-- The start of a block is its own bound. -/
theorem lower_eq_of_dvd {n : ℕ} (h : B ∣ n) : lower B n = n := by
  rw [lower, Nat.mod_eq_zero_of_dvd h, Nat.sub_zero]

/-- Multiples of `B` that are not equal are at least `B` apart. -/
theorem add_le_of_dvd {p q : ℕ} (hp : B ∣ p) (hq : B ∣ q) (h : p < q) : p + B ≤ q := by
  obtain ⟨a, rfl⟩ := hp
  obtain ⟨b, rfl⟩ := hq
  have hab : a + 1 ≤ b := Nat.lt_of_mul_lt_mul_left h
  calc B * a + B = B * (a + 1) := by rw [Nat.mul_add, Nat.mul_one]
    _ ≤ B * b := Nat.mul_le_mul_left B hab

/-- A multiple of `B` below the end of a block is below the block, or is the block. -/
theorem lt_or_eq_of_lt_add {p q : ℕ} (hp : B ∣ p) (hq : B ∣ q) (h : q < p + B) : q < p ∨ q = p := by
  rcases lt_trichotomy q p with hlt | heq | hgt
  · exact .inl hlt
  · exact .inr heq
  · have := add_le_of_dvd hp hq hgt
    omega

/-- A position between `p` and `p + B` lies in the block at `p`. -/
theorem lower_eq {p n : ℕ} (hB : 0 < B) (hp : B ∣ p) (h₁ : p ≤ n) (h₂ : n < p + B) :
    lower B n = p := by
  have hl := lower_le B n
  have hu := lt_lower_add hB n
  rcases lt_trichotomy (lower B n) p with h | h | h
  · have := add_le_of_dvd (lower_dvd B n) hp h
    omega
  · exact h
  · have := add_le_of_dvd hp (lower_dvd B n) h
    omega

/-- A number and the bound below it are in the same block. -/
theorem lower_div (hB : 0 < B) (n : ℕ) : lower B n / B = n / B := by
  have h : lower B n = B * (n / B) := by
    have h₁ := lower_add_mod B n
    have h₂ := Nat.div_add_mod n B
    omega
  rw [h, Nat.mul_div_cancel_left _ hB]

/-- A number and the bound below it are in the same cell. -/
@[simp] theorem cell_lower (hB : 0 < B) (c n : ℕ) : cell B c (lower B n) = cell B c n := by
  rw [cell, lower_div hB, cell]

/-- A number and the bound below it are in the same lap. -/
@[simp] theorem lap_lower (hB : 0 < B) (c n : ℕ) : lap B c (lower B n) = lap B c n := by
  rw [lap, lower_div hB, lap]

/-- Cells are below the size of the ring. -/
theorem cell_lt (hc : 0 < c) (n : ℕ) : cell B c n < c := Nat.mod_lt _ hc

/-- What starts a block is a multiple of the size. -/
theorem start_dvd (B c x k : ℕ) : B ∣ start B c x k := Dvd.intro_left _ rfl

/-- Cell and lap of a block name it. -/
theorem start_cell_lap {p : ℕ} (hp : B ∣ p) : start B c (cell B c p) (lap B c p) = p := by
  rw [start, cell, lap, Nat.mod_add_div]
  exact Nat.div_mul_cancel hp

/-- The block of a cell in a lap is in that cell. -/
theorem cell_start (hB : 0 < B) {x : ℕ} (hx : x < c) (k : ℕ) : cell B c (start B c x k) = x := by
  rw [cell, start, Nat.mul_div_cancel _ hB, Nat.add_mul_mod_self_left, Nat.mod_eq_of_lt hx]

/-- The block of a cell in a lap is in that lap. -/
theorem lap_start (hB : 0 < B) {x : ℕ} (hx : x < c) (k : ℕ) : lap B c (start B c x k) = k := by
  rw [lap, start, Nat.mul_div_cancel _ hB, Nat.add_mul_div_left _ _ (by omega), Nat.div_eq_of_lt hx,
    Nat.zero_add]

/-- Blocks with the same cell and the same lap are the same. -/
theorem eq_of_cell_lap_eq {p q : ℕ} (hp : B ∣ p) (hq : B ∣ q) (hcell : cell B c p = cell B c q)
    (hlap : lap B c p = lap B c q) : p = q := by
  rw [← start_cell_lap (c := c) hp, hcell, hlap, start_cell_lap hq]

/-- One turn of the ring later the same cell is in its next lap. -/
theorem cell_add_ring (hB : 0 < B) (c p : ℕ) : cell B c (p + c * B) = cell B c p := by
  rw [cell, Nat.add_mul_div_right _ _ hB, Nat.add_mod_right, cell]

/-- A ring further on is the next lap. -/
theorem lap_add_ring (hB : 0 < B) (hc : 0 < c) (p : ℕ) : lap B c (p + c * B) = lap B c p + 1 := by
  rw [lap, Nat.add_mul_div_right _ _ hB, Nat.add_div_right _ hc, lap]

/-- **Blocks of one window are in different cells.** -/
theorem eq_of_cell_eq {t p q : ℕ} (hB : 0 < B) (hp : B ∣ p) (hq : B ∣ q) (hp₁ : t ≤ p)
    (hp₂ : p < t + c * B) (hq₁ : t ≤ q) (hq₂ : q < t + c * B) (h : cell B c p = cell B c q) :
    p = q := by
  obtain ⟨a, rfl⟩ := hp
  obtain ⟨b, rfl⟩ := hq
  have hab : a < b + c := by
    refine Nat.lt_of_mul_lt_mul_left (a := B) ?_
    rw [Nat.mul_add, Nat.mul_comm B c]
    omega
  have hba : b < a + c := by
    refine Nat.lt_of_mul_lt_mul_left (a := B) ?_
    rw [Nat.mul_add, Nat.mul_comm B c]
    omega
  simp only [cell, Nat.mul_div_cancel_left _ hB] at h
  rcases le_total a b with hle | hle
  · rw [Nat.ModEq.eq_of_abs_lt (show a ≡ b [MOD c] from h) (by rw [abs_lt]; omega)]
  · rw [Nat.ModEq.eq_of_abs_lt (show a ≡ b [MOD c] from h) (by rw [abs_lt]; omega)]

/-- Every cell has a block in every window. -/
theorem exists_cell_eq {t x : ℕ} (hB : 0 < B) (ht : B ∣ t) (hx : x < c) :
    ∃ q, B ∣ q ∧ t ≤ q ∧ q < t + c * B ∧ cell B c q = x := by
  obtain ⟨a, rfl⟩ := ht
  have hmod := Nat.mod_lt a (Nat.zero_lt_of_lt hx)
  have hdiv := Nat.mod_add_div a c
  -- the block of `x` in the lap of `t`, or in the next
  obtain ⟨k, hk₁, hk₂⟩ : ∃ k, a ≤ x + c * k ∧ x + c * k < a + c := by
    rcases Nat.lt_or_ge x (a % c) with hlt | hge
    · exact ⟨a / c + 1, by rw [Nat.mul_add, Nat.mul_one]; omega, by rw [Nat.mul_add, Nat.mul_one]; omega⟩
    · exact ⟨a / c, by omega, by omega⟩
  refine ⟨start B c x k, start_dvd B c x k, ?_, ?_, cell_start hB hx k⟩
  · rw [start, Nat.mul_comm B a]
    exact Nat.mul_le_mul_right B hk₁
  · rw [start, Nat.mul_comm B a, ← Nat.add_mul]
    exact Nat.mul_lt_mul_of_pos_right hk₂ hB

end Blocks

/-- How many positions of the block at `p` lie in `S`. -/
noncomputable def filled (S : Set ℕ) (p B : ℕ) : ℕ := (S ∩ Set.Ico p (p + B)).ncard

section Filled

variable {S T : Set ℕ} {p B a k : ℕ}

/-- A block holds finitely many numbers. -/
private theorem finite_inter (S : Set ℕ) (p B : ℕ) : (S ∩ Set.Ico p (p + B)).Finite :=
  (Set.finite_Ico p (p + B)).subset Set.inter_subset_right

/-- Only what is in the block counts. -/
theorem filled_congr (h : ∀ q, p ≤ q → q < p + B → (q ∈ S ↔ q ∈ T)) : filled S p B = filled T p B := by
  unfold filled
  congr 1
  ext q
  simp only [Set.mem_inter_iff, Set.mem_Ico]
  constructor
  · rintro ⟨hq, h₁, h₂⟩
    exact ⟨(h q h₁ h₂).1 hq, h₁, h₂⟩
  · rintro ⟨hq, h₁, h₂⟩
    exact ⟨(h q h₁ h₂).2 hq, h₁, h₂⟩

/-- A piece of the block that was not counted before adds its length. -/
theorem filled_union_Ico (h₁ : p ≤ a) (h₂ : a + k ≤ p + B) (hdis : ∀ q, a ≤ q → q < a + k → q ∉ S) :
    filled (S ∪ Set.Ico a (a + k)) p B = filled S p B + k := by
  have hsub : Set.Ico a (a + k) ⊆ Set.Ico p (p + B) := Set.Ico_subset_Ico h₁ h₂
  have hd : Disjoint (S ∩ Set.Ico p (p + B)) (Set.Ico a (a + k)) := by
    rw [Set.disjoint_left]
    rintro q ⟨hq, -⟩ ⟨h, h'⟩
    exact hdis q h h' hq
  have hk : (Set.Ico a (a + k)).ncard = k := by
    rw [← Finset.coe_Ico, Set.ncard_coe_finset, Nat.card_Ico]
    omega
  unfold filled
  rw [Set.union_inter_distrib_right, Set.inter_eq_left.2 hsub,
    Set.ncard_union_eq hd (finite_inter S p B) (Set.finite_Ico a (a + k)), hk]

/-- A prefix of the block has its length. -/
theorem filled_of_initial (hk : k ≤ B) (h : ∀ q, p ≤ q → q < p + B → (q ∈ S ↔ q < p + k)) :
    filled S p B = k := by
  have hset : S ∩ Set.Ico p (p + B) = Set.Ico p (p + k) := by
    ext q
    simp only [Set.mem_inter_iff, Set.mem_Ico]
    constructor
    · rintro ⟨hq, h₁, h₂⟩
      exact ⟨h₁, (h q h₁ h₂).1 hq⟩
    · rintro ⟨h₁, h₂⟩
      exact ⟨(h q h₁ (by omega)).2 h₂, h₁, by omega⟩
  rw [filled, hset, ← Finset.coe_Ico, Set.ncard_coe_finset, Nat.card_Ico]
  omega

/-- More numbers fill more of a block. -/
theorem filled_mono (h : S ⊆ T) : filled S p B ≤ filled T p B :=
  Set.ncard_le_ncard (Set.inter_subset_inter_left _ h) (finite_inter T p B)

/-- A block is not filled beyond its size. -/
theorem filled_le : filled S p B ≤ B := by
  calc filled S p B ≤ (Set.Ico p (p + B)).ncard := Set.ncard_le_ncard Set.inter_subset_right (Set.finite_Ico _ _)
    _ = B := by rw [← Finset.coe_Ico, Set.ncard_coe_finset, Nat.card_Ico, Nat.add_sub_cancel_left]

/-- A subset with as many positions in the block has all of them. -/
theorem mem_of_filled_eq (h : S ⊆ T) (hcard : filled S p B = filled T p B) {q : ℕ} (h₁ : p ≤ q)
    (h₂ : q < p + B) (hq : q ∈ T) : q ∈ S := by
  have heq := Set.eq_of_subset_of_ncard_le (Set.inter_subset_inter_left (Set.Ico p (p + B)) h)
    (le_of_eq hcard.symm) (finite_inter T p B)
  exact (heq.symm.subset ⟨hq, h₁, h₂⟩).1

end Filled

end Basis
