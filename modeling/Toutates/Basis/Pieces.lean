/-
# A range of positions cut at the ends of blocks

`Pieces B h n l` says that `l` is the range of the `n` positions from `h` on, cut wherever a block
of `B` positions ends: its first position and its length for each piece, in order.  Every piece is
as long as it can be, so the list is determined by `h` and `n` (`Pieces.unique`), and the number of
pieces is `n / B` exactly when the range starts and ends with a block
(`Pieces.length_mul_eq_iff`).
-/

import Mathlib.Data.List.Range
import Mathlib.Algebra.BigOperators.Group.List.Basic
import Toutates.Basis.Blocks

namespace Basis

/-- The pieces of the `n` positions from `h` on. -/
inductive Pieces (B : ℕ) : ℕ → ℕ → List (ℕ × ℕ) → Prop where
  | last {h n : ℕ} (hpos : 0 < n) (hend : h + n ≤ Blocks.lower B h + B) : Pieces B h n [(h, n)]
  | cons {h k n : ℕ} {l : List (ℕ × ℕ)} (hend : h + k = Blocks.lower B h + B) (hrest : Pieces B (h + k) n l) :
    Pieces B h (k + n) ((h, k) :: l)

namespace Pieces

variable {B h n : ℕ} {l : List (ℕ × ℕ)}

/-- A request in pieces has a row. -/
theorem pos (hp : Pieces B h n l) : 0 < n := by
  induction hp with
  | last hpos => exact hpos
  | cons _ _ ih => exact Nat.add_pos_right _ ih

/-- The rows of the pieces are those of the request. -/
theorem sum (hp : Pieces B h n l) : (l.map Prod.snd).sum = n := by
  induction hp with
  | last => rfl
  | cons _ _ ih => rw [List.map_cons, List.sum_cons, ih]

/-- The pieces are the positions, in order. -/
theorem flatMap_range' (hp : Pieces B h n l) : (l.flatMap fun p => List.range' p.1 p.2) = List.range' h n := by
  induction hp with
  | last => rw [List.flatMap_singleton]
  | cons _ _ ih => rw [List.flatMap_cons, ih, List.range'_append_1]

/-- Every piece is a part of one block, and not empty. -/
theorem mem (hB : 0 < B) (hp : Pieces B h n l) : ∀ p ∈ l, 0 < p.2 ∧ h ≤ p.1 ∧ p.1 + p.2 ≤ h + n ∧
    p.1 + p.2 ≤ Blocks.lower B p.1 + B := by
  induction hp with
  | last hpos hend =>
    intro p hp
    obtain rfl := List.mem_singleton.1 hp
    exact ⟨hpos, le_rfl, le_rfl, hend⟩
  | @cons h k n l hend hrest ih =>
    intro p hp
    rcases List.mem_cons.1 hp with rfl | hp
    · have hlt := Blocks.lt_lower_add hB h
      exact ⟨by simp only; omega, le_rfl, by simp only; omega, hend.le⟩
    · obtain ⟨h₁, h₂, h₃, h₄⟩ := ih p hp
      exact ⟨h₁, by omega, by omega, h₄⟩

/-- So many rows need so many pieces. -/
theorem length_mul_le (hp : Pieces B h n l) : n ≤ l.length * B := by
  induction hp with
  | @last h n _ hend =>
    have := Blocks.lower_le B h
    rw [List.length_singleton, Nat.one_mul]
    omega
  | @cons h k n l hend _ ih =>
    have := Blocks.lower_le B h
    rw [List.length_cons, Nat.add_mul, Nat.one_mul]
    omega

/-- **There are as many positions as the blocks they touch have exactly if they are these
blocks.** -/
theorem length_mul_eq_iff (hp : Pieces B h n l) : l.length * B = n ↔ B ∣ h ∧ B ∣ n := by
  induction hp with
  | @last h n hpos hend =>
    have hle := Blocks.lower_le B h
    rw [List.length_singleton, Nat.one_mul]
    constructor
    · rintro rfl
      have heq : Blocks.lower B h = h := by omega
      exact ⟨heq ▸ Blocks.lower_dvd B h, dvd_rfl⟩
    · rintro ⟨hh, hn⟩
      rw [Blocks.lower_eq_of_dvd hh] at hend
      exact le_antisymm (Nat.le_of_dvd hpos hn) (by omega)
  | @cons h k n l hend hrest ih =>
    have hle := Blocks.lower_le B h
    have hsum := hrest.length_mul_le
    have hnext : B ∣ h + k := hend ▸ (Nat.dvd_add_self_right.2 (Blocks.lower_dvd B h))
    rw [List.length_cons, Nat.add_mul, Nat.one_mul]
    constructor
    · intro heq
      have hk : k = B := by omega
      have hn := (ih.1 (by omega)).2
      have hh : Blocks.lower B h = h := by omega
      exact ⟨hh ▸ Blocks.lower_dvd B h, (Nat.dvd_add_right (dvd_of_eq hk.symm)).2 hn⟩
    · rintro ⟨hh, hkn⟩
      rw [Blocks.lower_eq_of_dvd hh] at hend
      obtain rfl : k = B := by omega
      have hn := (Nat.dvd_add_right (dvd_refl k)).1 hkn
      have := ih.2 ⟨hnext, hn⟩
      omega

/-- The pieces of a range are determined by it. -/
theorem unique {l' : List (ℕ × ℕ)} (hp : Pieces B h n l) (hp' : Pieces B h n l') : l = l' := by
  induction hp generalizing l' with
  | @last h n hpos hend =>
    cases hp' with
    | last => rfl
    | cons hend' hrest =>
      have := hrest.pos
      omega
  | @cons h k n l hend hrest ih =>
    generalize hm : k + n = m at hp'
    cases hp' with
    | last _ hend' =>
      have := hrest.pos
      omega
    | @cons _ k' n' _ hend' hrest' =>
      obtain rfl : k = k' := by omega
      obtain rfl : n = n' := by omega
      rw [ih hrest']

/-- What is asked of all pieces, or of the first only. -/
theorem forall_iff {m : ℕ} (hp : Pieces B h n ((h, m) :: l)) (hbehind : ∀ q ∈ l, h < q.1) {P : ℕ × ℕ → Prop}
    {all : Prop} : (∀ pieces, Pieces B h n pieces → ∀ q ∈ pieces, (q.1 = h ∨ all) → P q) ↔
      P (h, m) ∧ (all → ∀ q ∈ l, P q) := by
  constructor
  · exact fun hall => ⟨hall _ hp _ List.mem_cons_self (.inl rfl),
      fun hothers q hq => hall _ hp q (List.mem_cons_of_mem _ hq) (.inr hothers)⟩
  · rintro ⟨hfirst, hothers⟩ pieces hpieces q hq hor
    rw [hpieces.unique hp] at hq
    rcases List.mem_cons.1 hq with rfl | hq
    · exact hfirst
    · exact hothers (hor.resolve_left (hbehind q hq).ne') q hq

/-- Every range that is not empty can be cut. -/
theorem exists_of_pos (hB : 0 < B) (h : ℕ) (hn : 0 < n) : ∃ l, Pieces B h n l := by
  induction n using Nat.strong_induction_on generalizing h with
  | _ n ih =>
    have hlt := Blocks.lt_lower_add hB h
    rcases Nat.lt_or_ge (Blocks.lower B h + B) (h + n) with hmore | hend
    · obtain ⟨k, hk⟩ := Nat.exists_eq_add_of_lt hlt
      have hsize : n = (k + 1) + (n - (k + 1)) := by omega
      obtain ⟨l, hl⟩ := ih (n - (k + 1)) (by omega) (h + (k + 1)) (by omega)
      refine ⟨(h, k + 1) :: l, ?_⟩
      rw [hsize]
      exact .cons (by omega) hl
    · exact ⟨[(h, n)], .last hn hend⟩

end Pieces

end Basis
