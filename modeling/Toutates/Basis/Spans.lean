/-
# Spans of positions handed out by a counter

A span `(h, n)` is the `n` positions from `h` on.  A counter that is only ever added to
hands out spans one after the other, each from where the last one ended; written newest
first, such a list is `Stacked` up to the value of the counter.  The spans of a stacked list
end below the counter (`Stacked.end_le`) and are apart (`Stacked.pairwise`).
-/

import Mathlib.Data.Set.Lattice
import Mathlib.Order.Interval.Set.Basic
import Mathlib.Algebra.Order.Group.Nat

namespace Basis

/-- The positions of the spans of a list. -/
def covered (l : List (ℕ × ℕ)) : Set ℕ := {q | ∃ a ∈ l, a.1 ≤ q ∧ q < a.1 + a.2}

/-- No spans cover nothing. -/
@[simp] theorem covered_nil : covered [] = ∅ := by
  ext q
  simp [covered]

/-- One more span covers its numbers. -/
theorem covered_cons (a : ℕ × ℕ) (l : List (ℕ × ℕ)) :
    covered (a :: l) = covered l ∪ Set.Ico a.1 (a.1 + a.2) := by
  ext q
  simp only [covered, List.mem_cons, Set.mem_ofPred_eq, Set.mem_union, Set.mem_Ico]
  constructor
  · rintro ⟨b, rfl | hb, hq⟩
    · exact .inr hq
    · exact .inl ⟨b, hb, hq⟩
  · rintro (⟨b, hb, hq⟩ | hq)
    · exact ⟨b, .inr hb, hq⟩
    · exact ⟨a, .inl rfl, hq⟩

/-- What one more span covers. -/
theorem mem_covered_cons {a : ℕ × ℕ} {l : List (ℕ × ℕ)} {q : ℕ} :
    q ∈ covered (a :: l) ↔ q ∈ covered l ∨ a.1 ≤ q ∧ q < a.1 + a.2 := by
  rw [covered_cons, Set.mem_union, Set.mem_Ico]

/-- The spans of a list, newest first, follow one another from `0` up to `n`. -/
inductive Stacked : List (ℕ × ℕ) → ℕ → Prop where
  | nil : Stacked [] 0
  | cons {l : List (ℕ × ℕ)} {h : ℕ} (n : ℕ) (hl : Stacked l h) : Stacked ((h, n) :: l) (h + n)

namespace Stacked

variable {l : List (ℕ × ℕ)} {n : ℕ}

/-- No span of a stack ends behind the top. -/
theorem end_le (hl : Stacked l n) : ∀ a ∈ l, a.1 + a.2 ≤ n := by
  induction hl with
  | nil => exact fun a ha => absurd ha List.not_mem_nil
  | cons k hl ih =>
    intro a ha
    rcases List.mem_cons.1 ha with rfl | ha
    · exact le_rfl
    · exact (ih a ha).trans (Nat.le_add_right _ _)

/-- A span starts where all older ones have ended. -/
theorem pairwise (hl : Stacked l n) : l.Pairwise fun a b => b.1 + b.2 ≤ a.1 := by
  induction hl with
  | nil => exact List.Pairwise.nil
  | cons k hl ih => exact List.pairwise_cons.2 ⟨fun b hb => hl.end_le b hb, ih⟩

end Stacked

end Basis
