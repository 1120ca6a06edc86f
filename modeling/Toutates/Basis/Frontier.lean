/-
# How far a walk gets

A walk goes over the blocks of `B` positions one by one and stops in front of the first that does
not satisfy `P`.  `Frontier B P t t'` says that a walk from `t` stops at `t'`.

What is known of the walk does not depend on how it is cut into pieces: when more and more blocks
satisfy `P`, a walk that goes on from where the last one stopped gets as far as one that starts
over (`Frontier.extend`), and where it gets to is determined (`Frontier.unique`).
-/

import Mathlib.Algebra.Order.Group.Nat
import Mathlib.Order.Basic
import Toutates.Basis.Blocks

namespace Basis

/-- A walk from `t` over blocks that satisfy `P` stops at `t'`. -/
structure Frontier (B : ℕ) (P : ℕ → Prop) (t t' : ℕ) : Prop where
  le : t ≤ t'
  dvd : B ∣ t'
  holds : ∀ q, B ∣ q → t ≤ q → q < t' → P q
  stops : ¬ P t'

namespace Frontier

variable {B t t' a b : ℕ} {P Q : ℕ → Prop}

/-- A frontier where nothing is to be passed. -/
theorem here (ht : B ∣ t) (h : ¬ P t) : Frontier B P t t :=
  ⟨le_rfl, ht, fun _ _ h₁ h₂ => absurd h₁ (Nat.not_le_of_lt h₂), h⟩

/-- One block, and the walk from the next. -/
theorem step (ht : B ∣ t) (hP : P t) (h : Frontier B P (t + B) t') : Frontier B P t t' := by
  refine ⟨(Nat.le_add_right t B).trans h.le, h.dvd, fun q hq h₁ h₂ => ?_, h.stops⟩
  rcases h₁.eq_or_lt with rfl | hlt
  · exact hP
  · exact h.holds q hq (Blocks.add_le_of_dvd ht hq hlt) h₂

/-- There is one frontier. -/
theorem unique (ha : Frontier B P t a) (hb : Frontier B P t b) : a = b := by
  rcases lt_trichotomy a b with h | h | h
  · exact absurd (hb.holds a ha.dvd ha.le h) ha.stops
  · exact h
  · exact absurd (ha.holds b hb.dvd hb.le h) hb.stops

/-- A walk over fewer blocks, and a walk on from there. -/
theorem extend (hle : t ≤ a) (hP : ∀ q, B ∣ q → t ≤ q → q < a → P q) (h : Frontier B P a b) :
    Frontier B P t b := by
  refine ⟨hle.trans h.le, h.dvd, fun q hq h₁ h₂ => ?_, h.stops⟩
  rcases Nat.lt_or_ge q a with hlt | hge
  · exact hP q hq h₁ hlt
  · exact h.holds q hq hge h₂

/-- A frontier looks at the blocks from its start on. -/
theorem congr (h : Frontier B P t t') (hPQ : ∀ q, B ∣ q → t ≤ q → (P q ↔ Q q)) : Frontier B Q t t' :=
  ⟨h.le, h.dvd, fun q hq h₁ h₂ => (hPQ q hq h₁).1 (h.holds q hq h₁ h₂),
    fun hQ => h.stops ((hPQ t' h.dvd h.le).2 hQ)⟩

end Frontier

end Basis
