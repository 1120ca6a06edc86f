/-
# A thread by itself

The steps of one thread while no other thread moves, as a relation on its own state and the shared
one (`Program.Solo`).  Such a run is a run of the whole program, in whatever world it starts
(`Program.Solo.reach`).
-/

import Toutates.Basis.Interleaving

namespace Basis

namespace Program

variable {σ ℓ ε π α : Type*} {P : Program σ ℓ ε π α} {ok : Guard σ ℓ α} {i : ℕ}

/-- One step of thread `i`. -/
def SoloStep (P : Program σ ℓ ε π α) (ok : Guard σ ℓ α) (i : ℕ) (a b : ℓ × σ) : Prop :=
  ∃ c e, ok i a.2 a.1 c ∧ P i a.2 a.1 c = .next b.2 b.1 e

/-- A run of thread `i` by itself, each of its steps allowed by `ok`. -/
def Solo (P : Program σ ℓ ε π α) (ok : Guard σ ℓ α) (i : ℕ) : ℓ × σ → ℓ × σ → Prop :=
  Relation.ReflTransGen (SoloStep P ok i)

namespace Solo

/-- A thread that takes no step. -/
theorem refl {a : ℓ × σ} : Solo P ok i a a := Relation.ReflTransGen.refl

/-- One run of a thread after the other. -/
theorem trans {a b c : ℓ × σ} (h : Solo P ok i a b) (h' : Solo P ok i b c) : Solo P ok i a c :=
  Relation.ReflTransGen.trans h h'

/-- One step, and a run from there. -/
theorem head {l l' : ℓ} {s s' : σ} {c : α} {e : Option ε} {b : ℓ × σ} (hok : ok i s l c)
    (hP : P i s l c = .next s' l' e) (h : Solo P ok i (l', s') b) : Solo P ok i (l, s) b :=
  Relation.ReflTransGen.head ⟨c, e, hok, hP⟩ h

/-- **A run of one thread is a run**, and leaves the other threads where they are. -/
theorem reach {w : World σ ℓ ε} {b : ℓ × σ} (h : Solo P ok i (w.threads i, w.shared) b) :
    ∃ w', Reach P ok w w' ∧ w'.threads i = b.1 ∧ w'.shared = b.2 ∧ ∀ j, j ≠ i → w'.threads j = w.threads j := by
  induction h with
  | refl => exact ⟨w, Reach.start, rfl, rfl, fun _ _ => rfl⟩
  | @tail a b _ hs ih =>
    obtain ⟨v, hv, hl, hsh, hothers⟩ := ih
    obtain ⟨c, e, hok, hP⟩ := hs
    rw [← hl, ← hsh] at hP hok
    obtain ⟨w', hs, hw', hpc, -⟩ := Program.step_of_next hP
    exact ⟨w', hv.tail hok hs, hpc, hw', fun j hj => (Program.step_threads hs hj).trans (hothers j hj)⟩

end Solo

end Program

end Basis
