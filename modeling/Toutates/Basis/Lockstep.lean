/-
# Two programs in lockstep

The same program over two kinds of shared state, local state and events, with maps from the
one kind to the other.  Where every step of the second program is the image of the step of the
first, a run of the second program is the image of a run of the first.

The two need not agree everywhere: `ReachIf.lockstep` asks for agreement in the worlds that an
invariant of the first run describes, and takes the condition on the second run to keep it.
-/

import Toutates.Basis.Interleaving

namespace Basis

variable {σ σ' ℓ ℓ' ε ε' π α : Type*}

/-- The image of what a step does. -/
def Outcome.map (f : σ → σ') (k : ℓ → ℓ') (m : ε → ε') : Outcome σ ℓ ε π → Outcome σ' ℓ' ε' π
  | .blocked => .blocked
  | .panicked site => .panicked site
  | .next s l e => .next (f s) (k l) (e.map m)

/-- The image of a world. -/
def World.map (f : σ → σ') (k : ℓ → ℓ') (m : ε → ε') (w : World σ ℓ ε) : World σ' ℓ' ε' where
  shared := f w.shared
  threads i := k (w.threads i)
  log := w.log.map m

section

variable {f : σ → σ'} {k : ℓ → ℓ'} {m : ε → ε'} {P : Program σ ℓ ε π α} {Q : Program σ' ℓ' ε' π α}

/-- Two programs agree on an action in a world and its image. -/
def Agree (f : σ → σ') (k : ℓ → ℓ') (m : ε → ε') (P : Program σ ℓ ε π α) (Q : Program σ' ℓ' ε' π α)
    (w : World σ ℓ ε) (a : Action α) : Prop :=
  Q a.thread (f w.shared) (k (w.threads a.thread)) a.choice =
    (P a.thread w.shared (w.threads a.thread) a.choice).map f k m

/-- Where the programs agree, the world after the step is the image of the world after the step. -/
theorem Agree.step {w : World σ ℓ ε} {a : Action α} (h : Agree f k m P Q w a) :
    Q.step (w.map f k m) a = (P.step w a).map (World.map f k m) := by
  unfold Program.step
  rw [show Q a.thread (w.map f k m).shared ((w.map f k m).threads a.thread) a.choice = _ from h]
  cases hP : P a.thread w.shared (w.threads a.thread) a.choice with
  | blocked => rfl
  | panicked site => rfl
  | next s l e =>
    have hthreads : Function.update (w.map f k m).threads a.thread (k l) =
        fun i => k (Function.update w.threads a.thread l i) := by
      funext i
      by_cases hi : i = a.thread
      · subst hi
        simp only [Function.update_self]
      · simp only [Function.update_of_ne hi, World.map]
    simp only [Outcome.map, Option.map_some, World.map, List.map_append, Option.some.injEq,
      World.mk.injEq, true_and]
    refine ⟨hthreads, ?_⟩
    cases e with
    | none => rfl
    | some e => rfl

/-- **The simulation rule.**  If the programs agree in every world described by `I`, and `I`
survives the steps that the condition on the second run allows, a run of the second program is
the image of a run of the first. -/
theorem ReachIf.lockstep {ok : World σ' ℓ' ε' → Action α → Prop} {I : World σ ℓ ε → Prop}
    {w₀ : World σ ℓ ε} {v : World σ' ℓ' ε'} (h : ReachIf Q ok (w₀.map f k m) v) (h₀ : I w₀)
    (hagree : ∀ w a, I w → ok (w.map f k m) a → Agree f k m P Q w a)
    (hstep : ∀ w a w', I w → ok (w.map f k m) a → P.step w a = some w' → I w') :
    ∃ w, Reach P (fun _ _ _ _ => True) w₀ w ∧ I w ∧ v = w.map f k m := by
  refine h.invariant (I := fun v => ∃ w, Reach P (fun _ _ _ _ => True) w₀ w ∧ I w ∧ v = w.map f k m)
    ⟨w₀, Reach.start, h₀, rfl⟩ fun v a v' hv hok hs => ?_
  obtain ⟨w, hw, hI, rfl⟩ := hv
  rw [(hagree w a hI hok).step] at hs
  obtain ⟨w', hw', rfl⟩ := Option.map_eq_some_iff.1 hs
  exact ⟨w', hw.tail True.intro hw', hstep w a w' hI hok hw', rfl⟩

end

end Basis
