/-
# Threads that are dropped

A thread that is dropped where it waits takes no step any more.  All that is left of it is what `drop` makes of
the shared state; `Program.droppable` is the program whose threads may go away like that.

If nobody can tell what a drop has done (`Discreet`), it is as if the thread had only stopped:
`Reach.of_droppable` finds for every run with drops one without, in which whoever was dropped never moves again.
What the two worlds have in common is `Stopped`, and the threads that are left can do the same in both
(`Stopped.panics_iff`, `Stopped.step`).
-/

import Toutates.Basis.Lockstep

namespace Basis

variable {σ τ ℓ ε π α : Type*}

namespace Outcome

variable {σ' ℓ' ε' : Type*} {f : σ → σ'} {k : ℓ → ℓ'} {m : ε → ε'} {o : Outcome σ ℓ ε π}

/-- A step seen through a map comes from a step. -/
theorem map_eq_next {s' : σ'} {l' : ℓ'} {e' : Option ε'} :
    o.map f k m = .next s' l' e' ↔ ∃ s l e, o = .next s l e ∧ f s = s' ∧ k l = l' ∧ e.map m = e' := by
  cases o with
  | next s l e =>
    constructor
    · rintro ⟨⟩
      exact ⟨s, l, e, rfl, rfl, rfl, rfl⟩
    · rintro ⟨_, _, _, ⟨⟩, rfl, rfl, rfl⟩
      rfl
  | _ =>
    constructor
    · rintro ⟨⟩
    · rintro ⟨_, _, _, ⟨⟩, -⟩

/-- A panic seen through a map is a panic. -/
theorem map_eq_panicked {site : π} : o.map f k m = .panicked site ↔ o = .panicked site := by
  cases o with
  | panicked site' => exact ⟨fun h => by cases h; rfl, fun h => by cases h; rfl⟩
  | _ =>
    constructor
    · rintro ⟨⟩
    · rintro ⟨⟩

end Outcome

/-! ### The program -/

/-- The program whose threads may be dropped.  Where it is given `none`, a thread that can be dropped leaves the
shared state that `drop` says, and does not move any more. -/
def Program.droppable (P : Program σ ℓ ε π α) (drop : ℕ → σ → ℓ → Option σ) : Program σ (Option ℓ) ε π (Option α)
  | i, s, some l, some c => (P i s l c).map id some id
  | i, s, some l, none =>
    match drop i s l with
    | some s' => .next s' none none
    | none => .blocked
  | _, _, none, _ => .blocked

/-- A condition on the steps of the threads that are left. -/
def Guard.droppable (ok : Guard σ ℓ α) : Guard σ (Option ℓ) (Option α) := fun i s task given =>
  ∀ l c, task = some l → given = some c → ok i s l c

/-- Nobody has been dropped yet. -/
def World.undropped (w : World σ ℓ ε) : World σ (Option ℓ) ε where
  shared := w.shared
  threads i := some (w.threads i)
  log := w.log

/-- What a drop does cannot be seen: nothing that a thread does or leaves depends on more of the shared state than
`view` shows, as long as `I` holds of it. -/
structure Discreet (P : Program σ ℓ ε π α) (drop : ℕ → σ → ℓ → Option σ) (view : σ → τ) (I : σ → Prop) : Prop where
  agree : ∀ {i s t l c}, I s → I t → view s = view t → (P i s l c).map view id id = (P i t l c).map view id id
  kept : ∀ {i s l c s' l' e}, I s → P i s l c = .next s' l' e → I s'
  dropped : ∀ {i s l s'}, I s → drop i s l = some s' → I s' ∧ view s' = view s

/-- `v` is `w` but for the threads that have been dropped, which in `w` only have stopped. -/
structure Stopped (drop : ℕ → σ → ℓ → Option σ) (view : σ → τ) (I : σ → Prop) (v : World σ (Option ℓ) ε)
    (w : World σ ℓ ε) : Prop where
  sound : I v.shared ∧ I w.shared
  shared : view v.shared = view w.shared
  log : v.log = w.log
  thread : ∀ i l, v.threads i = some l → w.threads i = l
  gone : ∀ i, v.threads i = none → ∃ s, (drop i s (w.threads i)).isSome

section

variable {P : Program σ ℓ ε π α} {drop : ℕ → σ → ℓ → Option σ} {view : σ → τ} {I : σ → Prop} {ok : Guard σ ℓ α}
  {v v' : World σ (Option ℓ) ε} {w w' : World σ ℓ ε} {i : ℕ} {l : ℓ} {c : α}

/-- A thread that is not dropped does what it did before. -/
theorem Program.droppable_some {s : σ} : P.droppable drop i s (some l) (some c) = (P i s l c).map id some id := rfl

/-- Where nobody has been dropped, nobody stands still. -/
theorem World.stopped_undropped (h : I w.shared) : Stopped drop view I w.undropped w where
  sound := ⟨h, h⟩
  shared := rfl
  log := rfl
  thread _ _ h := (Option.some.inj h)
  gone _ h := by cases h

namespace Stopped

/-- A thread that is left sees the same in both runs. -/
theorem agree (hP : Discreet P drop view I) (h : Stopped drop view I v w) (hi : v.threads i = some l) :
    (P i v.shared l c).map view id id = (P i w.shared (w.threads i) c).map view id id := by
  rw [h.thread i l hi]
  exact hP.agree h.sound.1 h.sound.2 h.shared

/-- A thread that is left panics where it would panic if nobody had been dropped. -/
theorem panics_iff (hP : Discreet P drop view I) (h : Stopped drop view I v w) (hi : v.threads i = some l)
    {site : π} : (P.droppable drop).Panics v ⟨i, some c⟩ site ↔ P.Panics w ⟨i, c⟩ site := by
  have hagree := h.agree hP (c := c) hi
  unfold Program.Panics
  rw [hi, Program.droppable_some, Outcome.map_eq_panicked, ← Outcome.map_eq_panicked (f := view) (k := id) (m := id),
    hagree, Outcome.map_eq_panicked]

/-- A drop panics nobody. -/
theorem exists_choice_of_panics {given : Option α} {site : π} (h : (P.droppable drop).Panics v ⟨i, given⟩ site) :
    ∃ l c, v.threads i = some l ∧ given = some c := by
  unfold Program.Panics at h
  cases hi : v.threads i with
  | none =>
    simp only [hi, Program.droppable] at h
    cases h
  | some l =>
    cases given with
    | some c => exact ⟨l, c, rfl, rfl⟩
    | none =>
      simp only [hi, Program.droppable] at h
      split at h <;> cases h

/-- What a thread that is left can do where nobody has been dropped, it can do. -/
theorem step (hP : Discreet P drop view I) (h : Stopped drop view I v w) (hi : v.threads i = some l)
    (hs : P.step w ⟨i, c⟩ = some w') :
    ∃ v', (P.droppable drop).step v ⟨i, some c⟩ = some v' ∧ v'.threads i = some (w'.threads i) := by
  obtain ⟨e, hw, -⟩ := Program.next_of_step hs
  have hagree := h.agree hP (c := c) hi
  rw [hw] at hagree
  obtain ⟨s, l', e', hv, -, hl, -⟩ := Outcome.map_eq_next.1 hagree
  obtain ⟨v', hstep, -, hthread, -⟩ := Program.step_of_next (P := P.droppable drop) (w := v) (i := i) (c := some c)
    (by rw [hi, Program.droppable_some, hv]; rfl)
  exact ⟨v', hstep, by rw [hthread, ← show l' = w'.threads i from hl]⟩

/-- A thread moves in both worlds. -/
theorem moved (h : Stopped drop view I v w) {s t : σ} (hI : I s ∧ I t) (hview : view s = view t) (e : Option ε) :
    Stopped drop view I ⟨s, Function.update v.threads i (some l), e.toList ++ v.log⟩
      ⟨t, Function.update w.threads i l, e.toList ++ w.log⟩ where
  sound := hI
  shared := hview
  log := congrArg (e.toList ++ ·) h.log
  thread j l' hj := by
    by_cases hji : j = i
    · subst hji
      simp only [Function.update_self] at hj ⊢
      exact Option.some.inj hj
    · simp only [Function.update_of_ne hji] at hj ⊢
      exact h.thread j l' hj
  gone j hj := by
    by_cases hji : j = i
    · subst hji
      simp only [Function.update_self] at hj
      cases hj
    · simp only [Function.update_of_ne hji] at hj ⊢
      exact h.gone j hj

/-- A thread is dropped; where nobody is, it stops. -/
theorem drop_thread (hP : Discreet P drop view I) (h : Stopped drop view I v w) (hi : v.threads i = some l) {s : σ}
    (hd : drop i v.shared l = some s) : Stopped drop view I ⟨s, Function.update v.threads i none, v.log⟩ w where
  sound := ⟨(hP.dropped h.sound.1 hd).1, h.sound.2⟩
  shared := (hP.dropped h.sound.1 hd).2.trans h.shared
  log := h.log
  thread j l' hj := by
    by_cases hji : j = i
    · subst hji
      simp only [Function.update_self] at hj
      cases hj
    · simp only [Function.update_of_ne hji] at hj
      exact h.thread j l' hj
  gone j hj := by
    by_cases hji : j = i
    · subst hji
      rw [h.thread j l hi]
      exact ⟨v.shared, Option.isSome_iff_exists.2 ⟨s, hd⟩⟩
    · simp only [Function.update_of_ne hji] at hj
      exact h.gone j hj

/-- **A step with drops is a step of a thread that is left, or a drop.** -/
theorem step_cases (hP : Discreet P drop view I) (h : Stopped drop view I v w) {i : ℕ} {given : Option α}
    (hs : (P.droppable drop).step v ⟨i, given⟩ = some v') :
    (∃ l c w', v.threads i = some l ∧ given = some c ∧ P.step w ⟨i, c⟩ = some w' ∧ Stopped drop view I v' w') ∨
      Stopped drop view I v' w := by
  obtain ⟨s, task, e, hv, rfl⟩ := Program.step_eq_some.1 hs
  cases hi : v.threads i with
  | none =>
    simp only [hi, Program.droppable] at hv
    cases hv
  | some l =>
    cases given with
    | some c =>
      simp only [hi, Program.droppable_some] at hv
      obtain ⟨s₁, l₁, e₁, hmoved, rfl, rfl, rfl⟩ := Outcome.map_eq_next.1 hv
      have hagree := h.agree hP (c := c) hi
      rw [hmoved] at hagree
      obtain ⟨s₂, l₂, e₂, hw, hview, rfl, he⟩ := Outcome.map_eq_next.1 hagree.symm
      rw [Option.map_id] at he
      obtain rfl : e₂ = e₁ := he
      rw [Option.map_id]
      exact .inl ⟨l, c, _, rfl, rfl, Program.step_eq_some.2 ⟨s₂, _, _, hw, rfl⟩,
        h.moved ⟨hP.kept h.sound.1 hmoved, hP.kept h.sound.2 hw⟩ hview.symm e₂⟩
    | none =>
      right
      cases hd : drop i v.shared l with
      | none =>
        simp only [hi, Program.droppable, hd] at hv
        cases hv
      | some s' =>
        simp only [hi, Program.droppable, hd] at hv
        cases hv
        exact h.drop_thread hP hi hd

end Stopped

/-- **Who is dropped might as well have stopped.**  A run with drops leads where a run without leads, in which
those who were dropped do not move any more. -/
theorem Reach.of_droppable (hP : Discreet P drop view I)
    (hok : ∀ i s t l c, view s = view t → ok i s l c → ok i t l c) (h₀ : I w.shared)
    (h : Reach (P.droppable drop) ok.droppable w.undropped v) : ∃ u, Reach P ok w u ∧ Stopped drop view I v u := by
  refine h.invariant (I := fun v => ∃ u, Reach P ok w u ∧ Stopped drop view I v u)
    ⟨w, Reach.start, World.stopped_undropped h₀⟩ fun v a v' _ ih hallowed hs => ?_
  obtain ⟨u, hu, hv⟩ := ih
  obtain ⟨i, given⟩ := a
  rcases hv.step_cases hP hs with ⟨l, c, u', hi, hc, hstep, hv'⟩ | hv'
  · refine ⟨u', hu.tail ?_ hstep, hv'⟩
    rw [hv.thread _ l hi]
    exact hok _ _ _ _ _ hv.shared (hallowed l c hi hc)
  · exact ⟨u, hu, hv'⟩

end

end Basis
