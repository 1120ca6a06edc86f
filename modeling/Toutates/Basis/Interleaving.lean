/-
# Threads over shared memory

A program run by any number of threads.  Every thread has a local state, all of
them share one state, and a run interleaves atomic steps: one action names a
thread and a choice, and the thread's step reads and writes the shared state,
moves its own local state and may log one event.  Nothing orders the threads, so
the runs are exactly the sequentially consistent interleavings of the steps.

A step can be disabled, can panic, or can succeed; a panic ends the run, so it
is not a step of the run (`Program.step`) but a fact about the state it happens
in (`Program.Panics`).

`Reach.invariant` is the run rule: what holds at the start and survives every
step holds in every state reached.  A `ThreadInv` splits an invariant by thread,
and `ThreadInv.Kept` the obligation of one step: what the step does to the shared
facts, to the facts of the thread that moved, to the facts of a thread that did
not, and to what keeps the two apart.
-/

import Mathlib.Logic.Relation
import Mathlib.Logic.Function.Basic
import Mathlib.Data.List.Basic

namespace Basis

/-- Nothing is to be shown about a component of a state that is not there. -/
theorem elim_none {β : Type*} {o : Option β} {x : β} {p : Prop} (ho : o = none) (h : o = some x) : p :=
  absurd (ho.symm.trans h) (Option.some_ne_none x).symm

/-- What one atomic step of a thread does: it is not enabled, it panics, or it
leaves a shared state, a local state and at most one event. -/
inductive Outcome (σ ℓ ε π : Type*) where
  | blocked
  | panicked (site : π)
  | next (shared : σ) (thread : ℓ) (event : Option ε)

/-- The shared state, the local state of every thread, and the events logged so
far, newest first. -/
structure World (σ ℓ ε : Type*) where
  shared : σ
  threads : ℕ → ℓ
  log : List ε

/-- One scheduling decision: which thread moves, and what it is given. -/
structure Action (α : Type*) where
  thread : ℕ
  choice : α

/-- The atomic step of a thread, by its number, the shared state, its own local
state and the choice it is given. -/
abbrev Program (σ ℓ ε π α : Type*) := ℕ → σ → ℓ → α → Outcome σ ℓ ε π

variable {σ ℓ ε π α : Type*}

namespace Program

/-- The world after a step, when the step succeeds. -/
def step (P : Program σ ℓ ε π α) (w : World σ ℓ ε) (a : Action α) : Option (World σ ℓ ε) :=
  match P a.thread w.shared (w.threads a.thread) a.choice with
  | .next s l e => some ⟨s, Function.update w.threads a.thread l, e.toList ++ w.log⟩
  | _ => none

/-- The action panics in this world. -/
def Panics (P : Program σ ℓ ε π α) (w : World σ ℓ ε) (a : Action α) (site : π) : Prop :=
  P a.thread w.shared (w.threads a.thread) a.choice = .panicked site

/-- The panic that the action leads to in this world, when it leads to one. -/
def panicSite (P : Program σ ℓ ε π α) (w : World σ ℓ ε) (a : Action α) : Option π :=
  match P a.thread w.shared (w.threads a.thread) a.choice with
  | .panicked site => some site
  | _ => none

/-- A panic site is one of a step that panics. -/
theorem panics_of_panicSite {P : Program σ ℓ ε π α} {w : World σ ℓ ε} {a : Action α} {site : π}
    (h : P.panicSite w a = some site) : P.Panics w a site := by
  unfold panicSite at h
  split at h
  · rename_i site' hP
    obtain rfl := Option.some.inj h
    exact hP
  · cases h

/-- What a step does to a world. -/
theorem step_eq_some {P : Program σ ℓ ε π α} {w w' : World σ ℓ ε} {a : Action α} :
    P.step w a = some w' ↔ ∃ s l e,
      P a.thread w.shared (w.threads a.thread) a.choice = .next s l e ∧
        w' = ⟨s, Function.update w.threads a.thread l, e.toList ++ w.log⟩ := by
  unfold step
  split
  · rename_i s l e h
    rw [h]
    constructor
    · rintro ⟨⟩
      exact ⟨s, l, e, rfl, rfl⟩
    · rintro ⟨_, _, _, ⟨⟩, rfl⟩
      rfl
  · rename_i h
    refine ⟨fun h' => absurd h' (by simp), ?_⟩
    rintro ⟨s, l, e, h', _⟩
    exact absurd h' (h s l e)

/-- The step of a thread that moves. -/
theorem step_of_next {P : Program σ ℓ ε π α} {w : World σ ℓ ε} {i : ℕ} {c : α} {s : σ} {l : ℓ} {e : Option ε}
    (h : P i w.shared (w.threads i) c = .next s l e) : ∃ w', P.step w ⟨i, c⟩ = some w' ∧
      w'.shared = s ∧ w'.threads i = l ∧ w'.log = e.toList ++ w.log :=
  ⟨_, step_eq_some.2 ⟨s, l, e, h, rfl⟩, rfl, Function.update_self _ _ _, rfl⟩

/-- A step of a world is a step of the thread that moves. -/
theorem next_of_step {P : Program σ ℓ ε π α} {w w' : World σ ℓ ε} {a : Action α} (h : P.step w a = some w') :
    ∃ e, P a.thread w.shared (w.threads a.thread) a.choice = .next w'.shared (w'.threads a.thread) e ∧
      w'.log = e.toList ++ w.log := by
  obtain ⟨s, l, e, hP, rfl⟩ := step_eq_some.1 h
  refine ⟨e, ?_, rfl⟩
  simpa only [Function.update_self] using hP

/-- A step leaves the other threads where they are. -/
theorem step_threads {P : Program σ ℓ ε π α} {w w' : World σ ℓ ε} {a : Action α}
    (h : P.step w a = some w') {i : ℕ} (hi : i ≠ a.thread) : w'.threads i = w.threads i := by
  obtain ⟨s, l, e, -, rfl⟩ := step_eq_some.1 h
  exact Function.update_of_ne hi _ _

/-- The actions of a list, in order, each allowed by `ok` where it acts; `none` as
soon as one of them is refused, disabled or panics. -/
def runIf (P : Program σ ℓ ε π α) (ok : ℕ → σ → ℓ → α → Bool) :
    World σ ℓ ε → List (Action α) → Option (World σ ℓ ε)
  | w, [] => some w
  | w, a :: as =>
    if ok a.thread w.shared (w.threads a.thread) a.choice then
      (P.step w a).bind fun w' => runIf P ok w' as
    else none

/-- A thread that no action names stays where it is. -/
theorem runIf_threads {P : Program σ ℓ ε π α} {ok : ℕ → σ → ℓ → α → Bool} {w w' : World σ ℓ ε}
    {as : List (Action α)} (h : P.runIf ok w as = some w') {i : ℕ}
    (hi : ∀ a ∈ as, a.thread ≠ i) : w'.threads i = w.threads i := by
  induction as generalizing w with
  | nil =>
    obtain rfl := Option.some.inj h
    rfl
  | cons a as ih =>
    rw [runIf] at h
    split at h
    · obtain ⟨v, hv, h⟩ := Option.bind_eq_some_iff.1 h
      rw [ih h fun b hb => hi b (List.mem_cons_of_mem a hb)]
      exact step_threads hv (hi a List.mem_cons_self).symm
    · exact absurd h (by simp)

end Program

/-- A condition on the state that a step starts from: the thread and where it is,
the shared state, and the choice. -/
abbrev Guard (σ ℓ α : Type*) := ℕ → σ → ℓ → α → Prop

/-- One step of a run in which every action is allowed by `ok`. -/
def Step (P : Program σ ℓ ε π α) (ok : Guard σ ℓ α) (w w' : World σ ℓ ε) : Prop :=
  ∃ a, ok a.thread w.shared (w.threads a.thread) a.choice ∧ P.step w a = some w'

/-- The worlds reached from `w₀` by runs whose actions are all allowed by `ok`. -/
def Reach (P : Program σ ℓ ε π α) (ok : Guard σ ℓ α) (w₀ w : World σ ℓ ε) : Prop :=
  Relation.ReflTransGen (Step P ok) w₀ w

namespace Reach

variable {P : Program σ ℓ ε π α} {ok : Guard σ ℓ α} {w₀ w w' : World σ ℓ ε}

/-- A world is reached from itself. -/
theorem start : Reach P ok w₀ w₀ := Relation.ReflTransGen.refl

/-- A run goes on by a step that is allowed. -/
theorem tail {a : Action α} (h : Reach P ok w₀ w)
    (hok : ok a.thread w.shared (w.threads a.thread) a.choice) (hs : P.step w a = some w') :
    Reach P ok w₀ w' :=
  Relation.ReflTransGen.tail h ⟨a, hok, hs⟩

/-- **The run rule.**  What holds at the start and is kept by every allowed step
from a reached world holds in every world reached. -/
theorem invariant {I : World σ ℓ ε → Prop} (h : Reach P ok w₀ w) (h₀ : I w₀)
    (hstep : ∀ w a w', Reach P ok w₀ w → I w →
      ok a.thread w.shared (w.threads a.thread) a.choice → P.step w a = some w' → I w') : I w := by
  induction h with
  | refl => exact h₀
  | tail hr hs ih =>
    obtain ⟨a, hok, hs⟩ := hs
    exact hstep _ a _ hr ih hok hs

/-- A run under a stronger condition is a run under a weaker one. -/
theorem mono {ok' : Guard σ ℓ α} (h : Reach P ok w₀ w)
    (hok : ∀ i s l c, ok i s l c → ok' i s l c) : Reach P ok' w₀ w := by
  refine Relation.ReflTransGen.mono (fun u v hs => ?_) _ _ h
  obtain ⟨a, ha, hs⟩ := hs
  exact ⟨a, hok _ _ _ _ ha, hs⟩

/-- A list of actions that runs to `w` reaches it. -/
theorem of_runIf {okb : ℕ → σ → ℓ → α → Bool} (hok : ∀ i s l c, okb i s l c = true → ok i s l c)
    {as : List (Action α)} (h : P.runIf okb w₀ as = some w) : Reach P ok w₀ w := by
  induction as generalizing w₀ with
  | nil =>
    obtain rfl := Option.some.inj h
    exact start
  | cons a as ih =>
    rw [Program.runIf] at h
    split at h
    · rename_i ha
      obtain ⟨v, hv, h⟩ := Option.bind_eq_some_iff.1 h
      exact Relation.ReflTransGen.head ⟨a, hok _ _ _ _ ha, hv⟩ (ih h)
    · exact absurd h (by simp)

end Reach

/-- The worlds reached from `w₀` by runs whose actions are all allowed by `ok`, a condition on
the whole world that an action starts from. -/
def ReachIf (P : Program σ ℓ ε π α) (ok : World σ ℓ ε → Action α → Prop) (w₀ w : World σ ℓ ε) : Prop :=
  Relation.ReflTransGen (fun v v' => ∃ a, ok v a ∧ P.step v a = some v') w₀ w

namespace ReachIf

variable {P : Program σ ℓ ε π α} {ok : World σ ℓ ε → Action α → Prop} {w₀ w : World σ ℓ ε}

/-- **The run rule** for a condition on the whole world. -/
theorem invariant {I : World σ ℓ ε → Prop} (h : ReachIf P ok w₀ w) (h₀ : I w₀)
    (hstep : ∀ v a v', I v → ok v a → P.step v a = some v' → I v') : I w := by
  induction h with
  | refl => exact h₀
  | tail _ hs ih =>
    obtain ⟨a, hok, hs⟩ := hs
    exact hstep _ a _ ih hok hs

/-- A guard that implies another reaches no more. -/
theorem of_reach {guard : Guard σ ℓ α} (h : Reach P guard w₀ w)
    (hok : ∀ v a, guard a.thread v.shared (v.threads a.thread) a.choice → ok v a) : ReachIf P ok w₀ w := by
  refine Relation.ReflTransGen.mono (fun u v hs => ?_) _ _ h
  obtain ⟨a, ha, hs⟩ := hs
  exact ⟨a, hok u a ha, hs⟩

end ReachIf

/-- An invariant split by thread: facts about the shared state and the log,
facts about one thread's local state, and what keeps two threads apart. -/
structure ThreadInv (σ ℓ ε : Type*) where
  shared : σ → List ε → Prop
  own : σ → List ε → ℓ → Prop
  apart : ℓ → ℓ → Prop
  symm : ∀ {l m}, apart l m → apart m l

namespace ThreadInv

/-- The invariant in a world: the shared facts, every thread's own facts, and
any two threads apart. -/
structure Holds (J : ThreadInv σ ℓ ε) (w : World σ ℓ ε) : Prop where
  shared : J.shared w.shared w.log
  own : ∀ i, J.own w.shared w.log (w.threads i)
  apart : ∀ i j, i ≠ j → J.apart (w.threads i) (w.threads j)

/-- The invariant that says nothing. -/
def trivial (σ ℓ ε : Type*) : ThreadInv σ ℓ ε where
  shared _ _ := True
  own _ _ _ := True
  apart _ _ := True
  symm _ := True.intro

/-- Nothing is claimed, so it holds. -/
theorem trivial_holds (w : World σ ℓ ε) : (trivial σ ℓ ε).Holds w :=
  ⟨True.intro, fun _ => True.intro, fun _ _ _ => True.intro⟩

/-- Two invariants together. -/
def and (J K : ThreadInv σ ℓ ε) : ThreadInv σ ℓ ε where
  shared s log := J.shared s log ∧ K.shared s log
  own s log l := J.own s log l ∧ K.own s log l
  apart l m := J.apart l m ∧ K.apart l m
  symm h := ⟨J.symm h.1, K.symm h.2⟩

/-- Two invariants hold together. -/
theorem Holds.and {J K : ThreadInv σ ℓ ε} {w : World σ ℓ ε} (hJ : J.Holds w) (hK : K.Holds w) :
    (J.and K).Holds w :=
  ⟨⟨hJ.shared, hK.shared⟩, fun i => ⟨hJ.own i, hK.own i⟩,
    fun i j hij => ⟨hJ.apart i j hij, hK.apart i j hij⟩⟩

/-- The first of two invariants. -/
theorem Holds.left {J K : ThreadInv σ ℓ ε} {w : World σ ℓ ε} (h : (J.and K).Holds w) : J.Holds w :=
  ⟨h.shared.1, fun i => (h.own i).1, fun i j hij => (h.apart i j hij).1⟩

/-- The second of two invariants. -/
theorem Holds.right {J K : ThreadInv σ ℓ ε} {w : World σ ℓ ε} (h : (J.and K).Holds w) : K.Holds w :=
  ⟨h.shared.2, fun i => (h.own i).2, fun i j hij => (h.apart i j hij).2⟩

/-- A step of a thread from `l` to `l'` keeps `J`: the shared facts, the facts of
the moving thread at `l'`, and, for every local state `m` that another thread can
be in, the facts of `m` and what keeps `l'` apart from it.  About `m`, what the
invariant `K` says may be used. -/
structure Kept (K J : ThreadInv σ ℓ ε) (log : List ε) (s : σ) (l : ℓ) (s' : σ) (l' : ℓ)
    (e : Option ε) : Prop where
  shared : J.shared s' (e.toList ++ log)
  own : J.own s' (e.toList ++ log) l'
  others : ∀ m, K.own s log m → K.apart l m → J.own s log m → J.apart l m →
    J.own s' (e.toList ++ log) m ∧ J.apart l' m

/-- **The step rule.** -/
theorem Holds.step {K J : ThreadInv σ ℓ ε} {P : Program σ ℓ ε π α} {w w' : World σ ℓ ε} {a : Action α}
    (hK : K.Holds w) (h : J.Holds w) (hs : P.step w a = some w')
    (hstep : ∀ s' l' e, P a.thread w.shared (w.threads a.thread) a.choice = .next s' l' e →
      Kept K J w.log w.shared (w.threads a.thread) s' l' e) : J.Holds w' := by
  obtain ⟨s', l', e, hP, rfl⟩ := Program.step_eq_some.1 hs
  obtain ⟨hsh, hown, hoth⟩ := hstep s' l' e hP
  have others : ∀ j, j ≠ a.thread → _ := fun j hj =>
    hoth (w.threads j) (hK.own j) (hK.apart _ _ hj.symm) (h.own j) (h.apart _ _ hj.symm)
  refine ⟨hsh, fun i => ?_, fun i j hij => ?_⟩
  · by_cases hi : i = a.thread
    · subst hi
      simpa only [Function.update_self] using hown
    · simpa only [Function.update_of_ne hi] using (others i hi).1
  · by_cases hi : i = a.thread
    · subst hi
      simpa only [Function.update_self, Function.update_of_ne hij.symm]
        using (others j hij.symm).2
    · by_cases hj : j = a.thread
      · subst hj
        simpa only [Function.update_self, Function.update_of_ne hi] using J.symm (others i hi).2
      · simpa only [Function.update_of_ne hi, Function.update_of_ne hj] using h.apart i j hij

end ThreadInv

/-- **The run rule by threads.**  `J` holds in every world reached when it holds at
the start and every allowed step keeps it, given an invariant `K` that is known to
hold in every world reached. -/
theorem Reach.threadInv {P : Program σ ℓ ε π α} {ok : Guard σ ℓ α} {K J : ThreadInv σ ℓ ε}
    {w₀ w : World σ ℓ ε} (h : Reach P ok w₀ w) (hK : ∀ v, Reach P ok w₀ v → K.Holds v)
    (h₀ : J.Holds w₀)
    (hstep : ∀ i s l c s' l' e log, P i s l c = .next s' l' e → ok i s l c →
      K.shared s log → K.own s log l → J.shared s log → J.own s log l →
        ThreadInv.Kept K J log s l s' l' e) : J.Holds w := by
  refine h.invariant h₀ fun v a v' hv hJ hok hs => ?_
  have hKv := hK v hv
  exact hKv.step hJ hs fun s' l' e hP =>
    hstep a.thread v.shared _ a.choice s' l' e v.log hP hok hKv.shared (hKv.own _) hJ.shared (hJ.own _)

/-- The run rule for an invariant that is kept where another one holds: both hold. -/
theorem Reach.threadInv_and {P : Program σ ℓ ε π α} {ok : Guard σ ℓ α} {K J : ThreadInv σ ℓ ε}
    {w₀ : World σ ℓ ε} (hK : ∀ v, Reach P ok w₀ v → K.Holds v) (h₀ : J.Holds w₀)
    (hstep : ∀ i s l c s' l' e log, P i s l c = .next s' l' e → ok i s l c →
      K.shared s log → K.own s log l → J.shared s log → J.own s log l →
        ThreadInv.Kept K J log s l s' l' e) {w : World σ ℓ ε} (h : Reach P ok w₀ w) : (K.and J).Holds w :=
  (hK w h).and (h.threadInv hK h₀ hstep)

end Basis
