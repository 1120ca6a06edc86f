/-
# The life of a batch

A batch is claimed by one executor and goes through the same stages in the same
order: claimed, woken, sealed, invoked, ran, replaced, wiped, finished.  Most events
of a run mark that a batch reached a stage (`marks`), and the phase that an executor
is in says which stage its batch is at (`ExecPhase.stage`).

`life` is the invariant that ties the two together, for every run at all: an executor
that holds the batch at `e` has exactly the marks of the stages up to its own, two
executors hold different batches, and no stage of a batch is marked twice.
-/

import Toutates.Ring.Transition

namespace Toutates

open Basis

variable {g : Geometry} {α : Type}

/-- The stages of a batch, in order. -/
inductive Stage where
  | claimed | woken | sealed | invoked | ran | replaced | wiped | finished
deriving DecidableEq

/-- How far along a stage is. -/
def Stage.rank : Stage → ℕ
  | claimed => 0
  | woken => 1
  | sealed => 2
  | invoked => 3
  | ran => 4
  | replaced => 5
  | wiped => 6
  | finished => 7

/-- No two stages have the same rank. -/
theorem Stage.rank_inj {a b : Stage} (h : a.rank = b.rank) : a = b := by
  cases a <;> cases b <;> first | rfl | simp [Stage.rank] at h

/-- The stage of the batch that an executor in this phase holds. -/
def ExecPhase.stage : ExecPhase α → Stage
  | cloneNotifier | createNotified _ | firstWait _ _ => .claimed
  | createNotifiedFull _ | loadHead _ _ | readDeadline _ _ | deadlineWait _ _ | sealLoadHead
  | sealCasHead _ _ | sealSpin _ => .woken
  | setExecStart | loadBatchItems | enterUse _ | invoke _ => .sealed
  | running _ => .invoked
  | setExecEnd _ _ | setOutput _ _ | cloneResponseNotifier _ | notifyResponse _ _
  | replaceState _ => .ran
  | resetWritten _ => .replaced
  | resetDirty _ => .wiped

/-- The batch and the stage that an event marks. -/
def Event.mark : Event g α → Option (α × Stage)
  | claimed e => some (e, .claimed)
  | woken e => some (e, .woken)
  | sealed e => some (e, .sealed)
  | invoked e => some (e, .invoked)
  | ran e _ => some (e, .ran)
  | replaced e => some (e, .replaced)
  | wiped e => some (e, .wiped)
  | finished e => some (e, .finished)
  | _ => none

/-- The marks of a log. -/
def marks (log : List (Event g α)) : List (α × Stage) := log.filterMap Event.mark

/-- The batch at `p` has reached stage `st`. -/
def Reached (log : List (Event g α)) (p : α) (st : Stage) : Prop := (p, st) ∈ marks log

instance [DecidableEq α] (log : List (Event g α)) (p : α) (st : Stage) : Decidable (Reached log p st) :=
  inferInstanceAs (Decidable ((p, st) ∈ marks log))

/-- The batch that a thread has claimed and not yet reset, and its stage. -/
def Pc.held : Pc g α → Option (α × Stage)
  | .execute e phase => some (e, phase.stage)
  | _ => none

/-- A batch that is finished is at its last stage. -/
theorem Stage.rank_le_finished (st : Stage) : st.rank ≤ Stage.finished.rank := by
  cases st <;> simp [Stage.rank]

/-- Nobody holds a batch that is finished. -/
theorem Pc.held_ne_finished {pc : Pc g α} {p : α} {st : Stage} (h : pc.held = some (p, st)) :
    st ≠ .finished := by
  rintro rfl
  unfold Pc.held at h
  split at h
  · rename_i phase
    cases phase <;> simp [ExecPhase.stage] at h
  · cases h

/-- The stages that are reached after one more event. -/
theorem reached_cons {log : List (Event g α)} {ev : Event g α} {e p : α} {st st' : Stage}
    (h : ev.mark = some (e, st)) :
    Reached ((some ev).toList ++ log) p st' ↔ (p = e ∧ st' = st) ∨ Reached log p st' := by
  simp only [Reached, marks, Option.toList_some, List.singleton_append, List.filterMap_cons, h,
    List.mem_cons, Prod.mk.injEq]

/-- An event of one stage says nothing about the others. -/
theorem reached_cons_of_ne {log : List (Event g α)} {ev : Event g α} {e p : α} {st st' : Stage}
    (h : ev.mark = some (e, st)) (hne : st' ≠ st) :
    Reached ((some ev).toList ++ log) p st' ↔ Reached log p st' :=
  (reached_cons h).trans (or_iff_right fun heq => hne heq.2)

/-- What a stage is reached by stays reached. -/
theorem Reached.mono {log : List (Event g α)} {p : α} {st : Stage} (h : Reached log p st)
    (l : List (Event g α)) : Reached (l ++ log) p st := by
  rw [Reached, marks, List.filterMap_append]
  exact List.mem_append_right _ h

/-- The shared part of `life`. -/
structure Life.Shared (s : SuperTensorBuffer g ℕ) (log : List (Event g ℕ)) : Prop where
  executorHead_dvd : g.batchSize ∣ s.executorHead
  nodup : (marks log).Nodup
  claimed : ∀ {p st}, Reached log p st → g.batchSize ∣ p ∧ p < s.executorHead
  closed : ∀ {p st st'}, Reached log p st → st'.rank ≤ st.rank → Reached log p st'

/-- What `life` says about a thread that holds the batch at `e` at stage `st`. -/
structure Life.Own (s : SuperTensorBuffer g ℕ) (log : List (Event g ℕ)) (e : ℕ) (st : Stage) :
    Prop where
  dvd : g.batchSize ∣ e
  lt : e < s.executorHead
  reached : ∀ st', Reached log e st' ↔ st'.rank ≤ st.rank

/-- **The life of a batch.** -/
def life (g : Geometry) : RingInv g ℕ where
  shared := Life.Shared
  own s log pc := ∀ e st, pc.held = some (e, st) → Life.Own s log e st
  apart l m := ∀ e st e' st', l.held = some (e, st) → m.held = some (e', st') → e ≠ e'
  symm h e st e' st' he he' := (h e' st' e st he' he).symm

namespace Life

variable {s s' : SuperTensorBuffer g ℕ} {log : List (Event g ℕ)} {pc pc' : Pc g ℕ}
  {K : RingInv g ℕ} {ev : Event g ℕ} {e : Option (Event g ℕ)} {p : ℕ} {st st' : Stage}

/-- A step that marks nothing and claims nothing. -/
theorem quiet (hs : Shared s log) (ho : (life g).own s log pc) (hE : s'.executorHead = s.executorHead)
    (hm : marks (e.toList ++ log) = marks log) (hh : pc'.held = pc.held) :
    ThreadInv.Kept K (life g) log s pc s' pc' e := by
  have hr : ∀ q t, Reached (e.toList ++ log) q t ↔ Reached log q t := fun q t => by
    rw [Reached, hm, Reached]
  have keep : ∀ {q t}, Own s log q t → Own s' (e.toList ++ log) q t := fun h =>
    ⟨h.dvd, by rw [hE]; exact h.lt, fun t => (hr _ t).trans (h.reached t)⟩
  refine ⟨⟨by rw [hE]; exact hs.executorHead_dvd, by rw [hm]; exact hs.nodup, fun h => ?_,
    fun h hle => ?_⟩, fun q t hq => ?_, fun m _ _ hmo ha => ⟨fun q t hq => keep (hmo q t hq), ?_⟩⟩
  · rw [hE]
    exact hs.claimed ((hr _ _).1 h)
  · exact (hr _ _).2 (hs.closed ((hr _ _).1 h) hle)
  · exact keep (ho q t (hh ▸ hq))
  · intro q t q' t' hq hq'
    exact ha q t q' t' (hh ▸ hq) hq'

/-- Adding the next stage of a batch to the marks. -/
theorem shared_mark (hs : Shared s log) (hE : s'.executorHead = s.executorHead) (ho : Own s log p st)
    (hmark : ev.mark = some (p, st')) (hst : st'.rank = st.rank + 1) :
    Shared s' ((some ev).toList ++ log) := by
  refine ⟨by rw [hE]; exact hs.executorHead_dvd, ?_, fun h => ?_, fun h hle => ?_⟩
  · have hnew : ¬ Reached log p st' := fun h => by
      have := (ho.reached st').1 h
      omega
    simpa only [marks, Option.toList_some, List.singleton_append, List.filterMap_cons, hmark,
      List.nodup_cons] using ⟨hnew, hs.nodup⟩
  · rw [hE]
    rcases (reached_cons hmark).1 h with ⟨rfl, rfl⟩ | h
    · exact ⟨ho.dvd, ho.lt⟩
    · exact hs.claimed h
  · rw [reached_cons hmark]
    rcases (reached_cons hmark).1 h with ⟨rfl, rfl⟩ | h
    · rename_i t
      rcases Nat.lt_or_ge st.rank t.rank with hlt | hge
      · exact .inl ⟨rfl, Stage.rank_inj (by omega)⟩
      · exact .inr ((ho.reached _).2 hge)
    · exact .inr (hs.closed h hle)

/-- The step of another executor leaves the facts about a holder alone. -/
theorem own_mark {q : ℕ} {t : Stage} (hE : s'.executorHead = s.executorHead)
    (hmark : ev.mark = some (p, st')) (hne : p ≠ q) (h : Own s log q t) :
    Own s' ((some ev).toList ++ log) q t := by
  refine ⟨h.dvd, by rw [hE]; exact h.lt, fun t' => ?_⟩
  rw [reached_cons hmark, ← h.reached t']
  exact ⟨fun h' => h'.resolve_left fun h'' => hne h''.1.symm, .inr⟩

/-- A step of an executor to the next stage of its batch. -/
theorem advance (hs : Shared s log) (ho : (life g).own s log pc)
    (hE : s'.executorHead = s.executorHead) (hmark : ev.mark = some (p, st'))
    (hst : st'.rank = st.rank + 1) (hpc : pc.held = some (p, st))
    (hpc' : pc'.held = some (p, st') ∨ pc'.held = none) :
    ThreadInv.Kept K (life g) log s pc s' pc' (some ev) := by
  have hp := ho p st hpc
  refine ⟨shared_mark hs hE hp hmark hst, fun q t hq => ?_, fun m _ _ hmo ha => ⟨fun q t hq => ?_, ?_⟩⟩
  · rcases hpc' with hpc' | hpc'
    · obtain ⟨rfl, rfl⟩ := Prod.mk.inj (Option.some.inj (hpc'.symm.trans hq))
      refine ⟨hp.dvd, by rw [hE]; exact hp.lt, fun t => ?_⟩
      rw [reached_cons hmark, hp.reached t]
      constructor
      · rintro (⟨-, rfl⟩ | h)
        · exact le_rfl
        · omega
      · intro h
        rcases Nat.lt_or_ge st.rank t.rank with hlt | hge
        · exact .inl ⟨rfl, Stage.rank_inj (by omega)⟩
        · exact .inr hge
    · exact elim_none hpc' hq
  · exact own_mark hE hmark (ha p st q t hpc hq) (hmo q t hq)
  · intro q t q' t' hq hq'
    rcases hpc' with hpc' | hpc'
    · obtain ⟨rfl, rfl⟩ := Prod.mk.inj (Option.some.inj (hpc'.symm.trans hq))
      exact ha p st q' t' hpc hq'
    · exact elim_none hpc' hq

/-- A claim. -/
theorem claim (hs : Shared s log) (hE : s'.executorHead = s.executorHead + g.batchSize)
    (hmark : ev.mark = some (s.executorHead, .claimed))
    (hpc' : pc'.held = some (s.executorHead, .claimed)) :
    ThreadInv.Kept K (life g) log s pc s' pc' (some ev) := by
  have hB := g.batchSize_pos
  have hnew : ∀ t, ¬ Reached log s.executorHead t := fun t h => lt_irrefl _ (hs.claimed h).2
  refine ⟨⟨?_, ?_, fun h => ?_, fun h hle => ?_⟩, fun q t hq => ?_,
    fun m _ _ hmo ha => ⟨fun q t hq => ?_, ?_⟩⟩
  · rw [hE]
    exact Nat.dvd_add hs.executorHead_dvd (Nat.dvd_refl _)
  · simpa only [marks, Option.toList_some, List.singleton_append, List.filterMap_cons, hmark,
      List.nodup_cons] using ⟨hnew _, hs.nodup⟩
  · rcases (reached_cons hmark).1 h with ⟨rfl, rfl⟩ | h
    · exact ⟨hs.executorHead_dvd, by omega⟩
    · have := hs.claimed h
      exact ⟨this.1, by omega⟩
  · rw [reached_cons hmark]
    rcases (reached_cons hmark).1 h with ⟨rfl, rfl⟩ | h
    · exact .inl ⟨rfl, Stage.rank_inj (Nat.le_zero.1 hle)⟩
    · exact .inr (hs.closed h hle)
  · obtain ⟨rfl, rfl⟩ := Prod.mk.inj (Option.some.inj (hpc'.symm.trans hq))
    refine ⟨hs.executorHead_dvd, by omega, fun t => ?_⟩
    rw [reached_cons hmark]
    constructor
    · rintro (⟨-, rfl⟩ | h)
      · exact le_rfl
      · exact absurd h (hnew t)
    · exact fun h => .inl ⟨rfl, Stage.rank_inj (Nat.le_zero.1 h)⟩
  · have hq' := hmo q t hq
    refine ⟨hq'.dvd, by have := hq'.lt; omega, fun t' => ?_⟩
    rw [reached_cons hmark, ← hq'.reached t']
    exact ⟨fun h => h.resolve_left fun h' => hq'.lt.ne h'.1, .inr⟩
  · intro q t q' t' hq hq' heq
    obtain ⟨rfl, rfl⟩ := Prod.mk.inj (Option.some.inj (hpc'.symm.trans hq))
    have := (hmo q' t' hq').lt
    omega

end Life

/-- Every step keeps the life of the batches. -/
theorem life_step {K : RingInv g ℕ} {i : ℕ} {s s' : SuperTensorBuffer g ℕ} {pc pc' : Pc g ℕ}
    {c : Choice} {e : Option (Event g ℕ)} {log : List (Event g ℕ)}
    (ht : Transition (CounterOps.unbounded g) i s pc c s' pc' e) (hs : (life g).shared s log)
    (ho : (life g).own s log pc) : ThreadInv.Kept K (life g) log s pc s' pc' e := by
  cases ht with
  | claim e he =>
    subst he
    exact Life.claim hs rfl rfl rfl
  | wake e n ticket hp => exact Life.advance hs ho rfl rfl rfl rfl (.inl rfl)
  | sealed e d hw => exact Life.advance hs ho rfl rfl rfl rfl (.inl rfl)
  | invoke e items => exact Life.advance hs ho rfl rfl rfl rfl (.inl rfl)
  | ran e items result => exact Life.advance hs ho rfl rfl rfl rfl (.inl rfl)
  | replaceState e items => exact Life.advance hs ho rfl rfl rfl rfl (.inl rfl)
  | resetWritten e items => exact Life.advance hs ho rfl rfl rfl rfl (.inl rfl)
  | resetDirty e items => exact Life.advance hs ho rfl rfl rfl rfl (.inr rfl)
  | deadlinePoll e n ticket phase hp =>
    rcases hp with rfl | rfl <;> exact Life.quiet hs ho rfl rfl rfl
  | _ => exact Life.quiet hs ho rfl rfl rfl

/-- The life of a batch, in every run. -/
theorem life_holds {ok : RingGuard g ℕ} {w : RingWorld g ℕ}
    (h : Runs (CounterOps.unbounded g) ok w) : (life g).Holds w := by
  refine h.threadInv (ThreadInv.trivial _ _ _) (fun v _ => ThreadInv.trivial_holds v)
    (fun inputTensors => ⟨?_, ?_, ?_⟩)
    fun i s pc c s' pc' e log ht _ _ _ hs ho => life_step ht hs ho
  · exact ⟨Nat.dvd_zero _, List.nodup_nil, fun h => absurd h List.not_mem_nil,
      fun h => absurd h List.not_mem_nil⟩
  · intro i e st he
    cases he
  · intro i j _ e st e' st' he
    cases he

end Toutates
