/-
# The cells of a batch

What a batch leaves for its clients is in the `BatchState` that its tracker holds while
the batch is in the window: the execution trace, the output and the notifiers.  Tracker
`g.cell p` holds its `g.lap p`-th state in the lap of the batch at `p`, so that state is
`batchState p`, whatever the tracker holds by now.

`cells` is what holds in every run: the tracker of a batch in the window holds the state of
that batch until `reset_batch` replaces it; the executor of a batch finds the cells it is
going to set empty and those it has set full; and an output that is there is the result of
the run of that batch, with the start and the end of that run next to it.
-/

import Toutates.Ring.Window

namespace Toutates

open Basis

variable {g : Geometry} {α : Type}

/-- The cells that the executor of a batch sets: `exec_start`, `exec_end` and `output`. -/
def BatchState.cells (b : BatchState) :
    Option Instant × Option Instant × Option (Except InferError SessionValues) :=
  (b.executionTrace.execStart, b.executionTrace.execEnd, b.output)

namespace SuperTensorBuffer

variable (s : SuperTensorBuffer g α)

/-- The state that belongs to the batch at `p`. -/
def batchState (p : ℕ) : BatchState := s.states (g.cell p) (g.lap p)

/-- A write to the state of a batch changes the state of no other batch. -/
theorem batchState_modifyState {p q : ℕ} (hp : g.batchSize ∣ p) (hq : g.batchSize ∣ q)
    (f : BatchState → BatchState) :
    (s.modifyState (g.cell q) (g.lap q) f).batchState p =
      if p = q then f (s.batchState q) else s.batchState p := by
  rw [batchState, modifyState_states]
  by_cases h : p = q
  · subst h
    rw [if_pos ⟨rfl, rfl⟩, if_pos rfl, batchState]
  · rw [if_neg fun h' => h (Geometry.eq_of_cell_lap_eq hp hq h'.1 h'.2), if_neg h, batchState]

/-- What `reset_batch` writes is the state of the batch a turn of the ring ahead. -/
theorem batchState_replace {p q : ℕ} (hp : g.batchSize ∣ p) (hq : g.batchSize ∣ q)
    (hgen : (s.trackers (g.cell p)).generation = g.lap p) (f : DataTracker → DataTracker) :
    ((s.modifyState (g.cell p) ((s.trackers (g.cell p)).generation + 1) fun _ => BatchState.new).modifyTracker
      (g.cell p) f).batchState q = if q = p + g.slots then BatchState.new else s.batchState q := by
  have hstate := s.batchState_modifyState hq (Nat.dvd_add hp g.batchSize_dvd_slots) fun _ => BatchState.new
  rw [Geometry.cell_add_slots, Geometry.lap_add_slots, ← hgen] at hstate
  exact hstate

/-- A write that leaves a part of a state alone leaves that part of every state alone. -/
theorem modifyState_part {β : Type} {part : BatchState → β} {f : BatchState → BatchState}
    (hf : ∀ b, part (f b) = part b) (x : Fin g.capacity) (n : ℕ) (y : Fin g.capacity) (m : ℕ) :
    part ((s.modifyState x n f).states y m) = part (s.states y m) := by
  rw [modifyState_states]
  split_ifs with h
  · rw [hf, h.1, h.2]
  · rfl

end SuperTensorBuffer

/-- A write that leaves the cells leaves them everywhere. -/
theorem SuperTensorBuffer.modifyState_cells (s : SuperTensorBuffer g α) {f : BatchState → BatchState}
    (hf : ∀ b, (f b).cells = b.cells) (x : Fin g.capacity) (n : ℕ) (y : Fin g.capacity) (m : ℕ) :
    ((s.modifyState x n f).states y m).cells = (s.states y m).cells :=
  s.modifyState_part hf x n y m

/-- What an executor in this phase finds in the cells of its batch. -/
def ExecPhase.CellsOk (c : Option Instant × Option Instant × Option (Except InferError SessionValues)) :
    ExecPhase α → Prop
  | cloneNotifier | createNotified _ | firstWait _ _ | createNotifiedFull _ | loadHead _ _
  | readDeadline _ _ | deadlineWait _ _ | sealLoadHead | sealCasHead _ _ | sealSpin _
  | setExecStart => c = (none, none, none)
  | loadBatchItems | enterUse _ | invoke _ | running _ | setExecEnd _ _ =>
    c.1.isSome ∧ c.2 = (none, none)
  | setOutput _ _ => c.1.isSome ∧ c.2.1.isSome ∧ c.2.2 = none
  | cloneResponseNotifier _ | notifyResponse _ _ | replaceState _ | resetWritten _ | resetDirty _ => True

/-- The result that an executor is about to publish is that of the run of its batch. -/
def ExecPhase.ResultOk (log : List (Event g α)) (e : α) : ExecPhase α → Prop
  | setExecEnd _ result | setOutput _ result => Event.ran e result ∈ log
  | _ => True

/-- The batch that a thread executes, and its phase. -/
def Pc.executing : Pc g α → Option (α × ExecPhase α)
  | .execute e phase => some (e, phase)
  | _ => none

/-- Who executes a batch holds it. -/
theorem Pc.held_of_executing {pc : Pc g α} {e : α} {phase : ExecPhase α}
    (h : pc.executing = some (e, phase)) : pc.held = some (e, phase.stage) := by
  unfold Pc.executing at h
  split at h
  · obtain ⟨rfl, rfl⟩ := Prod.mk.inj (Option.some.inj h)
    rfl
  · cases h

/-- The shared part of `cells`. -/
structure Cells.Shared (s : SuperTensorBuffer g ℕ) (log : List (Event g ℕ)) : Prop where
  generation : ∀ p, g.batchSize ∣ p → s.tail ≤ p → p < s.tail + g.slots →
    (Reached log p .replaced → (s.trackers (g.cell p)).generation = g.lap p + 1) ∧
    (¬ Reached log p .replaced → (s.trackers (g.cell p)).generation = g.lap p)
  future : ∀ p, g.batchSize ∣ p → s.executorHead ≤ p → (s.batchState p).cells = (none, none, none)
  output : ∀ p result, g.batchSize ∣ p → (s.batchState p).cells.2.2 = some result →
    Event.ran p result ∈ log ∧ (s.batchState p).cells.1.isSome ∧ (s.batchState p).cells.2.1.isSome

/-- What `cells` says about a thread that executes the batch at `e`. -/
structure Cells.Own (s : SuperTensorBuffer g ℕ) (log : List (Event g ℕ)) (e : ℕ) (phase : ExecPhase ℕ) :
    Prop where
  cells : phase.CellsOk (s.batchState e).cells
  result : phase.ResultOk log e

/-- **The cells of the batches.** -/
def cells (g : Geometry) : RingInv g ℕ where
  shared := Cells.Shared
  own s log pc := ∀ e phase, pc.executing = some (e, phase) → Cells.Own s log e phase
  apart _ _ := True
  symm _ := True.intro

namespace Cells

variable {s s' : SuperTensorBuffer g ℕ} {log log' : List (Event g ℕ)} {pc pc' m : Pc g ℕ}
  {e : Option (Event g ℕ)} {p : ℕ}

/-- A step that changes nothing `cells` speaks of, except that it may claim a batch. -/
structure Same (s : SuperTensorBuffer g ℕ) (log : List (Event g ℕ)) (s' : SuperTensorBuffer g ℕ)
    (log' : List (Event g ℕ)) : Prop where
  tail : s'.tail = s.tail
  executorHead : s.executorHead ≤ s'.executorHead
  generation : ∀ x, (s'.trackers x).generation = (s.trackers x).generation
  cells : ∀ x n, (s'.states x n).cells = (s.states x n).cells
  replaced : ∀ p, Reached log' p .replaced ↔ Reached log p .replaced
  log : ∀ ev ∈ log, ev ∈ log'

/-- A result that was set stays set. -/
theorem ResultOk.mono {phase : ExecPhase ℕ} (h : phase.ResultOk log p) (hlog : ∀ ev ∈ log, ev ∈ log') :
    phase.ResultOk log' p := by
  cases phase <;> first | exact hlog _ h | exact True.intro

/-- What is not touched stays. -/
theorem shared_same (hs : Shared s log) (h : Same s log s' log') : Shared s' log' := by
  refine ⟨fun p hp h₁ h₂ => ?_, fun p hp hle => ?_, fun p result hp hout => ?_⟩
  · rw [h.tail] at h₁ h₂
    rw [h.replaced, h.generation]
    exact hs.generation p hp h₁ h₂
  · exact (h.cells _ _).trans (hs.future p hp (h.executorHead.trans hle))
  · have hc : (s'.batchState p).cells = (s.batchState p).cells := h.cells _ _
    rw [hc] at hout ⊢
    obtain ⟨hran, hcells⟩ := hs.output p result hp hout
    exact ⟨h.log _ hran, hcells⟩

/-- What a thread knows of cells that are not touched stays true. -/
theorem own_same {phase : ExecPhase ℕ} (ho : Own s log p phase) (h : Same s log s' log') :
    Own s' log' p phase :=
  ⟨(h.cells _ _).symm ▸ ho.cells, ResultOk.mono ho.result h.log⟩

/-- A step with nothing to say about cells. -/
theorem quiet {K : RingInv g ℕ} (hs : Shared s log) (h : Same s log s' (e.toList ++ log))
    (ho : ∀ p phase, pc'.executing = some (p, phase) → Own s' (e.toList ++ log) p phase) :
    ThreadInv.Kept K (cells g) log s pc s' pc' e :=
  ⟨shared_same hs h, ho, fun _ _ _ hm _ =>
    ⟨fun p phase hp => own_same (hm p phase hp) h, True.intro⟩⟩

/-- A step of an executor to a phase that finds the same in its cells. -/
theorem advance {K : RingInv g ℕ} {phase phase' : ExecPhase ℕ} (hs : Shared s log)
    (ho : (cells g).own s log pc) (h : Same s log s' (e.toList ++ log))
    (hpc : pc.executing = some (p, phase)) (hpc' : pc'.executing = some (p, phase'))
    (hcells : ∀ c, phase.CellsOk c → phase'.CellsOk c)
    (hres : phase.ResultOk log p → phase'.ResultOk (e.toList ++ log) p) :
    ThreadInv.Kept K (cells g) log s pc s' pc' e := by
  refine quiet hs h fun q ph hq => ?_
  obtain ⟨rfl, rfl⟩ := Prod.mk.inj (Option.some.inj (hpc'.symm.trans hq))
  have hp := ho p phase hpc
  exact ⟨hcells _ (own_same hp h).cells, hres hp.result⟩

/-- The tracker of a batch that its executor has not reset holds the state of that batch. -/
theorem generation_eq {st : Stage} (hw : Window.Shared s log) (hp : Life.Own s log p st)
    (hst : st.rank < Stage.replaced.rank) (hs : Shared s log) :
    (s.trackers (g.cell p)).generation = g.lap p := by
  obtain ⟨h₁, h₂⟩ := Window.held_mem hw hp (by rintro rfl; simp [Stage.rank] at hst)
  refine (hs.generation p hp.dvd h₁ h₂).2 fun h => ?_
  have := (hp.reached .replaced).1 h
  omega

/-- The state of a batch is that of its tracker until it is replaced. -/
theorem state_eq {st : Stage} (hw : Window.Shared s log) (hp : Life.Own s log p st)
    (hst : st.rank < Stage.replaced.rank) (hs : Shared s log) : s.state (g.cell p) = s.batchState p := by
  rw [SuperTensorBuffer.state, generation_eq hw hp hst hs, SuperTensorBuffer.batchState]

/-- The executor of the batch at `p` sets one of its cells. -/
theorem write {st : Stage} {phase : ExecPhase ℕ} {f : BatchState → BatchState}
    (hw : Window.Shared s log) (hp : Life.Own s log p st) (hst : st.rank < Stage.replaced.rank)
    (hs : Shared s log) (hheld : pc.held = some (p, st)) (hpc' : pc'.executing = some (p, phase))
    (hout : ∀ result, (f (s.batchState p)).cells.2.2 = some result → Event.ran p result ∈ log ∧
      (f (s.batchState p)).cells.1.isSome ∧ (f (s.batchState p)).cells.2.1.isSome)
    (hcells : phase.CellsOk (f (s.batchState p)).cells) (hres : phase.ResultOk log p) :
    ThreadInv.Kept ((life g).and (window g)) (cells g) log s pc
      (s.modifyState (g.cell p) (s.trackers (g.cell p)).generation f) pc' none := by
  rw [generation_eq hw hp hst hs]
  have hE := hp.lt
  refine ⟨⟨fun q hq h₁ h₂ => hs.generation q hq h₁ h₂, fun q hq hle => ?_, fun q result hq hq' => ?_⟩,
    fun q ph hq => ?_, fun m hm hma hmo _ => ⟨fun q ph hq => ?_, True.intro⟩⟩
  · have hne : q ≠ p := by
      rintro rfl
      exact absurd hle (Nat.not_le_of_lt hE)
    rw [s.batchState_modifyState hq hp.dvd, if_neg hne]
    exact hs.future q hq hle
  · rw [s.batchState_modifyState hq hp.dvd] at hq' ⊢
    split_ifs at hq' ⊢ with heq
    · subst heq
      exact hout result hq'
    · exact hs.output q result hq hq'
  · obtain ⟨rfl, rfl⟩ := Prod.mk.inj (Option.some.inj (hpc'.symm.trans hq))
    refine ⟨?_, hres⟩
    rw [s.batchState_modifyState hp.dvd hp.dvd, if_pos rfl]
    exact hcells
  · have hq' := Pc.held_of_executing hq
    have hne : q ≠ p := (hma.1 p st q ph.stage hheld hq').symm
    refine ⟨?_, (hmo q ph hq).result⟩
    rw [s.batchState_modifyState (hm.1 q ph.stage hq').dvd hp.dvd, if_neg hne]
    exact (hmo q ph hq).cells

/-- `reset_batch` gives the tracker of the batch at `p` the state of its next lap. -/
theorem replaceState (hw : Window.Shared s log) (hp : Life.Own s log p .ran) (hs : Shared s log)
    (hpc' : ∀ q ph, pc'.executing = some (q, ph) → q = p ∧ ph.stage = .replaced) :
    ThreadInv.Kept ((life g).and (window g)) (cells g) log s pc
      ((s.modifyState (g.cell p) ((s.trackers (g.cell p)).generation + 1)
        fun _ => BatchState.new).modifyTracker (g.cell p)
        fun d => { d with generation := d.generation + 1 }) pc' (some (.replaced p)) := by
  obtain ⟨hp₁, hp₂⟩ := Window.held_mem hw hp (by simp)
  have hgen := generation_eq hw hp (by simp [Stage.rank]) hs
  have hE := hw.executorHead_le
  have hstate := fun q hq => s.batchState_replace hp.dvd (q := q) hq hgen
    fun d => { d with generation := d.generation + 1 }
  refine ⟨⟨fun q hq h₁ h₂ => ?_, fun q hq hle => ?_, fun q result hq hq' => ?_⟩, fun q ph hq => ?_,
    fun m hm _ hmo _ => ⟨fun q ph hq => ?_, True.intro⟩⟩
  · rw [SuperTensorBuffer.modifyTracker_trackers, reached_cons rfl]
    by_cases heq : q = p
    · subst heq
      rw [if_pos rfl]
      refine ⟨fun _ => ?_, fun h => absurd (.inl ⟨rfl, rfl⟩) h⟩
      rw [SuperTensorBuffer.modifyState_trackers, hgen]
    · rw [if_neg fun hcell => heq (Geometry.eq_of_cell_eq hq hp.dvd h₁ h₂ hp₁ hp₂ hcell)]
      obtain ⟨h, h'⟩ := hs.generation q hq h₁ h₂
      exact ⟨fun hr => h (hr.resolve_left fun h => heq h.1), fun hr => h' fun h => hr (.inr h)⟩
  · rw [hstate q hq]
    split_ifs with heq
    · rfl
    · exact hs.future q hq hle
  · rw [hstate q hq] at hq' ⊢
    split_ifs at hq' ⊢ with heq
    · cases hq'
    · obtain ⟨hran, hcells⟩ := hs.output q result hq hq'
      exact ⟨List.mem_cons_of_mem _ hran, hcells⟩
  · obtain ⟨rfl, hstage⟩ := hpc' q ph hq
    cases ph <;> simp [ExecPhase.stage] at hstage
    exact ⟨True.intro, True.intro⟩
  · have hlt := (hm.1 q ph.stage (Pc.held_of_executing hq)).lt
    have hdvd := (hm.1 q ph.stage (Pc.held_of_executing hq)).dvd
    refine ⟨?_, ResultOk.mono (hmo q ph hq).result fun ev => List.mem_cons_of_mem _⟩
    rw [hstate q hdvd, if_neg (by omega)]
    exact (hmo q ph hq).cells

/-- The window moves on; the tracker it gives to the next lap holds the state of that lap. -/
theorem retire {K : RingInv g ℕ} (hl : Life.Shared s log) (hw : Window.Shared s log)
    (hf : Reached log s.tail .finished) (hs : Shared s log) (hpc' : pc'.executing = none) :
    ThreadInv.Kept K (cells g) log s pc
      { s with tail := Blocks.lower g.batchSize s.tail + g.batchSize } pc' (some (.retired s.tail)) := by
  rw [Blocks.lower_eq_of_dvd hw.tail_dvd]
  refine ⟨⟨fun q hq h₁ h₂ => ?_, hs.future, fun q result hq hq' => ?_⟩,
    fun _ _ => elim_none hpc', fun m _ _ hmo _ => ⟨fun q ph hq => ?_, True.intro⟩⟩
  · simp only at h₁ h₂ ⊢
    rcases Window.lt_or_eq_of_lt_next hw hq h₂ with hlt | rfl
    · exact hs.generation q hq (by omega) hlt
    · have hslots := g.slots_pos
      have hnot : ¬ Reached log (s.tail + g.slots) .replaced := Window.not_reached_next hl hw
      refine ⟨fun h => absurd h hnot, fun _ => ?_⟩
      rw [Geometry.cell_add_slots, Geometry.lap_add_slots]
      exact (hs.generation s.tail hw.tail_dvd le_rfl (by omega)).1 (hl.closed hf (by simp [Stage.rank]))
  · obtain ⟨hran, hcells⟩ := hs.output q result hq hq'
    exact ⟨List.mem_cons_of_mem _ hran, hcells⟩
  · exact ⟨(hmo q ph hq).cells, ResultOk.mono (hmo q ph hq).result fun ev => List.mem_cons_of_mem _⟩

end Cells

/-- Every step keeps the cells. -/
theorem cells_step {i : ℕ} {s s' : SuperTensorBuffer g ℕ} {pc pc' : Pc g ℕ} {c : Choice}
    {e : Option (Event g ℕ)} {log : List (Event g ℕ)}
    (ht : Transition (CounterOps.unbounded g) i s pc c s' pc' e) (hl : Life.Shared s log)
    (hw : Window.Shared s log) (hlo : (life g).own s log pc) (hwo : Window.Own s log pc)
    (hs : Cells.Shared s log) (ho : (cells g).own s log pc) :
    ThreadInv.Kept ((life g).and (window g)) (cells g) log s pc s' pc' e := by
  cases ht with
  | claim e he =>
    subst he
    refine Cells.quiet hs ⟨rfl, Nat.le_add_right _ _, fun _ => rfl, fun _ _ => rfl,
      fun p => reached_cons_of_ne rfl (by decide),
      fun ev => List.mem_cons_of_mem _⟩ fun q ph hq => ?_
    obtain ⟨rfl, rfl⟩ := Prod.mk.inj (Option.some.inj hq)
    exact ⟨hs.future _ hl.executorHead_dvd le_rfl, True.intro⟩
  | deadlinePoll e n ticket phase hp =>
    rcases hp with rfl | rfl <;>
    · refine Cells.advance hs ho ⟨rfl, le_rfl, fun _ => rfl, ?_, fun _ => .rfl, fun _ => id⟩ rfl rfl
        (fun _ => id) fun _ => True.intro
      exact fun y m => s.modifyState_cells (by intro; rfl) _ _ y m
  | setExecStart e now hd =>
    have hc := (ho e .setExecStart rfl).cells
    simp only [ExecPhase.CellsOk, BatchState.cells, Prod.mk.injEq] at hc
    refine Cells.write hw (hlo e .sealed rfl) (by simp [Stage.rank]) hs rfl rfl (fun result h => ?_)
      ⟨rfl, Prod.ext hc.2.1 hc.2.2⟩ True.intro
    exact elim_none hc.2.2 h
  | ran e items result =>
    exact Cells.advance hs ho ⟨rfl, le_rfl, fun _ => rfl, fun _ _ => rfl,
      fun p => reached_cons_of_ne rfl (by decide),
      fun ev => List.mem_cons_of_mem _⟩ rfl rfl (fun _ => id) fun _ => List.mem_cons_self
  | setExecEnd e items result now hd =>
    obtain ⟨hc, hres⟩ := ho e (.setExecEnd items result) rfl
    simp only [ExecPhase.CellsOk, BatchState.cells, Prod.mk.injEq] at hc
    refine Cells.write hw (hlo e .ran rfl) (by simp [Stage.rank]) hs rfl rfl (fun result h => ?_)
      ⟨hc.1, rfl, hc.2.2⟩ hres
    exact elim_none hc.2.2 h
  | setOutput e items result hd =>
    obtain ⟨hc, hres⟩ := ho e (.setOutput items result) rfl
    simp only [ExecPhase.CellsOk, BatchState.cells] at hc
    refine Cells.write hw (hlo e .ran rfl) (by simp [Stage.rank]) hs rfl rfl (fun result' h => ?_)
      True.intro True.intro
    obtain rfl := Option.some.inj h
    exact ⟨hres, hc.1, hc.2.1⟩
  | replaceState e items =>
    refine Cells.replaceState hw (hlo e .ran rfl) hs fun q ph hq => ?_
    obtain ⟨rfl, rfl⟩ := Prod.mk.inj (Option.some.inj hq)
    exact ⟨rfl, rfl⟩
  | retire items t htail =>
    subst htail
    exact Cells.retire hl hw (hwo.taken _ rfl).1 hs rfl
  | _ =>
    first
      | refine Cells.advance hs ho ⟨rfl, le_rfl, ?_, ?_, ?_, ?_⟩ rfl rfl (fun _ => id) fun _ =>
          True.intro
      | refine Cells.quiet hs ⟨rfl, le_rfl, ?_, ?_, ?_, ?_⟩ fun _ _ => elim_none rfl
    · first
        | exact fun _ => rfl
        | exact s.modifyTracker_generation _ fun _ => rfl
    · first
        | exact fun _ _ => rfl
        | exact fun y m => s.modifyState_cells (by intro; rfl) _ _ y m
    · first
        | exact fun _ => .rfl
        | exact fun p => reached_cons_of_ne rfl (by decide)
    · first
        | exact fun _ => id
        | exact fun ev => List.mem_cons_of_mem _

/-- The cells of the batches, in every run. -/
theorem cells_hold {ok : RingGuard g ℕ} {w : RingWorld g ℕ}
    (h : Runs (CounterOps.unbounded g) ok w) : (cells g).Holds w := by
  refine h.threadInv ((life g).and (window g)) (fun v hv => executors_hold hv)
    (fun inputTensors => ⟨⟨fun p _ _ hlt => ⟨fun h => absurd h List.not_mem_nil, fun _ => ?_⟩,
      fun _ _ _ => rfl, fun _ _ _ => elim_none rfl⟩, fun _ _ _ => elim_none rfl,
      fun _ _ _ => True.intro⟩)
    fun i s pc c s' pc' e log ht _ hK hKo hs ho => cells_step ht hK.1 hK.2 hKo.1 hKo.2 hs ho
  exact (Geometry.lap_eq_zero (by simpa [fresh, SuperTensorBuffer.new, CounterOps.unbounded] using hlt)).symm

end Toutates
