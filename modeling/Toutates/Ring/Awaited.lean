/-
# Waiting on a warm ring

`Ring.Permits` and `Ring.Called` are about runs from a new buffer.  Here is what is known of those who
wait on a ring that `load_model` has warmed up: whose row the executors of its batches wait for
(`permits_of_served`), and that the clients of a batch are called before it is reset, except for the
batches of the warmups, which have no clients (`calledPast_of_served`).  Every batch that was claimed is
finished, or somebody has it in hand (`held_of_claimed`).
-/

import Toutates.Ring.Permits
import Toutates.Ring.Served

namespace Toutates

open Basis

variable {g : Geometry} {ok : RingGuard g ℕ} {k : ℕ} {w : RingWorld g ℕ}
  {inputTensors : Fin g.capacity → Fin g.numInputs → BatchableTensor g.batchSize}

/-- **The run rule of a served ring.** -/
theorem ServedRing.invariant {I : RingWorld g ℕ → Prop} (h : ServedRing ok k inputTensors w)
    (h₀ : ∀ s : SuperTensorBuffer g ℕ, s.Warm k → I (warmWorld k s))
    (hstep : ∀ v a v', ServedRing ok k inputTensors v → I v →
      ok a.thread v.shared (v.threads a.thread) a.choice →
        (program (CounterOps.unbounded g)).step v a = some v' → I v') : I w := by
  obtain ⟨s, hrun, h⟩ := h
  exact h.invariant (h₀ s (warm_of_warmups hrun).1) fun v a v' hv => hstep v a v' ⟨s, hrun, hv⟩

/-- An invariant that every step keeps holds in a served ring. -/
theorem ServedRing.threadInv {K J : RingInv g ℕ} (h : ServedRing ok k inputTensors w)
    (hK : ∀ v, ServedRing ok k inputTensors v → K.Holds v)
    (h₀ : ∀ s : SuperTensorBuffer g ℕ, s.Warm k → J.Holds (warmWorld k s))
    (hstep : ∀ i s pc c s' pc' e log, program (CounterOps.unbounded g) i s pc c = .next s' pc' e → ok i s pc c →
      K.shared s log → K.own s log pc → J.shared s log → J.own s log pc →
        ThreadInv.Kept K J log s pc s' pc' e) : J.Holds w := by
  obtain ⟨s, hrun, h⟩ := h
  exact h.threadInv (fun v hv => hK v ⟨s, hrun, hv⟩) (h₀ s (warm_of_warmups hrun).1) hstep

/-- Requests that are admitted fit. -/
theorem ServedRing.fits (h : ServedRing (Admitted g) k inputTensors w) : ServedRing (Fits g) k inputTensors w :=
  h.mono fun _ _ _ _ hok => hok.1

/-- The counters, the rows and the cells of a served ring. -/
theorem deliveries_of_served (h : ServedRing (Fits g) k inputTensors w) : (deliveries g).Holds w :=
  (responding_of_served h).left.left.left

/-! ### The rows of the batches -/

/-- A row that a request has taken is counted, or somebody owes it. -/
theorem counted_or_owed_of_served (h : ServedRing (Admitted g) k inputTensors w) :
    ∀ q ∈ reservedRows w.log, q ∈ countedRows w.log ∨ ∃ i, (w.threads i).Owes q := by
  refine h.invariant (I := fun v => ∀ q ∈ reservedRows v.log, q ∈ countedRows v.log ∨ ∃ i, (v.threads i).Owes q)
    (fun s _ q hq => ?_) fun v a v' _ hv hok hs q hq => ?_
  · rw [show reservedRows (warmWorld k s).log = ∅ from reservedRows_warmLog k] at hq
    exact absurd hq (Set.notMem_empty q)
  · obtain ⟨e, ht, hlog⟩ := transition_of_step hs
    rw [hlog] at hq ⊢
    rcases ht.reserved_cases hq with hq | hq
    · rcases hv q hq with hq | ⟨j, hj⟩
      · exact .inl (rowsOf_mono _ hq)
      · by_cases hja : j = a.thread
        · subst hja
          exact (ht.owes_cases hok.2 hj).symm.imp_right fun h => ⟨_, h⟩
        · exact .inr ⟨j, by rwa [Program.step_threads hs hja]⟩
    · exact .inr ⟨_, hq⟩

/-- In a served ring an executor waits with the notifier of its own batch. -/
theorem waits_of_served (h : ServedRing (Fits g) k inputTensors w) : (waits g).Holds w := by
  refine h.threadInv (K := deliveries g) (fun v hv => deliveries_of_served hv)
    (fun s _ => ⟨True.intro, fun _ _ _ => elim_none rfl, fun _ _ _ => True.intro⟩)
    fun i s pc c s' pc' e log hP _ hK hKo _ ho => ⟨True.intro, ?_, fun m _ _ hm _ => ⟨hm, True.intro⟩⟩
  have ht := transition_of_next hP
  cases ht with
  | cloneExecutorNotifier p =>
    intro q n h
    obtain ⟨rfl, rfl⟩ := Prod.mk.inj (Option.some.inj h)
    exact Cells.generation_eq hK.1.1.1.1.2 (hKo.1.1.1.1.1 p .claimed rfl) (by simp [Stage.rank]) hK.2
  | deadlinePoll p n ticket phase hp =>
    rcases hp with rfl | rfl
    · exact fun _ _ => elim_none rfl
    · exact ho
  | _ => first
    | exact ho
    | exact fun _ _ => elim_none rfl

/-- The permits of a served ring. -/
theorem permits_of_served (h : ServedRing (Fits g) k inputTensors w) : Permits w := by
  refine h.invariant (fun s hs => ?_) fun v a v' hv hI _ hs =>
    hI.step (deliveries_of_served hv) (waits_of_served hv) hs
  have hnew : ∀ p, (warmWorld k s).shared.executorNotifier p = Notify.new := fun p =>
    congrArg BatchState.executorNotifier (hs.states _ _)
  refine ⟨fun p _ => ?_, fun p _ _ j => ?_, fun _ _ => elim_none rfl, fun p q _ _ hq => ?_⟩
  · rw [hnew]
    exact Notify.new_settled
  · rw [hnew]
    exact Notify.not_knows_new j
  · rw [show countedRows (warmWorld k s).log = ∅ from countedRows_warmLog k] at hq
    exact absurd hq (Set.notMem_empty q)

/-! ### Who has a batch in hand -/

section Held

variable {i : ℕ} {s s' : SuperTensorBuffer g ℕ} {pc pc' : Pc g ℕ} {c : Choice} {e : Option (Event g ℕ)} {p : ℕ}

/-- An executor keeps its batch until it is finished. -/
theorem Transition.held (ht : Transition (CounterOps.unbounded g) i s pc c s' pc' e) {st : Stage}
    (hp : pc.held = some (p, st)) : (∃ st', pc'.held = some (p, st')) ∨ e = some (.finished p) := by
  cases ht with
  | resetDirty q items =>
    obtain ⟨rfl, -⟩ := Prod.mk.inj (Option.some.inj hp)
    exact .inr rfl
  | _ => first
    | exact elim_none rfl hp
    | obtain ⟨rfl, -⟩ := Prod.mk.inj (Option.some.inj hp)
      exact .inl ⟨_, rfl⟩

/-- A step claims the batch at the executor head, if any. -/
theorem Transition.claimed (ht : Transition (CounterOps.unbounded g) i s pc c s' pc' e)
    (hE : g.batchSize ∣ s.executorHead) (hp : g.batchSize ∣ p) (hlt : p < s'.executorHead) :
    p < s.executorHead ∨ pc'.held = some (p, .claimed) := by
  cases ht with
  | claim q hq =>
    subst hq
    exact (Blocks.lt_or_eq_of_lt_add hE hp hlt).imp_right fun hpE => by rw [hpE]; rfl
  | _ => exact .inl hlt

end Held

/-- **A batch that was claimed is finished, or somebody has it in hand.** -/
theorem held_of_claimed (h : ServedRing (Fits g) k inputTensors w) :
    ∀ p, g.batchSize ∣ p → p < w.shared.executorHead →
      Reached w.log p .finished ∨ ∃ i st, (w.threads i).held = some (p, st) := by
  refine h.invariant (I := fun v => ∀ p, g.batchSize ∣ p → p < v.shared.executorHead →
    Reached v.log p .finished ∨ ∃ i st, (v.threads i).held = some (p, st))
    (fun s hs p hp hlt => .inl ?_) fun v a v' hv hI _ hs p hp hlt => ?_
  · exact reached_warmLog.2 ⟨hp, hs.executorHead ▸ hlt⟩
  · obtain ⟨e, ht, hlog⟩ := transition_of_step hs
    have hE := (life_of_deliveries (deliveries_of_served hv)).shared.executorHead_dvd
    rcases ht.claimed hE hp hlt with hlt | hnew
    · rcases hI p hp hlt with hfin | ⟨j, st, hj⟩
      · rw [hlog]
        exact .inl (hfin.mono _)
      · by_cases hja : j = a.thread
        · subst hja
          rcases ht.held hj with ⟨st', hj'⟩ | rfl
          · exact .inr ⟨_, st', hj'⟩
          · rw [hlog]
            exact .inl ((reached_cons rfl).2 (.inl ⟨rfl, rfl⟩))
        · exact .inr ⟨j, st, by rwa [Program.step_threads hs hja]⟩
    · exact .inr ⟨_, _, hnew⟩

/-! ### Calling the clients of a batch -/

/-- The shared part of `calledPast`. -/
structure CalledPast.Shared (b : ℕ) (s : SuperTensorBuffer g ℕ) (log : List (Event g ℕ)) : Prop where
  output : ∀ x n, 0 < (s.states x n).responseReadyNotifier.calls → (s.states x n).output.isSome
  replaced : ∀ p, b ≤ p → Reached log p .replaced → 0 < (s.batchState p).responseReadyNotifier.calls

/-- **Calling the clients of a batch**, from the batch at `b` on. -/
def calledPast (g : Geometry) (b : ℕ) : RingInv g ℕ where
  shared := CalledPast.Shared b
  own s _ := Called.Own s
  apart _ _ := True
  symm _ := True.intro

namespace CalledPast

variable {b : ℕ} {s s' : SuperTensorBuffer g ℕ} {log : List (Event g ℕ)} {pc pc' : Pc g ℕ}
  {e : Option (Event g ℕ)}

/-- What a step has to show. -/
theorem kept (hl : Life.Shared s log) (hs : Shared b s log) (hk : ∀ x n, (s.states x n).Keeps (s'.states x n))
    (hcalls : Called.CallsKept s s')
    (hout : ∀ x n, 0 < (s'.states x n).responseReadyNotifier.calls →
      0 < (s.states x n).responseReadyNotifier.calls ∨ (s'.states x n).output.isSome)
    (hrep : ∀ p, Reached (e.toList ++ log) p .replaced → Reached log p .replaced ∨
      Reached log p .claimed ∧ 0 < (s.batchState p).responseReadyNotifier.calls) (ho : Called.Own s' pc') :
    ThreadInv.Kept ((lifecycle g).and (responses g)) (calledPast g b) log s pc s' pc' e := by
  refine ⟨⟨fun x n hpos => ?_, fun p hb hp => ?_⟩, ho, fun _ hm _ hmo _ =>
    ⟨hmo.mono hm.1.1.1.1.1.1.1 hk hcalls, True.intro⟩⟩
  · rcases hout x n hpos with hold | hset
    · exact (hk x n).output_isSome (hs.output x n hold)
    · exact hset
  · rcases hrep p hp with hold | ⟨hclaimed, hpos⟩
    · obtain ⟨hdvd, hlt⟩ := hl.claimed hold
      exact hcalls p hdvd hlt (hs.replaced p hb hold)
    · obtain ⟨hdvd, hlt⟩ := hl.claimed hclaimed
      exact hcalls p hdvd hlt hpos

/-- A step that calls no client and resets no batch. -/
theorem quiet (hl : Life.Shared s log) (hs : Shared b s log) (hk : ∀ x n, (s.states x n).Keeps (s'.states x n))
    (hn : ∀ x n, (s'.states x n).responseReadyNotifier.calls = (s.states x n).responseReadyNotifier.calls)
    (hrep : ∀ p, Reached (e.toList ++ log) p .replaced → Reached log p .replaced) (ho : Called.Own s' pc') :
    ThreadInv.Kept ((lifecycle g).and (responses g)) (calledPast g b) log s pc s' pc' e := by
  refine kept hl hs hk (fun p _ _ hpos => ?_) (fun x n hpos => .inl ?_) (fun p hp => .inl (hrep p hp)) ho
  · rwa [SuperTensorBuffer.batchState, hn]
  · rwa [hn] at hpos

/-- The executor of the batch at `p` calls the clients of the batch. -/
theorem call {p items n : ℕ} (hl : Life.Shared s log) (hs : Shared b s log)
    (ho : Called.Own s (.execute p (.notifyResponse items n)))
    (hk : ∀ x m, (s.states x m).Keeps ((s.modifyState (g.cell p) n
      fun b => { b with responseReadyNotifier := b.responseReadyNotifier.notifyWaiters }).states x m)) :
    ThreadInv.Kept ((lifecycle g).and (responses g)) (calledPast g b) log s (.execute p (.notifyResponse items n))
      (s.modifyState (g.cell p) n fun b => { b with responseReadyNotifier := b.responseReadyNotifier.notifyWaiters })
      (.execute p (.replaceState items)) none := by
  obtain rfl := ho.notifier p items n rfl
  have hpub := ho.published p rfl
  refine kept hl hs hk (fun q _ _ hpos => ?_) (fun x n hpos => ?_) (fun _ => .inl) ⟨fun _ => elim_none rfl,
    by rintro _ _ _ ⟨⟩, ?_, by rintro _ _ _ _ ⟨⟩, by rintro _ _ ⟨⟩⟩
  · rw [SuperTensorBuffer.batchState, SuperTensorBuffer.modifyState_states]
    split_ifs
    · exact Nat.succ_pos _
    · exact hpos
  · rw [SuperTensorBuffer.modifyState_states] at hpos ⊢
    split_ifs at hpos ⊢
    · exact .inr hpub
    · exact .inl hpos
  · rintro q items' hpc
    cases hpc
    rw [SuperTensorBuffer.batchState, SuperTensorBuffer.modifyState_states, if_pos ⟨rfl, rfl⟩]
    exact Nat.succ_pos _

/-- `reset_batch` takes back the calls of no claimed batch. -/
theorem replaceState {p items : ℕ} (hw : Window.Shared s log) (hc : Cells.Shared s log) (hl : Life.Shared s log)
    (hp : Life.Own s log p .ran) (hs : Shared b s log) (ho : Called.Own s (.execute p (.replaceState items)))
    (hk : ∀ x n, (s.states x n).Keeps (((s.modifyState (g.cell p) ((s.trackers (g.cell p)).generation + 1)
      fun _ => BatchState.new).modifyTracker (g.cell p)
      fun d => { d with generation := d.generation + 1 }).states x n)) :
    ThreadInv.Kept ((lifecycle g).and (responses g)) (calledPast g b) log s (.execute p (.replaceState items))
      ((s.modifyState (g.cell p) ((s.trackers (g.cell p)).generation + 1)
        fun _ => BatchState.new).modifyTracker (g.cell p)
        fun d => { d with generation := d.generation + 1 }) (.execute p (.resetWritten items))
      (some (.replaced p)) := by
  have hgen := Cells.generation_eq hw hp (by simp [Stage.rank]) hc
  obtain ⟨hle, -⟩ := Window.held_mem hw hp (by simp)
  have hE := hw.executorHead_le
  refine kept hl hs hk (fun q hq hlt hpos => ?_) (fun x n hpos => .inl ?_) (fun q hq => ?_) (Called.own_none rfl)
  · rw [s.batchState_replace hp.dvd hq hgen, if_neg (by omega)]
    exact hpos
  · rw [SuperTensorBuffer.modifyTracker_states, SuperTensorBuffer.modifyState_states] at hpos
    split_ifs at hpos
    · exact absurd hpos (lt_irrefl 0)
    · exact hpos
  · rcases (reached_cons rfl).1 hq with ⟨rfl, -⟩ | hq
    · exact .inr ⟨(hp.reached .claimed).2 (Nat.zero_le _), ho.called q items rfl⟩
    · exact .inl hq

end CalledPast

/-- Every step of a run whose requests fit keeps the calls. -/
theorem calledPast_step {b i : ℕ} {s s' : SuperTensorBuffer g ℕ} {pc pc' : Pc g ℕ} {c : Choice}
    {e : Option (Event g ℕ)} {log : List (Event g ℕ)}
    (hP : program (CounterOps.unbounded g) i s pc c = .next s' pc' e)
    (hK : ((lifecycle g).and (responses g)).shared s log) (hKo : ((lifecycle g).and (responses g)).own s log pc)
    (hs : CalledPast.Shared b s log) (ho : Called.Own s pc) :
    ThreadInv.Kept ((lifecycle g).and (responses g)) (calledPast g b) log s pc s' pc' e := by
  have ht := transition_of_next hP
  have hk : ∀ x n, (s.states x n).Keeps (s'.states x n) := keeps_step ht hK.1 hKo.1
  have hl : Life.Shared s log := hK.1.1.1.1.1.1.1
  have hlo : (life g).own s log pc := hKo.1.1.1.1.1.1.1
  have hw : Window.Shared s log := hK.1.1.1.1.1.1.2
  have hc : Cells.Shared s log := hK.1.1.2
  cases ht with
  | createNotified col ticket =>
    refine CalledPast.quiet hl hs hk (fun _ _ => rfl) (fun _ => id) ⟨fun _ => elim_none rfl, by rintro _ _ _ ⟨⟩,
      by rintro _ _ ⟨⟩, fun col' ticket' r rest hpc hr hpos => ?_, by rintro _ _ ⟨⟩⟩
    cases hpc
    have hform := (hKo.2.collecting col rfl).outputs r (hr ▸ List.mem_cons_self)
    rw [ticket_of_createNotified hr hP, hform.notifier_eq] at hpos
    exact hs.output _ _ hpos
  | notReady col ticket =>
    refine CalledPast.quiet hl hs hk (fun _ _ => rfl) (fun _ => id) ⟨fun _ => elim_none rfl, by rintro _ _ _ ⟨⟩,
      by rintro _ _ ⟨⟩, by rintro _ _ _ _ ⟨⟩, fun col' ticket' hpc => ?_⟩
    cases hpc
    obtain ⟨r, rest, hr, hout⟩ := output_of_notReady hP
    refine Nat.eq_zero_of_not_pos fun hpos => ?_
    have hset := ho.checking col ticket r rest rfl hr hpos
    rw [hout] at hset
    cases hset
  | awaitResponse col ticket x n polled phase hp =>
    obtain ⟨x', n', hs'⟩ := shared_of_awaitResponse hP
    refine CalledPast.quiet hl hs hk (fun y m => ?_) (fun _ => id) ?_
    · rw [hs', SuperTensorBuffer.modifyState_states]
      split_ifs with h
      · rw [h.1, h.2]
        exact Notify.poll_calls _ _ _
      · rfl
    · rcases hp with rfl | rfl
      · exact Called.own_none rfl
      · exact ⟨fun _ => elim_none rfl, by rintro _ _ _ ⟨⟩, by rintro _ _ ⟨⟩, by rintro _ _ _ _ ⟨⟩,
          fun col' ticket' hpc => by cases hpc; exact ho.waiting col ticket rfl⟩
  | setOutput e items result hd =>
    refine CalledPast.quiet hl hs hk (fun x n => ?_) (fun _ => id) ⟨fun p hp => ?_, by rintro _ _ _ ⟨⟩,
      by rintro _ _ ⟨⟩, by rintro _ _ _ _ ⟨⟩, by rintro _ _ ⟨⟩⟩
    · exact s.modifyState_calls (by intro; rfl) _ _ x n
    · obtain rfl := Option.some.inj hp
      have hgen := Cells.generation_eq hw (hlo e .ran rfl) (by simp [Stage.rank]) hc
      rw [SuperTensorBuffer.batchState, SuperTensorBuffer.modifyState_states, if_pos ⟨rfl, hgen.symm⟩]
      rfl
  | cloneResponseNotifier e items =>
    refine CalledPast.quiet hl hs hk (fun _ _ => rfl) (fun _ => id) ⟨ho.published, fun p items' n hpc => ?_,
      by rintro _ _ ⟨⟩, by rintro _ _ _ _ ⟨⟩, by rintro _ _ ⟨⟩⟩
    cases hpc
    exact Cells.generation_eq hw (hlo e .ran rfl) (by simp [Stage.rank]) hc
  | deadlinePoll e n ticket phase hp =>
    rcases hp with rfl | rfl <;>
      exact CalledPast.quiet hl hs hk (fun y m => s.modifyState_calls (by intro; rfl) _ _ y m) (fun _ => id)
        (Called.own_none rfl)
  | notifyResponse e items n => exact CalledPast.call hl hs ho hk
  | replaceState e items => exact CalledPast.replaceState hw hc hl (hlo e .ran rfl) hs ho hk
  | _ =>
    refine CalledPast.quiet hl hs hk ?_ ?_ (Called.own_none rfl)
    · first
        | exact fun _ _ => rfl
        | exact fun x n => s.modifyState_calls (by intro; rfl) _ _ x n
    · first
        | exact fun _ => id
        | exact fun p => (reached_cons_of_ne rfl (by decide)).1

/-- The batches after those of the warmups are reset when their clients have been called. -/
theorem calledPast_of_served (h : ServedRing (Fits g) k inputTensors w) :
    (calledPast g (k * g.batchSize)).Holds w := by
  refine h.threadInv (K := (lifecycle g).and (responses g)) (fun v hv => (responding_of_served hv).left)
    (fun s hs => ⟨⟨fun x n hpos => ?_, fun p hb hp => ?_⟩, fun i => Called.own_none rfl, fun _ _ _ => True.intro⟩)
    fun i s pc c s' pc' e log hP _ hK hKo hs ho => calledPast_step hP hK hKo hs ho
  · rw [show (warmWorld k s).shared.states x n = BatchState.new from hs.states x n] at hpos
    exact absurd hpos (lt_irrefl 0)
  · exact absurd (reached_warmLog.1 hp).2 (Nat.not_lt_of_le hb)

/-! ### What a client reads -/

/-- What a client that reads its results goes by: the rest of a response, which it waits for while there is
some, and the trace of what it has read when there is none. -/
structure Reads (log : List (Event g ℕ)) (pc : Pc g ℕ) : Prop where
  answered : ∀ c, pc.collecting = some c → ∃ t h n response, Event.responded t h n response ∈ log ∧ c.outputs ⊆ response
  unread : ∀ c ticket, pc = .getData c (.checkOutput ticket) ∨ pc = .getData c (.awaitResponse ticket) → c.outputs ≠ []
  traced : ∀ c, pc = .getData c .recordTrace → c.metadatas.isSome

namespace Reads

variable {i : ℕ} {s s' : SuperTensorBuffer g ℕ} {pc pc' : Pc g ℕ} {c : Choice} {e : Option (Event g ℕ)}
  {log : List (Event g ℕ)}

/-- A thread that collects nothing reads nothing. -/
theorem of_none (h : pc.collecting = none) : Reads log pc where
  answered _ := elim_none h
  unread _ _ hpc := by rcases hpc with rfl | rfl <;> cases h
  traced _ hpc := by
    subst hpc
    cases h

/-- What a thread goes by stays in the log. -/
theorem mono (h : Reads log pc) : Reads (e.toList ++ log) pc :=
  ⟨fun c hc => by
    obtain ⟨t, hd, n, response, hmem, hsub⟩ := h.answered c hc
    exact ⟨t, hd, n, response, List.mem_append_right _ hmem, hsub⟩, h.unread, h.traced⟩

/-- What a thread goes by after a step. -/
theorem step (hP : program (CounterOps.unbounded g) i s pc c = .next s' pc' e) (h : Reads log pc) :
    Reads (e.toList ++ log) pc' := by
  have ht := transition_of_next hP
  cases ht with
  | respond ins r hlast =>
    refine ⟨fun col hcol => ?_, by rintro _ _ (⟨⟨⟩⟩ | ⟨⟨⟩⟩), by rintro _ ⟨⟩⟩
    obtain rfl := Option.some.inj hcol
    exact ⟨_, _, _, _, List.mem_cons_self, List.Subset.refl _⟩
  | allRead col m hc hm =>
    refine ⟨h.mono.answered, by rintro _ _ (⟨⟨⟩⟩ | ⟨⟨⟩⟩), fun col' hcol => ?_⟩
    cases hcol
    rw [hm]
    rfl
  | createNotified col ticket =>
    refine ⟨h.mono.answered, fun col' ticket' hpc hnil => ?_, by rintro _ ⟨⟩⟩
    obtain rfl : col = col' := by rcases hpc with hpc | hpc <;> cases hpc; rfl
    simp only [program, stepGetData, hnil] at hP
    split at hP <;> cases hP
  | notReady col ticket =>
    refine ⟨h.mono.answered, fun col' ticket' hpc => ?_, by rintro _ ⟨⟩⟩
    obtain rfl : col = col' := by rcases hpc with hpc | hpc <;> cases hpc; rfl
    exact h.unread col ticket (.inl rfl)
  | read col ticket r rest result data metadatas hc hout hd =>
    refine ⟨fun col' hcol => ?_, by rintro _ _ (⟨⟨⟩⟩ | ⟨⟨⟩⟩), by rintro _ ⟨⟩⟩
    obtain rfl := Option.some.inj hcol
    obtain ⟨t, hd, n, response, hmem, hsub⟩ := h.answered col rfl
    exact ⟨t, hd, n, response, hmem, fun r' hr' => hsub (hc ▸ List.mem_cons_of_mem _ hr')⟩
  | awaitResponse col ticket x n polled phase hp =>
    rcases hp with rfl | rfl
    · exact ⟨h.mono.answered, by rintro _ _ (⟨⟨⟩⟩ | ⟨⟨⟩⟩), by rintro _ ⟨⟩⟩
    · exact h.mono
  | _ => exact of_none rfl

end Reads

/-- What the threads of a served ring go by. -/
theorem reads_of_served (h : ServedRing ok k inputTensors w) (i : ℕ) : Reads w.log (w.threads i) := by
  refine h.invariant (I := fun v => ∀ i, Reads v.log (v.threads i)) (fun s _ i => Reads.of_none rfl)
    (fun v a v' _ hI _ hs j => ?_) i
  obtain ⟨e, hP, hlog⟩ := Program.next_of_step hs
  rw [hlog]
  by_cases hja : j = a.thread
  · subst hja
    exact (hI _).step hP
  · rw [Program.step_threads hs hja]
    exact (hI j).mono

/-- The batch that a client waits for has a row that was reserved. -/
theorem reserved_of_collecting (h : ServedRing (Fits g) k inputTensors w) {i : ℕ} {c : Collection g}
    (hc : (w.threads i).collecting = some c) {r : WriteReservation g} (hr : r ∈ c.outputs) :
    g.start r.tracker r.output + r.start ∈ reservedRows w.log ∧ r.start < g.batchSize := by
  have hresponses := (responding_of_served h).left.right
  obtain ⟨t, hd, n, response, hmem, hsub⟩ := (reads_of_served h i).answered c hc
  have hanswers := hresponses.shared t hd n response hmem
  have hform := hanswers.wellFormed r (hsub hr)
  have hlt := hform.start_lt
  have hle := hform.stop_le
  have hrow : g.start r.tracker r.output + r.start ∈ List.range' hd n := by
    rw [← hanswers.rows]
    refine List.mem_flatMap.2 ⟨r, hsub hr, List.mem_range'_1.2 ⟨le_rfl, ?_⟩⟩
    omega
  obtain ⟨t', hreserved⟩ := hanswers.reserved
  obtain ⟨h₁, h₂⟩ := List.mem_range'_1.1 hrow
  exact ⟨mem_reservedRows hreserved h₁ h₂, by omega⟩

end Toutates
