/-
# Calling the clients of a batch

A client creates its future first and looks at the output cell of its reservation then; when it
finds the cell empty, it waits for the next call of `notify_waiters`.  The executor sets the cell
first and calls then, on the notifier that the tracker holds.

`called` is the invariant of the runs whose requests fit: next to a notifier that was called the
output is set, the notifier of a batch that is being reset was called, and the future of a client
that waits is from before the first call.
-/

import Toutates.Ring.Lifecycle

namespace Toutates

open Basis

variable {g : Geometry} {α : Type}

/-- The batch of an executor that has set the output and not yet called. -/
def Pc.publishing : Pc g α → Option α
  | .execute e (.cloneResponseNotifier _) | .execute e (.notifyResponse _ _) => some e
  | _ => none

/-- A thread that neither publishes an output nor looks for one. -/
def Pc.aside : Pc g α → Bool
  | .execute _ (.cloneResponseNotifier _) | .execute _ (.notifyResponse _ _) | .execute _ (.replaceState _) => false
  | .getData _ (.checkOutput _) | .getData _ (.awaitResponse _) => false
  | _ => true

/-- The shared part of `called`. -/
structure Called.Shared (s : SuperTensorBuffer g ℕ) (log : List (Event g ℕ)) : Prop where
  output : ∀ x n, 0 < (s.states x n).responseReadyNotifier.calls → (s.states x n).output.isSome
  replaced : ∀ p, Reached log p .replaced → 0 < (s.batchState p).responseReadyNotifier.calls

/-- What `called` says about a thread. -/
structure Called.Own (s : SuperTensorBuffer g ℕ) (pc : Pc g ℕ) : Prop where
  published : ∀ p, pc.publishing = some p → (s.batchState p).output.isSome
  notifier : ∀ p items n, pc = .execute p (.notifyResponse items n) → n = g.lap p
  called : ∀ p items, pc = .execute p (.replaceState items) →
    0 < (s.batchState p).responseReadyNotifier.calls
  checking : ∀ c ticket r rest, pc = .getData c (.checkOutput ticket) → c.outputs = r :: rest →
    0 < ticket → (s.states r.tracker r.output).output.isSome
  waiting : ∀ c ticket, pc = .getData c (.awaitResponse ticket) → ticket = 0

/-- **Calling the clients of a batch.** -/
def called (g : Geometry) : RingInv g ℕ where
  shared := Called.Shared
  own s _ := Called.Own s
  apart _ _ := True
  symm _ := True.intro

/-- A write that calls no client. -/
theorem SuperTensorBuffer.modifyState_calls (s : SuperTensorBuffer g α) {f : BatchState → BatchState}
    (hf : ∀ b, (f b).responseReadyNotifier.calls = b.responseReadyNotifier.calls)
    (x : Fin g.capacity) (n : ℕ) (y : Fin g.capacity) (m : ℕ) :
    ((s.modifyState x n f).states y m).responseReadyNotifier.calls =
      (s.states y m).responseReadyNotifier.calls := by
  rw [modifyState_states]
  split_ifs with h
  · rw [hf, h.1, h.2]
  · rfl

/-- A set output stays set. -/
theorem BatchState.Keeps.output_isSome {b b' : BatchState} (h : b.Keeps b') (ho : b.output.isSome) :
    b'.output.isSome := by
  obtain ⟨result, hresult⟩ := Option.isSome_iff_exists.1 ho
  rw [h.output result hresult]
  rfl

section Inversion

variable {tid : ℕ} {s s' : SuperTensorBuffer g ℕ} {col : Collection g} {r : WriteReservation g}
  {rest : List (WriteReservation g)} {ticket : ℕ} {pc' : Pc g ℕ} {e : Option (Event g ℕ)}

/-- The future that a client creates is one of the notifier of its reservation. -/
theorem ticket_of_createNotified (hc : col.outputs = r :: rest)
    (hP : program (CounterOps.unbounded g) tid s (.getData col .createNotified) .go =
      .next s' (.getData col (.checkOutput ticket)) e) :
    ticket = (s.states r.tracker r.responseReadyNotifier).responseReadyNotifier.calls := by
  simp only [program, stepGetData, hc] at hP
  cases hP
  rfl

/-- A client waits where it has found no output. -/
theorem output_of_notReady
    (hP : program (CounterOps.unbounded g) tid s (.getData col (.checkOutput ticket)) .go =
      .next s' (.getData col (.awaitResponse ticket)) e) :
    ∃ r rest, col.outputs = r :: rest ∧ (s.states r.tracker r.output).output = none := by
  simp only [program, stepGetData] at hP
  split at hP
  · cases hP
  · rename_i r rest hc
    split at hP
    · rename_i hout
      exact ⟨r, rest, hc, hout⟩
    · split at hP <;> simp at hP

/-- A client that polls changes no more than the list of those that wait. -/
theorem shared_of_awaitResponse
    (hP : program (CounterOps.unbounded g) tid s (.getData col (.awaitResponse ticket)) .go = .next s' pc' e) :
    ∃ x n, s' = s.modifyState x n fun b =>
      { b with responseReadyNotifier := ((s.states x n).responseReadyNotifier.poll ticket tid).2 } := by
  simp only [program, stepGetData] at hP
  split at hP
  · cases hP
  · cases hP
    exact ⟨_, _, rfl⟩

end Inversion

namespace Called

variable {s s' : SuperTensorBuffer g ℕ} {log : List (Event g ℕ)} {pc pc' m : Pc g ℕ} {e : Option (Event g ℕ)}

/-- The calls of the claimed batches are not taken back. -/
def CallsKept (s s' : SuperTensorBuffer g ℕ) : Prop :=
  ∀ p, g.batchSize ∣ p → p < s.executorHead → 0 < (s.batchState p).responseReadyNotifier.calls →
    0 < (s'.batchState p).responseReadyNotifier.calls

/-- Who has been called stays called. -/
theorem Own.mono (ho : Own s m) (hm : (life g).own s log m) (hk : ∀ x n, (s.states x n).Keeps (s'.states x n))
    (hcalls : CallsKept s s') : Own s' m := by
  refine ⟨fun p hp => (hk _ _).output_isSome (ho.published p hp), ho.notifier, fun p items hp => ?_,
    fun c ticket r rest hc hr hpos => (hk _ _).output_isSome (ho.checking c ticket r rest hc hr hpos), ho.waiting⟩
  have hheld := hm p .ran (by rw [hp]; rfl)
  exact hcalls p hheld.dvd hheld.lt (ho.called p items hp)

/-- Nothing is claimed of other threads. -/
theorem own_none (h : pc.aside = true) : Own s pc where
  published p hp := by
    unfold Pc.publishing at hp
    split at hp
    · cases h
    · cases h
    · cases hp
  notifier _ _ _ hp := by
    rw [hp] at h
    cases h
  called _ _ hp := by
    rw [hp] at h
    cases h
  checking _ _ _ _ hp := by
    rw [hp] at h
    cases h
  waiting _ _ hp := by
    rw [hp] at h
    cases h

/-- What a step has to show. -/
theorem kept (hs : Shared s' (e.toList ++ log)) (hk : ∀ x n, (s.states x n).Keeps (s'.states x n))
    (hcalls : CallsKept s s') (ho : Own s' pc') :
    ThreadInv.Kept ((lifecycle g).and (responses g)) (called g) log s pc s' pc' e :=
  ⟨hs, ho, fun _ hm _ hmo _ => ⟨hmo.mono hm.1.1.1.1.1.1.1 hk hcalls, True.intro⟩⟩

/-- A step that calls no client and resets no batch. -/
theorem quiet (hs : Shared s log) (hk : ∀ x n, (s.states x n).Keeps (s'.states x n))
    (hn : ∀ x n, (s'.states x n).responseReadyNotifier.calls = (s.states x n).responseReadyNotifier.calls)
    (hrep : ∀ p, Reached (e.toList ++ log) p .replaced → Reached log p .replaced) (ho : Own s' pc') :
    ThreadInv.Kept ((lifecycle g).and (responses g)) (called g) log s pc s' pc' e := by
  refine kept ⟨fun x n hpos => ?_, fun p hp => ?_⟩ hk (fun p _ _ hpos => ?_) ho
  · rw [hn] at hpos
    exact (hk x n).output_isSome (hs.output x n hpos)
  · rw [SuperTensorBuffer.batchState, hn]
    exact hs.replaced p (hrep p hp)
  · rw [SuperTensorBuffer.batchState, hn]
    exact hpos

/-- The executor of the batch at `p` calls the clients of the batch. -/
theorem call {p items n : ℕ} (hs : Shared s log) (ho : Own s (.execute p (.notifyResponse items n)))
    (hk : ∀ x m, (s.states x m).Keeps ((s.modifyState (g.cell p) n
      fun b => { b with responseReadyNotifier := b.responseReadyNotifier.notifyWaiters }).states x m)) :
    ThreadInv.Kept ((lifecycle g).and (responses g)) (called g) log s (.execute p (.notifyResponse items n))
      (s.modifyState (g.cell p) n fun b => { b with responseReadyNotifier := b.responseReadyNotifier.notifyWaiters })
      (.execute p (.replaceState items)) none := by
  obtain rfl := ho.notifier p items n rfl
  have hpub := ho.published p rfl
  have hmono : ∀ x n, (s.states x n).responseReadyNotifier.calls ≤ ((s.modifyState (g.cell p) (g.lap p)
      fun b => { b with responseReadyNotifier := b.responseReadyNotifier.notifyWaiters }).states
        x n).responseReadyNotifier.calls := by
    intro x n
    rw [SuperTensorBuffer.modifyState_states]
    split_ifs with h
    · rw [h.1, h.2]
      exact Nat.le_succ _
    · exact le_rfl
  refine kept ⟨fun x n hpos => ?_, fun q hq => (hs.replaced q hq).trans_le (hmono _ _)⟩ hk
    (fun q _ _ hpos => hpos.trans_le (hmono _ _)) ⟨fun _ => elim_none rfl, by rintro _ _ _ ⟨⟩, ?_,
      by rintro _ _ _ _ ⟨⟩, by rintro _ _ ⟨⟩⟩
  · rw [SuperTensorBuffer.modifyState_states] at hpos ⊢
    split_ifs at hpos ⊢ with h
    · exact hpub
    · exact hs.output x n hpos
  · rintro q items' hpc
    cases hpc
    rw [SuperTensorBuffer.batchState, SuperTensorBuffer.modifyState_states, if_pos ⟨rfl, rfl⟩]
    exact Nat.succ_pos _

/-- `reset_batch` takes back the calls of no claimed batch. -/
theorem replaceState {p items : ℕ} (hK : ((lifecycle g).and (responses g)).shared s log)
    (hp : Life.Own s log p .ran) (hs : Shared s log) (ho : Own s (.execute p (.replaceState items)))
    (hk : ∀ x n, (s.states x n).Keeps (((s.modifyState (g.cell p) ((s.trackers (g.cell p)).generation + 1)
      fun _ => BatchState.new).modifyTracker (g.cell p)
      fun d => { d with generation := d.generation + 1 }).states x n)) :
    ThreadInv.Kept ((lifecycle g).and (responses g)) (called g) log s (.execute p (.replaceState items))
      ((s.modifyState (g.cell p) ((s.trackers (g.cell p)).generation + 1)
        fun _ => BatchState.new).modifyTracker (g.cell p)
        fun d => { d with generation := d.generation + 1 }) (.execute p (.resetWritten items))
      (some (.replaced p)) := by
  obtain ⟨⟨⟨⟨⟨⟨⟨hl, hw⟩, -⟩, -⟩, -⟩, hc⟩, -⟩, -⟩ := hK
  have hgen := Cells.generation_eq hw hp (by simp [Stage.rank]) hc
  obtain ⟨hle, -⟩ := Window.held_mem hw hp (by simp)
  have hE := hw.executorHead_le
  have hcalls : CallsKept s ((s.modifyState (g.cell p) ((s.trackers (g.cell p)).generation + 1)
      fun _ => BatchState.new).modifyTracker (g.cell p) fun d => { d with generation := d.generation + 1 }) := by
    intro q hq hlt hpos
    rw [s.batchState_replace hp.dvd hq hgen, if_neg (by omega)]
    exact hpos
  refine kept ⟨fun x n hpos => ?_, fun q hq => ?_⟩ hk hcalls (own_none rfl)
  · rw [SuperTensorBuffer.modifyTracker_states, SuperTensorBuffer.modifyState_states] at hpos ⊢
    split_ifs at hpos ⊢ with h
    · exact absurd hpos (lt_irrefl 0)
    · exact hs.output x n hpos
  · rcases (reached_cons rfl).1 hq with ⟨rfl, -⟩ | hq
    · exact hcalls q hp.dvd hp.lt (ho.called q items rfl)
    · obtain ⟨hdvd, hlt⟩ := hl.claimed hq
      exact hcalls q hdvd hlt (hs.replaced q hq)

end Called

/-- Every step of a run whose requests fit keeps the calls. -/
theorem called_step {i : ℕ} {s s' : SuperTensorBuffer g ℕ} {pc pc' : Pc g ℕ} {c : Choice}
    {e : Option (Event g ℕ)} {log : List (Event g ℕ)}
    (hP : program (CounterOps.unbounded g) i s pc c = .next s' pc' e)
    (hK : ((lifecycle g).and (responses g)).shared s log) (hKo : ((lifecycle g).and (responses g)).own s log pc)
    (hs : Called.Shared s log) (ho : Called.Own s pc) :
    ThreadInv.Kept ((lifecycle g).and (responses g)) (called g) log s pc s' pc' e := by
  have ht := transition_of_next hP
  have hk : ∀ x n, (s.states x n).Keeps (s'.states x n) := keeps_step ht hK.1 hKo.1
  have hlo : (life g).own s log pc := hKo.1.1.1.1.1.1.1
  have hw : Window.Shared s log := hK.1.1.1.1.1.1.2
  have hc : Cells.Shared s log := hK.1.1.2
  cases ht with
  | createNotified col ticket =>
    refine Called.quiet hs hk (fun _ _ => rfl) (fun _ => id) ⟨fun _ => elim_none rfl, by rintro _ _ _ ⟨⟩,
      by rintro _ _ ⟨⟩, fun col' ticket' r rest hpc hr hpos => ?_, by rintro _ _ ⟨⟩⟩
    cases hpc
    have hform := (hKo.2.collecting col rfl).outputs r (hr ▸ List.mem_cons_self)
    rw [ticket_of_createNotified hr hP, hform.notifier_eq] at hpos
    exact hs.output _ _ hpos
  | notReady col ticket =>
    refine Called.quiet hs hk (fun _ _ => rfl) (fun _ => id) ⟨fun _ => elim_none rfl, by rintro _ _ _ ⟨⟩,
      by rintro _ _ ⟨⟩, by rintro _ _ _ _ ⟨⟩, fun col' ticket' hpc => ?_⟩
    cases hpc
    obtain ⟨r, rest, hr, hout⟩ := output_of_notReady hP
    refine Nat.eq_zero_of_not_pos fun hpos => ?_
    have hset := ho.checking col ticket r rest rfl hr hpos
    rw [hout] at hset
    cases hset
  | awaitResponse col ticket x n polled phase hp =>
    obtain ⟨x', n', hs'⟩ := shared_of_awaitResponse hP
    refine Called.quiet hs hk (fun y m => ?_) (fun _ => id) ?_
    · rw [hs', SuperTensorBuffer.modifyState_states]
      split_ifs with h
      · rw [h.1, h.2]
        exact Notify.poll_calls _ _ _
      · rfl
    · refine ⟨fun _ => elim_none rfl, by rintro _ _ _ ⟨⟩, by rintro _ _ ⟨⟩, fun _ _ _ _ hpc => ?_,
        fun col' ticket' hpc => ?_⟩
      · rcases hp with rfl | rfl <;> cases hpc
      · rcases hp with rfl | rfl
        · cases hpc
        · cases hpc
          exact ho.waiting col ticket rfl
  | setOutput e items result hd =>
    refine Called.quiet hs hk (fun x n => ?_) (fun _ => id) ⟨fun p hp => ?_, by rintro _ _ _ ⟨⟩,
      by rintro _ _ ⟨⟩, by rintro _ _ _ _ ⟨⟩, by rintro _ _ ⟨⟩⟩
    · exact s.modifyState_calls (by intro; rfl) _ _ x n
    · obtain rfl := Option.some.inj hp
      have hgen := Cells.generation_eq hw (hlo e .ran rfl) (by simp [Stage.rank]) hc
      rw [SuperTensorBuffer.batchState, SuperTensorBuffer.modifyState_states, if_pos ⟨rfl, hgen.symm⟩]
      rfl
  | cloneResponseNotifier e items =>
    refine Called.quiet hs hk (fun _ _ => rfl) (fun _ => id) ⟨ho.published, fun p items' n hpc => ?_,
      by rintro _ _ ⟨⟩, by rintro _ _ _ _ ⟨⟩, by rintro _ _ ⟨⟩⟩
    cases hpc
    exact Cells.generation_eq hw (hlo e .ran rfl) (by simp [Stage.rank]) hc
  | deadlinePoll e n ticket phase hp =>
    rcases hp with rfl | rfl <;>
      exact Called.quiet hs hk (fun y m => s.modifyState_calls (by intro; rfl) _ _ y m) (fun _ => id)
        (Called.own_none rfl)
  | notifyResponse e items n => exact Called.call hs ho hk
  | replaceState e items => exact Called.replaceState hK (hlo e .ran rfl) hs ho hk
  | _ =>
    refine Called.quiet hs hk ?_ ?_ (Called.own_none rfl)
    · first
        | exact fun _ _ => rfl
        | exact fun x n => s.modifyState_calls (by intro; rfl) _ _ x n
    · first
        | exact fun _ => id
        | exact fun p => (reached_cons_of_ne rfl (by decide)).1

/-- The calls of the clients of a batch, in every run of requests that fit. -/
theorem called_holds {w : RingWorld g ℕ} (h : Runs (CounterOps.unbounded g) (Fits g) w) : (called g).Holds w := by
  obtain ⟨inputTensors, h⟩ := h
  refine h.threadInv (fun v hv => responses_all ⟨inputTensors, hv⟩)
    ⟨⟨fun x n hpos => absurd hpos (lt_irrefl 0), fun p hp => absurd hp List.not_mem_nil⟩,
      fun i => Called.own_none rfl, fun _ _ _ => True.intro⟩
    fun i s pc c s' pc' e log hP _ hK hKo hs ho => called_step hP hK hKo hs ho

end Toutates
