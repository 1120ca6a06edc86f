/-
# The cells of a batch are set once

Every cell of a `BatchState` is a `OnceCell`, and the code `expect`s each `set` to be the
first one of the batch.  In the runs whose requests fit, `opening`, `cells`, `rows` and
`responses` leave one panic of the protocol: the assertion of `seal_current_batch`.
-/

import Toutates.Ring.Panics
import Toutates.Ring.Response

namespace Toutates

open Basis

variable {g : Geometry}

/-- The invariants on responses, together. -/
theorem responses_all {w : RingWorld g ℕ} (h : Runs (CounterOps.unbounded g) (Fits g) w) :
    ((lifecycle g).and (responses g)).Holds w :=
  (lifecycle_holds h).and (responses_hold h)

/-- A set cell stays as it is to the end of the run. -/
theorem keeps_of_reach {w w' : RingWorld g ℕ} (h : Runs (CounterOps.unbounded g) (Fits g) w)
    (hr : Reach (program (CounterOps.unbounded g)) (Fits g) w w') (x : Fin g.capacity) (n : ℕ) :
    (w.shared.states x n).Keeps (w'.shared.states x n) := by
  refine hr.invariant (I := fun v => (w.shared.states x n).Keeps (v.shared.states x n))
    (BatchState.Keeps.refl _) fun v a v' hv hI _ hs => ?_
  obtain ⟨e, ht, -⟩ := transition_of_step hs
  have hK := lifecycle_holds (h.reach hv)
  exact hI.trans (keeps_step ht hK.shared (hK.own a.thread) x n)

/-- The cells that a client opens its batch with are those of the batch it is at. -/
theorem opening_state {s : SuperTensorBuffer g ℕ} {log : List (Event g ℕ)} {ins : Insertion g ℕ}
    {phase : InsertPhase g} (hK : (lifecycle g).shared s log)
    (hKo : (lifecycle g).own s log (.insert ins phase)) (hopens : phase.opens = true)
    (hphase : phase.counted = false) :
    phase.OpeningOk (s.state (ins.tracker (CounterOps.unbounded g))).opening := by
  have howes := Pc.owes_currentHead hKo.1.1.1.1.2 hphase
  have hgen := Opening.generation_eq hK.1 hKo.1.1.2 howes
  have hown := hKo.2 ins phase rfl
  have hstate : s.state (ins.tracker (CounterOps.unbounded g)) = s.batchState ins.currentHead := by
    rw [SuperTensorBuffer.state, SuperTensorBuffer.batchState, ← hgen]
    rfl
  rw [hstate]
  exact hown.now (hown.first hopens)

/-- The only panic of the protocol that is left is the assertion of `seal_current_batch`. -/
theorem eq_batchNotWritten_of_panicking {s : SuperTensorBuffer g ℕ} {log : List (Event g ℕ)}
    {pc : Pc g ℕ} {site : Panic} (hP : Panicking (CounterOps.unbounded g) s pc site)
    (hK : ((lifecycle g).and (responses g)).shared s log)
    (hKo : ((lifecycle g).and (responses g)).own s log pc) : site = .batchNotWritten := by
  obtain ⟨⟨⟨⟨⟨⟨⟨-, hw⟩, -⟩, -⟩, hr⟩, hc⟩, -⟩, -⟩ := id hK
  obtain ⟨⟨⟨⟨⟨⟨⟨hlo, -⟩, -⟩, -⟩, hro⟩, hco⟩, -⟩, hresp⟩ := id hKo
  have unset : ∀ {v : Option Instant}, v = none → ¬ v.isSome := by
    rintro v rfl
    exact Bool.false_ne_true
  cases hP with
  | deadlineSet ins now hset =>
    have hok := opening_state hK.1 hKo.1 rfl rfl
    exact absurd hset (unset (congrArg Prod.fst hok))
  | queueStartSet ins now hset =>
    have hok := opening_state hK.1 hKo.1 rfl rfl
    exact absurd hset (unset hok)
  | traceUnwrap c metadatas x n hm hset =>
    exact absurd ((hresp.collecting c rfl).trace metadatas x n hm) hset
  | batchNotWritten e hb => rfl
  | tooManyWritten e d hlt =>
    have hle := (Rows.written_le (hlo e .woken rfl) hw hr hro rfl).2.2
    exact absurd hlt (Nat.not_lt_of_le hle)
  | execStartSet e hset =>
    have hcells := (hco e _ rfl).cells
    rw [← Cells.state_eq hw (hlo e .sealed rfl) (by simp [Stage.rank]) hc] at hcells
    exact absurd hset (unset (congrArg Prod.fst hcells))
  | execEndSet e items result hset =>
    have hcells := (hco e _ rfl).cells
    rw [← Cells.state_eq hw (hlo e .ran rfl) (by simp [Stage.rank]) hc] at hcells
    exact absurd hset (unset (congrArg Prod.fst hcells.2))
  | outputSet e items result hset =>
    have hcells := (hco e _ rfl).cells
    rw [← Cells.state_eq hw (hlo e .ran rfl) (by simp [Stage.rank]) hc] at hcells
    have hnone : (s.state (g.cell e)).output = none := hcells.2.2
    have hsome : (s.state (g.cell e)).output.isSome := hset
    rw [hnone] at hsome
    exact absurd hsome Bool.false_ne_true

/-- **The cells of a batch are set once.**  In a run whose accepted requests fit: a cell of a
`BatchState` that is set keeps its value to the end of the run; the tracker of a batch holds
the state of the lap of that batch until the batch is reset; no panic of the protocol is
reachable but the assertion of `seal_current_batch`; and a reservation that sees its output
holds a trace with the start and the end of a run. -/
theorem lifecycle_cells_set_once {w : RingWorld g ℕ}
    (h : Runs (CounterOps.unbounded g) (Fits g) w) :
    (∀ w', Reach (program (CounterOps.unbounded g)) (Fits g) w w' → ∀ x n,
      (w.shared.states x n).Keeps (w'.shared.states x n)) ∧
    (∀ p, g.batchSize ∣ p → w.shared.tail ≤ p → p < w.shared.tail + g.slots →
      ¬ Reached w.log p .replaced → (w.shared.trackers (g.cell p)).generation = g.lap p) ∧
    (∀ a site, (program (CounterOps.unbounded g)).Panics w a site → site.isProtocol = true →
      site = .batchNotWritten) ∧
    ∀ i c r, (w.threads i).collecting = some c → r ∈ c.outputs →
      (w.shared.states r.tracker r.output).output.isSome →
        (w.shared.states r.tracker r.trace).executionTrace.execStart.isSome ∧
        (w.shared.states r.tracker r.trace).executionTrace.execEnd.isSome := by
  have hK := responses_all h
  refine ⟨fun w' hr x n => keeps_of_reach h hr x n, fun p hp h₁ h₂ hnot => ?_, fun a site hP hsite => ?_,
    fun i c r hc hr hout => ?_⟩
  · exact (hK.shared.1.1.2.generation p hp h₁ h₂).2 hnot
  · exact eq_batchNotWritten_of_panicking (panicking_of_panicked hP hsite) hK.shared (hK.own a.thread)
  · obtain ⟨result, hresult⟩ := Option.isSome_iff_exists.1 hout
    have hform := ((hK.own i).2.collecting c hc).outputs r hr
    exact Responses.execCells_of_output hK.shared.1.1.2 hform hresult

/-- The client of a batch of a small ring that has run reads the batch's output. -/
theorem lifecycle_cells_set_once_twoByOne :
    ∃ w : RingWorld twoByOne ℕ, ∃ c r, (w.threads 2).collecting = some c ∧ r ∈ c.outputs ∧
      (w.shared.states r.tracker r.trace).executionTrace.execStart.isSome ∧
      (w.shared.states r.tracker r.trace).executionTrace.execEnd.isSome := by
  have hrun : (runFresh (CounterOps.unbounded twoByOne) (fits twoByOne) (fun _ _ => byteTensor 1)
      (reserve 2 byteRequest ++ insertRow 2 ++ claimBatch 0 ++ runBatch 0)).map
      (fun w => (w.threads 2).collecting.any fun c => c.outputs.any fun r =>
        (w.shared.states r.tracker r.output).output.isSome) = some true := by decide +kernel
  obtain ⟨w, hrun, hw⟩ := world_of_runFresh _ hrun
  obtain ⟨c, hc, hany⟩ := (Option.any_eq_true _ _).1 hw
  obtain ⟨r, hr, hout⟩ := List.any_eq_true.1 hany
  exact ⟨w, c, r, hc, hr, (lifecycle_cells_set_once
    (Runs.of_runFresh (fun _ _ _ _ => fits_spec) hrun)).2.2.2 2 c r hc hr hout⟩

end Toutates
