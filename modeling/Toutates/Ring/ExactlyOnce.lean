/-
# Every row is executed once

What the ring promises its clients, in the runs whose accepted requests fit: a row that a
request has taken is in one slot of one batch and in nobody else's; a batch is executed at
most once in a lap, when its rows are all there; and a result that a reservation sees is that
of the one execution of its batch.  Between the seal of a batch and the move of the tail over
it, no client writes to its input tensors.
-/

import Toutates.Ring.Ledger
import Toutates.Ring.Lifecycle

namespace Toutates

open Basis

variable {g : Geometry} {α : Type}

/-- Who owns the positions of a log.  A row that a request took is a row of one batch and no
seal has skipped it; the positions of two requests, or of a request and a seal, are apart; and
the reservations of a response are the rows of its request, in order. -/
structure RowsOwned (log : List (Event g ℕ)) : Prop where
  reserved : ∀ t h n, Event.reserved t h n ∈ log → ∀ q, h ≤ q → q < h + n →
    q ∈ reservedRows log ∧ q ∉ paddedRows log ∧
      ∃! p, g.batchSize ∣ p ∧ p ≤ q ∧ q < p + g.batchSize
  apart : (log.filterMap Event.span).Pairwise fun a b => b.1 + b.2 ≤ a.1
  answered : ∀ t h n response, Event.responded t h n response ∈ log →
    Responses.Answers log h n response

/-- `f` is called at most once on a batch in a lap, and has been called on it where an output
cell of that lap is set: the cell holds what it returned. -/
structure ExecutedOnce (s : SuperTensorBuffer g ℕ) (log : List (Event g ℕ)) : Prop where
  invoked : ∀ x n, (marks log).count (g.start x n, .invoked) ≤ 1
  output : ∀ x n result, (s.states x n).output = some result →
    (marks log).count (g.start x n, .invoked) = 1 ∧ Event.ran (g.start x n) result ∈ log

/-- Tracker, lap and slot name a position: distinct positions share no slot of a batch in one
lap. -/
theorem eq_of_slot_eq {p q : ℕ} (hcell : g.cell p = g.cell q) (hlap : g.lap p = g.lap q)
    (hslot : p % g.batchSize = q % g.batchSize) : p = q := by
  rw [← Geometry.start_add_mod (g := g) p, hcell, hlap, hslot, Geometry.start_add_mod]

/-- The rows of a request are reserved. -/
theorem mem_reservedRows {log : List (Event g ℕ)} {t h n q : ℕ} (hev : Event.reserved t h n ∈ log)
    (h₁ : h ≤ q) (h₂ : q < h + n) : q ∈ reservedRows log :=
  ⟨(h, n), List.mem_filterMap.2 ⟨_, hev, rfl⟩, h₁, h₂⟩

/-- Every row has one owner, in every run. -/
theorem rows_owned {w : RingWorld g ℕ} (h : Runs (CounterOps.unbounded g) (Fits g) w) :
    RowsOwned w.log := by
  have hr := (rows_hold h).shared
  refine ⟨fun t hd n hev q h₁ h₂ => ?_, (ledger_holds h).shared.stacked.pairwise,
    (responses_hold h).shared⟩
  have hq := mem_reservedRows hev h₁ h₂
  refine ⟨hq, hr.once q hq, Blocks.lower g.batchSize q, ?_, fun p hp => ?_⟩
  · exact ⟨Blocks.lower_dvd _ q, Blocks.lower_le _ q, Blocks.lt_lower_add g.batchSize_pos q⟩
  · exact (Blocks.lower_eq g.batchSize_pos hp.1 hp.2.1 hp.2.2).symm

/-- No batch is executed twice, in any run. -/
theorem executed_once {ok : RingGuard g ℕ} {w : RingWorld g ℕ}
    (h : Runs (CounterOps.unbounded g) ok w) : ExecutedOnce w.shared w.log := by
  have hl := (life_holds h).shared
  have hc := (cells_hold h).shared
  have hcount : ∀ a, (marks w.log).count a ≤ 1 := List.nodup_iff_count_le_one.1 hl.nodup
  refine ⟨fun x n => hcount _, fun x n result hout => ?_⟩
  have hstate : w.shared.batchState (g.start x n) = w.shared.states x n := by
    rw [SuperTensorBuffer.batchState, Geometry.cell_start, Geometry.lap_start]
  obtain ⟨hran, -⟩ := hc.output (g.start x n) result (g.start_dvd x n) (by rw [hstate]; exact hout)
  have hreached : Reached w.log (g.start x n) .ran := List.mem_filterMap.2 ⟨_, hran, rfl⟩
  have hinvoked : Reached w.log (g.start x n) .invoked := hl.closed hreached (by simp [Stage.rank])
  exact ⟨List.count_eq_one_of_mem hl.nodup hinvoked, hran⟩

/-- A session is invoked by who executes the batch. -/
theorem Transition.of_invoked {ops : CounterOps g α} {i : ℕ} {s s' : SuperTensorBuffer g α}
    {pc pc' : Pc g α} {c : Choice} {p : α} (ht : Transition ops i s pc c s' pc' (some (.invoked p))) :
    ∃ items, pc = .execute p (.invoke items) := by
  cases ht with
  | invoke e items => exact ⟨items, rfl⟩

/-- When `f` is called on a batch, every row reserved in it has been copied to every input
tensor, and no more rows can be reserved in it. -/
theorem copied_of_invoked {w w' : RingWorld g ℕ} {a : Action Choice} {p : ℕ}
    (h : Runs (CounterOps.unbounded g) (Fits g) w)
    (hs : (program (CounterOps.unbounded g)).step w a = some w')
    (hlog : w'.log = .invoked p :: w.log) :
    p + g.batchSize ≤ w.shared.head ∧ ∀ q, p ≤ q → q < p + g.batchSize → q ∈ reservedRows w.log →
      ∀ i < g.numInputs, q ∈ copiedRows i w.log := by
  obtain ⟨items, hpc⟩ := (transition_of_logged hs hlog).of_invoked
  have hown := (life_holds h).own a.thread p .sealed (by rw [hpc]; rfl)
  obtain ⟨hle, hall⟩ := (rows_hold h).shared.sealed p ((hown.reached .sealed).2 le_rfl)
  exact ⟨hle, fun q h₁ h₂ hq i hi => (ledger_holds h).shared.copied i hi (hall q h₁ h₂ hq)⟩

/-- A client that copies to the tensors of a tracker is in a lap of it whose batch is not
sealed, so the sealed batches of the tracker are behind the tail. -/
theorem retired_of_copying {w : RingWorld g ℕ} (h : Runs (CounterOps.unbounded g) (Fits g) w) {i k p : ℕ}
    {ins : Insertion g ℕ} (hpc : w.threads i = .insert ins (.copyInput k)) (hp : Reached w.log p .sealed)
    (hcell : g.cell p = ins.tracker (CounterOps.unbounded g)) : p + g.batchSize ≤ w.shared.tail := by
  have hl := (life_holds h).shared
  have hw := (window_holds h).shared
  have hr := rows_hold h
  have hown := hr.own i
  rw [hpc] at hown
  have hheads := (heads_holds h).own i
  rw [hpc] at hheads
  have howes := Pc.owes_currentHead hheads rfl
  obtain ⟨h₁, h₂⟩ := Rows.owes_mem hl hw (head_le h) hr.shared hown howes
  have hnot := Rows.not_sealed_of_owes hr.shared hown howes
  obtain ⟨hdvd, hlt⟩ := hl.claimed hp
  have hE := hw.executorHead_le
  refine Blocks.add_le_of_dvd hdvd hw.tail_dvd ?_
  by_contra hge
  have heq : p = Blocks.lower g.batchSize ins.currentHead :=
    Geometry.eq_of_cell_eq hdvd (Blocks.lower_dvd _ _) (by omega) (by omega) h₁ h₂
      (hcell.trans (Geometry.cell_lower _).symm)
  rw [heq] at hp
  exact hnot hp

/-- Only the copies of `insert_tensors_at` change input tensors, and those of their tracker. -/
theorem Transition.inputTensors {ops : CounterOps g α} {i : ℕ} {s s' : SuperTensorBuffer g α}
    {pc pc' : Pc g α} {c : Choice} {e : Option (Event g α)} (ht : Transition ops i s pc c s' pc' e)
    {x : Fin g.capacity} (hx : s'.inputTensors x ≠ s.inputTensors x) :
    ∃ ins k, pc = .insert ins (.copyInput k) ∧ ins.tracker ops = x := by
  cases ht with
  | copy ins k hk t hc =>
    refine ⟨ins, k, rfl, ?_⟩
    by_contra hne
    exact hx (Function.update_of_ne (Ne.symm hne) _ _)
  | _ => exact absurd rfl hx

/-- **Exactly-once batched execution.**  In a run whose accepted requests fit, and so in every
run of one-row requests: every row of an accepted request is owned by it alone and is in one
batch, the reservations of a response are the rows of its request, and `f` is called at most
once on a batch in a lap and exactly once where a result is seen; when `f` is called on a
batch, all rows reserved in it have been copied; and from the seal of a batch until the tail
has passed it, no client is at a copy to the input tensors of its tracker, which are changed
by nothing else. -/
theorem executed_exactly_once {w : RingWorld g ℕ}
    (h : Runs (CounterOps.unbounded g) (Fits g) w ∨ Runs (CounterOps.unbounded g) OneRow w) :
    (RowsOwned w.log ∧ (∀ p q, g.cell p = g.cell q → g.lap p = g.lap q →
      p % g.batchSize = q % g.batchSize → p = q) ∧ ExecutedOnce w.shared w.log) ∧
    (∀ a w' p, (program (CounterOps.unbounded g)).step w a = some w' → w'.log = .invoked p :: w.log →
      p + g.batchSize ≤ w.shared.head ∧ ∀ q, p ≤ q → q < p + g.batchSize → q ∈ reservedRows w.log →
        ∀ i < g.numInputs, q ∈ copiedRows i w.log) ∧
    (∀ i ins k p, w.threads i = .insert ins (.copyInput k) → Reached w.log p .sealed →
      g.cell p = ins.tracker (CounterOps.unbounded g) → p + g.batchSize ≤ w.shared.tail) ∧
    ∀ a w' x, (program (CounterOps.unbounded g)).step w a = some w' →
      w'.shared.inputTensors x ≠ w.shared.inputTensors x →
        ∃ ins k, w.threads a.thread = .insert ins (.copyInput k) ∧
          ins.tracker (CounterOps.unbounded g) = x := by
  have hfits : Runs (CounterOps.unbounded g) (Fits g) w := h.elim id Runs.fits_of_oneRow
  refine ⟨⟨rows_owned hfits, fun p q => eq_of_slot_eq, executed_once hfits⟩, fun a w' p hs hlog => ?_,
    fun i ins k p hpc hp hcell => ?_, fun a w' x hs hx => ?_⟩
  · exact copied_of_invoked hfits hs hlog
  · exact retired_of_copying hfits hpc hp hcell
  · obtain ⟨e, ht, -⟩ := transition_of_step hs
    exact ht.inputTensors hx

/-- A batch of a small ring that has run was executed once. -/
theorem executed_exactly_once_twoByOne :
    ∃ w : RingWorld twoByOne ℕ, (w.shared.states (twoByOne.cell 0) 0).output.isSome ∧
      (marks w.log).count (twoByOne.start (twoByOne.cell 0) 0, .invoked) = 1 := by
  have hrun : (runFresh (CounterOps.unbounded twoByOne) (fits twoByOne) (fun _ _ => byteTensor 1)
      (reserve 2 byteRequest ++ insertRow 2 ++ claimBatch 0 ++ runBatch 0)).map
      (fun w => (w.shared.states (twoByOne.cell 0) 0).output.isSome) = some true := by decide +kernel
  obtain ⟨w, hrun, hw⟩ := world_of_runFresh _ hrun
  obtain ⟨result, hout⟩ := Option.isSome_iff_exists.1 hw
  exact ⟨w, hw, ((executed_exactly_once
    (.inl (Runs.of_runFresh (fun _ _ _ _ => fits_spec) hrun))).1.2.2.output _ 0 result hout).1⟩

end Toutates
