/-
# How a request is split

`infer` cuts the rows of a request where a batch ends, and nowhere else: it goes on to the next
reservation when the batch is full and rows are left.  So the reservations of a response are the
pieces of the positions that the request took (`pieces_of_responded`).
-/

import Toutates.Basis.Pieces
import Toutates.Ring.Response

namespace Toutates

open Basis

variable {g : Geometry}

/-- The first position of a reservation, and how many it has. -/
def WriteReservation.span (r : WriteReservation g) : ℕ × ℕ :=
  (g.start r.tracker r.output + r.start, r.stop - r.start)

/-- A range that starts with some positions has these as its first ones. -/
theorem range'_eq_append {p k h n : ℕ} {l : List ℕ} (hk : 0 < k) (heq : List.range' p k ++ l = List.range' h n) :
    p = h ∧ k ≤ n ∧ l = List.range' (h + k) (n - k) := by
  have hle : k ≤ n := by
    have := congrArg List.length heq
    rw [List.length_append, List.length_range', List.length_range'] at this
    omega
  obtain ⟨m, rfl⟩ := Nat.exists_eq_add_of_le hle
  rw [← List.range'_append_1] at heq
  obtain ⟨hpk, hl⟩ := List.append_inj heq (by rw [List.length_range', List.length_range'])
  refine ⟨?_, hle, by rw [hl, Nat.add_sub_cancel_left]⟩
  obtain ⟨j, rfl⟩ := Nat.exists_eq_succ_of_ne_zero hk.ne'
  rw [List.range'_succ, List.range'_succ] at hpk
  exact (List.cons.inj hpk).1

namespace WriteReservation.WellFormed

variable {r : WriteReservation g}

/-- A reservation has a row. -/
theorem span_pos (hr : r.WellFormed) : 0 < r.span.2 := Nat.sub_pos_of_lt hr.start_lt

/-- A reservation is of the batch that it waits for. -/
theorem lower_span (hr : r.WellFormed) : Blocks.lower g.batchSize r.span.1 = g.start r.tracker r.output := by
  have h₁ := hr.start_lt
  have h₂ := hr.stop_le
  exact Blocks.lower_eq g.batchSize_pos (g.start_dvd _ _) (Nat.le_add_right _ _)
    (Nat.add_lt_add_left (h₁.trans_le h₂) _)

/-- Where the batch of a reservation ends. -/
theorem span_end (hr : r.WellFormed) : r.span.1 + r.span.2 = Blocks.lower g.batchSize r.span.1 + r.stop := by
  have h₁ := hr.start_lt
  rw [hr.lower_span, span]
  simp only
  omega

end WriteReservation.WellFormed

/-- Reservations of the rows of a range in order, of which all but the last end with their batch,
are its pieces. -/
theorem pieces_of_rows {response : List (WriteReservation g)} (hne : response ≠ []) {h n : ℕ}
    (hrows : response.flatMap WriteReservation.rows = List.range' h n)
    (hform : ∀ r ∈ response, r.WellFormed) (hfull : ∀ r ∈ response.dropLast, r.stop = g.batchSize) :
    Pieces g.batchSize h n (response.map WriteReservation.span) := by
  induction response generalizing h n with
  | nil => exact absurd rfl hne
  | cons r rest ih =>
    have hr := hform r List.mem_cons_self
    have hend := hr.span_end
    rw [List.flatMap_cons] at hrows
    obtain ⟨rfl, hle, hrest⟩ := range'_eq_append hr.span_pos hrows
    obtain ⟨m, rfl⟩ := Nat.exists_eq_add_of_le hle
    rw [Nat.add_sub_cancel_left] at hrest
    cases rest with
    | nil =>
      have hm : m = 0 := by
        have := congrArg List.length hrest
        rwa [List.flatMap_nil, List.length_nil, List.length_range', eq_comm] at this
      subst hm
      have hstop := hr.stop_le
      exact .last (by exact hr.span_pos) (by exact hend.le.trans (Nat.add_le_add_left hstop _))
    | cons r' rest =>
      have hstop : r.stop = g.batchSize := hfull r (by rw [List.dropLast_cons_cons]; exact List.mem_cons_self)
      rw [hstop] at hend
      exact .cons hend (ih (List.cons_ne_nil _ _) hrest (fun r'' h'' => hform r'' (List.mem_cons_of_mem r h''))
        fun r'' h'' => hfull r'' (by rw [List.dropLast_cons_cons]; exact List.mem_cons_of_mem r h''))

/-- What is known of the ends of reservations: those of a client that goes on end with their
batches, and so do all but the last of a response. -/
structure EndsFull (w : RingWorld g ℕ) : Prop where
  inserting : ∀ i ins phase, (w.threads i).inserting = some (ins, phase) →
    ∀ r ∈ ins.response, r.stop = g.batchSize
  responded : ∀ t h n response, Event.responded t h n response ∈ w.log →
    response ≠ [] ∧ ∀ r ∈ response.dropLast, r.stop = g.batchSize

/-- What a step adds to it. -/
theorem Transition.endsFull {i : ℕ} {s s' : SuperTensorBuffer g ℕ} {pc pc' : Pc g ℕ} {c : Choice}
    {e : Option (Event g ℕ)} {log : List (Event g ℕ)}
    (ht : Transition (CounterOps.unbounded g) i s pc c s' pc' e) (hresp : Responses.Own s log pc)
    (hpc : ∀ ins phase, pc.inserting = some (ins, phase) → ∀ r ∈ ins.response, r.stop = g.batchSize) :
    (∀ ins phase, pc'.inserting = some (ins, phase) → ∀ r ∈ ins.response, r.stop = g.batchSize) ∧
      ∀ t h n response, e = some (.responded t h n response) →
        response ≠ [] ∧ ∀ r ∈ response.dropLast, r.stop = g.batchSize := by
  cases ht with
  | reserve request h n hh =>
    refine ⟨fun ins phase hi => ?_, by rintro _ _ _ _ ⟨⟩⟩
    obtain ⟨rfl, -⟩ := Prod.mk.inj (Option.some.inj hi)
    exact fun r hr => absurd hr List.not_mem_nil
  | respond ins r h =>
    refine ⟨fun _ _ => elim_none rfl, ?_⟩
    rintro _ _ _ _ ⟨⟩
    refine ⟨List.append_ne_nil_of_right_ne_nil _ (List.cons_ne_nil _ _), ?_⟩
    rw [List.dropLast_concat]
    exact hpc ins _ rfl
  | nextBatch ins r h =>
    refine ⟨fun ins' phase hi => ?_, by rintro _ _ _ _ ⟨⟩⟩
    obtain ⟨rfl, -⟩ := Prod.mk.inj (Option.some.inj hi)
    intro r' hr'
    rcases List.mem_append.1 hr' with hr' | hr'
    · exact hpc ins _ rfl r' hr'
    · obtain rfl : r' = ins.reservation := (List.mem_singleton.1 hr').trans (hresp.inserting ins _ rfl).cloned
      have hnext := ins.next_eq h
      have hmod : Blocks.lower g.batchSize ins.currentHead + ins.batchSlot (CounterOps.unbounded g) =
          ins.currentHead := Blocks.lower_add_mod g.batchSize ins.currentHead
      simp only [Insertion.reservation, ins.slotEnd_eq]
      omega
  | _ =>
    refine ⟨fun ins phase hi => ?_, by rintro _ _ _ _ ⟨⟩⟩
    first
      | exact elim_none rfl hi
      | obtain ⟨rfl, -⟩ := Prod.mk.inj (Option.some.inj hi)
        exact hpc _ _ rfl

/-- A piece that is not the last ends its batch, in every run. -/
theorem endsFull_of_runs {w : RingWorld g ℕ} (h : Runs (CounterOps.unbounded g) (Fits g) w) : EndsFull w := by
  obtain ⟨inputTensors, h⟩ := h
  refine h.invariant ⟨fun i _ _ => elim_none rfl, fun _ _ _ _ hmem => absurd hmem List.not_mem_nil⟩
    fun v a v' hv hI _ hs => ?_
  have hresp := (responses_hold ⟨inputTensors, hv⟩).own a.thread
  obtain ⟨e, ht, hlog⟩ := transition_of_step hs
  obtain ⟨hown, hnew⟩ := ht.endsFull hresp (hI.inserting a.thread)
  refine ⟨fun i ins phase hi => ?_, fun t h n response hmem => ?_⟩
  · by_cases hia : i = a.thread
    · subst hia
      exact hown ins phase hi
    · rw [Program.step_threads hs hia] at hi
      exact hI.inserting i ins phase hi
  · rw [hlog] at hmem
    rcases List.mem_append.1 hmem with hmem | hmem
    · exact hnew t h n response (Option.mem_toList.1 hmem)
    · exact hI.responded t h n response hmem

/-- **The reservations of a response are the pieces of its rows.** -/
theorem pieces_of_responded {w : RingWorld g ℕ} (h : Runs (CounterOps.unbounded g) (Fits g) w) {t hd n : ℕ}
    {response : List (WriteReservation g)} (hev : Event.responded t hd n response ∈ w.log) :
    Pieces g.batchSize hd n (response.map WriteReservation.span) := by
  have hanswers := (responses_hold h).shared t hd n response hev
  obtain ⟨hne, hfull⟩ := (endsFull_of_runs h).responded t hd n response hev
  exact pieces_of_rows hne hanswers.rows hanswers.wellFormed hfull

end Toutates
