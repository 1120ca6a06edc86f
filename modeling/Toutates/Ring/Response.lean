/-
# The reservations of a response

`infer` answers with one reservation for every batch its rows fell in, and each holds clones
of the cells of the `BatchState` that its tracker held.  The clones are made one by one while
other threads move, and `get_data` reads them long after.

`responses` is the invariant of the runs whose requests fit: the clones of a reservation are
all of the state of the lap its rows are in, the reservations of a response are its rows in
order, and the execution trace that `get_data` keeps has the start and the end of a run.
-/

import Toutates.Ring.Opening

namespace Toutates

open Basis

variable {g : Geometry} {α : Type}

namespace WriteReservation

/-- The positions of the rows of a reservation: the slots `start .. stop` of the batch whose
output it waits for. -/
def rows (r : WriteReservation g) : List ℕ :=
  List.range' (g.start r.tracker r.output + r.start) (r.stop - r.start)

/-- The clones are all of one state, and the slots are some slots of a batch. -/
structure WellFormed (r : WriteReservation g) : Prop where
  trace_eq : r.trace = r.output
  notifier_eq : r.responseReadyNotifier = r.output
  start_lt : r.start < r.stop
  stop_le : r.stop ≤ g.batchSize

end WriteReservation

/-- The reservation of a piece whose clones are of the state of its own lap. -/
def Insertion.reservation (ins : Insertion g ℕ) : WriteReservation g where
  tracker := g.cell ins.currentHead
  output := g.lap ins.currentHead
  trace := g.lap ins.currentHead
  responseReadyNotifier := g.lap ins.currentHead
  start := ins.batchSlot (CounterOps.unbounded g)
  stop := ins.slotEnd (CounterOps.unbounded g)

/-- The rows of a reservation are those that were written. -/
theorem Insertion.reservation_rows (ins : Insertion g ℕ) :
    ins.reservation.rows = List.range' ins.currentHead (ins.toWrite (CounterOps.unbounded g)) := by
  have hpos : g.start (g.cell ins.currentHead) (g.lap ins.currentHead) +
      ins.batchSlot (CounterOps.unbounded g) = ins.currentHead := Geometry.start_add_mod ins.currentHead
  simp only [WriteReservation.rows, reservation, hpos, ins.slotEnd_eq, Nat.add_sub_cancel_left]

/-- A reservation of a row is well formed. -/
theorem Insertion.reservation_wellFormed (ins : Insertion g ℕ) (hpos : 0 < ins.clientBatchSize) :
    ins.reservation.WellFormed := by
  have hwrite := ins.toWrite_pos hpos
  have hend := ins.piece_le
  have hmod : Blocks.lower g.batchSize ins.currentHead + ins.batchSlot (CounterOps.unbounded g) =
      ins.currentHead := Blocks.lower_add_mod g.batchSize ins.currentHead
  refine ⟨rfl, rfl, ?_, ?_⟩
  · simp only [reservation, ins.slotEnd_eq]
    omega
  · simp only [reservation, ins.slotEnd_eq]
    omega

/-- The clones in hand are of the state of the lap of the piece. -/
def InsertPhase.Cloned (ins : Insertion g ℕ) : InsertPhase g → Prop
  | cloneTrace o => o = g.lap ins.currentHead
  | cloneNotifier o t => o = g.lap ins.currentHead ∧ t = g.lap ins.currentHead
  | addWritten o t n => o = g.lap ins.currentHead ∧ t = g.lap ins.currentHead ∧
      n = g.lap ins.currentHead
  | notifyExecutor r | push r => r = ins.reservation
  | _ => True

/-- The collection of a client that reads its results. -/
def Pc.collecting : Pc g α → Option (Collection g)
  | .getData c _ => some c
  | _ => none

/-- The reservations are those of the `n` rows that a request took from `h` on, in order. -/
structure Responses.Answers (log : List (Event g ℕ)) (h n : ℕ) (response : List (WriteReservation g)) :
    Prop where
  reserved : ∃ t, Event.reserved t h n ∈ log
  rows : response.flatMap WriteReservation.rows = List.range' h n
  wellFormed : ∀ r ∈ response, r.WellFormed

/-- What `responses` says about a client that is inserting. -/
structure Responses.Inserting (log : List (Event g ℕ)) (ins : Insertion g ℕ) (phase : InsertPhase g) :
    Prop where
  head_eq : ins.currentHead = ins.batchId + ins.inputStart
  reserved : ∃ t, Event.reserved t ins.batchId (ins.inputStart + ins.clientBatchSize) ∈ log
  rows : ins.response.flatMap WriteReservation.rows = List.range' ins.batchId ins.inputStart
  wellFormed : ∀ r ∈ ins.response, r.WellFormed
  cloned : phase.Cloned ins

/-- What `responses` says about a client that reads its results. -/
structure Responses.Collecting (s : SuperTensorBuffer g ℕ) (c : Collection g) : Prop where
  outputs : ∀ r ∈ c.outputs, r.WellFormed
  trace : ∀ m x n, c.metadatas = some (m, x, n) →
    (s.states x n).executionTrace.execStart.isSome ∧ (s.states x n).executionTrace.execEnd.isSome

/-- What `responses` says about a thread. -/
structure Responses.Own (s : SuperTensorBuffer g ℕ) (log : List (Event g ℕ)) (pc : Pc g ℕ) : Prop where
  inserting : ∀ ins phase, pc.inserting = some (ins, phase) → Responses.Inserting log ins phase
  collecting : ∀ c, pc.collecting = some c → Responses.Collecting s c

/-- **The reservations of the responses.** -/
def responses (g : Geometry) : RingInv g ℕ where
  shared _ log := ∀ t h n response, Event.responded t h n response ∈ log →
    Responses.Answers log h n response
  own := Responses.Own
  apart _ _ := True
  symm _ := True.intro

namespace Responses

variable {s s' : SuperTensorBuffer g ℕ} {log log' : List (Event g ℕ)} {pc pc' m : Pc g ℕ}
  {K : RingInv g ℕ} {e : Option (Event g ℕ)} {ins : Insertion g ℕ} {phase phase' : InsertPhase g}
  {c : Collection g}

/-- What answers a request still does. -/
theorem Answers.mono {h n : ℕ} {response : List (WriteReservation g)} (ha : Answers log h n response)
    (hlog : ∀ ev ∈ log, ev ∈ log') : Answers log' h n response :=
  ⟨ha.reserved.imp fun _ => hlog _, ha.rows, ha.wellFormed⟩

/-- What was inserted stays inserted. -/
theorem Inserting.mono (hi : Inserting log ins phase) (hlog : ∀ ev ∈ log, ev ∈ log')
    (hc : phase'.Cloned ins) : Inserting log' ins phase' :=
  ⟨hi.head_eq, hi.reserved.imp fun _ => hlog _, hi.rows, hi.wellFormed, hc⟩

/-- What is collected stays what it is. -/
theorem Collecting.mono (hc : Collecting s c) (hk : ∀ x n, (s.states x n).Keeps (s'.states x n)) :
    Collecting s' c :=
  ⟨hc.outputs, fun m x n hm => (hk x n).execCells (hc.trace m x n hm)⟩

/-- What a thread knows of its request stays true. -/
theorem Own.mono (ho : Own s log m) (hlog : ∀ ev ∈ log, ev ∈ log')
    (hk : ∀ x n, (s.states x n).Keeps (s'.states x n)) : Own s' log' m :=
  ⟨fun ins phase hi => (ho.inserting ins phase hi).mono hlog (ho.inserting ins phase hi).cloned,
    fun c hc => (ho.collecting c hc).mono hk⟩

/-- Events stay in the log. -/
theorem mem_log (ev : Event g ℕ) (h : ev ∈ log) : ev ∈ e.toList ++ log := List.mem_append_right _ h

/-- Only the facts of the thread that moves are new, and those of a response it sends. -/
theorem kept (hs : (responses g).shared s log) (hk : ∀ x n, (s.states x n).Keeps (s'.states x n))
    (hresp : ∀ t h n response, e = some (.responded t h n response) → Answers log h n response)
    (ho : Own s' (e.toList ++ log) pc') : ThreadInv.Kept K (responses g) log s pc s' pc' e := by
  refine ⟨fun t h n response hmem => ?_, ho, fun _ _ _ hm _ => ⟨hm.mono mem_log hk, True.intro⟩⟩
  rcases List.mem_append.1 hmem with hmem | hmem
  · exact (hresp t h n response (Option.mem_toList.1 hmem)).mono mem_log
  · exact (hs t h n response hmem).mono mem_log

/-- A thread with nothing in hand. -/
theorem own_none (h₁ : pc.inserting = none) (h₂ : pc.collecting = none) : Own s log pc :=
  ⟨fun _ _ => elim_none h₁, fun _ => elim_none h₂⟩

/-- A thread that inserts. -/
theorem own_inserting (h : Inserting log ins phase) : Own s log (.insert ins phase) := by
  refine ⟨fun ins' phase' hi => ?_, fun _ => elim_none rfl⟩
  obtain ⟨rfl, rfl⟩ := Prod.mk.inj (Option.some.inj hi)
  exact h

/-- A thread that collects. -/
theorem own_collecting {phase : GetPhase} (h : Collecting s c) : Own s log (.getData c phase) := by
  refine ⟨fun _ _ => elim_none rfl, fun c' hc => ?_⟩
  obtain rfl := Option.some.inj hc
  exact h

/-- The response so far and the reservation of the piece in hand are the rows up to the end of
the piece. -/
theorem Inserting.rows_push {r : WriteReservation g} (hi : Inserting log ins (.push r)) :
    (ins.response ++ [r]).flatMap WriteReservation.rows =
      List.range' ins.batchId (ins.inputStart + ins.toWrite (CounterOps.unbounded g)) := by
  obtain rfl : r = ins.reservation := hi.cloned
  rw [List.flatMap_append, hi.rows, List.flatMap_singleton, ins.reservation_rows, hi.head_eq,
    List.range'_append_1]

/-- A reservation more. -/
theorem Inserting.wellFormed_push {r : WriteReservation g} (hi : Inserting log ins (.push r))
    (hpos : 0 < ins.clientBatchSize) : ∀ r' ∈ ins.response ++ [r], r'.WellFormed := by
  intro r' hr'
  obtain rfl : r = ins.reservation := hi.cloned
  rcases List.mem_append.1 hr' with hr' | hr'
  · exact hi.wellFormed r' hr'
  · rw [List.mem_singleton.1 hr']
    exact ins.reservation_wellFormed hpos

/-- A result that `get_data` reads comes with the start and the end of the run that made it. -/
theorem execCells_of_output {r : WriteReservation g} {result : Except InferError SessionValues}
    (hc : Cells.Shared s log) (hr : r.WellFormed) (ho : (s.states r.tracker r.output).output = some result) :
    (s.states r.tracker r.trace).executionTrace.execStart.isSome ∧
      (s.states r.tracker r.trace).executionTrace.execEnd.isSome := by
  have hstate : s.batchState (g.start r.tracker r.output) = s.states r.tracker r.output := by
    rw [SuperTensorBuffer.batchState, Geometry.cell_start, Geometry.lap_start]
  rw [hr.trace_eq, ← hstate]
  refine (hc.output (g.start r.tracker r.output) result (g.start_dvd _ _) ?_).2
  rw [hstate]
  exact ho

end Responses

/-- Every step of a run whose requests fit keeps the responses. -/
theorem responses_step {i : ℕ} {s s' : SuperTensorBuffer g ℕ} {pc pc' : Pc g ℕ} {c : Choice}
    {e : Option (Event g ℕ)} {log : List (Event g ℕ)}
    (ht : Transition (CounterOps.unbounded g) i s pc c s' pc' e) (hK : (lifecycle g).shared s log)
    (hKo : (lifecycle g).own s log pc) (hs : (responses g).shared s log) (ho : Responses.Own s log pc) :
    ThreadInv.Kept (lifecycle g) (responses g) log s pc s' pc' e := by
  have hk : ∀ x n, (s.states x n).Keeps (s'.states x n) := keeps_step ht hK hKo
  have hrows : Rows.Own s log pc := hKo.1.1.2
  have hheads : Heads.Own s pc := hKo.1.1.1.1.2
  cases ht with
  | reserve request h n hh =>
    subst hh
    refine Responses.kept hs hk (by rintro _ _ _ _ ⟨⟩) (Responses.own_inserting
      ⟨rfl, ⟨i, ?_⟩, rfl, fun r hr => absurd hr List.not_mem_nil, True.intro⟩)
    rw [Nat.zero_add]
    exact List.mem_cons_self
  | cloneOutput ins =>
    have hgen := Opening.generation_eq hK.1 hrows (Pc.owes_currentHead hheads rfl)
    exact Responses.kept hs hk (by rintro _ _ _ _ ⟨⟩) (Responses.own_inserting
      ((ho.inserting ins _ rfl).mono (fun _ => id) hgen))
  | cloneTrace ins o =>
    have hgen := Opening.generation_eq hK.1 hrows (Pc.owes_currentHead hheads rfl)
    have hi := ho.inserting ins _ rfl
    exact Responses.kept hs hk (by rintro _ _ _ _ ⟨⟩) (Responses.own_inserting
      (hi.mono (fun _ => id) ⟨hi.cloned, hgen⟩))
  | cloneNotifier ins o t =>
    have hgen := Opening.generation_eq hK.1 hrows (Pc.owes_currentHead hheads rfl)
    have hi := ho.inserting ins _ rfl
    exact Responses.kept hs hk (by rintro _ _ _ _ ⟨⟩) (Responses.own_inserting
      (hi.mono (fun _ => id) ⟨hi.cloned.1, hi.cloned.2, hgen⟩))
  | addWritten ins o t n r hr phase hp =>
    have hi := ho.inserting ins _ rfl
    refine Responses.kept hs hk (by rintro _ _ _ _ ⟨⟩) (Responses.own_inserting
      (hi.mono Responses.mem_log ?_))
    obtain ⟨rfl, rfl, rfl⟩ := hi.cloned
    rw [hp, hr]
    split <;> rfl
  | respond ins r h =>
    have hi := ho.inserting ins _ rfl
    have hwrite : ins.toWrite (CounterOps.unbounded g) = ins.clientBatchSize := by
      have hle := ins.toWrite_le
      omega
    have hrow := hi.rows_push
    have hform := hi.wellFormed_push hheads.positive
    refine Responses.kept hs hk (fun t h' n response heq => ?_) (Responses.own_collecting
      ⟨hform, fun _ _ _ => elim_none rfl⟩)
    obtain ⟨rfl, rfl, rfl, rfl⟩ := Event.responded.inj (Option.some.inj heq)
    refine ⟨?_, hrow, hform⟩
    rw [Insertion.inputEnd, hwrite]
    exact hi.reserved
  | nextBatch ins r h =>
    have hi := ho.inserting ins _ rfl
    have hle := ins.toWrite_le
    have heq := ins.next_eq h
    refine Responses.kept hs hk (by rintro _ _ _ _ ⟨⟩) (Responses.own_inserting
      ⟨?_, hi.reserved.imp fun t ht => ?_, hi.rows_push, hi.wellFormed_push hheads.positive, True.intro⟩)
    · have hhead := hi.head_eq
      simp only [Insertion.next, Insertion.inputEnd]
      exact heq.trans (by omega)
    · have hsum : (ins.next (CounterOps.unbounded g) r).inputStart +
          (ins.next (CounterOps.unbounded g) r).clientBatchSize = ins.inputStart + ins.clientBatchSize := by
        simp only [Insertion.next, Insertion.inputEnd]
        omega
      rw [hsum]
      exact ht
  | read c ticket r rest result data metadatas hc hout hd =>
    have hcol := ho.collecting c rfl
    refine Responses.kept hs hk (by rintro _ _ _ _ ⟨⟩) (Responses.own_collecting
      ⟨fun r' hr' => hcol.outputs r' (hc ▸ List.mem_cons_of_mem _ hr'), fun m x n hm => ?_⟩)
    obtain ⟨-, hm⟩ := Prod.mk.inj (Option.some.inj hm)
    cases hmeta : c.metadatas with
    | none =>
      rw [hmeta] at hm
      obtain ⟨rfl, rfl⟩ := Prod.mk.inj hm
      exact Responses.execCells_of_output hK.1.2 (hcol.outputs r (hc ▸ List.mem_cons_self)) hout
    | some mxn =>
      obtain ⟨m', x', n'⟩ := mxn
      rw [hmeta] at hm
      obtain ⟨rfl, rfl⟩ := Prod.mk.inj hm
      exact hcol.trace m' x' n' hmeta
  | awaitResponse c ticket x n polled phase hp =>
    exact Responses.kept hs hk (by rintro _ _ _ _ ⟨⟩) (Responses.own_collecting
      ((ho.collecting c rfl).mono hk))
  | _ =>
    refine Responses.kept hs hk (by rintro _ _ _ _ ⟨⟩) ?_
    first
      | exact Responses.own_none rfl rfl
      | exact Responses.own_collecting ((ho.collecting _ rfl).mono hk)
      | exact Responses.own_inserting ((ho.inserting _ _ rfl).mono Responses.mem_log
          (ho.inserting _ _ rfl).cloned)

/-- The reservations of the responses, in every run of requests that fit. -/
theorem responses_hold {w : RingWorld g ℕ} (h : Runs (CounterOps.unbounded g) (Fits g) w) :
    (responses g).Holds w := by
  refine h.threadInv (lifecycle g) (fun v hv => lifecycle_holds hv)
    (fun inputTensors => ⟨fun _ _ _ _ h => absurd h List.not_mem_nil,
      fun i => Responses.own_none rfl rfl, fun _ _ _ => True.intro⟩)
    fun i s pc c s' pc' e log ht _ hK hKo hs ho => responses_step ht hK hKo hs ho

end Toutates
