/-
# A server of a model

The clients of a server share batches, counters and tensors.  As long as all of them send as many
rows as they declare, of the model's size (`Request.Honest`), a client whose call of `infer` and
`get_data` answers it gets what the model computes from its own rows, in their order, and nothing of
anybody else's: `answered_rowwise`.

`Pc.Serving` is what is known of a call while it lasts: the rows that it has counted are stored
(`Ring.Stored`), those of the piece in hand are in the tensors that they have been copied to, and
what it has collected is what `getData` makes of the results of its own reservations.
-/

import Toutates.Ring.Served
import Toutates.Ring.Split
import Toutates.Ring.Stored

namespace Toutates

open Basis

variable {g : Geometry}

/-- The rows of a request that a client has counted. -/
def Insertion.written (ins : Insertion g ℕ) (phase : InsertPhase g) : ℕ :=
  ins.inputStart + bif phase.counted then ins.toWrite (CounterOps.unbounded g) else 0

/-- The first `n` rows of a request are counted and stored at the positions from `h` on. -/
def StoredRows (m : RowModel g) (s : SuperTensorBuffer g ℕ) (log : List (Event g ℕ)) (request : Request)
    (h n : ℕ) : Prop :=
  ∀ r < n, h + r ∈ countedRows log ∧ Stored m s log request (h + r) r

/-- The rows of the piece in hand are in the input tensors that they have been copied to. -/
def CopiedPiece (m : RowModel g) (s : SuperTensorBuffer g ℕ) (request : Request) (ins : Insertion g ℕ)
    (phase : InsertPhase g) : Prop :=
  ∀ d < ins.toWrite (CounterOps.unbounded g), ∀ j : Fin g.numInputs, j.val < phase.copiedInputs →
    (s.inputTensors (g.cell (ins.currentHead + d)) j).row ((ins.currentHead + d) % g.batchSize) =
      request.row m (ins.inputStart + d) j

/-- A client that inserts the `n` rows of a request. -/
structure Writing (m : RowModel g) (s : SuperTensorBuffer g ℕ) (log : List (Event g ℕ)) (request : Request)
    (n : ℕ) (ins : Insertion g ℕ) (phase : InsertPhase g) : Prop where
  request_eq : ins.request = request
  size : ins.inputStart + ins.clientBatchSize = n
  written : StoredRows m s log request ins.batchId (ins.written phase)
  copied : phase.counted = false → CopiedPiece m s request ins phase

/-- A client that reads the results of the `n` rows of a request. -/
def Reading (m : RowModel g) (s : SuperTensorBuffer g ℕ) (log : List (Event g ℕ)) (i : ℕ) (request : Request)
    (n : ℕ) (pc : Pc g ℕ) : Prop :=
  ∃ h response, Event.responded i h n response ∈ log ∧ pc.Collects s [.responded i h n response] i ∧
    StoredRows m s log request h n

/-- What is known of thread `i` from its call on, while it does not start another one. -/
def Pc.Serving (m : RowModel g) (s : SuperTensorBuffer g ℕ) (log : List (Event g ℕ)) (i : ℕ) (request : Request)
    (n : ℕ) : Pc g ℕ → Prop
  | .idle => True
  | .infer request' phase => request' = request ∧ ∀ h k, phase = .casHead h k → k = n
  | .insert ins phase => Writing m s log request n ins phase
  | .getData c phase => Reading m s log i request n (.getData c phase)
  | _ => False

section Step

variable {m : RowModel g} {i : ℕ} {s s' : SuperTensorBuffer g ℕ} {pc pc' : Pc g ℕ} {c : Choice}
  {e : Option (Event g ℕ)} {log : List (Event g ℕ)} {request : Request} {n : ℕ}

/-- What is counted stays counted. -/
theorem mem_countedRows_append {q : ℕ} (l : List (Event g ℕ)) (h : q ∈ countedRows log) :
    q ∈ countedRows (l ++ log) := by
  obtain ⟨a, ha, hq⟩ := h
  refine ⟨a, ?_, hq⟩
  rw [List.filterMap_append]
  exact List.mem_append_right _ ha

/-- No step loses stored rows. -/
theorem StoredRows.step {h k : ℕ} (hst : StoredRows m s log request h k)
    (ht : Transition (CounterOps.unbounded g) i s pc c s' pc' e) (hok : Serves m i s pc c)
    (hK : (lifecycle g).shared s log) (hKo : (lifecycle g).own s log pc) (hT : s.TensorsOf m.inputs)
    (hpc : pc.Honest m) : StoredRows m s' (e.toList ++ log) request h k := by
  intro r hr
  obtain ⟨hcount, hrow⟩ := hst r hr
  exact ⟨mem_countedRows_append _ hcount, ht.stored hok hK hKo hT hpc hcount hrow⟩

/-- The piece in hand is stored when it is counted. -/
theorem Stored.of_copied {ins : Insertion g ℕ} {phase : InsertPhase g} {d : ℕ}
    (hK : (lifecycle g).shared s log) (hKo : (lifecycle g).own s log (.insert ins phase))
    (hphase : phase.counted = false) (hall : phase.copiedInputs = g.numInputs)
    (hd : d < ins.toWrite (CounterOps.unbounded g)) (hcopy : CopiedPiece m s request ins phase) :
    Stored m s log request (ins.currentHead + d) (ins.inputStart + d) := by
  refine ⟨fun _ j => hcopy d hd j (by rw [hall]; exact j.isLt), fun values hmem => ?_⟩
  have howes : (Pc.insert ins phase).Owes (ins.currentHead + d) :=
    Pc.owes_of_not_counted hphase (Nat.le_add_right _ _) (by have := ins.toWrite_le; omega)
  have hran : Reached log (Blocks.lower g.batchSize (ins.currentHead + d)) .ran :=
    List.mem_filterMap.2 ⟨_, hmem, rfl⟩
  have hlife : Life.Shared s log := hK.1.1.1.1.1.1
  exact absurd (hlife.closed hran (by simp [Stage.rank])) (Rows.not_sealed_of_owes hK.1.1.2 hKo.1.1.2 howes)

/-- A step of a client in `insert_tensors_at` that copies nothing and counts nothing. -/
theorem Writing.quiet {ins : Insertion g ℕ} {phase phase' : InsertPhase g} (hw : Writing m s log request n ins phase)
    (hst : StoredRows m s' (e.toList ++ log) request ins.batchId (ins.written phase))
    (hT : s'.inputTensors = s.inputTensors) (hcount : phase'.counted = phase.counted)
    (hcopied : phase.counted = false → ∀ j < g.numInputs, j < phase'.copiedInputs → j < phase.copiedInputs) :
    Writing m s' (e.toList ++ log) request n ins phase' := by
  refine ⟨hw.request_eq, hw.size, ?_, fun hphase d hd j hj => ?_⟩
  · rw [Insertion.written, hcount]
    exact hst
  · rw [hcount] at hphase
    rw [hT]
    exact hw.copied hphase d hd j (hcopied hphase j j.isLt hj)

/-- The step of a client that reads its results. -/
theorem Reading.step {col : Collection g} {phase : GetPhase} {pc' : Pc g ℕ}
    (hr : Reading m s log i request n (.getData col phase))
    (ht : Transition (CounterOps.unbounded g) i s (.getData col phase) c s' pc' none)
    (hk : ∀ x k, (s.states x k).Keeps (s'.states x k))
    (hst : ∀ h, StoredRows m s log request h n → StoredRows m s' log request h n) :
    Reading m s' log i request n pc' := by
  obtain ⟨h, response, hmem, hcol, hrows⟩ := hr
  exact ⟨h, response, hmem, (ht.collects hk hcol).1, hst h hrows⟩

/-- **A step of the client itself** keeps what is known of its call. -/
theorem Transition.serving (ht : Transition (CounterOps.unbounded g) i s pc c s' pc' e) (hidle : pc ≠ .idle)
    (hok : Serves m i s pc c) (hK : ((lifecycle g).and (responses g)).shared s log)
    (hKo : ((lifecycle g).and (responses g)).own s log pc) (hT : s.TensorsOf m.inputs) (hpc : pc.Honest m)
    (hn : request.clientBatchSize = .ok n) (hs : pc.Serving m s log i request n) :
    pc'.Serving m s' (e.toList ++ log) i request n := by
  have hk : ∀ x k, (s.states x k).Keeps (s'.states x k) := keeps_step ht hK.1 hKo.1
  have hst : ∀ {h k}, StoredRows m s log request h k → StoredRows m s' (e.toList ++ log) request h k :=
    fun hrows => hrows.step ht hok hK.1 hKo.1 hT hpc
  cases ht with
  | callInfer request' => exact absurd rfl hidle
  | callExecute => exact absurd rfl hidle
  | loadHead request' => exact ⟨hs.1, by rintro _ _ ⟨⟩⟩
  | ringFull request' h hfull => exact True.intro
  | notFull request' h k hfull hk' =>
    refine ⟨hs.1, fun h' k' heq => ?_⟩
    obtain ⟨rfl, rfl⟩ := InferPhase.casHead.inj heq
    rw [hs.1] at hk'
    exact Except.ok.inj (hk'.symm.trans hn)
  | reserve request' h k hh =>
    refine ⟨hs.1, (Nat.zero_add k).trans (hs.2 h k rfl), fun r hr => ?_, fun _ d hd j hj => ?_⟩
    · exact absurd hr (Nat.not_lt_zero r)
    · exact absurd hj (Nat.not_lt_zero j)
  | reserveFailed request' h k c => exact ⟨hs.1, by rintro _ _ ⟨⟩⟩
  | copy ins k hk' t hc =>
    refine ⟨hs.request_eq, hs.size, hst hs.written, fun _ d hd j hj => ?_⟩
    obtain ⟨hcell, hslot⟩ := ins.piece_position hd
    rw [SuperTensorBuffer.setTensor_inputTensors, hcell, hslot]
    split_ifs with hjk
    · obtain rfl : j = ⟨k, hk'⟩ := hjk.2
      rw [ins.copy_row (i := ⟨k, hk'⟩) hT hpc hc hd, hs.request_eq]
    · have hlt : j.val < k := by
        have hne : j.val ≠ k := fun heq => hjk ⟨rfl, Fin.ext heq⟩
        simp only [InsertPhase.copiedInputs] at hj
        omega
      have hrow := hs.copied rfl d hd j hlt
      rwa [hcell, hslot] at hrow
  | copyFailed ins k hk' e hc => exact True.intro
  | copiedFirst ins k hk' hslot =>
    exact Writing.quiet hs (hst hs.written) rfl rfl fun _ j hj _ => lt_of_lt_of_le hj hk'
  | copiedLater ins k hk' hslot =>
    exact Writing.quiet hs (hst hs.written) rfl rfl fun _ j hj _ => lt_of_lt_of_le hj hk'
  | storeDirty ins now => exact Writing.quiet hs (hst hs.written) rfl rfl fun _ _ _ => id
  | setDeadline ins now hd => exact Writing.quiet hs (hst hs.written) rfl rfl fun _ _ _ => id
  | setQueueStart ins now hd => exact Writing.quiet hs (hst hs.written) rfl rfl fun _ _ _ => id
  | cloneOutput ins => exact Writing.quiet hs (hst hs.written) rfl rfl fun _ _ _ => id
  | cloneTrace ins o => exact Writing.quiet hs (hst hs.written) rfl rfl fun _ _ _ => id
  | cloneNotifier ins o t => exact Writing.quiet hs (hst hs.written) rfl rfl fun _ _ _ => id
  | addWritten ins o t k r hr phase hp =>
    have hcounted : phase.counted = true := by
      rw [hp]
      split_ifs <;> rfl
    have hhead := (hKo.2.inserting ins _ rfl).head_eq
    refine ⟨hs.request_eq, hs.size, fun r' hr' => ?_, fun hphase => ?_⟩
    · have hlt : r' < ins.inputStart + ins.toWrite (CounterOps.unbounded g) := by
        simpa only [Insertion.written, hcounted, cond_true] using hr'
      rcases Nat.lt_or_ge r' ins.inputStart with hold | hnew
      · exact hst hs.written r' hold
      · obtain ⟨d, rfl⟩ := Nat.exists_eq_add_of_le hnew
        have hd : d < ins.toWrite (CounterOps.unbounded g) := by omega
        have hpos : ins.batchId + (ins.inputStart + d) = ins.currentHead + d := by omega
        rw [hpos]
        have hstored := Stored.of_copied hK.1 hKo.1 rfl rfl hd (hs.copied rfl)
        refine ⟨(mem_rowsOf_cons rfl).2 (.inr ⟨Nat.le_add_right _ _, by omega⟩), hstored.held, fun values hmem => ?_⟩
        exact hstored.computed values ((List.mem_cons.1 hmem).resolve_left (by rintro ⟨⟩))
    · rw [hcounted] at hphase
      cases hphase
  | notifyExecutor ins r => exact Writing.quiet hs (hst hs.written) rfl rfl fun hphase => by cases hphase
  | respond ins r h =>
    have hall : ins.toWrite (CounterOps.unbounded g) = ins.clientBatchSize := by
      have := ins.toWrite_le
      omega
    have hend : ins.inputEnd (CounterOps.unbounded g) = n := by
      rw [Insertion.inputEnd, hall, hs.size]
    have hwritten : ins.written (.push r) = n := by
      rw [← hend]
      rfl
    have ht : Transition (CounterOps.unbounded g) i s (.insert ins (.push r)) .go s _ _ := .respond ins r h
    have hcol := @Transition.collects g i s s _ _ _ _ [] ht (fun x k => hk x k) (by rintro _ _ ⟨⟩)
    refine ⟨ins.batchId, ins.response ++ [r], ?_, ?_, ?_⟩
    · rw [hend]
      exact List.mem_cons_self
    · rw [← hend]
      exact hcol.1
    · rw [← hwritten]
      exact hst hs.written
  | nextBatch ins r h =>
    have hle := ins.toWrite_le
    refine ⟨hs.request_eq, ?_, hst hs.written, fun _ d hd j hj => absurd hj (Nat.not_lt_zero j)⟩
    have := hs.size
    simp only [Insertion.next, Insertion.inputEnd]
    omega
  | allRead col mt hc hm => exact Reading.step hs (.allRead col mt hc hm) hk fun _ => hst
  | createNotified col ticket => exact Reading.step hs (.createNotified col ticket) hk fun _ => hst
  | notReady col ticket => exact Reading.step hs (.notReady col ticket) hk fun _ => hst
  | resultFailed col ticket e => exact True.intro
  | read col ticket r rest result data metadatas hc ho hd =>
    exact Reading.step hs (.read col ticket r rest result data metadatas hc ho hd) hk fun _ => hst
  | awaitResponse col ticket x k polled phase hp =>
    exact Reading.step hs (.awaitResponse col ticket x k polled phase hp) hk fun _ => hst
  | answer col metadatas x k hm => exact True.intro
  | _ => exact absurd hs id

/-- A step of another thread leaves the copied rows of the piece in hand, which its client owes. -/
theorem CopiedPiece.others {ins : Insertion g ℕ} {phase : InsertPhase g}
    (ht : Transition (CounterOps.unbounded g) i s pc c s' pc' e) (hK : (lifecycle g).shared s log)
    (hKo : (lifecycle g).own s log pc) (hKm : (lifecycle g).own s log (.insert ins phase))
    (hapart : ∀ q, pc.Owes q → ¬ (Pc.insert ins phase).Owes q) (hT : s.TensorsOf m.inputs) (hpc : pc.Honest m)
    (hphase : phase.counted = false) (hcopy : CopiedPiece m s request ins phase) :
    CopiedPiece m s' request ins phase := by
  intro d hd j hj
  have howes : (Pc.insert ins phase).Owes (ins.currentHead + d) :=
    Pc.owes_of_not_counted hphase (Nat.le_add_right _ _) (by have := ins.toWrite_le; omega)
  have hrow := hcopy d hd j hj
  cases ht with
  | copy ins' k hk t hc =>
    have hrows : Rows.Shared s log := hK.1.1.2
    obtain ⟨h₁, -⟩ := Rows.owes_mem hK.1.1.1.1.1.1 hK.1.1.1.1.1.2 hK.1.1.1.2 hrows hKm.1.1.2 howes
    have h₂ := (hrows.taken _).2 (.inl (hKm.1.1.2.owes _ howes).1)
    have hlow := Blocks.lower_le g.batchSize (ins.currentHead + d)
    rw [row_of_copy (k := ⟨k, hk⟩) hK hKo hT hpc hc (by omega) h₂ (fun h => hapart _ h howes) j]
    exact hrow
  | _ => exact hrow

/-- **A step of another thread** keeps what is known of a call. -/
theorem Pc.Serving.others {l : Pc g ℕ} {j : ℕ} (hs : l.Serving m s log i request n)
    (ht : Transition (CounterOps.unbounded g) j s pc c s' pc' e) (hok : Serves m j s pc c)
    (hK : (lifecycle g).shared s log) (hKo : (lifecycle g).own s log pc) (hKl : (lifecycle g).own s log l)
    (hapart : ∀ q, pc.Owes q → ¬ l.Owes q) (hT : s.TensorsOf m.inputs) (hpc : pc.Honest m) :
    l.Serving m s' (e.toList ++ log) i request n := by
  have hk : ∀ x k, (s.states x k).Keeps (s'.states x k) := keeps_step ht hK hKo
  have hst : ∀ {h k}, StoredRows m s log request h k → StoredRows m s' (e.toList ++ log) request h k :=
    fun hrows => hrows.step ht hok hK hKo hT hpc
  cases l with
  | idle => exact True.intro
  | infer request' phase => exact hs
  | insert ins phase =>
    exact ⟨hs.request_eq, hs.size, hst hs.written, fun hphase =>
      (hs.copied hphase).others ht hK hKo hKl hapart hT hpc hphase⟩
  | getData col phase =>
    obtain ⟨h, response, hmem, hcol, hrows⟩ := hs
    refine ⟨h, response, List.mem_append_right _ hmem, fun col' phase' heq => ?_, hst hrows⟩
    obtain ⟨hcollected, hnil⟩ := hcol col' phase' heq
    exact ⟨hcollected.mono hk fun _ => id, hnil⟩
  | claim phase => exact absurd hs id
  | execute p phase => exact absurd hs id
  | moveTail items phase => exact absurd hs id

end Step

/-! ### The run of a call -/

/-- The steps of a server of the model while thread `i` starts no call. -/
def InCall (m : RowModel g) (i : ℕ) : RingGuard g ℕ := fun j s pc c => Serves m j s pc c ∧ (j = i → pc ≠ .idle)

/-- The tensors of a new buffer are those that were allocated for the model. -/
def RowModel.Allocated (m : RowModel g)
    (inputTensors : Fin g.capacity → Fin g.numInputs → BatchableTensor g.batchSize) : Prop :=
  ∀ x j, (m.inputs j).Of (inputTensors x j)

section Call

variable {m : RowModel g} {inputTensors : Fin g.capacity → Fin g.numInputs → BatchableTensor g.batchSize}
  {v w : RingWorld g ℕ} {i k n : ℕ} {request : Request}

/-- What is known of a call is known of it to its end. -/
theorem serving_of_reach (hT : m.Allocated inputTensors)
    (hv : ServedRing (Serves m) k inputTensors v)
    (hn : request.clientBatchSize = .ok n) (h₀ : (v.threads i).Serving m v.shared v.log i request n)
    (hr : Reach (program (CounterOps.unbounded g)) (InCall m i) v w) :
    (w.threads i).Serving m w.shared w.log i request n := by
  refine hr.invariant (I := fun u => (u.threads i).Serving m u.shared u.log i request n) h₀
    fun u a u' hu hI hok hs => ?_
  have hserved := hv.reach (hu.mono fun _ _ _ _ h => h.1)
  have hK := (responding_of_served (hserved.mono fun _ _ _ _ h => h.fits)).left
  obtain ⟨s, hrun, hreach⟩ := hserved
  have htensors : u.shared.TensorsOf m.inputs := by
    refine tensorsOf_of_reach hreach ?_
    rw [SuperTensorBuffer.TensorsOf, show (warmWorld k s).shared = s from rfl, (warm_of_warmups hrun).2]
    exact hT
  have hhonest := honest_of_reach hreach fun _ => True.intro
  obtain ⟨e, ht, hlog⟩ := transition_of_step hs
  rw [hlog]
  by_cases hi : i = a.thread
  · subst hi
    exact ht.serving (hok.2 rfl) hok.1 hK.shared (hK.own _) htensors (hhonest _) hn hI
  · rw [Program.step_threads hs hi]
    exact hI.others ht hok.1 hK.shared.1 (hK.own _).1 (hK.own _).1
      (hK.apart a.thread i (Ne.symm hi)).1.1.1.2 htensors (hhonest _)

end Call

/-! ### What is answered -/

section Answer

variable {m : RowModel g} {s : SuperTensorBuffer g ℕ} {log : List (Event g ℕ)} {request : Request} {h n o : ℕ}

/-- What a reservation of stored rows is delivered: the model's outputs, computed from the rows. -/
theorem Delivered.computed {r : WriteReservation g} {d : Delivery} {values : SessionValues}
    (hd : Delivered s r d) (hc : Cells.Shared s log) (hform : r.WellFormed) (hval : d.result = .ok values)
    (hst : ∀ q ∈ r.rows, Stored m s log request q (q - h)) :
    d.Ran g.batchSize m.outputs ∧ ∀ v, values[o]? = some v →
      v.rows d.start d.stop = r.rows.flatMap fun q => m.eval o (request.row m (q - h)) := by
  have hlt := hform.start_lt
  have hle := hform.stop_le
  have hran : Event.ran (g.start r.tracker r.output) (.ok values) ∈ log := by
    refine (hc.output _ _ (g.start_dvd _ _) ?_).1
    rw [SuperTensorBuffer.batchState, Geometry.cell_start, Geometry.lap_start, ← hval]
    exact hd.result
  have hrow : ∀ k < r.stop - r.start, ∃ inputs, m.Computes inputs values ∧
      ∀ j, (inputs j).row (r.start + k) = request.row m (g.start r.tracker r.output + r.start + k - h) j := by
    intro k hk
    have hmem : g.start r.tracker r.output + r.start + k ∈ r.rows :=
      List.mem_range'_1.2 ⟨Nat.le_add_right _ _, by omega⟩
    have hlower : Blocks.lower g.batchSize (g.start r.tracker r.output + r.start + k) =
        g.start r.tracker r.output :=
      Blocks.lower_eq g.batchSize_pos (g.start_dvd _ _) (by omega) (by omega)
    have hmod := Blocks.lower_add_mod g.batchSize (g.start r.tracker r.output + r.start + k)
    obtain ⟨inputs, hcomp, heq⟩ := (hst _ hmem).computed values (by rw [hlower]; exact hran)
    refine ⟨inputs, hcomp, fun j => ?_⟩
    rw [show r.start + k = (g.start r.tracker r.output + r.start + k) % g.batchSize by omega]
    exact heq j
  obtain ⟨inputs₀, hcomp₀, -⟩ := hrow 0 (by omega)
  refine ⟨⟨by rw [hd.start, hd.stop]; exact hlt, by rw [hd.stop]; exact hle, values, hval, hcomp₀.outputs⟩,
    fun v hv => ?_⟩
  rw [hd.start, hd.stop, DynTensor.rows_eq_flatMap, WriteReservation.rows, List.range'_eq_map_range,
    List.flatMap_map]
  refine List.flatMap_congr fun k hk => ?_
  have hlt := List.mem_range.1 hk
  obtain ⟨inputs, hcomp, heq⟩ := hrow k hlt
  rw [hcomp.rows o v hv _ (by omega)]
  exact congrArg _ (funext heq)

/-- The rows of the results of a response are those of the model, in order. -/
theorem flatMap_pick_rows {response : List (WriteReservation g)} {ds : List Delivery}
    (hds : List.Forall₂ (Delivered s) response ds) (hc : Cells.Shared s log)
    (hform : ∀ r ∈ response, r.WellFormed) (hok : ∀ d ∈ ds, ∃ values, d.result = .ok values)
    (ho : o < m.outputs.length)
    (hst : ∀ q ∈ response.flatMap WriteReservation.rows, Stored m s log request q (q - h)) :
    (∀ d ∈ ds, d.Ran g.batchSize m.outputs) ∧ ds.flatMap (Delivery.pick DynTensor.rows o) =
      (response.flatMap WriteReservation.rows).flatMap fun q => m.eval o (request.row m (q - h)) := by
  induction hds with
  | nil => exact ⟨fun d hd => absurd hd List.not_mem_nil, rfl⟩
  | @cons r d response ds hd _ ih =>
    obtain ⟨values, hval⟩ := hok d List.mem_cons_self
    obtain ⟨hran, hrows⟩ := hd.computed (o := o) (h := h) hc (hform r List.mem_cons_self) hval fun q hq =>
      hst q (List.mem_flatMap.2 ⟨r, List.mem_cons_self, hq⟩)
    obtain ⟨hall, hrest⟩ := ih (fun r' hr' => hform r' (List.mem_cons_of_mem r hr'))
      (fun d' hd' => hok d' (List.mem_cons_of_mem d hd')) fun q hq => hst q (by
        rw [List.flatMap_cons]
        exact List.mem_append_right _ hq)
    refine ⟨fun d' hd' => ?_, ?_⟩
    · rcases List.mem_cons.1 hd' with rfl | hd'
      · exact hran
      · exact hall d' hd'
    · obtain ⟨values', hval', hall₂⟩ := hran.values
      obtain rfl := Except.ok.inj (hval.symm.trans hval')
      have hlt : o < values.length := hall₂.length_eq ▸ ho
      have hpick : d.pick DynTensor.rows o = values[o].rows d.start d.stop := by
        simp only [Delivery.pick, hval, List.getElem?_eq_getElem hlt, Option.map_some, Option.getD_some]
      rw [List.flatMap_cons, List.flatMap_cons, List.flatMap_append, hrest, hpick,
        hrows _ (List.getElem?_eq_getElem hlt)]

/-- A client whose rows are stored is answered what the model computes from them. -/
theorem data_of_storedRows {response : List (WriteReservation g)} {ds : List Delivery} {data : List (List UInt8)}
    {metadatas : List Metadata} {layout : OutputLayout} (hds : List.Forall₂ (Delivered s) response ds)
    (hc : Cells.Shared s log) (ha : Responses.Answers log h n response) (hn : 0 < n)
    (hst : StoredRows m s log request h n) (hget : getData ds = .ok (data, metadatas))
    (ho : m.outputs[o]? = some layout) (hone : numElements layout.dims = 1) :
    data[o]? = some ((List.range n).flatMap fun r => m.eval o (request.row m r)) := by
  have hlt : o < m.outputs.length := (List.getElem?_eq_some_iff.1 ho).1
  obtain ⟨hran, hrows⟩ := flatMap_pick_rows (m := m) (h := h) hds hc ha.wellFormed (ok_of_getDataFrom hget) hlt
    fun q hq => by
      rw [ha.rows] at hq
      obtain ⟨hge, hq⟩ := List.mem_range'_1.1 hq
      obtain ⟨r, rfl⟩ := Nat.exists_eq_add_of_le hge
      rw [Nat.add_sub_cancel_left]
      exact (hst r (by omega)).2
  have hne : ds ≠ [] := by
    rintro rfl
    obtain rfl := List.forall₂_nil_right_iff.1 hds
    have hlen := congrArg List.length ha.rows
    rw [List.flatMap_nil, List.length_nil, List.length_range'] at hlen
    omega
  obtain ⟨data', metadatas', hget', hdata⟩ := getData_ok hne hran
  obtain ⟨rfl, -⟩ := Prod.mk.inj (Attempt.ok.inj (hget.symm.trans hget'))
  rw [hdata o hlt, List.flatMap_congr fun d hd => ?_, hrows, ha.rows, List.range'_eq_map_range, List.flatMap_map]
  · simp only [Nat.add_sub_cancel_left]
  · obtain ⟨v, hv, hpick⟩ := (hran d hd).output ho
    rw [hpick, hpick, DynTensor.rows_eq_elements (hv.rowElements.trans hone)]

/-- A call that answers has read all its results. -/
theorem Reading.delivered {i : ℕ} {col : Collection g} {metadatas : List Metadata} {trace : Fin g.capacity × ℕ}
    (hr : Reading m s log i request n (.getData col .recordTrace)) (hm : col.metadatas = some (metadatas, trace)) :
    ∃ h response ds, Event.responded i h n response ∈ log ∧ List.Forall₂ (Delivered s) response ds ∧
      getData ds = .ok (col.data, metadatas) ∧ StoredRows m s log request h n := by
  obtain ⟨h, response, hmem, hcol, hst⟩ := hr
  obtain ⟨⟨read, ds, ⟨⟨h', n', hone⟩, hds⟩, hgo⟩, hnil⟩ := hcol col _ rfl
  rw [hnil rfl, List.append_nil] at hone
  obtain ⟨-, -, -, rfl⟩ := Event.responded.inj (List.mem_singleton.1 hone)
  refine ⟨h, _, ds, hmem, hds, ?_, hst⟩
  have hlast := hgo []
  rw [List.append_nil, hm] at hlast
  exact hlast

end Answer

/-- Only an idle thread can be given a request. -/
theorem infer_of_program {ops : CounterOps g ℕ} {i : ℕ} {s s' : SuperTensorBuffer g ℕ} {pc pc' : Pc g ℕ}
    {request : Request} {e : Option (Event g ℕ)} (h : program ops i s pc (.infer request) = .next s' pc' e) :
    pc' = .infer request .loadHead := by
  cases pc with
  | idle =>
    cases h
    rfl
  | infer _ phase => cases phase <;> cases h
  | insert _ phase => cases phase <;> cases h
  | getData _ phase => cases phase <;> cases h
  | claim phase => cases phase <;> cases h
  | execute _ phase => cases phase <;> cases h
  | moveTail _ phase => cases phase <;> cases h

/-- Who is answered has collected all of its outputs. -/
theorem Transition.of_answered {ops : CounterOps g ℕ} {i j : ℕ} {s s' : SuperTensorBuffer g ℕ} {pc pc' : Pc g ℕ}
    {c : Choice} {data : List (List UInt8)} {metadatas : List Metadata}
    (ht : Transition ops j s pc c s' pc' (some (.answered i data metadatas))) :
    i = j ∧ ∃ col trace, pc = .getData col .recordTrace ∧ col.data = data ∧
      col.metadatas = some (metadatas, trace) := by
  cases ht with
  | answer col _ x n hm => exact ⟨rfl, col, (x, n), rfl, rfl, hm⟩

/-- What a call of so many rows has been given when it is answered. -/
theorem data_of_answered {m : RowModel g}
    {inputTensors : Fin g.capacity → Fin g.numInputs → BatchableTensor g.batchSize} (hT : m.Allocated inputTensors)
    {v v₁ w w' : RingWorld g ℕ} {i k : ℕ} {request : Request} (hv : ServedRing (Serves m) k inputTensors v)
    (hcall : Serves m i v.shared (v.threads i) (.infer request))
    (hstart : (program (CounterOps.unbounded g)).step v ⟨i, .infer request⟩ = some v₁)
    (hr : Reach (program (CounterOps.unbounded g)) (InCall m i) v₁ w) {a : Action Choice}
    (hs : (program (CounterOps.unbounded g)).step w a = some w') {data : List (List UInt8)}
    {metadatas : List Metadata} (hlog : w'.log = .answered i data metadatas :: w.log) {n : ℕ}
    (hn : request.clientBatchSize = .ok n) {o : ℕ} {layout : OutputLayout} (ho : m.outputs[o]? = some layout)
    (hone : numElements layout.dims = 1) :
    data[o]? = some ((List.range n).flatMap fun r => m.eval o (request.row m r)) := by
  have hv₁ := hv.reach (Reach.start.tail hcall hstart)
  have h₁ : (v₁.threads i).Serving m v₁.shared v₁.log i request n := by
    obtain ⟨e, hP, -⟩ := Program.next_of_step hstart
    rw [infer_of_program hP]
    exact ⟨rfl, by rintro _ _ ⟨⟩⟩
  have hw := (hv₁.reach (hr.mono fun _ _ _ _ h => h.1)).mono fun _ _ _ _ h => h.fits
  obtain ⟨⟨⟨⟨-, hcells⟩, -⟩, hresponses⟩, -⟩ := (responding_of_served hw).shared
  obtain ⟨rfl, col, trace, hpc, rfl, hm⟩ := (transition_of_logged hs hlog).of_answered
  have hserving := serving_of_reach hT hv₁ hn h₁ hr
  rw [hpc] at hserving
  obtain ⟨h, response, ds, hmem, hds, hget, hst⟩ := Reading.delivered hserving hm
  exact data_of_storedRows hds hcells (hresponses _ h n response hmem) (Request.clientBatchSize_pos hn) hst hget ho hone

/-- **Batching is transparent.**  On a server of a model, after any number of warmups and however other
honest clients, whose requests fit, and the executors take turns with it: a call that is answered gets, for
every output with one element a row, what the model computes from the rows of its own request, in their
order. -/
theorem answered_rowwise {m : RowModel g}
    {inputTensors : Fin g.capacity → Fin g.numInputs → BatchableTensor g.batchSize} (hT : m.Allocated inputTensors)
    {v v₁ w w' : RingWorld g ℕ} {i k : ℕ} {request : Request} (hv : ServedRing (Serves m) k inputTensors v)
    (hcall : Serves m i v.shared (v.threads i) (.infer request))
    (hstart : (program (CounterOps.unbounded g)).step v ⟨i, .infer request⟩ = some v₁)
    (hr : Reach (program (CounterOps.unbounded g)) (InCall m i) v₁ w) {a : Action Choice}
    (hs : (program (CounterOps.unbounded g)).step w a = some w') {data : List (List UInt8)}
    {metadatas : List Metadata} (hlog : w'.log = .answered i data metadatas :: w.log) :
    ∃ n, request.clientBatchSize = .ok n ∧ ∀ o layout, m.outputs[o]? = some layout →
      numElements layout.dims = 1 →
        data[o]? = some ((List.range n).flatMap fun r => m.eval o (request.row m r)) := by
  obtain ⟨n, hn, -⟩ := hcall.honest request rfl
  exact ⟨n, hn, fun o layout ho hone => data_of_answered hT hv hcall hstart hr hs hlog hn ho hone⟩

/-- A model that returns its only input, a byte a row. -/
def echo : RowModel twoByOne where
  inputs _ := ⟨.uint8, [1]⟩
  outputs := [⟨.uint8, [1], rfl, by decide⟩]
  eval _ row := row ⟨0, by decide⟩

/-- The output of `echo` for a batch of the byte `7`. -/
def echoed : DynTensor := ⟨.uint8, [1, 1], [7], by decide⟩

/-- The echo model computes a row of itself. -/
theorem echo_computes {inputs : Fin twoByOne.numInputs → BatchableTensor twoByOne.batchSize}
    (h : (inputs ⟨0, by decide⟩).row 0 = [7]) : echo.Computes inputs [echoed] := by
  refine ⟨List.Forall₂.cons ⟨rfl, rfl⟩ List.Forall₂.nil, fun o v hv k hk => ?_⟩
  obtain rfl : k = 0 := Nat.lt_one_iff.1 hk
  cases o with
  | zero =>
    obtain rfl := Option.some.inj hv
    exact h.symm
  | succ o => cases hv

/-- What the threads of the run below are given: thread 2 is in its call, and the session finds the
byte `7`. -/
def echoGuard (i : ℕ) (s : SuperTensorBuffer twoByOne ℕ) : Pc twoByOne ℕ → Choice → Bool
  | .idle, .executeOnBatch => i != 2
  | .execute e (.running _), .ran (.ok values) =>
    decide (values = [echoed]) && decide ((s.inputTensors (twoByOne.cell e) ⟨0, by decide⟩).row 0 = [7])
  | .idle, _ | _, .infer _ | .execute _ (.running _), _ => false
  | pc, c => fits twoByOne i s pc c

/-- A step that is checked to be of the echo model is. -/
theorem echoGuard_spec {i : ℕ} {s : SuperTensorBuffer twoByOne ℕ} {pc : Pc twoByOne ℕ} {c : Choice}
    (h : echoGuard i s pc c = true) : InCall echo 2 i s pc c := by
  unfold echoGuard at h
  split at h
  · refine ⟨⟨?_, by rintro _ ⟨⟩, by rintro _ _ _ ⟨⟩⟩, ?_⟩
    · rintro _ _ _ ⟨⟩
    · rintro rfl
      cases h
  · rename_i e items values
    rw [Bool.and_eq_true, decide_eq_true_eq, decide_eq_true_eq] at h
    obtain ⟨rfl, hrow⟩ := h
    refine ⟨⟨by rintro _ _ _ ⟨⟩, by rintro _ ⟨⟩, ?_⟩, by rintro _ ⟨⟩⟩
    rintro e' items' values' hpc hc
    cases hpc
    cases hc
    exact echo_computes hrow
  · cases h
  · cases h
  · cases h
  · rename_i hidle hrunning hinfer _ _
    refine ⟨⟨fits_spec h, fun request hc => absurd hc (hinfer request), ?_⟩, fun _ hpc => hidle hpc⟩
    rintro e items values hpc -
    exact absurd hpc (hrunning e items)

/-- A thread that has read all its results. -/
def Pc.recording : Pc g ℕ → Option (Collection g)
  | .getData col .recordTrace => some col
  | _ => none

/-- Who records a trace is at its phase. -/
theorem Pc.eq_of_recording {pc : Pc g ℕ} {col : Collection g} (h : pc.recording = some col) :
    pc = .getData col .recordTrace := by
  unfold recording at h
  split at h
  · obtain rfl := Option.some.inj h
    rfl
  · cases h

/-- Who records a trace is answered. -/
theorem Transition.of_recordTrace {ops : CounterOps g ℕ} {i : ℕ} {s s' : SuperTensorBuffer g ℕ} {pc' : Pc g ℕ}
    {col : Collection g} {c : Choice} {e : Option (Event g ℕ)}
    (ht : Transition ops i s (.getData col .recordTrace) c s' pc' e) :
    ∃ metadatas, e = some (.answered i col.data metadatas) := by
  cases ht with
  | answer _ metadatas x n hm => exact ⟨metadatas, rfl⟩

/-- The steps of the client of a row and of the executor of its batch, after the client's call. -/
def echoRun : List (Action Choice) :=
  go 2 3 ++ insertRow 2 ++ claimBatch 0 ++ go 0 7 ++ ⟨0, .clock 1⟩ :: go 0 3 ++
    [⟨0, .ran (.ok [echoed])⟩, ⟨0, .clock 2⟩] ++ go 0 6 ++ go 2 3

/-- A client of a small ring is echoed its byte. -/
theorem answered_rowwise_echo : ∃ (w : RingWorld twoByOne ℕ) (data : List (List UInt8)) (metadatas : List Metadata),
    w.log.head? = some (.answered 2 data metadatas) ∧ data[0]? = some [7] := by
  have htensor : ∀ i : Fin twoByOne.numInputs, byteRequest.tensors[i.val]? = some ⟨.typeUint8, [1, 1], [7]⟩ := by
    decide
  have hhonest : byteRequest.Honest echo :=
    ⟨1, rfl, fun i => ⟨_, 1, [1], htensor i, rfl, rfl, fun _ => rfl⟩⟩
  have hrun : (runServed echoGuard 3 (fun _ _ => byteTensor 1) []).any (fun v =>
      ((program (CounterOps.unbounded twoByOne)).step v ⟨2, .infer byteRequest⟩).any fun v₁ =>
        ((program (CounterOps.unbounded twoByOne)).runIf echoGuard v₁ echoRun).any fun w =>
          (w.threads 2).recording.isSome &&
            ((program (CounterOps.unbounded twoByOne)).step w ⟨2, .go⟩).isSome) = true := by decide +kernel
  obtain ⟨v, hv, hrun⟩ := (Option.any_eq_true _ _).1 hrun
  obtain ⟨v₁, hstart, hrun⟩ := (Option.any_eq_true _ _).1 hrun
  obtain ⟨w, hr, hw⟩ := (Option.any_eq_true _ _).1 hrun
  have hidle : v.threads 2 = .idle := ServedRing.idle_of_runServed hv fun _ ha => absurd ha List.not_mem_nil
  have hcall : Serves echo 2 v.shared (v.threads 2) (.infer byteRequest) := by
    rw [hidle]
    exact ⟨by rintro _ _ _ ⟨⟩, fun request h => by cases h; exact hhonest, by rintro _ _ _ ⟨⟩⟩
  rw [Bool.and_eq_true] at hw
  obtain ⟨col, hpc⟩ := Option.isSome_iff_exists.1 hw.1
  obtain ⟨w', hs⟩ := Option.isSome_iff_exists.1 hw.2
  obtain ⟨e, ht, hlog⟩ := transition_of_step hs
  rw [show w.threads 2 = _ from Pc.eq_of_recording hpc] at ht
  obtain ⟨metadatas, rfl⟩ := ht.of_recordTrace
  obtain ⟨n, hn, hdata⟩ := answered_rowwise (m := echo) (fun _ _ => ⟨rfl, rfl⟩)
    (ServedRing.of_runServed (fun _ _ _ _ h => (echoGuard_spec h).1) hv) hcall hstart
    (Reach.of_runIf (fun _ _ _ _ => echoGuard_spec) hr) hs hlog
  obtain rfl : 1 = n := Except.ok.inj hn
  exact ⟨w', col.data, metadatas, by rw [hlog]; rfl, hdata 0 _ rfl (by decide)⟩

end Toutates
