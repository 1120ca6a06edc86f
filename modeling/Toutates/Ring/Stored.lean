/-
# Where the rows of a request are

A model computes something for every row of a batch (`RowModel`), and the clients of a batch
know nothing of one another.  Under `Serves`, a run of the ring is one of a server of such a
model: the requests have rows of the model and fit the ring, and a session that returns values
has computed the model on the rows that it found in the tensors.

A row that is counted is `Stored` at its position from then on: while the batch has not run, in
the slot of the position; once it has, in what the session computed from.  No step of any thread
changes that (`Transition.stored`): the rows that are being copied are owed, and a row that is
owed shares no slot with one that is counted (`slot_ne_of_owes`).
-/

import Toutates.Ring.Answers
import Toutates.Ring.Gather
import Toutates.Tensor.Scatter

namespace Toutates

open Basis

variable {g : Geometry}

/-- A model as its clients know it: the inputs, the outputs, and what it computes from one row of
all inputs for an output. -/
structure RowModel (g : Geometry) where
  inputs : Fin g.numInputs → Outlet
  outputs : List OutputLayout
  eval : ℕ → (Fin g.numInputs → List UInt8) → List UInt8

/-- Row `r` of a request, in every input. -/
def Request.row (request : Request) (m : RowModel g) (r : ℕ) (i : Fin g.numInputs) : List UInt8 :=
  match request.tensors[i.val]? with
  | some tensor => tensor.row (m.inputs i).rowBytes r
  | none => []

/-- The request has the rows of the model, as many as `infer` reserves. -/
def Request.Honest (m : RowModel g) (request : Request) : Prop :=
  ∃ n, request.clientBatchSize = .ok n ∧ request.Matches m.inputs n

/-- The values of a session that has run the model on every row of a batch. -/
structure RowModel.Computes (m : RowModel g) (inputs : Fin g.numInputs → BatchableTensor g.batchSize)
    (values : SessionValues) : Prop where
  outputs : List.Forall₂ (OutputLayout.Describes g.batchSize) m.outputs values
  rows : ∀ o v, values[o]? = some v → ∀ k < g.batchSize, v.rows k (k + 1) = m.eval o fun i => (inputs i).row k

/-- The steps of a server of the model: accepted requests fit, requests have the model's rows, and
the values of a session are those of the model. -/
structure Serves (m : RowModel g) (i : ℕ) (s : SuperTensorBuffer g ℕ) (pc : Pc g ℕ) (c : Choice) : Prop where
  fits : Fits g i s pc c
  honest : ∀ request, c = .infer request → request.Honest m
  computes : ∀ e items values, pc = .execute e (.running items) → c = .ran (.ok values) →
    m.Computes (s.inputTensors (g.cell e)) values

/-- The request that a thread has in hand has the rows of the model. -/
def Pc.Honest (m : RowModel g) : Pc g ℕ → Prop
  | .infer request _ => request.Honest m
  | .insert ins _ => ins.request.Honest m
  | _ => True

/-- Row `r` of the request is the row at position `q`: of the tensors until the batch has run, and
of what it ran on then. -/
structure Stored (m : RowModel g) (s : SuperTensorBuffer g ℕ) (log : List (Event g ℕ)) (request : Request)
    (q r : ℕ) : Prop where
  held : ¬ Reached log (Blocks.lower g.batchSize q) .ran →
    ∀ i, (s.inputTensors (g.cell q) i).row (q % g.batchSize) = request.row m r i
  computed : ∀ values, Event.ran (Blocks.lower g.batchSize q) (.ok values) ∈ log →
    ∃ inputs, m.Computes inputs values ∧ ∀ i, (inputs i).row (q % g.batchSize) = request.row m r i

/-! ### The copies of honest requests -/

/-- The requests of the threads stay honest. -/
theorem Transition.honest {m : RowModel g} {i : ℕ} {s s' : SuperTensorBuffer g ℕ} {pc pc' : Pc g ℕ}
    {c : Choice} {e : Option (Event g ℕ)} (ht : Transition (CounterOps.unbounded g) i s pc c s' pc' e)
    (hok : Serves m i s pc c) (hpc : pc.Honest m) : pc'.Honest m := by
  cases ht with
  | callInfer request => exact hok.honest request rfl
  | awaitResponse c ticket x n polled phase hp => exact True.intro
  | _ => first
    | exact hpc
    | exact True.intro

/-- Who is honest stays honest. -/
theorem honest_of_reach {m : RowModel g} {w₀ w : RingWorld g ℕ}
    (h : Reach (program (CounterOps.unbounded g)) (Serves m) w₀ w) (h₀ : ∀ i, (w₀.threads i).Honest m) :
    ∀ i, (w.threads i).Honest m := by
  refine h.invariant (I := fun v => ∀ i, (v.threads i).Honest m) h₀ fun v a v' _ hv hok hs j => ?_
  obtain ⟨e, ht, -⟩ := transition_of_step hs
  by_cases hj : j = a.thread
  · rw [hj]
    exact ht.honest hok (hv a.thread)
  · rw [Program.step_threads hs hj]
    exact hv j

section Copy

variable {m : RowModel g} {s : SuperTensorBuffer g ℕ} {ins : Insertion g ℕ} {i : Fin g.numInputs}
  {t : BatchableTensor g.batchSize}

/-- The tensor that an honest client copies, and the length of its rows. -/
theorem Insertion.copy_tensor (hT : s.TensorsOf m.inputs) (hr : ins.request.Honest m)
    (hc : (ins.copy s i).result = .ok t) :
    ∃ tensor dim0 dims, ins.request.tensors[i.val]? = some tensor ∧ tensor.shape = dim0 :: dims ∧
      tensor.bytesPerIndex (asUsize dim0) = (ins.copy s i).t.rowBytes ∧
      (ins.copy s i).t.rowBytes = (m.inputs i).rowBytes := by
  obtain ⟨n, hn, hmatch⟩ := hr
  obtain ⟨tensor, dim0, dims, hi, hshape, hdim, hdata⟩ := hmatch i
  have hpos := Request.clientBatchSize_pos hn
  have hof := hT (ins.tracker (CounterOps.unbounded g)) i
  have hrow : (ins.copy s i).t.rowBytes = (m.inputs i).rowBytes := hof.rowBytes
  have hsup : (m.inputs i).Supported := by
    have hwidth := Copy.supported_of_ok hc
    rwa [show (ins.copy s i).t.dataType = (m.inputs i).dataType from hof.dataType] at hwidth
  refine ⟨tensor, dim0, dims, hi, hshape, ?_, hrow⟩
  rw [TensorBytes.bytesPerIndex, hdim, hdata hsup, Nat.mul_div_cancel_left _ hpos, hrow]

/-- An honest client puts its rows into its slots. -/
theorem Insertion.copy_row (hT : s.TensorsOf m.inputs) (hr : ins.request.Honest m)
    (hc : (ins.copy s i).result = .ok t) {d : ℕ} (hd : d < ins.toWrite (CounterOps.unbounded g)) :
    t.row (ins.batchSlot (CounterOps.unbounded g) + d) = ins.request.row m (ins.inputStart + d) i := by
  obtain ⟨tensor, dim0, dims, hi, hshape, hbytes, hrow⟩ := ins.copy_tensor hT hr hc
  have hlt : d < (ins.copy s i).stop - (ins.copy s i).start := by
    simpa only [copy, inputEnd, Nat.add_sub_cancel_left] using hd
  have hcopied := Copy.row_of_ok hi hshape hc hbytes hlt
  rw [hrow] at hcopied
  rw [Request.row, hi]
  exact hcopied

/-- An honest client leaves the other slots alone. -/
theorem Insertion.copy_row_of_notMem (hT : s.TensorsOf m.inputs) (hr : ins.request.Honest m)
    (hc : (ins.copy s i).result = .ok t) {k : ℕ}
    (hk : ∀ d < ins.toWrite (CounterOps.unbounded g), ins.batchSlot (CounterOps.unbounded g) + d ≠ k) :
    t.row k = (s.inputTensors (ins.tracker (CounterOps.unbounded g)) i).row k := by
  obtain ⟨tensor, dim0, dims, hi, hshape, hbytes, hrow⟩ := ins.copy_tensor hT hr hc
  refine Copy.row_of_ok_of_notMem hi hshape hc hbytes ?_
  by_contra hnot
  simp only [copy, inputEnd, Nat.add_sub_cancel_left, not_or, Nat.not_lt, Nat.not_le] at hnot
  obtain ⟨d, rfl⟩ := Nat.exists_eq_add_of_le hnot.1
  exact hk d (by omega) rfl

end Copy

/-! ### What a step does to a stored row -/

section Step

variable {m : RowModel g} {i : ℕ} {s s' : SuperTensorBuffer g ℕ} {pc pc' : Pc g ℕ} {c : Choice}
  {e : Option (Event g ℕ)} {log : List (Event g ℕ)} {request : Request} {q r : ℕ}

/-- A row whose batch has not run is not behind the tail. -/
theorem tail_le_of_not_ran (hK : (lifecycle g).shared s log)
    (hran : ¬ Reached log (Blocks.lower g.batchSize q) .ran) : s.tail ≤ q := by
  obtain ⟨⟨⟨⟨⟨⟨hl, hw⟩, -⟩, -⟩, -⟩, -⟩, -⟩ := hK
  by_contra hlt
  have hlow := Blocks.lower_le g.batchSize q
  exact hran (hl.closed (hw.passed _ (Blocks.lower_dvd _ q) (by omega)) (by simp [Stage.rank]))

/-- A row that a client owes shares its slot with no other row of the ring. -/
theorem slot_ne_of_owes (hK : (lifecycle g).shared s log) (hKo : (lifecycle g).own s log pc) {p : ℕ}
    (hp : pc.Owes p) (h₁ : s.tail ≤ q) (h₂ : q < s.head) (hne : p ≠ q) (hcell : g.cell p = g.cell q) :
    p % g.batchSize ≠ q % g.batchSize := by
  obtain ⟨⟨⟨⟨⟨⟨hl, hw⟩, -⟩, hb⟩, hr⟩, -⟩, -⟩ := hK
  have hro : Rows.Own s log pc := hKo.1.1.2
  have hbound : s.head ≤ s.tail + g.slots := hb
  obtain ⟨h₃, -⟩ := Rows.owes_mem hl hw hb hr hro hp
  have h₄ := (hr.taken p).2 (.inl (hro.owes p hp).1)
  have hlow := Blocks.lower_le g.batchSize p
  intro hslot
  rcases Nat.le_total p q with hle | hle
  · exact hne (Geometry.eq_of_slot_eq hle (by omega) hcell.symm hslot.symm).symm
  · exact hne (Geometry.eq_of_slot_eq hle (by omega) hcell hslot)

/-- The positions of the piece that a client copies are owed, and one batch has them all. -/
theorem Insertion.piece_position {ins : Insertion g ℕ} {d : ℕ} (hd : d < ins.toWrite (CounterOps.unbounded g)) :
    g.cell (ins.currentHead + d) = ins.tracker (CounterOps.unbounded g) ∧
      (ins.currentHead + d) % g.batchSize = ins.batchSlot (CounterOps.unbounded g) + d := by
  have hend := ins.piece_le
  have hlow := Blocks.lower_le g.batchSize ins.currentHead
  have hlower : Blocks.lower g.batchSize (ins.currentHead + d) = Blocks.lower g.batchSize ins.currentHead :=
    Blocks.lower_eq g.batchSize_pos (Blocks.lower_dvd _ _) (by omega) (by omega)
  have hmod := Blocks.lower_add_mod g.batchSize (ins.currentHead + d)
  have hmod' : Blocks.lower g.batchSize ins.currentHead + ins.batchSlot (CounterOps.unbounded g) =
      ins.currentHead := Blocks.lower_add_mod g.batchSize ins.currentHead
  constructor
  · rw [← Geometry.cell_lower, hlower, Geometry.cell_lower]
    rfl
  · omega

/-- A copy of an honest client leaves the row of every position alone that it does not owe. -/
theorem row_of_copy {ins : Insertion g ℕ} {k : Fin g.numInputs} {t : BatchableTensor g.batchSize}
    (hK : (lifecycle g).shared s log) (hKo : (lifecycle g).own s log (.insert ins (.copyInput k)))
    (hT : s.TensorsOf m.inputs) (hr : ins.request.Honest m) (hc : (ins.copy s k).result = .ok t)
    (h₁ : s.tail ≤ q) (h₂ : q < s.head) (hq : ¬ (Pc.insert ins (.copyInput k)).Owes q) (j : Fin g.numInputs) :
    ((s.setTensor (ins.tracker (CounterOps.unbounded g)) k t).inputTensors (g.cell q) j).row (q % g.batchSize) =
      (s.inputTensors (g.cell q) j).row (q % g.batchSize) := by
  rw [SuperTensorBuffer.setTensor_inputTensors]
  split_ifs with hcell
  · obtain ⟨hcell, rfl⟩ := hcell
    rw [ins.copy_row_of_notMem hT hr hc fun d hd => ?_, hcell]
    obtain ⟨hcell', hslot⟩ := ins.piece_position hd
    have howes : (Pc.insert ins (.copyInput j)).Owes (ins.currentHead + d) :=
      Pc.owes_of_not_counted rfl (Nat.le_add_right _ _) (by have := ins.toWrite_le; omega)
    rw [← hslot]
    exact slot_ne_of_owes hK hKo howes h₁ h₂ (fun heq => hq (heq ▸ howes)) (hcell'.trans hcell.symm)
  · rfl

/-- A step that touches no tensor keeps what is stored. -/
theorem Stored.quiet (hst : Stored m s log request q r) (hT : s'.inputTensors = s.inputTensors)
    (hran : ∀ p, Reached (e.toList ++ log) p .ran ↔ Reached log p .ran)
    (hev : ∀ p result, Event.ran p result ∈ e.toList ++ log → Event.ran p result ∈ log) :
    Stored m s' (e.toList ++ log) request q r := by
  refine ⟨fun hnot => ?_, fun values hmem => hst.computed values (hev _ _ hmem)⟩
  rw [hT]
  exact hst.held fun hreached => hnot ((hran _).2 hreached)

/-- **No step loses a stored row.** -/
theorem Transition.stored (ht : Transition (CounterOps.unbounded g) i s pc c s' pc' e) (hok : Serves m i s pc c)
    (hK : (lifecycle g).shared s log) (hKo : (lifecycle g).own s log pc) (hT : s.TensorsOf m.inputs)
    (hpc : pc.Honest m) (hq : q ∈ countedRows log) (hst : Stored m s log request q r) :
    Stored m s' (e.toList ++ log) request q r := by
  cases ht with
  | copy ins k hk t hc =>
    have hran : ∀ p, Reached ((some (Event.copied ins.currentHead k
        (ins.toWrite (CounterOps.unbounded g)))).toList ++ log) p .ran ↔ Reached log p .ran := fun _ => .rfl
    refine ⟨fun hnot j => ?_, fun values hmem => hst.computed values ?_⟩
    · have hrows : Rows.Shared s log := hK.1.1.2
      have howed : ¬ (Pc.insert ins (.copyInput k)).Owes q := fun howes => (hKo.1.1.2.owes q howes).2 hq
      rw [row_of_copy (k := ⟨k, hk⟩) hK hKo hT hpc hc (tail_le_of_not_ran hK hnot)
        ((hrows.taken q).2 (.inl (hrows.counted hq))) howed j]
      exact hst.held hnot j
    · exact (List.mem_cons.1 hmem).resolve_left (by rintro ⟨⟩)
  | ran p items result =>
    -- the session found the row in the tensors
    have hlife : Life.Own s log p .invoked := hKo.1.1.1.1.1.1 p .invoked rfl
    have hbefore : ¬ Reached log p .ran := fun h => absurd ((hlife.reached .ran).1 h) (by simp [Stage.rank])
    refine ⟨fun hnot => hst.held fun h => hnot (h.mono _), fun values hmem => ?_⟩
    rcases List.mem_cons.1 hmem with heq | hmem
    · obtain ⟨hp, rfl⟩ := Event.ran.inj heq
      have hrow := hst.held (by rwa [hp])
      refine ⟨_, hok.computes p items values rfl rfl, fun j => ?_⟩
      rw [← hp, Geometry.cell_lower]
      exact hrow j
    · exact hst.computed values hmem
  | _ =>
    refine hst.quiet rfl ?_ ?_
    · first
        | exact fun _ => .rfl
        | exact fun _ => reached_cons_of_ne rfl (by decide)
    · first
        | exact fun _ _ => id
        | exact fun _ _ hmem => (List.mem_cons.1 hmem).resolve_left (by rintro ⟨⟩)

end Step

end Toutates
