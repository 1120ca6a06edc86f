/-
# The rows of a request, batch by batch

What `infer` leaves on the ring.  A request that takes the positions from `h` on has its row `r`
at position `h + r` afterwards, in every input: in slot `(h + r) % batch_size` of the batch that
the ring has there.  It does not matter on which counters the positions are counted, as long as
these stand for positions (`CounterOps.Represents`).

The pieces of the request are written one after the other (`Placed.trans`).  They do not overwrite
one another, since a request that fits the free slots comes by no slot twice.
-/

import Toutates.Basis.Pieces
import Toutates.Ring.Copying
import Toutates.Ring.Opening
import Toutates.Ring.Sample
import Toutates.Ring.Sequential
import Toutates.Ring.Wrapping
import Toutates.Tensor.Rows

namespace Toutates

open Basis

variable {g : Geometry} {α : Type}

/-- Positions less than a turn apart are in different slots. -/
theorem Geometry.eq_of_slot_eq {p q : ℕ} (h₁ : p ≤ q) (h₂ : q < p + g.slots) (hcell : g.cell q = g.cell p)
    (hslot : q % g.batchSize = p % g.batchSize) : q = p := by
  have hmod : q % (g.batchSize * g.capacity) = p % (g.batchSize * g.capacity) := by
    have hval : q / g.batchSize % g.capacity = p / g.batchSize % g.capacity := congrArg Fin.val hcell
    rw [Nat.mod_mul, Nat.mod_mul, hslot, hval]
  rw [slots, Nat.mul_comm] at h₂
  have hdvd : g.batchSize * g.capacity ∣ q - p := (Nat.modEq_iff_dvd' h₁).1 hmod.symm
  have := Nat.eq_zero_of_dvd_of_lt hdvd (by omega)
  omega

namespace SuperTensorBuffer

/-- The reservation of a piece. -/
def pieceReservation (s : SuperTensorBuffer g α) (p : ℕ × ℕ) : WriteReservation g :=
  let n := (s.trackers (g.cell p.1)).generation
  ⟨g.cell p.1, n, n, n, p.1 % g.batchSize, p.1 % g.batchSize + p.2⟩

/-- The rows of a piece were counted, in its tracker only, and no other batch was touched. -/
structure Counted (piece : ℕ × ℕ) (s s' : SuperTensorBuffer g α) : Prop where
  written : (s'.trackers (g.cell piece.1)).writtenSlots = (s.trackers (g.cell piece.1)).writtenSlots + piece.2
  others : ∀ x, x ≠ g.cell piece.1 → (s'.trackers x).writtenSlots = (s.trackers x).writtenSlots
  generation : ∀ x, (s'.trackers x).generation = (s.trackers x).generation
  states : ∀ x n, x ≠ g.cell piece.1 → s'.states x n = s.states x n

/-- The rows `a .. a + m` of a request were placed at the positions from `p` on, piece by piece. -/
structure Placed (model : Fin g.numInputs → Outlet) (request : Request) (p a m : ℕ) (pieces : List (ℕ × ℕ))
    (s s' : SuperTensorBuffer g α) : Prop where
  placed : ∀ i tensor, request.tensors[i.val]? = some tensor → ∀ r < m,
    (s'.inputTensors (g.cell (p + r)) i).row ((p + r) % g.batchSize) = tensor.row (model i).rowBytes (a + r)
  kept : ∀ x i k, k < g.batchSize → (∀ r < m, g.cell (p + r) = x → (p + r) % g.batchSize ≠ k) →
    (s'.inputTensors x i).row k = (s.inputTensors x i).row k
  written : ∀ q ∈ pieces,
    (s'.trackers (g.cell q.1)).writtenSlots = (s.trackers (g.cell q.1)).writtenSlots + q.2
  notWritten : ∀ x, (∀ q ∈ pieces, g.cell q.1 ≠ x) → (s'.trackers x).writtenSlots = (s.trackers x).writtenSlots
  generation : ∀ x, (s'.trackers x).generation = (s.trackers x).generation
  states : ∀ x n, (∀ q ∈ pieces, g.cell q.1 ≠ x) → s'.states x n = s.states x n
  tensorsOf : ∀ x i, (model i).Of (s'.inputTensors x i)

namespace Placed

variable {model : Fin g.numInputs → Outlet} {request : Request} {p a m n : ℕ} {pieces : List (ℕ × ℕ)}
  {s s₁ s' : SuperTensorBuffer g α}

/-- One piece, and then the others. -/
theorem trans (h₁ : Placed model request p a m [(p, m)] s s₁) (h₂ : Placed model request (p + m) (a + m) n pieces s₁ s')
    (hroom : m + n ≤ g.slots) (hpieces : ∀ q ∈ pieces, g.cell q.1 ≠ g.cell p) :
    Placed model request p a (m + n) ((p, m) :: pieces) s s' := by
  have hfirst : ∀ x, (∀ q ∈ (p, m) :: pieces, g.cell q.1 ≠ x) → ∀ q ∈ [(p, m)], g.cell q.1 ≠ x :=
    fun x hx q hq => hx q (List.mem_singleton.1 hq ▸ List.mem_cons_self)
  have hrest : ∀ x, (∀ q ∈ (p, m) :: pieces, g.cell q.1 ≠ x) → ∀ q ∈ pieces, g.cell q.1 ≠ x :=
    fun x hx q hq => hx q (List.mem_cons_of_mem _ hq)
  refine ⟨fun i tensor hi r hr => ?_, fun x i k hk hoff => ?_, fun q hq => ?_, fun x hx => ?_, fun x => ?_,
    fun x k hx => ?_, h₂.tensorsOf⟩
  · rcases Nat.lt_or_ge r m with hlt | hge
    · -- a row of the first piece stays
      rw [h₂.kept _ i _ (Nat.mod_lt _ g.batchSize_pos) fun r' hr' hcell hslot => ?_]
      · exact h₁.placed i tensor hi r hlt
      · have := Geometry.eq_of_slot_eq (p := p + r) (by omega) (by omega) hcell hslot
        omega
    · obtain ⟨d, rfl⟩ := Nat.exists_eq_add_of_le hge
      rw [← Nat.add_assoc, h₂.placed i tensor hi d (by omega), Nat.add_assoc]
  · rw [h₂.kept x i k hk fun r hr => ?_, h₁.kept x i k hk fun r hr => hoff r (by omega)]
    have := hoff (m + r) (by omega)
    rwa [← Nat.add_assoc] at this
  · rcases List.mem_cons.1 hq with rfl | hq
    · rw [h₂.notWritten _ hpieces]
      exact h₁.written _ List.mem_cons_self
    · rw [h₂.written q hq, h₁.notWritten _ fun q' hq' => ?_]
      rw [List.mem_singleton.1 hq']
      exact (hpieces q hq).symm
  · rw [h₂.notWritten x (hrest x hx), h₁.notWritten x (hfirst x hx)]
  · rw [h₂.generation, h₁.generation]
  · rw [h₂.states x k (hrest x hx), h₁.states x k (hfirst x hx)]

/-- Placing pieces does not change the reservations that pieces are given. -/
theorem pieceReservation_eq (h : Placed model request p a m pieces s s') :
    s'.pieceReservation = s.pieceReservation := by
  funext q
  rw [pieceReservation, pieceReservation, h.generation]

end Placed

/-! ### `insert_tensors_at` -/

section Insert

variable {ops : CounterOps g α} {ins : Insertion g α} {s s' : SuperTensorBuffer g α} {is : List (Fin g.numInputs)}

/-- The copy of an input to the batch of a client. -/
def copyOf (ops : CounterOps g α) (ins : Insertion g α) (s : SuperTensorBuffer g α) (i : Fin g.numInputs) :
    Copy g.batchSize where
  t := s.inputTensors (ins.tracker ops) i
  data := ins.request.tensors
  i := i
  start := ins.inputStart
  stop := ins.inputEnd ops
  slot := ins.batchSlot ops

/-- The inputs `is` of the batch were copied, and nothing else was done. -/
structure Copied (ops : CounterOps g α) (ins : Insertion g α) (is : List (Fin g.numInputs))
    (s s' : SuperTensorBuffer g α) : Prop where
  rest : s' = { s with inputTensors := s'.inputTensors }
  done : ∀ i ∈ is, (copyOf ops ins s i).result = .ok (s'.inputTensors (ins.tracker ops) i)
  others : ∀ x i, ¬ (x = ins.tracker ops ∧ i ∈ is) → s'.inputTensors x i = s.inputTensors x i

/-- No copies. -/
theorem Copied.nil : Copied ops ins [] s s :=
  ⟨rfl, fun _ hi => absurd hi List.not_mem_nil, fun _ _ _ => rfl⟩

/-- One more copy. -/
theorem Copied.cons {i : Fin g.numInputs} (hi : i ∉ is) {t : BatchableTensor g.batchSize}
    (ht : (copyOf ops ins s i).result = .ok t) (h : Copied ops ins is (s.setTensor (ins.tracker ops) i t) s') :
    Copied ops ins (i :: is) s s' := by
  have hsame : ∀ j, j ≠ i →
      (s.setTensor (ins.tracker ops) i t).inputTensors (ins.tracker ops) j = s.inputTensors (ins.tracker ops) j := by
    intro j hj
    rw [setTensor_inputTensors, if_neg fun h => hj h.2]
  refine ⟨h.rest, fun j hj => ?_, fun x j hx => ?_⟩
  · rcases List.mem_cons.1 hj with rfl | hj
    · rw [h.others _ j fun hmem => hi hmem.2, setTensor_inputTensors, if_pos ⟨rfl, rfl⟩]
      exact ht
    · have hdone := h.done j hj
      rwa [copyOf, hsame j fun heq => hi (heq ▸ hj)] at hdone
  · rw [h.others x j fun hmem => hx ⟨hmem.1, List.mem_cons_of_mem _ hmem.2⟩, setTensor_inputTensors, if_neg]
    rintro ⟨rfl, rfl⟩
    exact hx ⟨rfl, List.mem_cons_self⟩

/-- Copies that succeed are copies of each input. -/
theorem copyInputs_of_ok (his : is.Nodup) (hrun : copyInputs ops ins is s = some (.ok (), s')) :
    Copied ops ins is s s' := by
  induction is generalizing s with
  | nil =>
    obtain rfl : s = s' := (Prod.mk.inj (Option.some.inj hrun)).2
    exact .nil
  | cons i is ih =>
    obtain ⟨hi, his⟩ := List.nodup_cons.1 his
    rw [copyInputs, Call.read_bind_apply] at hrun
    obtain ⟨t, s₁, hattempt, hrun⟩ := Call.bind_eq_ok.1 hrun
    obtain ⟨ht, rfl⟩ := Prod.mk.inj (Option.some.inj hattempt)
    rw [Call.modify_bind_apply] at hrun
    exact .cons hi ht (ih his hrun)

/-- A copy that succeeds is followed by the others. -/
theorem copyInputs_cons_of_ok {i : Fin g.numInputs} {t : BatchableTensor g.batchSize}
    (ht : (copyOf ops ins s i).result = .ok t) :
    copyInputs ops ins (i :: is) s = copyInputs ops ins is (s.setTensor (ins.tracker ops) i t) := by
  have hcopy : Call.attempt ((s.inputTensors (ins.tracker ops) i).copyInput ins.request.tensors i ins.inputStart
      (ins.inputEnd ops) (ins.batchSlot ops)) s = some (.ok t, s) := congrArg (fun a => some (a, s)) ht
  rw [copyInputs, Call.read_bind_apply, Call.bind_of_ok hcopy, Call.modify_bind_apply]

/-- Copies that return one by one return one after the other. -/
theorem copyInputs_returns (his : is.Nodup) (hok : ∀ i ∈ is, ∃ t, (copyOf ops ins s i).result = .ok t) :
    ∃ s', copyInputs ops ins is s = some (.ok (), s') := by
  induction is generalizing s with
  | nil => exact ⟨s, rfl⟩
  | cons i is ih =>
    obtain ⟨hi, his⟩ := List.nodup_cons.1 his
    obtain ⟨t, ht⟩ := hok i List.mem_cons_self
    rw [copyInputs_cons_of_ok ht]
    refine ih his fun j hj => ?_
    obtain ⟨t', ht'⟩ := hok j (List.mem_cons_of_mem _ hj)
    refine ⟨t', ?_⟩
    rw [copyOf, setTensor_inputTensors, if_neg]
    · exact ht'
    · rintro ⟨-, rfl⟩
      exact hi hj

/-- The first row of a batch opens it: its flag and its times. -/
structure Opens (x : Fin g.capacity) (s s' : SuperTensorBuffer g α) : Prop where
  inputTensors : s'.inputTensors = s.inputTensors
  written : ∀ y, (s'.trackers y).writtenSlots = (s.trackers y).writtenSlots
  generation : ∀ y, (s'.trackers y).generation = (s.trackers y).generation
  states : ∀ y n, y ≠ x → s'.states y n = s.states y n

/-- One opening after the other. -/
theorem Opens.trans {x : Fin g.capacity} {s s₁ s₂ : SuperTensorBuffer g α} (h₁ : Opens x s s₁) (h₂ : Opens x s₁ s₂) :
    Opens x s s₂ :=
  ⟨h₂.inputTensors.trans h₁.inputTensors, fun y => (h₂.written y).trans (h₁.written y),
    fun y => (h₂.generation y).trans (h₁.generation y), fun y n hy => (h₂.states y n hy).trans (h₁.states y n hy)⟩

/-- Where nothing is done, nothing else is opened. -/
theorem Opens.refl {x : Fin g.capacity} (s : SuperTensorBuffer g α) : Opens x s s :=
  ⟨rfl, fun _ => rfl, fun _ => rfl, fun _ _ _ => rfl⟩

/-- A write to the state of the batch is part of opening it. -/
theorem Opens.modifyState {x : Fin g.capacity} {n : ℕ} {f : BatchState → BatchState} :
    Opens x s (s.modifyState x n f) :=
  ⟨rfl, fun _ => rfl, fun _ => rfl, fun y m hy => by rw [modifyState_states, if_neg fun h => hy h.1]⟩

/-- Opening a batch writes to its state and its tracker. -/
theorem openBatch_opens {x : Fin g.capacity} {now : Instant} : (openBatch x now : Call g α Unit).Ensures (Opens x) := by
  refine .bind (fun _ _ _ => Opens.trans) (.modify fun s => ?_) fun _ => .read fun s => ?_
  · exact ⟨rfl, s.modifyTracker_writtenSlots x (f := fun d => { d with dirty := 1 }) fun _ => rfl,
      s.modifyTracker_generation x (f := fun d => { d with dirty := 1 }) fun _ => rfl, fun _ _ _ => rfl⟩
  · refine .bind (fun _ _ _ => Opens.trans) (.expect Opens.refl _ _) fun _ => ?_
    refine .bind (fun _ _ _ => Opens.trans) (.modify fun _ => .modifyState) fun _ => .read fun s => ?_
    refine .bind (fun _ _ _ => Opens.trans) (.expect Opens.refl _ _) fun _ => ?_
    exact .modify fun _ => .modifyState

/-- A batch whose times have not been set. -/
def Unopened (s : SuperTensorBuffer g α) (x : Fin g.capacity) : Prop :=
  (s.state x).deadline = none ∧ (s.state x).executionTrace.queueStart = none

/-- A batch that is not open can be opened. -/
theorem openBatch_returns {x : Fin g.capacity} (now : Instant) (h : s.Unopened x) :
    ∃ s', openBatch x now s = some (.ok (), s') := by
  have hgen := s.modifyTracker_generation x (f := fun d => { d with dirty := 1 }) (fun _ => rfl) x
  rw [openBatch, Call.modify_bind_apply, Call.read_bind_apply, Call.expect_bind_of_true]
  · rw [Call.modify_bind_apply, Call.read_bind_apply, Call.expect_bind_of_true]
    · exact ⟨_, rfl⟩
    · rw [Option.isNone_iff_eq_none, state, modifyState_trackers, modifyState_states, if_pos ⟨rfl, rfl⟩, hgen]
      exact h.2
  · rw [Option.isNone_iff_eq_none, state, hgen]
    exact h.1

/-- The reservation, with its count and its notification. -/
theorem reserveSlots_returns (ops : CounterOps g α) (ins : Insertion g α) (s : SuperTensorBuffer g α) :
    ∃ s', reserveSlots ops ins s = some (.ok ⟨ins.tracker ops, (s.trackers (ins.tracker ops)).generation,
        (s.trackers (ins.tracker ops)).generation, (s.trackers (ins.tracker ops)).generation,
        ins.batchSlot ops, ins.slotEnd ops⟩, s') ∧
      s'.inputTensors = s.inputTensors ∧ (∀ y, (s'.trackers y).generation = (s.trackers y).generation) ∧
      (s'.trackers (ins.tracker ops)).writtenSlots =
        (s.trackers (ins.tracker ops)).writtenSlots + (ins.slotEnd ops - ins.batchSlot ops) ∧
      ∀ y, y ≠ ins.tracker ops → (s'.trackers y).writtenSlots = (s.trackers y).writtenSlots ∧
        ∀ n, s'.states y n = s.states y n := by
  have hgen := s.modifyTracker_generation (ins.tracker ops)
    (f := fun d => { d with writtenSlots := d.writtenSlots + (ins.slotEnd ops - ins.batchSlot ops) }) fun _ => rfl
  have htrackers := s.modifyTracker_trackers (ins.tracker ops)
    fun d => { d with writtenSlots := d.writtenSlots + (ins.slotEnd ops - ins.batchSlot ops) }
  rw [reserveSlots, Call.read_bind_apply]
  simp only [Call.modify_bind_apply]
  have hcount := congrArg DataTracker.writtenSlots ((htrackers (ins.tracker ops)).trans (if_pos rfl))
  have hothers : ∀ y, y ≠ ins.tracker ops → _ := fun y hy =>
    congrArg DataTracker.writtenSlots ((htrackers y).trans (if_neg hy))
  by_cases hn : ins.batchSlot ops = 0 ∨ ins.slotEnd ops = g.batchSize
  · rw [Call.bind_of_ok (Call.when_of_pos hn)]
    refine ⟨_, rfl, rfl, hgen, hcount, fun y hy => ⟨hothers y hy, fun n => ?_⟩⟩
    rw [modifyState_states, if_neg fun h => hy h.1]
    rfl
  · rw [Call.bind_of_ok (Call.when_of_neg hn)]
    exact ⟨_, rfl, rfl, hgen, hcount, fun y hy => ⟨hothers y hy, fun _ => rfl⟩⟩

end Insert

/-- A client that has come to position `p`, with rows left that fit; the free slots end one turn
behind `t`. -/
structure Inserting (ops : CounterOps g α) (rep : ℕ → α) (model : Fin g.numInputs → Outlet) (t p : ℕ)
    (ins : Insertion g α) (s : SuperTensorBuffer g α) : Prop where
  represents : ops.Represents rep
  currentHead : ins.currentHead = rep p
  pos : 0 < ins.clientBatchSize
  tail_dvd : g.batchSize ∣ t
  tail_le : t ≤ p
  room : p + ins.clientBatchSize ≤ t + g.slots
  tensorsOf : ∀ x i, (model i).Of (s.inputTensors x i)

namespace Inserting

variable {ops : CounterOps g α} {rep : ℕ → α} {model : Fin g.numInputs → Outlet} {t p : ℕ}
  {ins : Insertion g α} {s s' : SuperTensorBuffer g α} {now : Instant} (h : Inserting ops rep model t p ins s)

include h

/-- The tracker of a piece is that of its position. -/
theorem tracker_eq : ins.tracker ops = g.cell p := by
  rw [Insertion.tracker, h.currentHead, h.represents.batchId]

/-- The first slot of a piece is what its position is into the batch. -/
theorem batchSlot_eq : ins.batchSlot ops = p % g.batchSize := by
  rw [Insertion.batchSlot, h.currentHead, h.represents.slotId]

/-- A piece goes to the end of the batch, or of the request. -/
theorem toWrite_eq : ins.toWrite ops = min ins.clientBatchSize (Blocks.lower g.batchSize p + g.batchSize - p) := by
  rw [Insertion.toWrite, h.currentHead, h.represents.capacityInBatch]

/-- The piece is some of the rows, and ends with its batch at the latest. -/
theorem piece : 0 < ins.toWrite ops ∧ ins.toWrite ops ≤ ins.clientBatchSize ∧
    p + ins.toWrite ops ≤ Blocks.lower g.batchSize p + g.batchSize := by
  have hlt := Blocks.lt_lower_add g.batchSize_pos p
  have hpos := h.pos
  rw [h.toWrite_eq]
  omega

/-- The slot behind a piece. -/
theorem slotEnd_eq : ins.slotEnd ops = p % g.batchSize + ins.toWrite ops := by
  rw [Insertion.slotEnd, h.batchSlot_eq, Insertion.inputEnd, Nat.add_sub_cancel_left]

/-- Where the rows of the piece go. -/
theorem slot_eq {r : ℕ} (hr : r < ins.toWrite ops) :
    g.cell (p + r) = g.cell p ∧ (p + r) % g.batchSize = p % g.batchSize + r := by
  obtain ⟨-, -, hend⟩ := h.piece
  have hle := Blocks.lower_le g.batchSize p
  have hlower : Blocks.lower g.batchSize (p + r) = Blocks.lower g.batchSize p :=
    Blocks.lower_eq g.batchSize_pos (Blocks.lower_dvd _ p) (by omega) (by omega)
  have h₁ := Blocks.lower_add_mod g.batchSize (p + r)
  have h₂ := Blocks.lower_add_mod g.batchSize p
  refine ⟨?_, by omega⟩
  rw [← Geometry.cell_lower (p + r), hlower, Geometry.cell_lower]

/-- The batches behind the one at `p` are others. -/
theorem cell_ne {q : ℕ} (hq : Blocks.lower g.batchSize p + g.batchSize ≤ q) (hlt : q < t + g.slots) :
    g.cell q ≠ g.cell p := by
  have hdvd := h.tail_dvd
  have htail := h.tail_le
  have hlow : ∀ a, t ≤ a → t ≤ Blocks.lower g.batchSize a := fun a ha => by
    by_contra hnot
    have := Blocks.add_le_of_dvd (Blocks.lower_dvd g.batchSize a) hdvd (Nat.lt_of_not_le hnot)
    have := Blocks.lt_lower_add g.batchSize_pos a
    omega
  have hB := g.batchSize_pos
  have h₁ := Blocks.lower_le g.batchSize p
  have h₂ := Blocks.lower_le g.batchSize q
  have h₃ := Blocks.lt_lower_add hB p
  have h₄ := Blocks.lt_lower_add hB q
  intro heq
  have hlower := Geometry.eq_of_cell_eq (Blocks.lower_dvd _ q) (Blocks.lower_dvd _ p) (hlow q (by omega)) (by omega)
    (hlow p htail) (by omega) (by rw [Geometry.cell_lower, Geometry.cell_lower, heq])
  omega

/-- When rows are left, the piece ends with its batch, and the next one starts there. -/
theorem next {r : WriteReservation g} (hleft : ins.clientBatchSize - ins.toWrite ops ≠ 0)
    (htensors : ∀ x i, (model i).Of (s'.inputTensors x i)) :
    p + ins.toWrite ops = Blocks.lower g.batchSize p + g.batchSize ∧
      Inserting ops rep model t (p + ins.toWrite ops) (ins.next ops r) s' := by
  have hlt := Blocks.lt_lower_add g.batchSize_pos p
  have htoWrite := h.toWrite_eq
  have hend : p + ins.toWrite ops = Blocks.lower g.batchSize p + g.batchSize := by omega
  have hsize : (ins.next ops r).clientBatchSize = ins.clientBatchSize - ins.toWrite ops := rfl
  have htail := h.tail_le
  have hroom := h.room
  refine ⟨hend, h.represents, ?_, by omega, h.tail_dvd, by omega, by omega, htensors⟩
  rw [hend, ← h.represents.higherBound, ← h.currentHead]
  rfl

/-- Copies that return, and a batch that is not opened twice, make a piece that returns. -/
theorem insertTensorsAt_returns (now : Instant) {s₁ : SuperTensorBuffer g α}
    (h₁ : copyInputs ops ins (List.finRange g.numInputs) s = some (.ok (), s₁))
    (hopen : p % g.batchSize = 0 → s.Unopened (g.cell p)) :
    ∃ r s', insertTensorsAt ops now ins s = some (.ok r, s') := by
  have hcopied := copyInputs_of_ok (List.nodup_finRange g.numInputs) h₁
  rw [insertTensorsAt, Call.bind_of_ok h₁]
  by_cases hslot : ins.batchSlot ops = 0
  · have hun : s₁.Unopened (ins.tracker ops) := by
      rw [hcopied.rest, h.tracker_eq]
      exact hopen (h.batchSlot_eq ▸ hslot)
    obtain ⟨s₂, h₂⟩ := openBatch_returns now hun
    rw [Call.bind_of_ok ((Call.when_of_pos hslot).trans h₂)]
    obtain ⟨s₃, h₃, -⟩ := reserveSlots_returns ops ins s₂
    exact ⟨_, _, h₃⟩
  · rw [Call.bind_of_ok (Call.when_of_neg hslot)]
    obtain ⟨s₃, h₃, -⟩ := reserveSlots_returns ops ins s₁
    exact ⟨_, _, h₃⟩

/-- What a piece that returns has done besides its copies. -/
theorem insertTensorsAt_of_ok {r : WriteReservation g} (hrun : insertTensorsAt ops now ins s = some (.ok r, s')) :
    r = s.pieceReservation (p, ins.toWrite ops) ∧ Counted (p, ins.toWrite ops) s s' ∧
      (∀ i, (copyOf ops ins s i).result = .ok (s'.inputTensors (g.cell p) i)) ∧
      (∀ x i, x ≠ g.cell p → s'.inputTensors x i = s.inputTensors x i) ∧
      ∀ x i, (model i).Of (s'.inputTensors x i) := by
  obtain ⟨_, s₁, h₁, hrun⟩ := Call.bind_eq_ok.1 hrun
  obtain ⟨_, s₂, h₂, hrun⟩ := Call.bind_eq_ok.1 hrun
  have hcopied := copyInputs_of_ok (List.nodup_finRange g.numInputs) h₁
  have hopens := Call.Ensures.when Opens.refl (fun _ => openBatch_opens) _ _ _ h₂
  obtain ⟨s₃, h₃, htensors, hgen, hcount, hothers⟩ := reserveSlots_returns ops ins s₂
  obtain ⟨hr, rfl⟩ := Prod.mk.inj (Option.some.inj (hrun.symm.trans h₃))
  have hs₁ : s₁.trackers = s.trackers := by rw [hcopied.rest]
  have hs₁' : s₁.states = s.states := by rw [hcopied.rest]
  have hx := h.tracker_eq
  have htensors' : s'.inputTensors = s₁.inputTensors := htensors.trans hopens.inputTensors
  have hlast := h.slotEnd_eq
  have hfirst := h.batchSlot_eq
  rw [hx] at hcount hothers hopens
  have hdone : ∀ i, (copyOf ops ins s i).result = .ok (s'.inputTensors (g.cell p) i) := fun i => by
    rw [htensors', ← hx]
    exact hcopied.done i (List.mem_finRange i)
  have hkept : ∀ x i, x ≠ g.cell p → s'.inputTensors x i = s.inputTensors x i := fun x i hne => by
    rw [htensors', hcopied.others x i fun hmem => hne (hmem.1.trans hx)]
  refine ⟨?_, ⟨?_, fun x hne => ?_, fun x => ?_, fun x n hne => ?_⟩, hdone, hkept, fun x i => ?_⟩
  · have hsame : (s₂.trackers (g.cell p)).generation = (s.trackers (g.cell p)).generation := by
      rw [hopens.generation, hs₁]
    rw [Attempt.ok.inj hr, pieceReservation, hlast, hfirst, hx, hsame]
  · rwa [hopens.written, hs₁, hlast, hfirst, Nat.add_sub_cancel_left] at hcount
  · rw [(hothers x hne).1, hopens.written, hs₁]
  · rw [hgen, hopens.generation, hs₁]
  · rw [(hothers x hne).2 n, hopens.states x n hne, hs₁']
  · by_cases hcell : x = g.cell p
    · subst hcell
      obtain ⟨htype, hshape⟩ := BatchableTensor.copyInput_frame (hdone i)
      exact ⟨htype.trans (h.tensorsOf _ i).dataType, hshape.trans (h.tensorsOf _ i).singleTensorShape⟩
    · rw [hkept x i hcell]
      exact h.tensorsOf x i

/-- The batches of the rows that are left are as unopened as they were. -/
theorem unopened_next {r : WriteReservation g} (hleft : ins.clientBatchSize - ins.toWrite ops ≠ 0)
    (hcounted : Counted (p, ins.toWrite ops) s s')
    (hopen : ∀ q, g.batchSize ∣ q → p ≤ q → q < p + ins.clientBatchSize → s.Unopened (g.cell q)) :
    ∀ q, g.batchSize ∣ q → p + ins.toWrite ops ≤ q →
      q < p + ins.toWrite ops + (ins.next ops r).clientBatchSize → s'.Unopened (g.cell q) := by
  obtain ⟨hblock, -⟩ := h.next (r := r) hleft h.tensorsOf
  have hsize : (ins.next ops r).clientBatchSize = ins.clientBatchSize - ins.toWrite ops := rfl
  have hroom := h.room
  intro q hq h₁ h₂
  have hne : g.cell q ≠ g.cell p := h.cell_ne (by omega) (by omega)
  have hstate : s'.state (g.cell q) = s.state (g.cell q) := by
    rw [state, hcounted.generation, hcounted.states _ _ hne]
    rfl
  rw [Unopened, hstate]
  exact hopen q hq (by omega) (by omega)

end Inserting

/-- A client with rows left of its `n`, which have the model's size and types. -/
structure Gathering (ops : CounterOps g α) (rep : ℕ → α) (model : Fin g.numInputs → Outlet) (n t p : ℕ)
    (ins : Insertion g α) (s : SuperTensorBuffer g α) : Prop extends Inserting ops rep model t p ins s where
  rows : ins.inputStart + ins.clientBatchSize = n
  rowsOf : ins.request.Matches model n
  supported : ∀ i, (model i).Supported

namespace Gathering

variable {ops : CounterOps g α} {rep : ℕ → α} {model : Fin g.numInputs → Outlet} {n t p : ℕ}
  {ins : Insertion g α} {s s' : SuperTensorBuffer g α} {now : Instant} (h : Gathering ops rep model n t p ins s)

include h

/-- The tensor that is copied, and the length of its rows. -/
theorem tensor (i : Fin g.numInputs) : ∃ tensor dim0 dims, ins.request.tensors[i.val]? = some tensor ∧
    tensor.shape = dim0 :: dims ∧ asUsize dim0 = n ∧
    tensor.bytesPerIndex (asUsize dim0) = (copyOf ops ins s i).t.rowBytes ∧
    tensor.data.length = n * (copyOf ops ins s i).t.rowBytes := by
  obtain ⟨tensor, dim0, dims, hi, hshape, hdim, hdata⟩ := h.rowsOf i
  have hrow : (copyOf ops ins s i).t.rowBytes = (model i).rowBytes := (h.tensorsOf _ i).rowBytes
  have hn : 0 < n := by
    have := h.rows
    have := h.pos
    omega
  refine ⟨tensor, dim0, dims, hi, hshape, hdim, ?_, by rw [hrow, hdata (h.supported i)]⟩
  rw [TensorBytes.bytesPerIndex, hdim, hdata (h.supported i), Nat.mul_div_cancel_left _ hn, hrow]

/-- The copies of a request that has the rows of the model return. -/
theorem copy_ok (i : Fin g.numInputs) : ∃ t', (copyOf ops ins s i).result = .ok t' := by
  obtain ⟨tensor, dim0, dims, hi, hshape, hdim, -, hdata⟩ := h.tensor i
  obtain ⟨hpos, hle, hend⟩ := h.piece
  have hrows := h.rows
  have hmod := Blocks.lower_add_mod g.batchSize p
  obtain ⟨w, hw⟩ := Option.isSome_iff_exists.1 (h.supported i)
  have hw' : (copyOf ops ins s i).t.dataType.copyWidth = some w := by
    rw [← hw, ← (h.tensorsOf (ins.tracker ops) i).dataType]
    rfl
  have hstop : (copyOf ops ins s i).stop = ins.inputStart + ins.toWrite ops := rfl
  have hstart : (copyOf ops ins s i).start = ins.inputStart := rfl
  have hslot : (copyOf ops ins s i).slot = p % g.batchSize := h.batchSlot_eq
  refine Copy.result_ok hi hshape (by omega) (by omega) (by omega) hw' ?_
  rw [hdata, hdim, BatchableTensor.rowBytes, hw', Option.getD_some]

/-- A piece that was inserted is placed. -/
theorem placed {r : WriteReservation g} (hrun : insertTensorsAt ops now ins s = some (.ok r, s')) :
    Placed model ins.request p ins.inputStart (ins.toWrite ops) [(p, ins.toWrite ops)] s s' := by
  obtain ⟨-, hcounted, hdone, hkept, htensors⟩ := h.insertTensorsAt_of_ok hrun
  have hfirst := h.batchSlot_eq
  refine ⟨fun i tensor hi r hr => ?_, fun x i k hk hoff => ?_, fun q hq => ?_, fun x hx => ?_, hcounted.generation,
    fun x k hx => ?_, htensors⟩
  · obtain ⟨hcell, hslot⟩ := h.slot_eq hr
    obtain ⟨tensor', dim0, dims, hi', hshape, -, hbytes, -⟩ := h.tensor i
    obtain rfl := Option.some.inj (hi.symm.trans hi')
    have hrow := Copy.row_of_ok hi hshape (hdone i) hbytes (r := r)
      (by simpa [copyOf, Insertion.inputEnd] using hr)
    have hrowBytes : (copyOf ops ins s i).t.rowBytes = (model i).rowBytes := (h.tensorsOf _ i).rowBytes
    rw [hrowBytes] at hrow
    rw [hcell, hslot, ← hfirst]
    exact hrow
  · obtain ⟨tensor, dim0, dims, hi, hshape, -, hbytes, -⟩ := h.tensor i
    by_cases hcell : x = g.cell p
    · subst hcell
      have hrow := Copy.row_of_ok_of_notMem (k := k) hi hshape (hdone i) hbytes
      rw [copyOf, h.tracker_eq] at hrow
      refine hrow ?_
      by_contra hnot
      simp only [Insertion.inputEnd, Nat.add_sub_cancel_left, hfirst, not_or, Nat.not_lt, Nat.not_le] at hnot
      obtain ⟨d, hd⟩ := Nat.exists_eq_add_of_le hnot.1
      have hlt : d < ins.toWrite ops := by omega
      obtain ⟨hcell, hslot'⟩ := h.slot_eq hlt
      exact hoff d hlt hcell (hslot'.trans hd.symm)
    · rw [hkept x i hcell]
  · obtain rfl := List.mem_singleton.1 hq
    exact hcounted.written
  · exact hcounted.others x fun heq => hx _ List.mem_cons_self heq.symm
  · exact hcounted.states x k fun heq => hx _ List.mem_cons_self heq.symm

/-- What is gathered when a piece is done and rows are left. -/
theorem next {r : WriteReservation g} (hleft : ins.clientBatchSize - ins.toWrite ops ≠ 0)
    (hplaced : Placed model ins.request p ins.inputStart (ins.toWrite ops) [(p, ins.toWrite ops)] s s') :
    p + ins.toWrite ops = Blocks.lower g.batchSize p + g.batchSize ∧
      Gathering ops rep model n t (p + ins.toWrite ops) (ins.next ops r) s' := by
  obtain ⟨hblock, hnext⟩ := h.toInserting.next (r := r) hleft hplaced.tensorsOf
  have hsize : (ins.next ops r).clientBatchSize = ins.clientBatchSize - ins.toWrite ops := rfl
  have hstart : (ins.next ops r).inputStart = ins.inputStart + ins.toWrite ops := rfl
  have hrows := h.rows
  exact ⟨hblock, hnext, by omega, h.rowsOf, h.supported⟩

omit h in
/-- **The pieces of the rows that a client has left are placed, one after the other.** -/
theorem insertAll_of_ok {clock : ℕ → Instant} {k : ℕ} {response : List (WriteReservation g)}
    (h : Gathering ops rep model n t p ins s) (hrun : insertAll ops clock k ins s = some (.ok response, s')) :
    ∃ pieces, Pieces g.batchSize p ins.clientBatchSize pieces ∧
      response = ins.response ++ pieces.map s.pieceReservation ∧
      Placed model ins.request p ins.inputStart ins.clientBatchSize pieces s s' := by
  induction k generalizing ins p s with
  | zero => cases hrun
  | succ k ih =>
    obtain ⟨r, s₁, hinsert, hrun⟩ := Call.bind_eq_ok.1 hrun
    obtain ⟨hr, -⟩ := h.insertTensorsAt_of_ok hinsert
    have hplaced := h.placed hinsert
    obtain ⟨hpos, hle, hend⟩ := h.piece
    by_cases hlast : ins.clientBatchSize - ins.toWrite ops = 0
    · rw [if_pos hlast] at hrun
      obtain ⟨hresponse, rfl⟩ := Prod.mk.inj (Option.some.inj hrun)
      have hall : ins.toWrite ops = ins.clientBatchSize := by omega
      rw [hall] at hplaced hr hend
      refine ⟨_, .last h.pos hend, ?_, hplaced⟩
      rw [← Attempt.ok.inj hresponse, hr, List.map_singleton]
    · rw [if_neg hlast] at hrun
      obtain ⟨hblock, hnext⟩ := h.next (r := r) hlast hplaced
      obtain ⟨pieces, hpieces, hresponse, hrest⟩ := ih hnext hrun
      have hroom := h.room
      have htail := h.tail_le
      have hsize : ins.toWrite ops + (ins.clientBatchSize - ins.toWrite ops) = ins.clientBatchSize := by omega
      have hcells : ∀ q ∈ pieces, g.cell q.1 ≠ g.cell p := fun q hq => by
        obtain ⟨h₁, h₂, h₃, -⟩ := hpieces.mem g.batchSize_pos q hq
        have hleft : (ins.next ops r).clientBatchSize = ins.clientBatchSize - ins.toWrite ops := rfl
        exact h.cell_ne (by omega) (by omega)
      refine ⟨(p, ins.toWrite ops) :: pieces, ?_, ?_, ?_⟩
      · rw [← hsize]
        exact .cons hblock hpieces
      · rw [hresponse, hplaced.pieceReservation_eq, List.map_cons, ← hr]
        exact List.append_assoc _ _ _
      · have hall := hplaced.trans hrest (hsize.le.trans (by omega)) hcells
        rwa [show ins.toWrite ops + (ins.next ops r).clientBatchSize = ins.clientBatchSize from hsize] at hall

omit h in
/-- Rows that find the batches they open unopened are placed. -/
theorem insertAll_returns {clock : ℕ → Instant} {k : ℕ} (h : Gathering ops rep model n t p ins s)
    (hk : ins.clientBatchSize ≤ k)
    (hopen : ∀ q, g.batchSize ∣ q → p ≤ q → q < p + ins.clientBatchSize → s.Unopened (g.cell q)) :
    ∃ response s', insertAll ops clock k ins s = some (.ok response, s') := by
  induction k generalizing ins p s with
  | zero =>
    have := h.pos
    omega
  | succ k ih =>
    obtain ⟨hpos, hle, hend⟩ := h.piece
    have hcopies : ∃ s₂, copyInputs ops ins (List.finRange g.numInputs) s = some (.ok (), s₂) :=
      copyInputs_returns (List.nodup_finRange g.numInputs) fun i _ => h.copy_ok i
    obtain ⟨s₂, hcopies⟩ := hcopies
    obtain ⟨r, s₁, hinsert⟩ := h.insertTensorsAt_returns (clock ins.inputStart) hcopies
      fun hslot => hopen p (Nat.dvd_of_mod_eq_zero hslot) le_rfl (by omega)
    obtain ⟨-, hcounted, -⟩ := h.insertTensorsAt_of_ok hinsert
    rw [insertAll, Call.bind_of_ok hinsert]
    by_cases hlast : ins.clientBatchSize - ins.toWrite ops = 0
    · rw [if_pos hlast]
      exact ⟨_, _, rfl⟩
    · rw [if_neg hlast]
      obtain ⟨-, hnext⟩ := h.next (r := r) hlast (h.placed hinsert)
      have hleft : (ins.next ops r).clientBatchSize = ins.clientBatchSize - ins.toWrite ops := rfl
      exact ih hnext (by omega) (h.unopened_next hlast hcounted hopen)

end Gathering

end SuperTensorBuffer

/-- In a run, the batches that a request opens are unopened. -/
theorem unopened_of_runs {w : RingWorld g ℕ} (h : Runs (CounterOps.unbounded g) (Fits g) w) {n q : ℕ}
    (hroom : w.shared.tail ≤ w.shared.head ∧ w.shared.head + n ≤ w.shared.tail + g.slots) (hq : g.batchSize ∣ q)
    (h₁ : w.shared.head ≤ q) (h₂ : q < w.shared.head + n) :
    w.shared.Unopened (g.cell q) := by
  obtain ⟨⟨⟨⟨⟨⟨hl, -⟩, -⟩, -⟩, hr⟩, hc⟩, ho⟩ := (lifecycle_holds h).shared
  obtain ⟨htail, hend⟩ := hroom
  have hB := g.batchSize_pos
  have hgen := (hc.generation q hq (by omega) (by omega)).2 fun hreplaced => by
    have := (hr.sealed q (hl.closed hreplaced (by simp [Stage.rank]))).1
    omega
  have hopening := ho q hq h₁
  have hstate : w.shared.state (g.cell q) = w.shared.batchState q := by
    rw [SuperTensorBuffer.state, hgen]
    rfl
  rw [SuperTensorBuffer.Unopened, hstate]
  exact ⟨congrArg Prod.fst hopening, congrArg Prod.snd hopening⟩

/-- **A request is gathered row by row.**  On the code's counters, wherever these stand on their
circle: an `infer` that takes position `h` and returns has put row `r` of every input into the slot
of position `h + r` and changed no other row; its reservations are the pieces of its positions, in
order, each within a batch, and their trackers have counted them.  It does return when the batches
that it opens are unopened. -/
theorem input_gather_correct (hg : g.slots < 2 ^ 64) {s : SuperTensorBuffer g Usize} {h t n : ℕ}
    (hhead : s.head = wrap h) (htail : s.tail = wrap t) (htail_dvd : g.batchSize ∣ t)
    (hroom : t ≤ h ∧ h + n ≤ t + g.slots) {model : Fin g.numInputs → Outlet}
    (htensors : ∀ x i, (model i).Of (s.inputTensors x i)) (hsup : ∀ i, (model i).Supported)
    {request : Request} (hn : request.clientBatchSize = .ok n) (hrows : request.Matches model n)
    (clock : ℕ → Instant) :
    (∀ response s', SuperTensorBuffer.infer (CounterOps.wrapping g) clock request s = some (.ok response, s') →
      (∀ (i : Fin g.numInputs) tensor, request.tensors[i.val]? = some tensor → ∀ r < n,
        (s'.inputTensors (g.cell (h + r)) i).row ((h + r) % g.batchSize) = tensor.row (model i).rowBytes r) ∧
      (∀ x i k, k < g.batchSize → (∀ r < n, ¬ (g.cell (h + r) = x ∧ (h + r) % g.batchSize = k)) →
        (s'.inputTensors x i).row k = (s.inputTensors x i).row k) ∧
      ∃ pieces, Pieces g.batchSize h n pieces ∧ response = pieces.map s.pieceReservation ∧
        (pieces.flatMap fun q => List.range' q.1 q.2) = List.range' h n ∧ (pieces.map Prod.snd).sum = n ∧
        (∀ q ∈ pieces, 0 < q.2 ∧ q.1 + q.2 ≤ Blocks.lower g.batchSize q.1 + g.batchSize) ∧
        (∀ q ∈ pieces, (s'.trackers (g.cell q.1)).writtenSlots = (s.trackers (g.cell q.1)).writtenSlots + q.2) ∧
        ∀ x, (∀ q ∈ pieces, g.cell q.1 ≠ x) → (s'.trackers x).writtenSlots = (s.trackers x).writtenSlots) ∧
    ((∀ q, g.batchSize ∣ q → h ≤ q → q < h + n → s.Unopened (g.cell q)) →
      ∃ response s', SuperTensorBuffer.infer (CounterOps.wrapping g) clock request s = some (.ok response, s')) := by
  have hpos := Request.clientBatchSize_pos hn
  have hfull : ¬ (CounterOps.wrapping g).isFull s.head s.tail = true := by
    rw [hhead, htail, Wrapping.isFull_wrap_of_le hg hroom.1 (by omega), decide_eq_true_eq]
    omega
  have hins : SuperTensorBuffer.Gathering (CounterOps.wrapping g) wrap model n t h ⟨request, s.head, s.head, 0, n, []⟩
      { s with head := (CounterOps.wrapping g).add s.head n } :=
    ⟨⟨CounterOps.wrapping_represents hg.le, hhead, hpos, htail_dvd, hroom.1, hroom.2, htensors⟩, Nat.zero_add n, hrows,
      hsup⟩
  have hinfer : SuperTensorBuffer.infer (CounterOps.wrapping g) clock request s =
      SuperTensorBuffer.insertAll (CounterOps.wrapping g) clock (n + 1) ⟨request, s.head, s.head, 0, n, []⟩
        { s with head := (CounterOps.wrapping g).add s.head n } := by
    rw [SuperTensorBuffer.infer, Call.read_bind_apply, if_neg hfull, hn]
    rfl
  rw [hinfer]
  constructor
  · intro response s' hrun
    obtain ⟨pieces, hpieces, hresponse, hplaced⟩ := hins.insertAll_of_ok hrun
    refine ⟨fun i tensor hi r hr => ?_, fun x i k hk hoff => ?_, pieces, hpieces, hresponse, hpieces.flatMap_range',
      hpieces.sum, fun q hq => ?_, hplaced.written, hplaced.notWritten⟩
    · have hrow := hplaced.placed i tensor hi r hr
      rwa [Nat.zero_add] at hrow
    · exact hplaced.kept x i k hk fun r hr hcell hslot => hoff r hr ⟨hcell, hslot⟩
    · obtain ⟨hsize, -, -, hblock⟩ := hpieces.mem g.batchSize_pos q hq
      exact ⟨hsize, hblock⟩
  · exact fun hopen => hins.insertAll_returns (Nat.le_succ n) hopen

/-- A ring whose counters are about to wrap. -/
def aboutToWrap : SuperTensorBuffer twoByTwo Usize :=
  { SuperTensorBuffer.new (CounterOps.wrapping twoByTwo) fun _ _ => byteTensor 2 with
    head := wrap (2 ^ 64 - 1)
    executorHead := wrap (2 ^ 64 - 2)
    tail := wrap (2 ^ 64 - 2) }

/-- A request of two rows of one byte. -/
def twoRows : Request := ⟨[⟨.typeUint8, [2, 1], [7, 8]⟩], by simp⟩

/-- Two rows over the end of the counter, the ring and a batch. -/
theorem input_gather_correct_twoByTwo : ∃ response s',
    SuperTensorBuffer.infer (CounterOps.wrapping twoByTwo) (fun _ => 0) twoRows aboutToWrap = some (.ok response, s') ∧
      (∀ i, (s'.inputTensors (twoByTwo.cell (2 ^ 64 - 1)) i).row 1 = [7]) ∧
      ∀ i, (s'.inputTensors (twoByTwo.cell 0) i).row 0 = [8] := by
  have htensor : ∀ i : Fin twoByTwo.numInputs,
      twoRows.tensors[i.val]? = some ⟨.typeUint8, [2, 1], [7, 8]⟩ := by decide
  obtain ⟨hgather, hreturns⟩ := @input_gather_correct twoByTwo (by decide) aboutToWrap (2 ^ 64 - 1) (2 ^ 64 - 2) 2
    rfl rfl (by decide) (by decide) (fun _ => ⟨.uint8, [1]⟩) (fun _ _ => ⟨rfl, rfl⟩) (fun _ => rfl) twoRows rfl
    (fun i => ⟨_, 2, [1], htensor i, rfl, rfl, fun _ => rfl⟩) (fun _ => 0)
  obtain ⟨response, s', hrun⟩ := hreturns fun _ _ _ _ => ⟨rfl, rfl⟩
  have hrow := fun i => (hgather response s' hrun).1 i _ (htensor i)
  exact ⟨response, s', hrun, fun i => hrow i 0 (by decide), fun i => hrow i 1 (by decide)⟩

end Toutates
