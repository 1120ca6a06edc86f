/-
# A call of `infer` that fails

`infer` returns two errors.  `RingFull` comes before its CAS, when the call has changed
nothing.  `UnsupportedDataType` comes from a copy, when the rows are already taken: the
head has moved, nobody will write these rows, and the `?` that returns the error does not
give them back.

So whether a failed call leaves the ring as it was is up to the element types of the model
(`Outlet.Supported`), which nothing checks when the tensors are allocated.
-/

import Toutates.Ring.Copying
import Toutates.Ring.Sample

namespace Toutates

open Basis

variable {g : Geometry} {tid : ℕ} {request : Request} {model : Fin g.numInputs → Outlet}

/-- A thread is in a call of `infer`. -/
def Pc.InInfer : Pc g ℕ → Prop
  | .infer _ _ | .insert _ _ => True
  | _ => False

/-- Thread `tid` stays in its call of `infer`, and the others do what they like. -/
def Calling (tid : ℕ) : RingGuard g ℕ := fun i _ pc _ => i = tid → pc.InInfer

/-- Only thread `tid` moves, in its call of `infer`. -/
def Alone (tid : ℕ) : RingGuard g ℕ := fun i _ pc _ => i = tid ∧ pc.InInfer

/-- Thread `tid` changes nothing that it shares with the others. -/
def Untouched (tid : ℕ) : RingGuard g ℕ := fun i s pc c =>
  i = tid → ∀ s' pc' e, program (CounterOps.unbounded g) i s pc c = .next s' pc' e → s' = s

/-- The ring has `n` free slots. -/
def SuperTensorBuffer.HasRoom (s : SuperTensorBuffer g ℕ) (n : ℕ) : Prop :=
  s.tail ≤ s.head ∧ s.head + n ≤ s.tail + g.slots

instance (s : SuperTensorBuffer g ℕ) (n : ℕ) : Decidable (s.HasRoom n) :=
  inferInstanceAs (Decidable (_ ∧ _))

/-- A call of `infer` in the world `w` that returns an error in the world `w'`. -/
def FailedInfer (ok : RingGuard g ℕ) (tid : ℕ) (request : Request) (error : InferError)
    (w w' : RingWorld g ℕ) : Prop :=
  w.threads tid = .idle ∧ ∃ w₁ v c,
    (program (CounterOps.unbounded g)).step w ⟨tid, .infer request⟩ = some w₁ ∧
    Reach (program (CounterOps.unbounded g)) ok w₁ v ∧ (v.threads tid).InInfer ∧
    (program (CounterOps.unbounded g)).step v ⟨tid, c⟩ = some w' ∧ w'.log = .failed tid error :: v.log

/-! ### What a failed call has done -/

/-- The steps of `infer` before its CAS succeeds change nothing. -/
theorem Transition.to_infer {i : ℕ} {s s' : SuperTensorBuffer g ℕ} {pc : Pc g ℕ} {c : Choice}
    {e : Option (Event g ℕ)} {phase : InferPhase ℕ}
    (ht : Transition (CounterOps.unbounded g) i s pc c s' (.infer request phase) e) : s' = s := by
  cases ht <;> rfl

/-- In a call, `infer` does not come back to its loop head once the CAS has succeeded. -/
theorem Transition.from_infer {i : ℕ} {s s' : SuperTensorBuffer g ℕ} {pc : Pc g ℕ} {c : Choice}
    {e : Option (Event g ℕ)} {phase : InferPhase ℕ}
    (ht : Transition (CounterOps.unbounded g) i s pc c s' (.infer request phase) e) (hpc : pc.InInfer) :
    ∃ phase', pc = .infer request phase' := by
  cases ht with
  | callInfer => exact absurd hpc id
  | _ => exact ⟨_, rfl⟩

/-- A call that has not reserved its rows yet has changed nothing. -/
theorem untouched_of_infer {ok : RingGuard g ℕ} (hok : ∀ i s pc c, ok i s pc c → Calling tid i s pc c)
    {w v : RingWorld g ℕ} (h : Reach (program (CounterOps.unbounded g)) ok w v) {phase : InferPhase ℕ}
    (hpc : v.threads tid = .infer request phase) :
    Reach (program (CounterOps.unbounded g)) (fun i s pc c => ok i s pc c ∧ Untouched tid i s pc c) w v := by
  induction h generalizing phase with
  | refl => exact Reach.start
  | @tail u v hr hs ih =>
    obtain ⟨a, ha, hs⟩ := hs
    by_cases hi : a.thread = tid
    · obtain ⟨e, ht, -⟩ := transition_of_step hs
      rw [hi] at ht
      rw [hpc] at ht
      obtain ⟨phase', hpc'⟩ := ht.from_infer (by simpa only [hi] using hok _ _ _ _ ha hi)
      refine Reach.tail (ih hpc') ⟨ha, fun _ s' pc' e' hP => ?_⟩ hs
      obtain ⟨s, l, e, hP', rfl⟩ := Program.step_eq_some.1 hs
      obtain ⟨rfl, -, -⟩ := Outcome.next.inj (hP.symm.trans hP')
      exact ht.to_infer
    · rw [Program.step_threads hs (Ne.symm hi)] at hpc
      exact Reach.tail (ih hpc) ⟨ha, fun h => absurd h hi⟩ hs

/-- A call fails at the full check, or at a copy to an input of a type that is not supported. -/
theorem Transition.of_failed {i t : ℕ} {s s' : SuperTensorBuffer g ℕ} {pc pc' : Pc g ℕ} {c : Choice}
    {error : InferError} (ht : Transition (CounterOps.unbounded g) i s pc c s' pc' (some (.failed t error)))
    (hpc : pc.InInfer) (hs : s.TensorsOf model) :
    s' = s ∧ ((error = .ringFull ∧ ∃ request h, pc = .infer request (.loadTail h)) ∨
      ∃ i, ¬ (model i).Supported) := by
  cases ht with
  | ringFull request h hfull => exact ⟨rfl, .inl ⟨rfl, request, h, rfl⟩⟩
  | copyFailed ins k hk e hc =>
    refine ⟨rfl, .inr ⟨⟨k, hk⟩, fun hsup => ?_⟩⟩
    have hnone : (ins.copy s ⟨k, hk⟩).t.dataType.copyWidth = none := Copy.of_result_err hc
    have hsome : (ins.copy s ⟨k, hk⟩).t.dataType.copyWidth.isSome = true := by
      rw [Outlet.Supported, ← (hs (ins.tracker (CounterOps.unbounded g)) ⟨k, hk⟩).dataType] at hsup
      exact hsup
    rw [hnone] at hsome
    exact absurd hsome Bool.false_ne_true
  | resultFailed => exact absurd hpc id

/-- The step that calls `infer`. -/
theorem call_eq {w w₁ : RingWorld g ℕ} (hidle : w.threads tid = .idle)
    (h : (program (CounterOps.unbounded g)).step w ⟨tid, .infer request⟩ = some w₁) :
    w₁.shared = w.shared ∧ w₁.threads tid = .infer request .loadHead := by
  obtain ⟨s, l, e, hP, rfl⟩ := Program.step_eq_some.1 h
  simp only [hidle, program] at hP
  obtain ⟨rfl, rfl, -⟩ := Outcome.next.inj hP
  exact ⟨rfl, Function.update_self _ _ _⟩

/-- Where all element types are supported, a call fails with `RingFull` before it has reserved
anything. -/
theorem FailedInfer.ringFull {ok : RingGuard g ℕ} (hok : ∀ i s pc c, ok i s pc c → Calling tid i s pc c)
    {error : InferError} {w w' : RingWorld g ℕ} (h : FailedInfer ok tid request error w w')
    (hw : w.shared.TensorsOf model) (hsup : ∀ i, (model i).Supported) :
    error = .ringFull ∧ ∃ w₁ v c, w₁.shared = w.shared ∧ w'.shared = v.shared ∧
      (program (CounterOps.unbounded g)).step w ⟨tid, .infer request⟩ = some w₁ ∧
      Reach (program (CounterOps.unbounded g)) (fun i s pc c => ok i s pc c ∧ Untouched tid i s pc c) w₁ v ∧
      (program (CounterOps.unbounded g)).step v ⟨tid, c⟩ = some w' := by
  obtain ⟨hidle, w₁, v, c, hcall, hreach, hin, hs, hlog⟩ := h
  obtain ⟨hw₁, -⟩ := call_eq hidle hcall
  obtain ⟨hs', hcase⟩ := (transition_of_logged hs hlog).of_failed hin
    (tensorsOf_of_reach hreach (by rwa [hw₁]))
  rcases hcase with ⟨rfl, request', h, hpc⟩ | ⟨i, hi⟩
  · exact ⟨rfl, w₁, v, c, hw₁, hs', hcall, untouched_of_infer hok hreach hpc, hs⟩
  · exact absurd (hsup i) hi

/-- A step that leaves the shared state as it was. -/
theorem untouched_of_eq {w w' : RingWorld g ℕ} {a : Action Choice}
    (hs : (program (CounterOps.unbounded g)).step w a = some w') (heq : w'.shared = w.shared) :
    Untouched tid a.thread w.shared (w.threads a.thread) a.choice := by
  intro _ s' pc' e hP
  obtain ⟨s, l, e, hP', rfl⟩ := Program.step_eq_some.1 hs
  obtain ⟨rfl, -, -⟩ := Outcome.next.inj (hP.symm.trans hP')
  exact heq

/-- Where all element types are supported, a failed call has changed nothing, whatever the
others do. -/
theorem FailedInfer.untouched {error : InferError} {w w' : RingWorld g ℕ}
    (h : FailedInfer (Calling tid) tid request error w w') (hw : w.shared.TensorsOf model)
    (hsup : ∀ i, (model i).Supported) :
    error = .ringFull ∧ Reach (program (CounterOps.unbounded g)) (Untouched tid) w w' := by
  obtain ⟨herr, w₁, v, c, hw₁, hv, hcall, hreach, hs⟩ :=
    h.ringFull (fun _ _ _ _ h => h) hw hsup
  have hfirst : Reach (program (CounterOps.unbounded g)) (Untouched tid) w w₁ :=
    Reach.start.tail (untouched_of_eq hcall hw₁) hcall
  exact ⟨herr, Reach.tail (hfirst.trans (hreach.mono fun _ _ _ _ h => h.2)) (untouched_of_eq hs hv) hs⟩

/-- ... and alone it leaves the ring as it was. -/
theorem FailedInfer.shared_eq {error : InferError} {w w' : RingWorld g ℕ}
    (h : FailedInfer (Alone tid) tid request error w w') (hw : w.shared.TensorsOf model)
    (hsup : ∀ i, (model i).Supported) : w'.shared = w.shared := by
  obtain ⟨-, w₁, v, c, hw₁, hv, -, hreach, -⟩ := h.ringFull (fun _ _ _ _ h _ => h.2) hw hsup
  rw [hv, ← hw₁]
  refine hreach.invariant (I := fun v => v.shared = w₁.shared) rfl fun u a u' _ hu hok hs => ?_
  obtain ⟨s, l, e, hP, rfl⟩ := Program.step_eq_some.1 hs
  exact (hok.2 hok.1.1 s l e hP).trans hu

/-! ### A call that reserves its rows and fails -/

/-- A call that fits takes its rows, when no other thread moves. -/
theorem reserve_alone {w : RingWorld g ℕ} (hidle : w.threads tid = .idle) {n : ℕ}
    (hn : request.clientBatchSize = .ok n) (hroom : w.shared.HasRoom n) :
    ∃ w₁ v, (program (CounterOps.unbounded g)).step w ⟨tid, .infer request⟩ = some w₁ ∧
      Reach (program (CounterOps.unbounded g)) (Alone tid) w₁ v ∧
      v.shared = { w.shared with head := w.shared.head + n } ∧
      v.threads tid = .insert ⟨request, w.shared.head, w.shared.head, 0, n, []⟩ (.copyInput 0) := by
  have hpos := Request.clientBatchSize_pos hn
  have hfull : (CounterOps.unbounded g).isFull w.shared.head w.shared.tail = false := by
    refine decide_eq_false ?_
    obtain ⟨hle, hfit⟩ := hroom
    omega
  obtain ⟨w₁, hs₁, hw₁, hpc₁, -⟩ := Program.step_of_next (P := program (CounterOps.unbounded g)) (w := w)
    (i := tid) (c := .infer request) (by rw [hidle]; rfl)
  obtain ⟨w₂, hs₂, hw₂, hpc₂, -⟩ := Program.step_of_next (P := program (CounterOps.unbounded g)) (w := w₁)
    (i := tid) (c := .go) (by rw [hpc₁]; rfl)
  obtain ⟨w₃, hs₃, hw₃, hpc₃, -⟩ := Program.step_of_next (P := program (CounterOps.unbounded g)) (w := w₂)
    (i := tid) (c := .go) (s := w₂.shared) (l := .infer request (.casHead w.shared.head n)) (e := none) (by
      rw [hpc₂, hw₂, hw₁]
      simp only [program, stepInfer, hfull, hn, Bool.false_eq_true, if_false])
  obtain ⟨w₄, hs₄, hw₄, hpc₄, -⟩ := Program.step_of_next (P := program (CounterOps.unbounded g)) (w := w₃)
    (i := tid) (c := .go) (s := { w.shared with head := w.shared.head + n }) (by
      rw [hpc₃, hw₃, hw₂, hw₁]
      simp only [program, stepInfer, if_true]
      rfl)
  have hin : ∀ {u : RingWorld g ℕ} {phase}, u.threads tid = .infer request phase →
      Alone tid tid u.shared (u.threads tid) Choice.go := fun h => ⟨rfl, by rw [h]; exact True.intro⟩
  exact ⟨w₁, w₄, hs₁, ((Reach.start.tail (hin hpc₁) hs₂).tail (hin hpc₂) hs₃).tail (hin hpc₃) hs₄, hw₄, hpc₄⟩

/-- A client that is about to copy an input, and has one of a type that is not supported
before it, copies the inputs in between and is refused. -/
theorem refused_alone {ins : Insertion g ℕ} {n : ℕ} (hr : ins.request.Matches model n)
    (hpos : 0 < ins.clientBatchSize) (hn : ins.inputStart + ins.clientBatchSize = n) {i : Fin g.numInputs}
    (hi : ¬ (model i).Supported) (d : ℕ) {v : RingWorld g ℕ} {k : Fin g.numInputs} (hk : k.val + d = i)
    (hv : v.shared.TensorsOf model) (hpc : v.threads tid = .insert ins (.copyInput k)) :
    ∃ u w', Reach (program (CounterOps.unbounded g)) (Alone tid) v u ∧ (u.threads tid).InInfer ∧
      (program (CounterOps.unbounded g)).step u ⟨tid, .go⟩ = some w' ∧
      w'.log = .failed tid .unsupportedDataType :: u.log ∧ w'.shared.head = v.shared.head := by
  have hin : (v.threads tid).InInfer := by
    rw [hpc]
    exact True.intro
  induction d generalizing v k with
  | zero =>
    obtain rfl : k = i := Fin.ext hk
    obtain ⟨w', hs, hw', hlog⟩ := step_copyFailed hpc (Insertion.copy_err hv hr hpos hn hi)
    exact ⟨v, w', Reach.start, hin, hs, hlog, by rw [hw']⟩
  | succ d ih =>
    by_cases hsup : (model k).Supported
    · obtain ⟨t', ht'⟩ := Insertion.copy_ok hv hr hpos hn hsup
      obtain ⟨v', hs, hv', hpc'⟩ := step_copy hpc ht'
      have hstep : Reach (program (CounterOps.unbounded g)) (Alone tid) v v' :=
        Reach.start.tail ⟨rfl, hin⟩ hs
      have hlt := i.isLt
      obtain ⟨u, w', hu, huin, hs', hlog, hhead⟩ := ih (v := v') (k := ⟨k + 1, by omega⟩)
        (by simp only; omega) (tensorsOf_of_reach hstep hv) hpc' (by rw [hpc']; exact True.intro)
      refine ⟨u, w', hstep.trans hu, huin, hs', hlog, ?_⟩
      rw [hhead, hv', SuperTensorBuffer.setTensor_head]
    · obtain ⟨w', hs, hw', hlog⟩ := step_copyFailed hpc (Insertion.copy_err hv hr hpos hn hsup)
      exact ⟨v, w', Reach.start, hin, hs, hlog, by rw [hw']⟩

/-- A call that fits fails with the head moved, where the type of an input is not supported. -/
theorem failedInfer_of_unsupported {w : RingWorld g ℕ} (hw : w.shared.TensorsOf model)
    (hidle : w.threads tid = .idle) {n : ℕ} (hn : request.clientBatchSize = .ok n)
    (hroom : w.shared.HasRoom n) (hr : request.Matches model n) {i : Fin g.numInputs}
    (hi : ¬ (model i).Supported) :
    ∃ w', FailedInfer (Alone tid) tid request .unsupportedDataType w w' ∧
      w'.shared.head = w.shared.head + n := by
  have hpos := Request.clientBatchSize_pos hn
  obtain ⟨w₁, v, hcall, hreach, hv, hpc⟩ := reserve_alone hidle hn hroom
  have hk : 0 < g.numInputs := Nat.zero_lt_of_lt i.isLt
  obtain ⟨u, w', hu, hin, hs, hlog, hhead⟩ := refused_alone (k := ⟨0, hk⟩) (v := v) hr hpos
    (Nat.zero_add n) hi i (Nat.zero_add _) (by rw [hv]; exact hw) hpc
  exact ⟨w', ⟨hidle, w₁, u, .go, hcall, hreach.trans hu, hin, hs, hlog⟩, by rw [hhead, hv]⟩

/-- **A failed `infer` leaves the ring as it was exactly where all element types are
supported.**  For every model and every state that a run reaches, from whatever state of its
ring: where all types are supported, a call that fails has changed nothing, whatever the other
threads do in between.  A call that fits leaves the ring as it was when it fails by itself if and
only if they are. -/
theorem failed_infer_leaves_ring_iff_supported {w₀ w : RingWorld g ℕ} (hmodel : w₀.shared.TensorsOf model)
    (h : Reach (program (CounterOps.unbounded g)) anyStep w₀ w) :
    ((∀ i, (model i).Supported) → ∀ tid request error w',
      FailedInfer (Calling tid) tid request error w w' →
        error = .ringFull ∧ Reach (program (CounterOps.unbounded g)) (Untouched tid) w w') ∧
    ∀ tid request n, w.threads tid = .idle → request.clientBatchSize = .ok n →
      w.shared.HasRoom n → request.Matches model n →
        ((∀ error w', FailedInfer (Alone tid) tid request error w w' → w'.shared = w.shared) ↔
          ∀ i, (model i).Supported) := by
  have hw := tensorsOf_of_reach h hmodel
  refine ⟨fun hsup tid request error w' hfail => hfail.untouched hw hsup,
    fun tid request n hidle hn hroom hr =>
      ⟨fun hall => ?_, fun hsup error w' hfail => hfail.shared_eq hw hsup⟩⟩
  by_contra hnot
  obtain ⟨i, hi⟩ := not_forall.1 hnot
  obtain ⟨w', hfail, hhead⟩ := failedInfer_of_unsupported hw hidle hn hroom hr hi
  rw [hall _ w' hfail] at hhead
  have hpos := Request.clientBatchSize_pos hn
  omega

/-- A model input of one Boolean a row. -/
def boolTensor (batchSize : ℕ) : BatchableTensor batchSize where
  innerTensor := ⟨.bool, [batchSize, 1], List.replicate batchSize 0, fun w hw => by
    obtain rfl : 1 = w := Option.some.inj hw
    simp [numElements]⟩
  dataType := .bool
  singleTensorShape := [1, 1]
  tag_eq := rfl
  shape_eq := ⟨[1], by simp⟩

/-- A request of one row of one Boolean. -/
def boolRequest : Request := ⟨[⟨.typeBool, [1, 1], [1]⟩], by simp⟩

/-- A new ring of one Boolean a row. -/
def boolRing : RingWorld twoByOne ℕ := fresh (CounterOps.unbounded twoByOne) fun _ _ => boolTensor 1

/-- The tensors of a model of booleans. -/
theorem boolRing_tensorsOf : boolRing.shared.TensorsOf fun _ => ⟨.bool, [1]⟩ := fun _ _ => ⟨rfl, rfl⟩

/-- A request for it. -/
theorem boolRequest_matches : boolRequest.Matches (g := twoByOne) (fun _ => ⟨.bool, [1]⟩) 1 := by
  intro i
  have hi : i = ⟨0, by decide⟩ := Fin.ext (Nat.lt_one_iff.1 i.isLt)
  refine ⟨_, 1, [1], by rw [hi]; rfl, rfl, by decide, fun h => ?_⟩
  exact absurd (show Outlet.Supported ⟨.bool, [1]⟩ from h) (by decide)

/-- A request of one Boolean does not leave a new ring as it was. -/
theorem failed_infer_leaves_ring_iff_supported_twoByOne :
    ¬ ∀ error w', FailedInfer (Alone 2) 2 boolRequest error boolRing w' → w'.shared = boolRing.shared := by
  intro hall
  have hiff := (failed_infer_leaves_ring_iff_supported boolRing_tensorsOf Reach.start).2 2 boolRequest 1 rfl
    (by decide) (by decide) boolRequest_matches
  exact absurd (hiff.1 hall ⟨0, by decide⟩) (by decide)

/-- The head of the ring has moved when the call of one Boolean returns. -/
theorem failed_infer_can_leak_rows :
    ¬ ∀ (g : Geometry) (inputTensors : Fin g.capacity → Fin g.numInputs → BatchableTensor g.batchSize)
      (model : Fin g.numInputs → Outlet) (w w' : RingWorld g ℕ) (tid : ℕ) (request : Request) (n : ℕ)
      (error : InferError),
      (fresh (CounterOps.unbounded g) inputTensors).shared.TensorsOf model →
        Reach (program (CounterOps.unbounded g)) anyStep (fresh (CounterOps.unbounded g) inputTensors) w →
        request.clientBatchSize = .ok n → w.shared.HasRoom n → request.Matches model n →
        FailedInfer (Alone tid) tid request error w w' → w'.shared = w.shared := by
  intro hall
  obtain ⟨w', hfail, hhead⟩ : ∃ w', FailedInfer (Alone 2) 2 boolRequest .unsupportedDataType boolRing w' ∧
      w'.shared.head = boolRing.shared.head + 1 :=
    failedInfer_of_unsupported boolRing_tensorsOf rfl (by decide) (by decide) boolRequest_matches
      (i := ⟨0, by decide⟩) (by decide)
  rw [hall twoByOne _ _ boolRing w' 2 boolRequest 1 _ boolRing_tensorsOf Reach.start (by decide)
    (by decide) boolRequest_matches hfail] at hhead
  exact absurd hhead (by decide)

end Toutates
