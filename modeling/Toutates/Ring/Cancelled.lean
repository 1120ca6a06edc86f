/-
# Clients that go away

A call of `model_infer` whose client goes away is dropped where it waits, and the only place where it waits is
`notified.await` of `get_result`: `infer` takes its rows and writes them without waiting.  By then its rows are
counted, and what it leaves is its place in the queue of `response_ready_notifier`, which `Notified` takes back
when it is dropped.

Nobody can tell: an executor calls all who wait and does not look at the queue (`discreet`).  So a run in which
clients go away is, for all others, one in which they only stop (`cancelled_only_stop`).  The rows they have taken
stay accounted for (`accounts_of_cancelled`), and there is no other way for the ring to hang than there was
(`cancelled_hung_only_by_lost_wakeup`).
-/

import Toutates.Basis.Dropped
import Toutates.Ring.Metrics
import Toutates.Ring.Progress

namespace Toutates

open Basis

variable {g : Geometry}

/-- `get_result`, dropped at its `await`. -/
def dropGetResult (tid : ℕ) (s : SuperTensorBuffer g ℕ) : Pc g ℕ → Option (SuperTensorBuffer g ℕ)
  | .getData c (.awaitResponse _) =>
    match c.outputs with
    | [] => none
    | r :: _ => some (s.modifyState r.tracker r.responseReadyNotifier
        fun b => { b with responseReadyNotifier := b.responseReadyNotifier.cancel tid })
  | _ => none

/-- The program of the ring, whose clients may go away. -/
def cancellable (g : Geometry) :
    Program (SuperTensorBuffer g ℕ) (Option (Pc g ℕ)) (Event g ℕ) Panic (Option Choice) :=
  (program (CounterOps.unbounded g)).droppable dropGetResult

/-- A ring with calls that may have been dropped. -/
abbrev CancellableWorld (g : Geometry) := World (SuperTensorBuffer g ℕ) (Option (Pc g ℕ)) (Event g ℕ)

/-- The worlds of a ring that `load_model` has warmed up `k` times and that is called from then on by clients
that may go away. -/
def CancellableRing (ok : RingGuard g ℕ) (k : ℕ)
    (inputTensors : Fin g.capacity → Fin g.numInputs → BatchableTensor g.batchSize) (v : CancellableWorld g) : Prop :=
  ∃ s, SuperTensorBuffer.warmups (CounterOps.unbounded g) k (.new (CounterOps.unbounded g) inputTensors) =
    some (.ok (), s) ∧ Reach (cancellable g) (Guard.droppable ok) (warmWorld k s).undropped v

/-- The steps of calls that nobody drops. -/
def kept (as : List (Action Choice)) : List (Action (Option Choice)) := as.map fun a => ⟨a.thread, some a.choice⟩

/-- The worlds that a list of actions leads to from a ring that has been warmed up, when the steps of the calls that
are left are all allowed by `allowed`. -/
def runCancellable (allowed : ℕ → SuperTensorBuffer g ℕ → Pc g ℕ → Choice → Bool) (k : ℕ)
    (inputTensors : Fin g.capacity → Fin g.numInputs → BatchableTensor g.batchSize)
    (as : List (Action (Option Choice))) : Option (CancellableWorld g) :=
  match SuperTensorBuffer.warmups (CounterOps.unbounded g) k (.new (CounterOps.unbounded g) inputTensors) with
  | some (.ok (), s) => (cancellable g).runIf (fun i s task given => match task, given with
    | some pc, some c => allowed i s pc c
    | _, _ => true) (warmWorld k s).undropped as
  | _ => none

/-- A run that is computed is a run. -/
theorem CancellableRing.of_runCancellable {ok : RingGuard g ℕ} {k : ℕ} {v : CancellableWorld g}
    {inputTensors : Fin g.capacity → Fin g.numInputs → BatchableTensor g.batchSize}
    {allowed : ℕ → SuperTensorBuffer g ℕ → Pc g ℕ → Choice → Bool} {as : List (Action (Option Choice))}
    (hok : ∀ i s pc c, allowed i s pc c = true → ok i s pc c)
    (h : runCancellable allowed k inputTensors as = some v) : CancellableRing ok k inputTensors v := by
  unfold runCancellable at h
  split at h
  · refine ⟨_, ‹_›, Reach.of_runIf (fun i s task given hallowed l c htask hgiven => ?_) h⟩
    subst htask hgiven
    exact hok i s l c hallowed
  · cases h

/-- A thread that no action names is idle. -/
theorem idle_of_runCancellable {k : ℕ} {v : CancellableWorld g}
    {inputTensors : Fin g.capacity → Fin g.numInputs → BatchableTensor g.batchSize}
    {allowed : ℕ → SuperTensorBuffer g ℕ → Pc g ℕ → Choice → Bool} {as : List (Action (Option Choice))}
    (h : runCancellable allowed k inputTensors as = some v) {i : ℕ} (hi : ∀ a ∈ as, a.thread ≠ i) :
    v.threads i = some .idle := by
  unfold runCancellable at h
  split at h
  · exact Program.runIf_threads h hi
  · cases h

/-! ### Who waits for a result -/

/-- The state of a batch but for who waits for its result. -/
def BatchState.forget (b : BatchState) : BatchState :=
  { b with responseReadyNotifier := { b.responseReadyNotifier with waiters := [], called := [] } }

/-- The buffer but for who waits for results. -/
def SuperTensorBuffer.forget (s : SuperTensorBuffer g ℕ) : SuperTensorBuffer g ℕ :=
  { s with states := fun x n => (s.states x n).forget }

/-- Nobody has been notified of a result alone. -/
def SuperTensorBuffer.CallsAll (s : SuperTensorBuffer g ℕ) : Prop :=
  ∀ x n, (s.states x n).responseReadyNotifier.Unfed

namespace SuperTensorBuffer

variable {s : SuperTensorBuffer g ℕ} {x : Fin g.capacity} {n : ℕ} {f f' : BatchState → BatchState}

/-- A write that leaves the cells for all as they are. -/
theorem CallsAll.modifyState (h : s.CallsAll)
    (hf : ∀ b, b.responseReadyNotifier.Unfed → (f b).responseReadyNotifier.Unfed) : (s.modifyState x n f).CallsAll := by
  intro y m
  rw [modifyState_states]
  split_ifs
  · exact hf _ (h x n)
  · exact h y m

/-- Two buffers that differ in their states show the same when these do. -/
theorem forget_congr {u u' : Fin g.capacity → ℕ → BatchState} (h : ∀ y m, (u y m).forget = (u' y m).forget) :
    ({ s with states := u } : SuperTensorBuffer g ℕ).forget =
      ({ s with states := u' } : SuperTensorBuffer g ℕ).forget := by
  unfold forget
  simp only [h]

/-- A write that forgets the same is forgotten the same. -/
theorem forget_modifyState (hf : (f (s.states x n)).forget = (f' (s.forget.states x n)).forget) :
    (s.modifyState x n f).forget = (s.forget.modifyState x n f').forget := by
  refine forget_congr (s := s) fun y m => ?_
  show ((s.modifyState x n f).states y m).forget = ((s.forget.modifyState x n f').states y m).forget
  rw [modifyState_states, modifyState_states]
  split_ifs
  · exact hf
  · rfl

/-- A write that only changes who waits is forgotten. -/
theorem forget_modifyState_self (hf : (f (s.states x n)).forget = (s.states x n).forget) :
    (s.modifyState x n f).forget = s.forget := by
  refine forget_congr (s := s) fun y m => ?_
  show ((s.modifyState x n f).states y m).forget = (s.states y m).forget
  rw [modifyState_states]
  split_ifs with hy
  · rw [hy.1, hy.2, hf]
  · rfl

/-- What two buffers have in common that differ in who waits for results. -/
structure Alike (s t : SuperTensorBuffer g ℕ) : Prop where
  head : s.head = t.head
  executorHead : s.executorHead = t.executorHead
  tail : s.tail = t.tail
  trackers : s.trackers = t.trackers
  inputTensors : s.inputTensors = t.inputTensors
  executorsInUse : s.executorsInUse = t.executorsInUse
  executorFullNotifier : s.executorFullNotifier = t.executorFullNotifier
  output : ∀ x n, (s.states x n).output = (t.states x n).output

/-- Buffers that differ in what is forgotten are alike. -/
theorem alike_of_forget {t : SuperTensorBuffer g ℕ} (h : s.forget = t.forget) : s.Alike t where
  head := show s.forget.head = t.forget.head by rw [h]
  executorHead := show s.forget.executorHead = t.forget.executorHead by rw [h]
  tail := show s.forget.tail = t.forget.tail by rw [h]
  trackers := show s.forget.trackers = t.forget.trackers by rw [h]
  inputTensors := show s.forget.inputTensors = t.forget.inputTensors by rw [h]
  executorsInUse := show s.forget.executorsInUse = t.forget.executorsInUse by rw [h]
  executorFullNotifier := show s.forget.executorFullNotifier = t.forget.executorFullNotifier by rw [h]
  output x n := show (s.forget.states x n).output = (t.forget.states x n).output by rw [h]

/-- Forgetting leaves the cells for all as they are. -/
theorem CallsAll.forget (h : s.CallsAll) : s.forget.CallsAll := fun x n => ⟨(h x n).permit, (h x n).woken⟩

end SuperTensorBuffer

/-- A poll of a cell for all changes what is forgotten only. -/
theorem BatchState.forget_poll {b : BatchState} (h : b.responseReadyNotifier.Unfed) (ticket tid : ℕ) :
    { b with responseReadyNotifier := (b.responseReadyNotifier.poll ticket tid).2 }.forget = b.forget := by
  have hpolled := h.poll_snd ticket tid
  unfold BatchState.forget
  simp only [Notify.poll_calls, hpolled.permit, hpolled.woken, h.permit, h.woken]

/-! ### Nobody looks at who waits -/

/-- What a step does, but for who waits for results. -/
def seen (r : StepResult g ℕ) : StepResult g ℕ := r.map SuperTensorBuffer.forget id id

section

variable (tid : ℕ) (s : SuperTensorBuffer g ℕ) (c : Choice)

/-- A write that does the same to what is not forgotten is seen as the same. -/
theorem seen_modifyState {x : Fin g.capacity} {n : ℕ} {f f' : BatchState → BatchState}
    (hf : (f (s.states x n)).forget = (f' (s.forget.states x n)).forget) (pc : Pc g ℕ) (e : Option (Event g ℕ)) :
    seen (.next (s.modifyState x n f) pc e) = seen (.next (s.forget.modifyState x n f') pc e) := by
  simp only [seen, Outcome.map, SuperTensorBuffer.forget_modifyState hf]

/-- A step of `infer` does not look at who waits for results. -/
theorem stepInfer_forget (request : Request) (phase : InferPhase ℕ) :
    seen (stepInfer (CounterOps.unbounded g) tid s request phase c) =
      seen (stepInfer (CounterOps.unbounded g) tid s.forget request phase c) := by
  cases phase with
  | loadHead => cases c <;> rfl
  | loadTail h =>
    cases c with
    | go =>
      simp only [stepInfer, show s.forget.tail = s.tail from rfl]
      split_ifs
      · rfl
      · split <;> rfl
    | _ => rfl
  | casHead h n =>
    cases c with
    | go =>
      simp only [stepInfer, show s.forget.head = s.head from rfl]
      split_ifs <;> rfl
    | _ => rfl

/-- A step of `insert_tensors_at` does not look at who waits for results. -/
theorem stepInsert_forget (ins : Insertion g ℕ) (phase : InsertPhase g) :
    seen (stepInsert (CounterOps.unbounded g) tid s ins phase c) =
      seen (stepInsert (CounterOps.unbounded g) tid s.forget ins phase c) := by
  cases phase with
  | copyInput i =>
    cases c with
    | go =>
      simp only [stepInsert, show s.forget.inputTensors = s.inputTensors from rfl]
      split_ifs with hi
      · generalize (s.inputTensors (ins.tracker (CounterOps.unbounded g)) ⟨i, hi⟩).copyInput
          ins.request.tensors i ins.inputStart (ins.inputEnd (CounterOps.unbounded g))
          (ins.batchSlot (CounterOps.unbounded g)) = copied
        cases copied <;> rfl
      · rfl
      · rfl
    | _ => rfl
  | setDeadline now =>
    cases c with
    | go =>
      simp only [stepInsert, show ∀ x, (s.forget.state x).deadline = (s.state x).deadline from fun _ => rfl]
      split_ifs
      · rfl
      · exact seen_modifyState s rfl _ _
    | _ => rfl
  | setQueueStart now =>
    cases c with
    | go =>
      simp only [stepInsert,
        show ∀ x, (s.forget.state x).executionTrace = (s.state x).executionTrace from fun _ => rfl]
      split_ifs
      · rfl
      · exact seen_modifyState s rfl _ _
    | _ => rfl
  | notifyExecutor r =>
    cases c with
    | go => exact seen_modifyState s rfl _ _
    | _ => rfl
  | push r =>
    cases c with
    | go =>
      simp only [stepInsert]
      split_ifs <;> rfl
    | _ => rfl
  | _ => cases c <;> rfl

/-- A step of `get_data` looks at the calls, not at who waits. -/
theorem stepGetData_forget (h : s.CallsAll) (col : Collection g) (phase : GetPhase) :
    seen (stepGetData tid s col phase c) = seen (stepGetData tid s.forget col phase c) := by
  cases phase with
  | createNotified =>
    cases c with
    | go =>
      simp only [stepGetData]
      split
      · split <;> rfl
      · rfl
    | _ => rfl
  | checkOutput ticket =>
    cases c with
    | go =>
      simp only [stepGetData, show ∀ x n, (s.forget.states x n).output = (s.states x n).output from fun _ _ => rfl]
      split
      · rfl
      · split
        · rfl
        · split <;> rfl
    | _ => rfl
  | awaitResponse ticket =>
    cases c with
    | go =>
      simp only [stepGetData]
      split
      · rfl
      · rename_i r rest hr
        have hunfed := h r.tracker r.responseReadyNotifier
        have hcalls : ((s.forget.states r.tracker r.responseReadyNotifier).responseReadyNotifier.poll ticket tid).1 =
            ((s.states r.tracker r.responseReadyNotifier).responseReadyNotifier.poll ticket tid).1 := by
          rw [hunfed.poll_fst, (h.forget r.tracker r.responseReadyNotifier).poll_fst]
          rfl
        rw [hcalls]
        refine congrArg (Outcome.next · _ _) ?_
        rw [SuperTensorBuffer.forget_modifyState_self (BatchState.forget_poll hunfed ticket tid),
          SuperTensorBuffer.forget_modifyState_self (BatchState.forget_poll (h.forget _ _) ticket tid)]
        rfl
    | _ => rfl
  | recordTrace =>
    cases c with
    | go =>
      simp only [stepGetData,
        show ∀ x n, (s.forget.states x n).executionTrace = (s.states x n).executionTrace from fun _ _ => rfl]
      split
      · rfl
      · split_ifs <;> rfl
    | _ => rfl

/-- A claim does not look at who waits for results. -/
theorem stepClaim_forget (phase : ClaimPhase ℕ) :
    seen (stepClaim (CounterOps.unbounded g) tid s phase c) =
      seen (stepClaim (CounterOps.unbounded g) tid s.forget phase c) := by
  cases phase with
  | casExecutorHead e =>
    cases c with
    | go =>
      simp only [stepClaim, show s.forget.executorHead = s.executorHead from rfl]
      split_ifs <;> rfl
    | _ => rfl
  | _ => cases c <;> rfl

/-- An execution does not look at who waits for results. -/
theorem stepExecute_forget (e : ℕ) (phase : ExecPhase ℕ) :
    seen (stepExecute (CounterOps.unbounded g) tid s e phase c) =
      seen (stepExecute (CounterOps.unbounded g) tid s.forget e phase c) := by
  cases phase with
  | firstWait n ticket =>
    cases c with
    | go => exact seen_modifyState s rfl _ _
    | _ => rfl
  | deadlineWait n ticket =>
    cases c with
    | go => exact seen_modifyState s rfl _ _
    | timeout => exact seen_modifyState s rfl _ _
    | _ => rfl
  | sealLoadHead =>
    cases c with
    | go =>
      simp only [stepExecute, show s.forget.head = s.head from rfl]
      split_ifs
      · split <;> rfl
      · rfl
    | _ => rfl
  | sealCasHead hd d =>
    cases c with
    | go =>
      simp only [stepExecute, show s.forget.head = s.head from rfl]
      split_ifs <;> rfl
    | _ => rfl
  | sealSpin d =>
    cases c with
    | go =>
      simp only [stepExecute, show s.forget.trackers = s.trackers from rfl]
      split_ifs <;> rfl
    | _ => rfl
  | setExecStart =>
    cases c with
    | clock now =>
      simp only [stepExecute,
        show ∀ x, (s.forget.state x).executionTrace = (s.state x).executionTrace from fun _ => rfl]
      split_ifs
      · rfl
      · exact seen_modifyState s rfl _ _
    | _ => rfl
  | setExecEnd items result =>
    cases c with
    | clock now =>
      simp only [stepExecute,
        show ∀ x, (s.forget.state x).executionTrace = (s.state x).executionTrace from fun _ => rfl]
      split_ifs
      · rfl
      · exact seen_modifyState s rfl _ _
    | _ => rfl
  | setOutput items result =>
    cases c with
    | go =>
      simp only [stepExecute, show ∀ x, (s.forget.state x).output = (s.state x).output from fun _ => rfl]
      split_ifs
      · rfl
      · exact seen_modifyState s rfl _ _
    | _ => rfl
  | notifyResponse items n =>
    cases c with
    | go => exact seen_modifyState s rfl _ _
    | _ => rfl
  | replaceState items =>
    cases c with
    | go =>
      have hnew : (s.modifyState (g.cell e) ((s.trackers (g.cell e)).generation + 1) fun _ => BatchState.new).forget =
          (s.forget.modifyState (g.cell e) ((s.trackers (g.cell e)).generation + 1) fun _ => BatchState.new).forget :=
        SuperTensorBuffer.forget_modifyState rfl
      have hreplaced := congrArg
        (fun t => t.modifyTracker (g.cell e) fun d => { d with generation := d.generation + 1 }) hnew
      exact congrArg (Outcome.next · _ _) hreplaced
    | _ => rfl
  | _ => cases c <;> rfl

/-- Moving the tail does not look at who waits for results. -/
theorem stepMoveTail_forget (items : ℕ) (phase : MovePhase ℕ) :
    seen (stepMoveTail (CounterOps.unbounded g) s items phase c) =
      seen (stepMoveTail (CounterOps.unbounded g) s.forget items phase c) := by
  cases phase with
  | casDirty t =>
    cases c with
    | go =>
      simp only [stepMoveTail, show s.forget.trackers = s.trackers from rfl]
      split_ifs <;> rfl
    | _ => rfl
  | casTail t =>
    cases c with
    | go =>
      simp only [stepMoveTail, show s.forget.tail = s.tail from rfl]
      split_ifs <;> rfl
    | _ => rfl
  | _ => cases c <;> rfl

/-- **A step does the same whoever waits for results.** -/
theorem program_forget (h : s.CallsAll) (pc : Pc g ℕ) :
    seen (program (CounterOps.unbounded g) tid s pc c) =
      seen (program (CounterOps.unbounded g) tid s.forget pc c) := by
  cases pc with
  | idle => cases c <;> rfl
  | infer request phase => exact stepInfer_forget tid s c request phase
  | insert ins phase => exact stepInsert_forget tid s c ins phase
  | getData col phase => exact stepGetData_forget tid s c h col phase
  | claim phase => exact stepClaim_forget tid s c phase
  | execute e phase => exact stepExecute_forget tid s c e phase
  | moveTail items phase => exact stepMoveTail_forget s c items phase

end

/-! ### Clients that only stop -/

/-- A step leaves the cells for all as they are. -/
theorem SuperTensorBuffer.CallsAll.step {i : ℕ} {s s' : SuperTensorBuffer g ℕ} {pc pc' : Pc g ℕ} {c : Choice}
    {e : Option (Event g ℕ)} (h : s.CallsAll) (hP : program (CounterOps.unbounded g) i s pc c = .next s' pc' e) :
    s'.CallsAll := by
  have ht := transition_of_next hP
  cases ht with
  | awaitResponse col ticket x n polled phase hp =>
    obtain ⟨x', n', hs'⟩ := shared_of_awaitResponse hP
    rw [hs']
    exact h.modifyState fun _ _ => (h x' n').poll_snd ticket i
  | notifyResponse e items n => exact h.modifyState fun b hb => ⟨hb.permit, hb.woken⟩
  | replaceState e items =>
    have hnew := h.modifyState (x := g.cell e) (n := (s.trackers (g.cell e)).generation + 1)
      (f := fun _ => BatchState.new) fun _ _ => ⟨rfl, rfl⟩
    exact hnew
  | _ => first
    | exact h
    | exact h.modifyState fun _ hb => hb

/-- Who is dropped waits for a result. -/
theorem dropGetResult_eq_some {tid : ℕ} {s s' : SuperTensorBuffer g ℕ} {pc : Pc g ℕ}
    (h : dropGetResult tid s pc = some s') : ∃ c ticket r rest, pc = .getData c (.awaitResponse ticket) ∧
      c.outputs = r :: rest ∧ s' = s.modifyState r.tracker r.responseReadyNotifier
        fun b => { b with responseReadyNotifier := b.responseReadyNotifier.cancel tid } := by
  unfold dropGetResult at h
  split at h
  · split at h
    · cases h
    · cases h
      exact ⟨_, _, _, _, rfl, ‹_›, rfl⟩
  · cases h

/-- **Nobody can tell that a client has gone away.** -/
theorem discreet : Discreet (program (CounterOps.unbounded g)) dropGetResult SuperTensorBuffer.forget
    SuperTensorBuffer.CallsAll where
  agree := by
    intro i s t pc c hs ht hview
    have hsame := program_forget i t c ht pc
    rw [← hview, ← program_forget i s c hs pc] at hsame
    exact hsame.symm
  kept hs hP := hs.step hP
  dropped := by
    intro i s pc s' hs hd
    obtain ⟨c, ticket, r, rest, -, -, rfl⟩ := dropGetResult_eq_some hd
    refine ⟨hs.modifyState fun b hb => ?_, SuperTensorBuffer.forget_modifyState_self ?_⟩
    · show (b.responseReadyNotifier.cancel i).Unfed
      rw [hb.cancel_eq]
      exact ⟨hb.permit, hb.woken⟩
    · simp only [BatchState.forget, (hs r.tracker r.responseReadyNotifier).cancel_eq]

section

variable {ok : RingGuard g ℕ} {k : ℕ} {v : CancellableWorld g}
  {inputTensors : Fin g.capacity → Fin g.numInputs → BatchableTensor g.batchSize}

/-- A condition that does not ask who waits for results. -/
def RingGuard.Blind (ok : RingGuard g ℕ) : Prop := ∀ i s t pc c, s.forget = t.forget → ok i s pc c → ok i t pc c

/-- Who is gone only waits where nobody is dropped. -/
theorem waiting_of_gone {w : RingWorld g ℕ} (h : Stopped dropGetResult SuperTensorBuffer.forget
    SuperTensorBuffer.CallsAll v w) {i : ℕ} (hi : v.threads i = none) :
    ∃ c ticket, w.threads i = .getData c (.awaitResponse ticket) := by
  obtain ⟨s, hs⟩ := h.gone i hi
  obtain ⟨s', hs'⟩ := Option.isSome_iff_exists.1 hs
  obtain ⟨c, ticket, -, -, hpc, -⟩ := dropGetResult_eq_some hs'
  exact ⟨c, ticket, hpc⟩

/-- That requests fit does not depend on who waits. -/
theorem blind_fits : RingGuard.Blind (Fits g) := by
  intro i s t pc c hview hfits request hd n hpc hc hh
  have halike := SuperTensorBuffer.alike_of_forget hview
  rw [← halike.tail]
  exact hfits request hd n hpc hc (halike.head.trans hh)

/-- There is a run in which those who were dropped have merely stopped. -/
theorem CancellableRing.stopped (hok : RingGuard.Blind ok) (h : CancellableRing ok k inputTensors v) :
    ∃ w, ServedRing ok k inputTensors w ∧
      Stopped dropGetResult SuperTensorBuffer.forget SuperTensorBuffer.CallsAll v w := by
  obtain ⟨s, hrun, hr⟩ := h
  have hwarm : s.CallsAll := fun x n => by
    rw [(warm_of_warmups hrun).1.states]
    exact ⟨rfl, rfl⟩
  obtain ⟨w, hw, hstopped⟩ := Reach.of_droppable discreet hok hwarm hr
  exact ⟨w, ⟨s, hrun, hw⟩, hstopped⟩

/-- **Clients that go away only stop.**  For every run in which calls are dropped there is one in which none is,
with the same events and, but for who waits for a result, the same buffer: the calls that are left are where they
are there, those that were dropped wait there for their results for good, and nothing panics but what
panics there. -/
theorem cancelled_only_stop (hok : RingGuard.Blind ok) (h : CancellableRing ok k inputTensors v) :
    ∃ w, ServedRing ok k inputTensors w ∧ w.log = v.log ∧ w.shared.forget = v.shared.forget ∧
      (∀ i pc, v.threads i = some pc → w.threads i = pc) ∧
      (∀ i, v.threads i = none → ∃ c ticket, w.threads i = .getData c (.awaitResponse ticket)) ∧
      ∀ i given site, (cancellable g).Panics v ⟨i, given⟩ site →
        ∃ c, given = some c ∧ (program (CounterOps.unbounded g)).Panics w ⟨i, c⟩ site := by
  obtain ⟨w, hw, hstopped⟩ := h.stopped hok
  refine ⟨w, hw, hstopped.log.symm, hstopped.shared.symm, hstopped.thread, fun i hi => waiting_of_gone hstopped hi,
    fun i given site hpan => ?_⟩
  obtain ⟨pc, c, hi, rfl⟩ := Stopped.exists_choice_of_panics hpan
  exact ⟨c, rfl, (hstopped.panics_iff discreet hi).1 hpan⟩

/-- A client takes its row, counts it, waits for its result and goes away; its row is executed all the same. -/
def goneWhileWaiting : List (Action (Option Choice)) :=
  kept (reserve 2 byteRequest ++ insertRow 2 ++ go 2 3) ++ ⟨2, none⟩ :: kept (claimBatch 0 ++ runBatch 0 ++ go 0 9)

/-- A client waits and is dropped. -/
theorem cancelled_only_stop_twoByOne :
    ∃ (v : CancellableWorld twoByOne) (w : RingWorld twoByOne ℕ), v.threads 2 = none ∧ w.log = v.log ∧
      ∃ c ticket, w.threads 2 = .getData c (.awaitResponse ticket) := by
  have hrun : (runCancellable (fits twoByOne) 3 (fun _ _ => byteTensor 1) goneWhileWaiting).map
      (fun v => (v.threads 2).isNone) = some true := by decide +kernel
  obtain ⟨v, hrun, hv⟩ := Option.map_eq_some_iff.1 hrun
  have hgone := Option.isNone_iff_eq_none.1 hv
  obtain ⟨w, -, hlog, -, -, hstays, -⟩ := cancelled_only_stop blind_fits
    (CancellableRing.of_runCancellable (fun _ _ _ _ => fits_spec) hrun)
  exact ⟨v, w, hgone, hlog, hstays 2 hgone⟩

/-! ### The accounts -/

/-- What a call has in hand of a batch it has executed. -/
def Task.items : Option (Pc g ℕ) → ℕ
  | some pc => pc.items
  | none => 0

/-- **The accounts of a ring whose clients go away.**  Where accepted requests fit: rows that were taken belong to
one request and one batch, whether its client is still there or not; `f` is called at most once on a batch in a lap,
and exactly once where a result is seen; a sealed batch has all its rows copied; and the rows that were counted
are those in the batch sizes that were returned, those the trackers count and those executors have in hand. -/
theorem accounts_of_cancelled (h : CancellableRing (Fits g) k inputTensors v) :
    RowsOwned v.log ∧ ExecutedOnce v.shared v.log ∧ v.shared.head ≤ v.shared.tail + g.slots ∧
      (∀ p, Reached v.log p .sealed → p + g.batchSize ≤ v.shared.head ∧
        ∀ q, p ≤ q → q < p + g.batchSize → q ∈ reservedRows v.log → ∀ i < g.numInputs, q ∈ copiedRows i v.log) ∧
      (countedRows v.log).ncard = executedItems v.log + v.shared.pendingRows + census Task.items v.threads ∧
      census Task.items v.threads ≤ v.shared.executorsInUse * g.batchSize := by
  obtain ⟨w, hw, hstopped⟩ := h.stopped blind_fits
  have halike := SuperTensorBuffer.alike_of_forget hstopped.shared
  have hall := (responding_of_served hw).shared
  have howned := rowsOwned_of_responding hall
  have hexecuted := executedOnce_of_responding hall
  have hsealed := fun p => copied_of_sealed (p := p) hall
  have hle := hw.head_le
  have hbalance := (countedRows_balance hw).2
  have hinUse := items_le_inUse hw
  have hpending : w.shared.pendingRows = v.shared.pendingRows := by
    unfold SuperTensorBuffer.pendingRows
    rw [← halike.trackers]
  -- a client has no batch in hand, whether it is still there or not
  have hitems : ∀ i, (w.threads i).items = Task.items (v.threads i) := fun i => by
    cases hi : v.threads i with
    | some pc => rw [hstopped.thread i pc hi, Task.items]
    | none =>
      obtain ⟨c, ticket, hpc⟩ := waiting_of_gone hstopped hi
      rw [hpc]
      rfl
  have hcensus : census Pc.items w.threads = census Task.items v.threads := finsum_congr hitems
  rw [← hstopped.log] at howned hexecuted hsealed hbalance
  rw [← halike.head] at hle hsealed
  refine ⟨howned, ⟨hexecuted.invoked, fun x n result hout => ?_⟩, halike.tail ▸ hle, hsealed, ?_, ?_⟩
  · exact hexecuted.output x n result ((halike.output x n).symm.trans hout)
  · rw [hbalance, hpending, hcensus]
  · rw [← hcensus, halike.executorsInUse]
    exact hinUse

/-- The row of a client that was dropped is executed. -/
theorem accounts_of_cancelled_twoByOne :
    ∃ v : CancellableWorld twoByOne, v.threads 2 = none ∧ executedItems v.log = 1 ∧
      (countedRows v.log).ncard = executedItems v.log + v.shared.pendingRows + census Task.items v.threads := by
  have hrun : (runCancellable (fits twoByOne) 3 (fun _ _ => byteTensor 1) goneWhileWaiting).map
      (fun v => ((v.threads 2).isNone, executedItems v.log)) = some (true, 1) := by decide +kernel
  obtain ⟨v, hrun, hv⟩ := Option.map_eq_some_iff.1 hrun
  obtain ⟨hgone, hitems⟩ := Prod.mk.inj hv
  obtain ⟨-, -, -, -, hbalance, -⟩ := accounts_of_cancelled
    (CancellableRing.of_runCancellable (fun _ _ _ _ => fits_spec) hrun)
  exact ⟨v, Option.isNone_iff_eq_none.1 hgone, hitems, hbalance⟩

end

/-! ### When nothing moves -/

/-- Nobody who is left in a call can do anything. -/
def HungTasks (v : CancellableWorld g) : Prop := ∀ i pc, v.threads i = some pc → pc ≠ .idle → ∀ c,
  (∀ site, ¬ (cancellable g).Panics v ⟨i, some c⟩ site) ∧
    ∀ v', (cancellable g).step v ⟨i, some c⟩ = some v' → v'.threads i = some pc

/-- Where everybody waits, the tasks hang. -/
theorem HungTasks.of_waits {v : CancellableWorld g}
    (h : ∀ i pc, v.threads i = some pc → pc ≠ .idle → pc.Waits v.shared i) : HungTasks v := by
  intro i pc hi hidle c
  obtain ⟨hpanic, hstill⟩ := (h i pc hi hidle).still c
  refine ⟨fun site hpan => ?_, fun v' hs => ?_⟩
  · unfold Program.Panics cancellable at hpan
    rw [hi, Program.droppable_some, Outcome.map_eq_panicked] at hpan
    exact hpanic site hpan
  · obtain ⟨e, hv, -⟩ := Program.next_of_step hs
    unfold cancellable at hv
    rw [hi, Program.droppable_some] at hv
    obtain ⟨s, pc', e', hP, -, hpc, -⟩ := Outcome.map_eq_next.1 hv
    rw [← hpc, hstill s pc' e' hP]

/-- If they only had stopped, the others could not do anything either. -/
theorem HungTasks.hungBut {v : CancellableWorld g} {w : RingWorld g ℕ} (hung : HungTasks v)
    (h : Stopped dropGetResult SuperTensorBuffer.forget SuperTensorBuffer.CallsAll v w) :
    HungBut {i | v.threads i = none} w where
  stuck i hi hidle c := by
    obtain ⟨pc, hpc⟩ := Option.ne_none_iff_exists'.1 hi
    have hthread := h.thread i pc hpc
    obtain ⟨hpanic, hstill⟩ := hung i pc hpc (hthread ▸ hidle) c
    refine ⟨fun site hpan => hpanic site ((h.panics_iff discreet hpc).2 hpan), fun w' hs => ?_⟩
    obtain ⟨v', hv', hmoved⟩ := h.step discreet hpc hs
    rw [hthread]
    exact Option.some.inj (hmoved.symm.trans (hstill v' hv'))
  waiting _ hi := waiting_of_gone h hi

/-- That requests are admitted does not depend on who waits. -/
theorem blind_admitted : RingGuard.Blind (Admitted g) := by
  intro i s t pc c hview hok
  refine ⟨blind_fits i s t pc c hview hok.1, fun ins k e hpc hk herr => hok.2 ins k e hpc hk ?_⟩
  have halike := SuperTensorBuffer.alike_of_forget hview
  unfold Insertion.copy at herr ⊢
  rw [halike.inputTensors]
  exact herr

/-- **Clients that go away do not make a ring hang.**  In a run whose accepted requests fit and whose copies succeed,
when nobody who is left in a call can do anything: every client that is left waits for a batch that no executor has
claimed, and if there is one, every executor waits for room although there is some. -/
theorem cancelled_hung_only_by_lost_wakeup {k : ℕ} {v : CancellableWorld g}
    {inputTensors : Fin g.capacity → Fin g.numInputs → BatchableTensor g.batchSize}
    (h : CancellableRing (Admitted g) k inputTensors v) (hung : HungTasks v) :
    (∀ i pc, v.threads i = some pc → pc.isClient = true → ∃ c r rest ticket,
      pc = .getData c (.awaitResponse ticket) ∧ c.outputs = r :: rest ∧
        v.shared.executorHead ≤ g.start r.tracker r.output) ∧
    ∀ i pc, v.threads i = some pc → pc.isClient = true → ∀ j pc', v.threads j = some pc' → pc'.isExecutor = true →
      (∃ ticket, pc' = .claim (.awaitFull ticket) ∧ (v.shared.executorFullNotifier.poll ticket j).1 = false) ∧
        v.shared.executorHead - v.shared.tail < g.slots := by
  obtain ⟨w, hw, hstopped⟩ := h.stopped blind_admitted
  have hbut := hung.hungBut hstopped
  have halike := SuperTensorBuffer.alike_of_forget hstopped.shared
  have hleft : ∀ {i pc}, v.threads i = some pc → i ∉ {i | v.threads i = none} := fun hi hnone => by
    cases hi.symm.trans hnone
  refine ⟨fun i pc hi hclient => ?_, fun i pc hi hclient j pc' hj hexecutor => ?_⟩
  · rw [← hstopped.thread i pc hi] at hclient ⊢
    obtain ⟨c, r, rest, ticket, hpc, hr, hle, -⟩ := unclaimed_of_hung hw hbut (hleft hi) hclient
    exact ⟨c, r, rest, ticket, hpc, hr, halike.executorHead ▸ hle⟩
  · rw [← hstopped.thread i pc hi] at hclient
    rw [← hstopped.thread j pc' hj] at hexecutor ⊢
    obtain ⟨⟨ticket, hpc, hpoll⟩, -, -, hroom⟩ := parked_of_hung hw hbut (hleft hi) hclient hexecutor
    rw [halike.executorFullNotifier, halike.executorHead, halike.tail]
    exact ⟨⟨ticket, hpc, hpoll⟩, hroom⟩

/-- As `sleepsThrough`, where the first client goes away before its row is executed, and another one comes. -/
def goneAndSleeping : List (Action (Option Choice)) :=
  kept (claimBatch 0 ++ ⟨4, .executeOnBatch⟩ :: go 4 2 ++ reserve 2 byteRequest ++ insertRow 2 ++ go 2 3) ++
    ⟨2, none⟩ :: kept (runBatch 0 ++ go 0 9 ++ go 4 2 ++ reserve 3 byteRequest ++ insertRow 3 ++ go 3 2)

/-- A lost wake-up in a run with a client that was dropped. -/
theorem cancelled_hung_only_by_lost_wakeup_twoByOne :
    ∃ v : CancellableWorld twoByOne, v.threads 2 = none ∧
      ∃ pc ticket, v.threads 4 = some pc ∧ pc = .claim (.awaitFull ticket) ∧
        v.shared.executorHead - v.shared.tail < twoByOne.slots := by
  have hrun : (runCancellable (admitted twoByOne) 3 (fun _ _ => byteTensor 1) goneAndSleeping).map (fun v =>
      ((v.threads 2).isNone, (v.threads 3).any Pc.isClient, (v.threads 4).any Pc.isExecutor,
        (List.range 5).all fun i => (v.threads i).all fun pc =>
          !pc.isClient && !pc.isExecutor || pc.waitsNow v.shared i)) = some (true, true, true, true) := by
    decide +kernel
  obtain ⟨v, hrun, hv⟩ := Option.map_eq_some_iff.1 hrun
  obtain ⟨hgone, hv⟩ := Prod.mk.inj hv
  obtain ⟨hclient, hv⟩ := Prod.mk.inj hv
  obtain ⟨hexecutor, hall⟩ := Prod.mk.inj hv
  obtain ⟨pc₃, h₃, hclient⟩ := (Option.any_eq_true _ _).1 hclient
  obtain ⟨pc₄, h₄, hexecutor⟩ := (Option.any_eq_true _ _).1 hexecutor
  have hung : HungTasks v := HungTasks.of_waits fun i pc hi hidle => by
    rcases Nat.lt_or_ge i 5 with hlt | hge
    · have hthread := List.all_eq_true.1 hall i (List.mem_range.2 hlt)
      rw [hi, Option.all_some] at hthread
      rcases Bool.or_eq_true_iff.1 hthread with hnone | hwaits
      · obtain ⟨hnot, hnot'⟩ := Bool.and_eq_true_iff.1 hnone
        exact absurd (Pc.eq_idle (Bool.not_eq_true' _ ▸ hnot) (Bool.not_eq_true' _ ▸ hnot')) hidle
      · exact Pc.waits_of_waitsNow hwaits
    · have hrest := idle_of_runCancellable hrun (i := i) fun a ha heq => by
        have hnamed : goneAndSleeping.all (fun a => a.thread < 5) = true := by decide +kernel
        have hlt := of_decide_eq_true (List.all_eq_true.1 hnamed a ha)
        omega
      exact absurd (Option.some.inj (hi.symm.trans hrest)) hidle
  obtain ⟨-, hparked⟩ := cancelled_hung_only_by_lost_wakeup
    (CancellableRing.of_runCancellable (fun _ _ _ _ => admitted_spec) hrun) hung
  obtain ⟨⟨ticket, hpc, -⟩, hroom⟩ := hparked 3 pc₃ h₃ hclient 4 pc₄ h₄ hexecutor
  exact ⟨v, Option.isNone_iff_eq_none.1 hgone, pc₄, ticket, h₄, hpc, hroom⟩

end Toutates
