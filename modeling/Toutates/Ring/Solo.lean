/-
# Whole calls are runs

The calls of `Toutates.Ring.Sequential` and the steps of `Toutates.Ring.Machine` are the same
code, once from the first line to the last and once between two accesses.  Where a call comes to
an end, the thread that makes it gets there by itself: to the place behind the call, with the
buffer that the call leaves, or to the panic of the call (`Plays`).
-/

import Toutates.Basis.Solo
import Toutates.Ring.Occupancy
import Toutates.Ring.Completion

namespace Toutates

open Basis

variable {g : Geometry} {β γ : Type} {i : ℕ}

/-- A thread by itself gets from `pc` to what a call returns. -/
def Plays (i : ℕ) (pc : Pc g ℕ) (s : SuperTensorBuffer g ℕ) (ret : β → Pc g ℕ) :
    Option (Attempt InferError β × SuperTensorBuffer g ℕ) → Prop
  | none => True
  | some (.ok b, s') => (program (CounterOps.unbounded g)).Solo (Fits g) i (pc, s) (ret b, s')
  | some (.err _, s') => (program (CounterOps.unbounded g)).Solo (Fits g) i (pc, s) (.idle, s')
  | some (.panicked site, s') => ∃ pc' c, (program (CounterOps.unbounded g)).Solo (Fits g) i (pc, s) (pc', s') ∧
      program (CounterOps.unbounded g) i s' pc' c = .panicked site

namespace Plays

variable {pc pc₁ : Pc g ℕ} {s s₁ : SuperTensorBuffer g ℕ} {ret : β → Pc g ℕ}
  {r : Option (Attempt InferError β × SuperTensorBuffer g ℕ)}

/-- Nothing left to do. -/
theorem done {b : β} : Plays i (ret b) s ret (some (.ok b, s)) := Program.Solo.refl

/-- Steps by oneself before a call. -/
theorem trans (h : (program (CounterOps.unbounded g)).Solo (Fits g) i (pc, s) (pc₁, s₁))
    (hr : Plays i pc₁ s₁ ret r) : Plays i pc s ret r := by
  match r, hr with
  | none, _ => exact True.intro
  | some (.ok b, s'), hr => exact h.trans hr
  | some (.err e, s'), hr => exact h.trans hr
  | some (.panicked site, s'), hr =>
    obtain ⟨pc', c, hr, hP⟩ := hr
    exact ⟨pc', c, h.trans hr, hP⟩

/-- One step, and the rest of the call. -/
theorem step (c : Choice) {e : Option (Event g ℕ)}
    (hP : program (CounterOps.unbounded g) i s pc c = .next s₁ pc₁ e) (hfit : fits g i s pc c = true)
    (hr : Plays i pc₁ s₁ ret r) : Plays i pc s ret r :=
  trans (.head (fits_spec hfit) hP .refl) hr

/-- A step that panics plays a call that panics. -/
theorem panicked (c : Choice) {site : Panic}
    (hP : program (CounterOps.unbounded g) i s pc c = .panicked site) :
    Plays i pc s ret (some (.panicked site, s)) :=
  ⟨pc, c, .refl, hP⟩

/-- One call after the other. -/
theorem bind {call : Call g ℕ β} {f : β → Call g ℕ γ} {ret' : γ → Pc g ℕ} (h : Plays i pc s ret (call s))
    (hf : ∀ b s', call s = some (.ok b, s') → Plays i (ret b) s' ret' (f b s')) :
    Plays i pc s ret' ((call >>= f) s) := by
  have hbind : (call >>= f) s = Call.bind call f s := rfl
  rw [hbind, Call.bind]
  cases hc : call s with
  | none => exact True.intro
  | some r =>
    rw [hc] at h
    obtain ⟨a, s'⟩ := r
    cases a with
    | panicked site => exact h
    | err e => exact h
    | ok b => exact trans h (hf b s' hc)

/-- A step that fails plays a call that fails. -/
theorem failed {s₁ : SuperTensorBuffer g ℕ} (c : Choice) {error : InferError} {e : Option (Event g ℕ)}
    (hP : program (CounterOps.unbounded g) i s pc c = .next s₁ .idle e) (hfit : fits g i s pc c = true) :
    Plays i pc s ret (some (.err error, s₁)) :=
  .head (fits_spec hfit) hP .refl

/-- **A call that a thread of a run makes by itself is a part of a run**: when it returns, the
thread is behind it, or back to nothing if it failed, and the others are where they were. -/
theorem runs {w : RingWorld g ℕ} {a : Attempt InferError β} {s' : SuperTensorBuffer g ℕ}
    (hw : Runs (CounterOps.unbounded g) (Fits g) w) (h : Plays i (w.threads i) w.shared ret (some (a, s')))
    (ha : ∀ site, a ≠ .panicked site) : ∃ w', Runs (CounterOps.unbounded g) (Fits g) w' ∧ w'.shared = s' ∧
      (w'.threads i = .idle ∨ ∃ b, w'.threads i = ret b) ∧ ∀ j, j ≠ i → w'.threads j = w.threads j := by
  cases a with
  | ok b =>
    obtain ⟨w', hreach, hpc, hs', hothers⟩ := Program.Solo.reach h
    exact ⟨w', hw.reach hreach, hs', .inr ⟨b, hpc⟩, hothers⟩
  | err e =>
    obtain ⟨w', hreach, hpc, hs', hothers⟩ := Program.Solo.reach h
    exact ⟨w', hw.reach hreach, hs', .inl hpc, hothers⟩
  | panicked site => exact absurd rfl (ha site)

end Plays

section Infer

variable {s : SuperTensorBuffer g ℕ} {ins : Insertion g ℕ} {now : Instant}

/-- The steps of the copies do what the copies do. -/
theorem plays_copyInputs {is : List (Fin g.numInputs)} {k : ℕ} (hk : k ≤ g.numInputs)
    (his : (List.finRange g.numInputs).drop k = is) :
    Plays i (.insert ins (.copyInput k)) s (fun _ : Unit => .insert ins (.copyInput g.numInputs))
      (SuperTensorBuffer.copyInputs (CounterOps.unbounded g) ins is s) := by
  induction is generalizing k s with
  | nil =>
    have hlen := congrArg List.length his
    rw [List.length_drop, List.length_finRange, List.length_nil] at hlen
    obtain rfl : k = g.numInputs := by omega
    exact .done
  | cons j is ih =>
    have hlt : k < g.numInputs := by
      have hlen := congrArg List.length his
      rw [List.length_drop, List.length_finRange, List.length_cons] at hlen
      omega
    rw [List.drop_eq_getElem_cons (by rwa [List.length_finRange]), List.getElem_finRange] at his
    obtain ⟨hj, hrest⟩ := List.cons.inj his
    obtain rfl : j.val = k := (congrArg Fin.val hj).symm
    rw [SuperTensorBuffer.copyInputs, Call.read_bind_apply]
    have hP : program (CounterOps.unbounded g) i s (.insert ins (.copyInput j)) .go =
        stepInsert (CounterOps.unbounded g) i s ins (.copyInput j) .go := rfl
    simp only [stepInsert, j.isLt, dite_true] at hP
    cases hc : (s.inputTensors (ins.tracker (CounterOps.unbounded g)) j).copyInput ins.request.tensors j
      ins.inputStart (ins.inputEnd (CounterOps.unbounded g)) (ins.batchSlot (CounterOps.unbounded g)) with
    | panicked site =>
      simp only [hc] at hP
      exact .panicked .go hP
    | err e =>
      simp only [hc] at hP
      exact .failed .go hP rfl
    | ok t =>
      simp only [hc] at hP
      exact .step .go hP rfl (ih hlt hrest)

/-- The steps that open a batch do what opening it does. -/
theorem plays_openBatch :
    Plays i (.insert ins .storeDirty) s (fun _ : Unit => .insert ins .cloneOutput)
      (SuperTensorBuffer.openBatch (ins.tracker (CounterOps.unbounded g)) now s) := by
  refine .step (.clock now) rfl rfl ?_
  rw [SuperTensorBuffer.openBatch, Call.modify_bind_apply, Call.read_bind_apply]
  generalize s.modifyTracker (ins.tracker (CounterOps.unbounded g)) (fun d => { d with dirty := 1 }) = s₁
  by_cases hd : (s₁.state (ins.tracker (CounterOps.unbounded g))).deadline.isSome = true
  · rw [Call.expect_bind_of_false (by rw [Option.isNone_eq_false_iff, hd])]
    exact .panicked .go (if_pos hd)
  rw [Call.expect_bind_of_true (by rwa [Option.isNone_iff_eq_none, ← Option.not_isSome_iff_eq_none]),
    Call.modify_bind_apply, Call.read_bind_apply]
  refine .step .go (if_neg hd) rfl ?_
  generalize s₁.modifyState (ins.tracker (CounterOps.unbounded g))
    (s₁.trackers (ins.tracker (CounterOps.unbounded g))).generation
    (fun b => { b with deadline := some (now + 2) }) = s₂
  by_cases hq : (s₂.state (ins.tracker (CounterOps.unbounded g))).executionTrace.queueStart.isSome = true
  · rw [Call.expect_bind_of_false (by rw [Option.isNone_eq_false_iff, hq])]
    exact .panicked .go (if_pos hq)
  rw [Call.expect_bind_of_true (by rwa [Option.isNone_iff_eq_none, ← Option.not_isSome_iff_eq_none]),
    Call.modify_apply]
  exact .step .go (if_neg hq) rfl .done

/-- The steps that count rows do what counting them does. -/
theorem plays_reserveSlots :
    Plays i (.insert ins .cloneOutput) s (fun r => .insert ins (.push r))
      (SuperTensorBuffer.reserveSlots (CounterOps.unbounded g) ins s) := by
  refine .step .go rfl rfl (.step .go rfl rfl (.step .go rfl rfl (.step .go rfl rfl ?_)))
  rw [SuperTensorBuffer.reserveSlots, Call.read_bind_apply]
  simp only [Call.modify_bind_apply]
  have hgen := s.modifyTracker_generation (ins.tracker (CounterOps.unbounded g))
    (f := fun d => { d with writtenSlots := d.writtenSlots +
      (ins.slotEnd (CounterOps.unbounded g) - ins.batchSlot (CounterOps.unbounded g)) }) (fun _ => rfl)
    (ins.tracker (CounterOps.unbounded g))
  generalize s.modifyTracker (ins.tracker (CounterOps.unbounded g)) (fun d => { d with writtenSlots :=
    d.writtenSlots + (ins.slotEnd (CounterOps.unbounded g) - ins.batchSlot (CounterOps.unbounded g)) }) = s₁ at hgen
  by_cases hn : ins.batchSlot (CounterOps.unbounded g) = 0 ∨ ins.slotEnd (CounterOps.unbounded g) = g.batchSize
  · rw [if_pos hn, Call.bind_of_ok (Call.when_of_pos hn), ← hgen]
    exact .step .go rfl rfl .done
  · rw [if_neg hn, Call.bind_of_ok (Call.when_of_neg hn)]
    exact .done

/-- The steps of `insert_tensors_at` do what the call does. -/
theorem plays_insertTensorsAt :
    Plays i (.insert ins (.copyInput 0)) s (fun r => .insert ins (.push r))
      (SuperTensorBuffer.insertTensorsAt (CounterOps.unbounded g) now ins s) := by
  refine .bind (plays_copyInputs (Nat.zero_le _) List.drop_zero) fun _ s₁ _ => ?_
  have hP : program (CounterOps.unbounded g) i s₁ (.insert ins (.copyInput g.numInputs)) .go =
      .next s₁ (.insert ins (if ins.batchSlot (CounterOps.unbounded g) = 0 then .storeDirty else .cloneOutput))
        none := by
    simp only [program, stepInsert, lt_irrefl, dite_false]
  by_cases hslot : ins.batchSlot (CounterOps.unbounded g) = 0
  · rw [if_pos hslot] at hP
    have hopen : Plays i (.insert ins .storeDirty) s₁ (fun _ : Unit => .insert ins .cloneOutput)
        (Call.when (ins.batchSlot (CounterOps.unbounded g) = 0)
          (SuperTensorBuffer.openBatch (ins.tracker (CounterOps.unbounded g)) now) s₁) := by
      rw [Call.when_of_pos hslot]
      exact plays_openBatch
    exact .step .go hP rfl (hopen.bind fun _ s₂ _ => plays_reserveSlots)
  · rw [if_neg hslot] at hP
    rw [Call.bind_of_ok (Call.when_of_neg hslot)]
    exact .step .go hP rfl plays_reserveSlots

/-- The steps of all pieces do what inserting them does. -/
theorem plays_insertAll {clock : ℕ → Instant} {k : ℕ} :
    Plays i (.insert ins (.copyInput 0)) s (fun response => .getData ⟨response, [], none⟩ .createNotified)
      (SuperTensorBuffer.insertAll (CounterOps.unbounded g) clock k ins s) := by
  induction k generalizing ins s with
  | zero => exact True.intro
  | succ k ih =>
    refine .bind plays_insertTensorsAt fun r s₁ _ => ?_
    by_cases hlast : ins.clientBatchSize - ins.toWrite (CounterOps.unbounded g) = 0
    · rw [if_pos hlast]
      exact .step .go (if_pos hlast) rfl .done
    · rw [if_neg hlast]
      exact .step .go (if_neg hlast) rfl ih

/-- **A call of `infer` whose rows fit is a run of its thread.** -/
theorem plays_infer {clock : ℕ → Instant} {request : Request}
    (hfit : ∀ n, request.clientBatchSize = .ok n → s.head + n ≤ s.tail + g.slots) :
    Plays i .idle s (fun response => .getData ⟨response, [], none⟩ .createNotified)
      (SuperTensorBuffer.infer (CounterOps.unbounded g) clock request s) := by
  refine .step (.infer request) rfl rfl (.step .go rfl rfl ?_)
  rw [SuperTensorBuffer.infer, Call.read_bind_apply]
  have hP : program (CounterOps.unbounded g) i s (.infer request (.loadTail s.head)) .go =
      stepInfer (CounterOps.unbounded g) i s request (.loadTail s.head) .go := rfl
  rw [stepInfer] at hP
  split_ifs at hP ⊢ with hfull
  · exact .failed .go hP rfl
  cases hn : request.clientBatchSize with
  | error site =>
    simp only [hn] at hP
    exact .panicked .go hP
  | ok n =>
    simp only [hn] at hP
    have hfits : fits g i s (.infer request (.casHead s.head n)) .go = true := by
      simpa only [fits, bne_self_eq_false, Bool.false_or, decide_eq_true_eq] using hfit n hn
    exact .step .go hP rfl (.step .go (if_pos rfl) hfits plays_insertAll)

end Infer

section GetData

variable {s : SuperTensorBuffer g ℕ} {data : List (List UInt8)}
  {metadatas : Option (List Metadata × Fin g.capacity × ℕ)}

/-- Behind the last reservation the trace of the first is recorded. -/
theorem plays_recordTrace : Plays i (.getData ⟨[], data, metadatas⟩ .createNotified) s
    (fun _ : List (List UInt8) × List Metadata => .idle) (SuperTensorBuffer.getDataFrom [] data metadatas s) := by
  cases metadatas with
  | none => exact .panicked .go rfl
  | some m =>
    obtain ⟨metadatas, x, n⟩ := m
    refine .step .go rfl rfl ?_
    rw [SuperTensorBuffer.getDataFrom, Call.read_bind_apply]
    by_cases htimes : (s.states x n).executionTrace.execStart.isSome ∧ (s.states x n).executionTrace.execEnd.isSome
    · rw [Call.expect_bind_of_true (by rw [Bool.and_eq_true]; exact htimes)]
      exact .step .go (if_pos htimes) rfl Program.Solo.refl
    · rw [Call.expect_bind_of_false (by rw [← Bool.not_eq_true, Bool.and_eq_true]; exact htimes)]
      exact .panicked .go (if_neg htimes)

/-- **A call of `get_data` whose cells are set is a run of its thread.** -/
theorem plays_getData {response : List (WriteReservation g)} :
    Plays i (.getData ⟨response, data, metadatas⟩ .createNotified) s
      (fun _ : List (List UInt8) × List Metadata => .idle)
      (SuperTensorBuffer.getDataFrom response data metadatas s) := by
  induction response generalizing data metadatas with
  | nil => exact plays_recordTrace
  | cons r rest ih =>
    refine .step .go rfl rfl ?_
    have hP : program (CounterOps.unbounded g) i s (.getData ⟨r :: rest, data, metadatas⟩ (.checkOutput
        (s.states r.tracker r.responseReadyNotifier).responseReadyNotifier.notified)) .go =
      stepGetData i s ⟨r :: rest, data, metadatas⟩ (.checkOutput
        (s.states r.tracker r.responseReadyNotifier).responseReadyNotifier.notified) .go := rfl
    cases hout : (s.states r.tracker r.output).output with
    | none =>
      rw [SuperTensorBuffer.getDataFrom, Call.read_bind_apply]
      simp only [hout]
      exact True.intro
    | some result =>
      rw [SuperTensorBuffer.getDataFrom_cons hout]
      cases hstep : getDataStep r.start r.stop result data (metadatas.map Prod.fst) with
      | panicked site =>
        simp only [stepGetData, hout, hstep] at hP
        exact .panicked .go hP
      | err e =>
        simp only [stepGetData, hout, hstep] at hP
        exact .failed .go hP rfl
      | ok step =>
        simp only [stepGetData, hout, hstep] at hP
        exact .step .go hP rfl ih

end GetData

section Execute

variable {s : SuperTensorBuffer g ℕ} {e items : ℕ}

/-- The steps of the loop of `move_tail_to_next_non_dirty_buffer` do what the loop does. -/
theorem plays_moveTailLoop {k : ℕ} :
    Plays i (.moveTail items .loadTail) s (fun _ : Unit => .moveTail items .leave)
      (SuperTensorBuffer.moveTailLoop (CounterOps.unbounded g) k s) := by
  induction k generalizing s with
  | zero => exact True.intro
  | succ k ih =>
    rw [SuperTensorBuffer.moveTailLoop, Call.read_bind_apply]
    refine .step .go rfl rfl (.step .go rfl rfl ?_)
    split_ifs with hstop hd
    · exact .done
    · have hloaded : program (CounterOps.unbounded g) i s (.moveTail items (.loadDirty s.tail)) .go =
          .next s (.moveTail items (.casDirty s.tail)) none := by
        simp only [program, stepMoveTail, hd, if_true]
      exact .step .go hloaded rfl (.step .go (if_pos hd) rfl (.step .go (if_pos rfl) rfl (.step .go rfl rfl ih)))
    · have hloaded : program (CounterOps.unbounded g) i s (.moveTail items (.loadDirty s.tail)) .go =
          .next s (.moveTail items .leave) none := by
        simp only [program, stepMoveTail, hd, if_false]
      exact .step .go hloaded rfl .done

/-- The step of `reset_batch` does what the call does. -/
theorem plays_resetBatch :
    Plays i (.execute e (.replaceState items)) s (fun _ : Unit => .moveTail items .loadTail)
      (SuperTensorBuffer.resetBatch ((CounterOps.unbounded g).batchId e) s) :=
  .step .go rfl rfl (.step .go rfl rfl (.step .go rfl rfl .done))

/-- **A reset and a whole walk of the tail are a run of the thread that finishes its batch.** -/
theorem plays_complete :
    Plays i (.execute e (.replaceState items)) s (fun _ : Unit => .moveTail items .leave)
      (SuperTensorBuffer.complete e s) :=
  plays_resetBatch.bind fun _ _ _ => plays_moveTailLoop

/-- The steps of a claim do what the claim does. -/
theorem plays_claimBatch :
    Plays i .idle s (fun e => .execute e .cloneNotifier)
      (SuperTensorBuffer.claimBatch (CounterOps.unbounded g) s) := by
  refine .step .executeOnBatch rfl rfl (.step .go rfl rfl ?_)
  rw [SuperTensorBuffer.claimBatch, Call.read_bind_apply]
  have hP : program (CounterOps.unbounded g) i s (.claim (.loadTail s.executorHead)) .go =
      .next s (.claim (if (CounterOps.unbounded g).isFull s.executorHead s.tail then .createFullNotified
        else .casExecutorHead s.executorHead)) none := rfl
  split_ifs at hP ⊢ with hfull
  · exact True.intro
  · exact .step .go hP rfl (.step .go (if_pos rfl) rfl .done)

/-- Both waits of `execute_on_batch`, from `phase` to `phase'`. -/
theorem plays_awaitNotified {n : ℕ} {phase phase' : ExecPhase ℕ} {event : Option (Event g ℕ)}
    {polled : Bool × Notify}
    (hpolled : polled = (s.states ((CounterOps.unbounded g).batchId e) n).executorNotifier.poll
      (s.states ((CounterOps.unbounded g).batchId e) n).executorNotifier.notified i)
    (hP : program (CounterOps.unbounded g) i s (.execute e phase) .go =
      .next (s.modifyState ((CounterOps.unbounded g).batchId e) n fun b => { b with executorNotifier := polled.2 })
        (.execute e (if polled.1 then phase' else phase)) event) :
    Plays i (.execute e phase) s (fun _ : Unit => .execute e phase')
      (SuperTensorBuffer.awaitNotified i ((CounterOps.unbounded g).batchId e) n s) := by
  rw [SuperTensorBuffer.awaitNotified, Call.read_bind_apply]
  simp only [Call.modify_bind_apply, ← hpolled]
  split_ifs at hP ⊢ with hp
  · exact .step .go hP rfl .done
  · exact True.intro

/-- Waiting for a first row is one poll. -/
theorem plays_firstWait {n : ℕ} :
    Plays i (.execute e (.firstWait n (s.states ((CounterOps.unbounded g).batchId e) n).executorNotifier.notified)) s
      (fun _ : Unit => .execute e (.createNotifiedFull n))
      (SuperTensorBuffer.awaitNotified i ((CounterOps.unbounded g).batchId e) n s) :=
  plays_awaitNotified rfl rfl

/-- Waiting for a full batch is one poll. -/
theorem plays_deadlineWait {n : ℕ} :
    Plays i (.execute e (.deadlineWait n (s.states ((CounterOps.unbounded g).batchId e) n).executorNotifier.notified)) s
      (fun _ : Unit => .execute e .sealLoadHead)
      (SuperTensorBuffer.awaitNotified i ((CounterOps.unbounded g).batchId e) n s) :=
  plays_awaitNotified rfl rfl

/-- The steps that wait for a batch do what waiting for it does. -/
theorem plays_awaitBatch {timedOut : Bool} :
    Plays i (.execute e .cloneNotifier) s (fun _ : Unit => .execute e .sealLoadHead)
      (SuperTensorBuffer.awaitBatch (CounterOps.unbounded g) i timedOut e s) := by
  refine .step .go rfl rfl (.step .go rfl rfl ?_)
  rw [SuperTensorBuffer.awaitBatch, Call.read_bind_apply]
  generalize (s.trackers ((CounterOps.unbounded g).batchId e)).generation = n
  refine (plays_firstWait (n := n)).bind fun _ s₁ _ => ?_
  rw [Call.read_bind_apply]
  refine .step .go rfl rfl ?_
  set ticket := (s₁.states ((CounterOps.unbounded g).batchId e) n).executorNotifier.notified
  have hP : program (CounterOps.unbounded g) i s₁ (.execute e (.loadHead n ticket)) .go =
      .next s₁ (.execute e (if ((CounterOps.unbounded g).distToHigher e s₁.head).isSome then
        .readDeadline n ticket else .sealLoadHead)) none := rfl
  by_cases hopen : ((CounterOps.unbounded g).distToHigher e s₁.head).isSome = true
  · rw [if_pos hopen] at hP
    refine .step .go hP rfl ?_
    have hP₁ : program (CounterOps.unbounded g) i s₁ (.execute e (.readDeadline n ticket)) .go =
        .next s₁ (.execute e (if (s₁.state ((CounterOps.unbounded g).batchId e)).deadline.isSome then
          .deadlineWait n ticket else .sealLoadHead)) none := rfl
    by_cases hdead : (s₁.state ((CounterOps.unbounded g).batchId e)).deadline.isSome = true
    · rw [if_pos hdead] at hP₁
      rw [Call.when_of_pos ⟨hopen, hdead⟩]
      refine .step .go hP₁ rfl ?_
      split_ifs with ht
      · exact .step .timeout rfl rfl .done
      · exact plays_deadlineWait
    · rw [if_neg hdead] at hP₁
      rw [Call.when_of_neg fun h => hdead h.2]
      exact .step .go hP₁ rfl .done
  · rw [if_neg hopen] at hP
    rw [Call.when_of_neg fun h => hopen h.1]
    exact .step .go hP rfl .done

/-- The steps that close a batch do what closing it does. -/
theorem plays_closeBatch :
    Plays i (.execute e .sealLoadHead) s (fun d => .execute e (.sealSpin d))
      (SuperTensorBuffer.closeBatch (CounterOps.unbounded g) e s) := by
  rw [SuperTensorBuffer.closeBatch, Call.read_bind_apply]
  have hP : program (CounterOps.unbounded g) i s (.execute e .sealLoadHead) .go =
      stepExecute (CounterOps.unbounded g) i s e .sealLoadHead .go := rfl
  simp only [stepExecute] at hP
  split_ifs at hP with hb
  · rw [Call.expect_bind_of_true hb]
    cases hd : (CounterOps.unbounded g).distToHigher e s.head with
    | none =>
      simp only [hd] at hP
      exact .step .go hP rfl .done
    | some d =>
      simp only [hd] at hP
      exact .step .go hP rfl (.step .go (if_pos rfl) rfl .done)
  · rw [Call.expect_bind_of_false (Bool.eq_false_iff.2 hb)]
    exact .panicked .go hP

/-- The steps of `seal_current_batch` do what the call does. -/
theorem plays_sealCurrentBatch :
    Plays i (.execute e .sealLoadHead) s (fun _ : Unit => .execute e .setExecStart)
      (SuperTensorBuffer.sealCurrentBatch (CounterOps.unbounded g) e s) := by
  refine .bind plays_closeBatch fun d s₁ _ => ?_
  rw [Call.read_bind_apply]
  have hP : program (CounterOps.unbounded g) i s₁ (.execute e (.sealSpin d)) .go =
      stepExecute (CounterOps.unbounded g) i s₁ e (.sealSpin d) .go := rfl
  simp only [stepExecute] at hP ⊢
  split_ifs at hP ⊢ with h₁ h₂
  · exact .step .go hP rfl .done
  · exact True.intro
  · exact .panicked .go hP

/-- The steps of `execute_current_batch` do what the call does. -/
theorem plays_executeCurrentBatch {execEnd : Instant} {result : Except InferError SessionValues} :
    Plays i (.execute e (.running items)) s (fun _ : Unit => .execute e (.replaceState items))
      (SuperTensorBuffer.executeCurrentBatch execEnd result ((CounterOps.unbounded g).batchId e) s) := by
  refine .step (.ran result) rfl rfl ?_
  rw [SuperTensorBuffer.executeCurrentBatch, Call.read_bind_apply]
  by_cases hend : (s.state ((CounterOps.unbounded g).batchId e)).executionTrace.execEnd.isSome = true
  · rw [Call.expect_bind_of_false (by rw [Option.isNone_eq_false_iff, hend])]
    exact .panicked (.clock execEnd) (if_pos hend)
  rw [Call.expect_bind_of_true (by rwa [Option.isNone_iff_eq_none, ← Option.not_isSome_iff_eq_none]),
    Call.modify_bind_apply, Call.read_bind_apply]
  refine .step (.clock execEnd) (if_neg hend) rfl ?_
  generalize s.modifyState ((CounterOps.unbounded g).batchId e)
    (s.trackers ((CounterOps.unbounded g).batchId e)).generation
    (fun b => { b with executionTrace := { b.executionTrace with execEnd := some execEnd } }) = s₁
  by_cases hout : (s₁.state ((CounterOps.unbounded g).batchId e)).output.isSome = true
  · rw [Call.expect_bind_of_false (by rw [Option.isNone_eq_false_iff, hout])]
    exact .panicked .go (if_pos hout)
  rw [Call.expect_bind_of_true (by rwa [Option.isNone_iff_eq_none, ← Option.not_isSome_iff_eq_none]),
    Call.modify_bind_apply, Call.modify_apply]
  exact .step .go (if_neg hout) rfl (.step .go rfl rfl (.step .go rfl rfl .done))

/-- **A call of `execute_on_batch` is a run of its thread.** -/
theorem plays_executeOnBatch {x : SuperTensorBuffer.Execution} :
    Plays x.tid .idle s (fun _ => .idle) (SuperTensorBuffer.executeOnBatch (CounterOps.unbounded g) x s) := by
  refine .bind plays_claimBatch fun e s₁ _ => .bind plays_awaitBatch fun _ s₂ _ =>
    .bind plays_sealCurrentBatch fun _ s₃ _ => ?_
  rw [Call.read_bind_apply]
  by_cases hstart : (s₃.state (g.cell e)).executionTrace.execStart.isSome = true
  · rw [Call.expect_bind_of_false (by rw [Option.isNone_eq_false_iff]; exact hstart)]
    exact .panicked (.clock x.execStart) (if_pos hstart)
  rw [Call.expect_bind_of_true (by rw [Option.isNone_iff_eq_none, ← Option.not_isSome_iff_eq_none]; exact hstart),
    Call.modify_bind_apply, Call.read_bind_apply]
  refine .step (.clock x.execStart) (if_neg hstart) rfl (.step .go rfl rfl (.step .go rfl rfl (.step .go rfl rfl ?_)))
  simp only [Call.modify_bind_apply]
  refine .bind plays_executeCurrentBatch fun _ s₄ _ => ?_
  refine plays_resetBatch.bind fun _ s₅ _ => plays_moveTailLoop.bind fun _ s₆ _ => ?_
  rw [Call.modify_bind_apply, Call.pure_apply]
  exact .step .go rfl rfl Program.Solo.refl

end Execute

end Toutates
