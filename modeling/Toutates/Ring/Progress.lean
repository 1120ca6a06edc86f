/-
# When nothing moves

A thread that can do nothing waits in one of four places (`stuck_iff`): for its result, for room, for the
first row of its batch, or for the writers of a batch that it seals.  The clock, the deadlines, the session
and the `compare_exchange`s are not among them: they always let a thread go on.

`hung_only_by_lost_wakeup`: when nobody in a call can move, the clients all wait for batches that nobody
has claimed, and the executors all wait for room that is there.  So the lost wake-up of
`executor_full_notifier` is the only way in which a served ring can hang.
-/

import Toutates.Ring.Awaited
import Toutates.Ring.BackPressure

namespace Toutates

open Basis

variable {g : Geometry} {α : Type}

/-! ### Threads that can do nothing -/

/-- Thread `i` can do nothing: whatever it is given, it is not enabled, or it stays where it is. -/
def Stuck (w : RingWorld g ℕ) (i : ℕ) : Prop := ∀ c,
  (∀ site, ¬ (program (CounterOps.unbounded g)).Panics w ⟨i, c⟩ site) ∧
    ∀ w', (program (CounterOps.unbounded g)).step w ⟨i, c⟩ = some w' → w'.threads i = w.threads i

/-- What a thread waits for, where nothing it is given lets it go on. -/
inductive Pc.Waits (s : SuperTensorBuffer g ℕ) (i : ℕ) : Pc g ℕ → Prop
  /-- `get_result`, for the result of its batch. -/
  | response (c : Collection g) (r rest ticket) (hr : c.outputs = r :: rest)
      (hpoll : ((s.states r.tracker r.responseReadyNotifier).responseReadyNotifier.poll ticket i).1 = false) :
      Waits s i (.getData c (.awaitResponse ticket))
  /-- `execute_on_batch`, for room. -/
  | room (ticket) (hpoll : (s.executorFullNotifier.poll ticket i).1 = false) :
      Waits s i (.claim (.awaitFull ticket))
  /-- `execute_on_batch`, for the first row of its batch. -/
  | row (e n ticket) (hpoll : ((s.states (g.cell e) n).executorNotifier.poll ticket i).1 = false) :
      Waits s i (.execute e (.firstWait n ticket))
  /-- `seal_current_batch`, for those who write to the batch. -/
  | writers (e d) (hlt : (s.trackers (g.cell e)).writtenSlots < g.batchSize - d) :
      Waits s i (.execute e (.sealSpin d))

section Stuck

variable {s : SuperTensorBuffer g ℕ} {i : ℕ} {pc : Pc g ℕ}

/-- No outcome of a step takes the thread away from `pc`. -/
def Still (s : SuperTensorBuffer g ℕ) (i : ℕ) (pc : Pc g ℕ) : Prop := ∀ c,
  (∀ site, program (CounterOps.unbounded g) i s pc c ≠ .panicked site) ∧
    ∀ s' pc' e, program (CounterOps.unbounded g) i s pc c = .next s' pc' e → pc' = pc

/-- Who is stuck stands still. -/
theorem still_of_stuck {w : RingWorld g ℕ} (h : Stuck w i) : Still w.shared i (w.threads i) := by
  refine fun c => ⟨(h c).1, fun s' pc' e hP => ?_⟩
  obtain ⟨w', hs, -, hpc, -⟩ := Program.step_of_next hP
  rw [← hpc]
  exact (h c).2 w' hs

/-- Who waits stays where it is. -/
theorem Pc.Waits.still (h : pc.Waits s i) : Still s i pc := by
  intro c
  cases h with
  | response col r rest ticket hr hpoll =>
    cases c <;> simp [program, stepGetData, hr, hpoll]
  | room ticket hpoll => cases c <;> simp [program, stepClaim, hpoll]
  | row e n ticket hpoll =>
    cases c <;> simp [program, stepExecute, CounterOps.unbounded, hpoll]
  | writers e d hlt =>
    cases c <;> simp [program, stepExecute, CounterOps.unbounded, hlt, hlt.ne]

namespace Still

variable {log : List (Event g ℕ)}

/-- Who stands still stays where it is. -/
theorem next {c : Choice} {s' : SuperTensorBuffer g ℕ} {pc' : Pc g ℕ} {e : Option (Event g ℕ)} (h : Still s i pc)
    (hP : program (CounterOps.unbounded g) i s pc c = .next s' pc' e) : pc' = pc := (h c).2 s' pc' e hP

/-- A step of a thread that stays where it is, is not enabled or is a loop. -/
theorem blocked_or_loop (h : Still s i pc) (c : Choice) : program (CounterOps.unbounded g) i s pc c = .blocked ∨
    ∃ s' e, Transition (CounterOps.unbounded g) i s pc c s' pc e := by
  cases hP : program (CounterOps.unbounded g) i s pc c with
  | blocked => exact .inl rfl
  | panicked site => exact absurd hP ((h c).1 site)
  | next s' pc' e =>
    obtain rfl := h.next hP
    exact .inr ⟨s', e, transition_of_next hP⟩

/-- `infer` does not stand still. -/
theorem not_infer {request : Request} {phase : InferPhase ℕ} : ¬ Still s i (.infer request phase) := fun h => by
  rcases h.blocked_or_loop .go with hP | ⟨s', e, ht⟩
  · cases phase with
    | loadHead => cases hP
    | loadTail hd =>
      simp only [program, stepInfer] at hP
      split_ifs at hP
      split at hP <;> cases hP
    | casHead hd n =>
      simp only [program, stepInfer] at hP
      split_ifs at hP
  · cases ht

/-- `insert_tensors_at` does not stand still. -/
theorem not_insert {ins : Insertion g ℕ} {phase : InsertPhase g} : ¬ Still s i (.insert ins phase) := fun h => by
  cases phase with
  | storeDirty => cases h.next (c := .clock 0) rfl
  | addWritten o t n =>
    have heq := (Pc.insert.inj (h.next (c := .go) rfl)).2
    split_ifs at heq
  | push r =>
    have hgo := (h .go).2
    simp only [program, stepInsert] at hgo
    split at hgo
    · cases hgo _ _ _ rfl
    · cases (Pc.insert.inj (hgo _ _ _ rfl)).2
  | _ =>
    rcases h.blocked_or_loop .go with hP | ⟨s', e, ht⟩
    · simp only [program, stepInsert] at hP
      repeat' split at hP
      all_goals cases hP
    · cases ht

/-- Who creates a future does not stand still. -/
theorem not_createNotified {c : Collection g} : ¬ Still s i (.getData c .createNotified) := fun h => by
  rcases h.blocked_or_loop .go with hP | ⟨s', e, ht⟩
  · simp only [program, stepGetData] at hP
    repeat' split at hP
    all_goals cases hP
  · cases ht

/-- Who looks for an output does not stand still. -/
theorem not_checkOutput {c : Collection g} {ticket : ℕ} (hc : c.outputs ≠ []) :
    ¬ Still s i (.getData c (.checkOutput ticket)) := fun h => by
  obtain ⟨r, rest, hrest⟩ := List.exists_cons_of_ne_nil hc
  obtain ⟨hpanic, hgo⟩ := h .go
  simp only [program, stepGetData, hrest] at hpanic hgo
  cases hout : (s.states r.tracker r.output).output with
  | none =>
    simp only [hout] at hgo
    cases hgo _ _ _ rfl
  | some result =>
    simp only [hout] at hpanic hgo
    cases hread : getDataStep r.start r.stop result c.data (c.metadatas.map Prod.fst) with
    | panicked site => exact hpanic site (by rw [hread])
    | err err =>
      simp only [hread] at hgo
      cases hgo _ _ _ rfl
    | ok read =>
      simp only [hread] at hgo
      cases (Pc.getData.inj (hgo _ _ _ rfl)).2

/-- Who records a trace does not stand still. -/
theorem not_recordTrace {c : Collection g} (hc : c.metadatas.isSome) :
    ¬ Still s i (.getData c .recordTrace) := fun h => by
  obtain ⟨m, hm⟩ := Option.isSome_iff_exists.1 hc
  rcases h.blocked_or_loop .go with hP | ⟨s', e, ht⟩
  · simp only [program, stepGetData, hm] at hP
    split_ifs at hP
  · cases ht

/-- In `get_data` only a result is waited for. -/
theorem waits_of_getData {c : Collection g} {phase : GetPhase} (hr : Reads log (.getData c phase))
    (h : Still s i (.getData c phase)) : (Pc.getData c phase).Waits s i := by
  cases phase with
  | createNotified => exact absurd h not_createNotified
  | checkOutput ticket => exact absurd h (not_checkOutput (hr.unread c ticket (.inl rfl)))
  | awaitResponse ticket =>
    obtain ⟨r, rest, hrest⟩ := List.exists_cons_of_ne_nil (hr.unread c ticket (.inr rfl))
    refine .response c r rest ticket hrest (Bool.eq_false_iff.2 fun hpoll => ?_)
    have hgo := (h .go).2
    simp only [program, stepGetData, hrest, hpoll, if_true] at hgo
    cases hgo _ _ _ rfl
  | recordTrace => exact absurd h (not_recordTrace (hr.traced c rfl))

/-- In a claim only room is waited for. -/
theorem waits_of_claim {phase : ClaimPhase ℕ} (h : Still s i (.claim phase)) : (Pc.claim phase).Waits s i := by
  rcases h.blocked_or_loop .go with hP | ⟨s', e, ht⟩
  · cases phase with
    | casExecutorHead e =>
      simp only [program, stepClaim] at hP
      split_ifs at hP
    | _ => cases hP
  · cases ht with
    | awaitFull ticket phase hp =>
      refine .room ticket (Bool.eq_false_iff.2 fun hpoll => ?_)
      have hgo := h.next (c := .go) rfl
      simp [hpoll] at hgo

/-- An executor that has a batch in hand waits for the first row or for those who write. -/
theorem waits_of_execute {p : ℕ} {phase : ExecPhase ℕ} (h : Still s i (.execute p phase)) :
    (Pc.execute p phase).Waits s i := by
  cases phase with
  | firstWait n ticket =>
    refine .row p n ticket (Bool.eq_false_iff.2 fun hpoll => ?_)
    have hgo := h.next (c := .go) rfl
    simp [CounterOps.unbounded, hpoll] at hgo
  | sealSpin d =>
    refine .writers p d (Nat.lt_of_not_le fun hle => ?_)
    rcases h.blocked_or_loop .go with hP | ⟨s', e, ht⟩
    · simp only [program, stepExecute] at hP
      split_ifs at hP
    · cases ht with
      | spin p d hw => exact absurd hw (Nat.not_lt_of_le hle)
  | deadlineWait n ticket => cases h.next (c := .timeout) rfl
  | setExecStart =>
    rcases h.blocked_or_loop (.clock 0) with hP | ⟨s', e, ht⟩
    · simp only [program, stepExecute] at hP
      split_ifs at hP
    · cases ht
  | running items => cases h.next (c := .ran (.ok [])) rfl
  | setExecEnd items result =>
    rcases h.blocked_or_loop (.clock 0) with hP | ⟨s', e, ht⟩
    · simp only [program, stepExecute] at hP
      split_ifs at hP
    · cases ht
  | _ =>
    rcases h.blocked_or_loop .go with hP | ⟨s', e, ht⟩
    · simp only [program, stepExecute] at hP
      repeat' split at hP
      all_goals cases hP
    · cases ht

/-- `move_tail_to_next_non_dirty_buffer` does not stand still. -/
theorem not_moveTail {items : ℕ} {phase : MovePhase ℕ} : ¬ Still s i (.moveTail items phase) := fun h => by
  rcases h.blocked_or_loop .go with hP | ⟨s', e, ht⟩
  · cases phase <;> simp only [program, stepMoveTail] at hP <;> repeat' split at hP
    all_goals cases hP
  · cases ht

end Still

end Stuck

/-- **Where a thread that is called can wait for ever.** -/
theorem stuck_iff {ok : RingGuard g ℕ} {k : ℕ}
    {inputTensors : Fin g.capacity → Fin g.numInputs → BatchableTensor g.batchSize} {w : RingWorld g ℕ}
    (h : ServedRing ok k inputTensors w) {i : ℕ} :
    Stuck w i ↔ (w.threads i).Waits w.shared i := by
  constructor
  · intro hstuck
    have hstill := still_of_stuck hstuck
    have hreads := reads_of_served h i
    cases hpc : w.threads i with
    | idle =>
      rw [hpc] at hstill
      cases hstill.next (c := .executeOnBatch) rfl
    | infer request phase => exact absurd (hpc ▸ hstill) Still.not_infer
    | insert ins phase => exact absurd (hpc ▸ hstill) Still.not_insert
    | getData c phase => exact Still.waits_of_getData (hpc ▸ hreads) (hpc ▸ hstill)
    | claim phase => exact Still.waits_of_claim (hpc ▸ hstill)
    | execute e phase => exact Still.waits_of_execute (hpc ▸ hstill)
    | moveTail items phase => exact absurd (hpc ▸ hstill) Still.not_moveTail
  · intro hwaits c
    refine ⟨fun site => (hwaits.still c).1 site, fun w' hs => ?_⟩
    obtain ⟨e, hP, -⟩ := Program.next_of_step hs
    exact (hwaits.still c).2 _ _ _ hP

/-! ### Worlds in which nothing moves -/

/-- Nobody who is in a call can do anything. -/
def Hung (w : RingWorld g ℕ) : Prop := ∀ i, w.threads i ≠ .idle → Stuck w i

/-- The threads of `gone` wait for their results, and nobody else who is in a call can do anything. -/
structure HungBut (gone : Set ℕ) (w : RingWorld g ℕ) : Prop where
  stuck : ∀ i, i ∉ gone → w.threads i ≠ .idle → Stuck w i
  waiting : ∀ i ∈ gone, ∃ c ticket, w.threads i = .getData c (.awaitResponse ticket)

/-- A ring that hangs, with nobody gone. -/
theorem Hung.hungBut {w : RingWorld g ℕ} (h : Hung w) : HungBut ∅ w where
  stuck i _ := h i
  waiting i hi := absurd hi (Set.notMem_empty i)

/-- Who does not wait for a result is not gone. -/
theorem HungBut.not_mem {gone : Set ℕ} {w : RingWorld g ℕ} (h : HungBut gone w) {i : ℕ}
    (hi : ∀ c ticket, w.threads i ≠ .getData c (.awaitResponse ticket)) : i ∉ gone := fun hgone => by
  obtain ⟨c, ticket, hpc⟩ := h.waiting i hgone
  exact hi c ticket hpc

/-- The thread is in a call of `infer` or `get_data`. -/
def Pc.isClient : Pc g α → Bool
  | .infer _ _ | .insert _ _ | .getData _ _ => true
  | _ => false

/-- The thread is in a call of `execute_on_batch`. -/
def Pc.isExecutor : Pc g α → Bool
  | .claim _ | .execute _ _ | .moveTail _ _ => true
  | _ => false

/-- What a request has taken is past the batches of the warmups. -/
theorem ServedRing.le_of_mem_reservedRows {ok : RingGuard g ℕ} {k : ℕ}
    {inputTensors : Fin g.capacity → Fin g.numInputs → BatchableTensor g.batchSize} {w : RingWorld g ℕ}
    (h : ServedRing ok k inputTensors w) {q : ℕ} (hq : q ∈ reservedRows w.log) : k * g.batchSize ≤ q := by
  obtain ⟨⟨hd, n⟩, ha, hle, -⟩ := hq
  obtain ⟨ev, hev, hspan⟩ := List.mem_filterMap.1 ha
  cases ev with
  | reserved t hd' n' =>
    cases hspan
    exact (h.warm_le.2 t hd n hev).trans hle
  | _ => cases hspan

section Hung

variable {k : ℕ} {inputTensors : Fin g.capacity → Fin g.numInputs → BatchableTensor g.batchSize} {w : RingWorld g ℕ}
  {gone : Set ℕ} (h : ServedRing (Admitted g) k inputTensors w) (hung : HungBut gone w)

include h hung

/-- In a ring that hangs everybody waits. -/
theorem waits_of_hung {i : ℕ} (hgone : i ∉ gone) (hi : w.threads i ≠ .idle) : (w.threads i).Waits w.shared i :=
  (stuck_iff h).1 (hung.stuck i hgone hi)

/-- Nobody is inserting. -/
theorem not_insert_of_hung {i : ℕ} {ins : Insertion g ℕ} {phase : InsertPhase g} :
    w.threads i ≠ .insert ins phase := fun hi => by
  have hwaits := waits_of_hung h hung (i := i) (hung.not_mem (by rw [hi]; nofun)) (by rw [hi]; nofun)
  rw [hi] at hwaits
  cases hwaits

/-- Every row that was taken is counted. -/
theorem counted_of_hung {q : ℕ} (hq : q ∈ reservedRows w.log) : q ∈ countedRows w.log := by
  refine (counted_or_owed_of_served h q hq).resolve_right fun ⟨i, howes⟩ => ?_
  cases hi : w.threads i with
  | insert ins phase => exact not_insert_of_hung h hung hi
  | _ =>
    rw [hi] at howes
    exact howes

/-- Nobody has a batch in hand whose first row is taken or skipped. -/
theorem not_held_of_hung {i p : ℕ} {st : Stage} (hp : p < w.shared.head) :
    (w.threads i).held ≠ some (p, st) := fun hheld => by
  have hK := (responding_of_served h.fits).left.left
  have hrows : Rows.Shared w.shared w.log := hK.shared.1.1.2
  have hwindow : Window.Shared w.shared w.log := hK.shared.1.1.1.1.1.2
  have hlife := (life_of_deliveries (deliveries_of_served h.fits)).own i
  have hown : Rows.Own w.shared w.log (w.threads i) := (hK.own i).1.1.2
  have hwaits := waits_of_hung h hung (i := i) (hung.not_mem fun c ticket hi => by rw [hi] at hheld; cases hheld)
    fun hi => by rw [hi] at hheld; cases hheld
  have hB := g.batchSize_pos
  cases hpc : w.threads i with
  | execute e phase =>
    rw [hpc] at hheld hwaits hlife hown
    obtain ⟨rfl, -⟩ := Prod.mk.inj (Option.some.inj hheld)
    have hpermits := permits_of_served h.fits
    cases hwaits with
    | row e n ticket hpoll =>
      obtain rfl := (waits_of_served h.fits).own i e n (by rw [hpc]; rfl)
      have hclaimed := hlife e .claimed rfl
      have hnot : ¬ Reached w.log e .woken := fun hwoken => by
        simpa [Stage.rank] using (hclaimed.reached .woken).1 hwoken
      have hreserved : e ∈ reservedRows w.log :=
        ((hrows.taken e).1 hp).resolve_right (hown.unsealed e rfl e le_rfl (by omega))
      -- the first row is counted, and whoever counted it has notified
      have hpending := (hpermits.rung e e hclaimed.dvd (.inl ⟨rfl, hnot⟩)
        (counted_of_hung h hung hreserved)).resolve_right (by
          rintro ⟨j, ins, r, hj, -⟩
          exact not_insert_of_hung h hung hj)
      have hready : (Notify.poll _ ticket i).1 = true :=
        (hpermits.settled e hclaimed.dvd).poll_fst hpending (hpermits.mine i e (by rw [hpc]; rfl))
      exact absurd (hready.symm.trans hpoll) (by simp)
    | writers e d hlt =>
      obtain ⟨hwritten, hfilled, -⟩ := Rows.written_le (hlife e .woken rfl) hwindow hrows hown rfl
      have hle : filled (reservedRows w.log) e g.batchSize ≤ filled (countedRows w.log) e g.batchSize :=
        filled_mono fun q hq => counted_of_hung h hung hq
      omega
  | _ =>
    rw [hpc] at hheld
    cases hheld

/-- A client waits for a batch that nobody has claimed. -/
theorem unclaimed_of_hung {i : ℕ} (hgone : i ∉ gone) (hi : (w.threads i).isClient = true) : ∃ c r rest ticket,
    w.threads i = .getData c (.awaitResponse ticket) ∧ c.outputs = r :: rest ∧
      w.shared.executorHead ≤ g.start r.tracker r.output ∧ g.start r.tracker r.output < w.shared.head := by
  have hwaits := waits_of_hung h hung hgone fun hidle => by rw [hidle] at hi; cases hi
  have hall := responding_of_served h.fits
  have hrows : Rows.Shared w.shared w.log := hall.shared.1.1.1.1.2
  cases hpc : w.threads i with
  | getData c phase =>
    rw [hpc] at hwaits
    cases hwaits with
    | response c r rest ticket hr hpoll =>
      have hmem : r ∈ c.outputs := hr ▸ List.mem_cons_self
      obtain ⟨hreserved, hlt⟩ := reserved_of_collecting h.fits (i := i) (by rw [hpc]; rfl) hmem
      have hhead := (hrows.taken _).2 (.inl hreserved)
      have hdvd := g.start_dvd r.tracker r.output
      refine ⟨c, r, rest, ticket, rfl, hr, Nat.le_of_not_lt fun hclaimed => ?_, by omega⟩
      rcases held_of_claimed h.fits _ hdvd hclaimed with hfin | ⟨j, st, hj⟩
      · -- the batch is finished, so its clients have been called
        have hform := (hall.left.right.own i).collecting c (by rw [hpc]; rfl) |>.outputs r hmem
        have hcalled := calledPast_of_served h.fits
        obtain rfl := (hcalled.own i).waiting c ticket hpc
        have hpast : k * g.batchSize ≤ g.start r.tracker r.output := Nat.le_of_not_lt fun hbefore => by
          have hle := Blocks.add_le_of_dvd hdvd (Nat.dvd_mul_left g.batchSize k) hbefore
          have hrow := h.le_of_mem_reservedRows hreserved
          omega
        have hcalls := hcalled.shared.replaced _ hpast
          ((life_of_deliveries (deliveries_of_served h.fits)).shared.closed hfin (by simp [Stage.rank]))
        rw [SuperTensorBuffer.batchState, Geometry.cell_start, Geometry.lap_start, ← hform.notifier_eq] at hcalls
        exact absurd ((Notify.poll_fst_of_lt hcalls).symm.trans hpoll) (by simp)
      · exact not_held_of_hung h hung (by omega) hj
  | infer request phase =>
    rw [hpc] at hwaits
    cases hwaits
  | insert ins phase => exact absurd hpc (not_insert_of_hung h hung)
  | _ =>
    rw [hpc] at hi
    cases hi

/-- An executor waits for room, although there is some, if a client waits at all. -/
theorem parked_of_hung {i : ℕ} (hgone : i ∉ gone) (hi : (w.threads i).isClient = true) {j : ℕ}
    (hj : (w.threads j).isExecutor = true) : Parked w j ∧ LostWakeup w := by
  obtain ⟨c, r, rest, ticket, -, -, hle, hlt⟩ := unclaimed_of_hung h hung hgone hi
  have hwaits := waits_of_hung h hung (i := j) (hung.not_mem fun c ticket hpc => by rw [hpc] at hj; cases hj)
    fun hidle => by rw [hidle] at hj; cases hj
  have hlife := (life_of_deliveries (deliveries_of_served h.fits)).own j
  have hparked : Parked w j := by
    cases hpc : w.threads j with
    | claim phase =>
      rw [hpc] at hwaits
      cases hwaits with
      | room ticket hpoll => exact ⟨ticket, hpc, hpoll⟩
    | execute e phase =>
      have hheld : (w.threads j).held = some (e, phase.stage) := by rw [hpc]; rfl
      have hclaimed := (hlife e phase.stage hheld).lt
      exact absurd hheld (not_held_of_hung h hung (by omega))
    | moveTail items phase =>
      rw [hpc] at hwaits
      cases hwaits
    | _ =>
      rw [hpc] at hj
      cases hj
  refine ⟨hparked, ⟨j, hparked⟩, fun ⟨m, items, hm⟩ => ?_, ?_⟩
  · have hmove := waits_of_hung h hung (i := m) (hung.not_mem (by rw [hm]; nofun)) (by rw [hm]; nofun)
    rw [hm] at hmove
    cases hmove
  · have hhead := h.fits.head_le
    have hpos := g.slots_pos
    omega

end Hung

/-- **A served ring hangs only by the lost wake-up.**  In a run from a warm ring whose accepted requests fit
and whose copies succeed, when nobody who is in a call can do anything: every client waits in `get_result`
for a batch that no executor has claimed; and if there is such a client, every executor waits for room on
`executor_full_notifier`, although there is a batch to claim and nobody is about to notify. -/
theorem hung_only_by_lost_wakeup {k : ℕ}
    {inputTensors : Fin g.capacity → Fin g.numInputs → BatchableTensor g.batchSize} {w : RingWorld g ℕ}
    (h : ServedRing (Admitted g) k inputTensors w) (hung : Hung w) :
    (∀ i, (w.threads i).isClient = true → ∃ c r rest ticket,
      w.threads i = .getData c (.awaitResponse ticket) ∧ c.outputs = r :: rest ∧
        w.shared.executorHead ≤ g.start r.tracker r.output) ∧
    ∀ i, (w.threads i).isClient = true → ∀ j, (w.threads j).isExecutor = true → Parked w j ∧ LostWakeup w := by
  refine ⟨fun i hi => ?_, fun i hi j hj => parked_of_hung h hung.hungBut (Set.notMem_empty i) hi hj⟩
  obtain ⟨c, r, rest, ticket, hpc, hr, hle, -⟩ := unclaimed_of_hung h hung.hungBut (Set.notMem_empty i) hi
  exact ⟨c, r, rest, ticket, hpc, hr, hle⟩

/-- `Pc.Waits`, evaluated. -/
def Pc.waitsNow (s : SuperTensorBuffer g ℕ) (i : ℕ) : Pc g ℕ → Bool
  | .getData c (.awaitResponse ticket) => match c.outputs with
    | r :: _ => !((s.states r.tracker r.responseReadyNotifier).responseReadyNotifier.poll ticket i).1
    | [] => false
  | .claim (.awaitFull ticket) => !(s.executorFullNotifier.poll ticket i).1
  | .execute e (.firstWait n ticket) => !((s.states (g.cell e) n).executorNotifier.poll ticket i).1
  | .execute e (.sealSpin d) => decide ((s.trackers (g.cell e)).writtenSlots < g.batchSize - d)
  | _ => false

/-- Who is checked to wait does. -/
theorem Pc.waits_of_waitsNow {s : SuperTensorBuffer g ℕ} {i : ℕ} {pc : Pc g ℕ} (h : pc.waitsNow s i = true) :
    pc.Waits s i := by
  unfold waitsNow at h
  split at h
  · split at h
    · exact .response _ _ _ _ ‹_› (by simpa using h)
    · cases h
  · exact .room _ (by simpa using h)
  · exact .row _ _ _ (by simpa using h)
  · exact .writers _ _ (of_decide_eq_true h)
  · cases h

/-- Who is neither client nor executor is idle. -/
theorem Pc.eq_idle {pc : Pc g α} (hclient : pc.isClient = false) (hexecutor : pc.isExecutor = false) : pc = .idle := by
  cases pc with
  | idle => rfl
  | infer request phase => cases hclient
  | insert ins phase => cases hclient
  | getData c phase => cases hclient
  | claim phase => cases hexecutor
  | execute e phase => cases hexecutor
  | moveTail items phase => cases hexecutor

/-- A run after three warmups of a ring of two slots.  Executor `0` claims the batch of the first request, and
executor `4` finds the ring full and sleeps; executor `0` finishes the batch, moves the tail on, calls and
returns; then executor `4` creates its future, and the client sends a second request. -/
def sleepsThrough : List (Action Choice) :=
  claimBatch 0 ++ ⟨4, .executeOnBatch⟩ :: go 4 2 ++ reserve 2 byteRequest ++ insertRow 2 ++ runBatch 0 ++ go 0 9 ++
    go 2 4 ++ go 4 2 ++ reserve 2 byteRequest ++ insertRow 2 ++ go 2 2

/-- A run with a lost wake-up. -/
theorem hung_only_by_lost_wakeup_twoByOne :
    ∃ w : RingWorld twoByOne ℕ, (w.threads 2).isClient = true ∧ Parked w 4 ∧ LostWakeup w := by
  have hrun : (runServed (admitted twoByOne) 3 (fun _ _ => byteTensor 1) sleepsThrough).map (fun w =>
      ((w.threads 2).isClient, (w.threads 4).isExecutor, (List.range 5).all fun i =>
        !(w.threads i).isClient && !(w.threads i).isExecutor || (w.threads i).waitsNow w.shared i)) =
      some (true, true, true) := by decide +kernel
  obtain ⟨w, hrun, hw⟩ := Option.map_eq_some_iff.1 hrun
  obtain ⟨hclient, hw⟩ := Prod.mk.inj hw
  obtain ⟨hexecutor, hall⟩ := Prod.mk.inj hw
  have hserved := ServedRing.of_runServed (fun _ _ _ _ => admitted_spec) hrun
  have hung : Hung w := fun i hi => by
    rcases Nat.lt_or_ge i 5 with hlt | hge
    · have hthread := List.all_eq_true.1 hall i (List.mem_range.2 hlt)
      rcases Bool.or_eq_true_iff.1 hthread with hidle | hwaits
      · obtain ⟨hnot, hnot'⟩ := Bool.and_eq_true_iff.1 hidle
        exact absurd (Pc.eq_idle (Bool.not_eq_true' _ ▸ hnot) (Bool.not_eq_true' _ ▸ hnot')) hi
      · exact (stuck_iff hserved).2 (Pc.waits_of_waitsNow hwaits)
    · refine absurd (ServedRing.idle_of_runServed hrun fun a ha heq => ?_) hi
      have hnamed : sleepsThrough.all (fun a => a.thread < 5) = true := by decide +kernel
      have hlt := of_decide_eq_true (List.all_eq_true.1 hnamed a ha)
      omega
  exact ⟨w, hclient, (hung_only_by_lost_wakeup hserved hung).2 2 hclient 4 hexecutor⟩

end Toutates
