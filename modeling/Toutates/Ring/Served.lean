/-
# Serving from a warm ring

The runs of `Ring.ExactlyOnce` start from a new buffer; a server's start from one that `load_model`
has warmed up.  `served_exactly_once`: after any number of warmups the rows of the requests are owned,
batched and executed exactly once all the same, and none of them falls into a batch of a warmup.

`refused_of_single_batch`: with one batch there is nothing to serve from, since the first warmup fills
the ring for good.
-/

import Toutates.Ring.Sample
import Toutates.Ring.Warm

namespace Toutates

open Basis

variable {g : Geometry} {ok : RingGuard g ℕ} {k : ℕ} {w : RingWorld g ℕ}
  {inputTensors : Fin g.capacity → Fin g.numInputs → BatchableTensor g.batchSize}

/-- The worlds that a list of actions leads to from a ring that has been warmed up, when the steps are
all allowed by `allowed`. -/
def runServed (allowed : ℕ → SuperTensorBuffer g ℕ → Pc g ℕ → Choice → Bool) (k : ℕ)
    (inputTensors : Fin g.capacity → Fin g.numInputs → BatchableTensor g.batchSize) (as : List (Action Choice)) :
    Option (RingWorld g ℕ) :=
  match SuperTensorBuffer.warmups (CounterOps.unbounded g) k (.new (CounterOps.unbounded g) inputTensors) with
  | some (.ok (), s) => (program (CounterOps.unbounded g)).runIf allowed (warmWorld k s) as
  | _ => none

/-- A run that is computed is a run. -/
theorem ServedRing.of_runServed {allowed : ℕ → SuperTensorBuffer g ℕ → Pc g ℕ → Choice → Bool}
    {as : List (Action Choice)} (hok : ∀ i s pc c, allowed i s pc c = true → ok i s pc c)
    (h : runServed allowed k inputTensors as = some w) : ServedRing ok k inputTensors w := by
  unfold runServed at h
  split at h
  · exact ⟨_, ‹_›, Reach.of_runIf hok h⟩
  · cases h

/-- A thread that no action names is idle. -/
theorem ServedRing.idle_of_runServed {allowed : ℕ → SuperTensorBuffer g ℕ → Pc g ℕ → Choice → Bool}
    {as : List (Action Choice)} (h : runServed allowed k inputTensors as = some w) {i : ℕ}
    (hi : ∀ a ∈ as, a.thread ≠ i) : w.threads i = .idle := by
  unfold runServed at h
  split at h
  · exact Program.runIf_threads h hi
  · cases h

/-! ### Exactly once -/

section Responding

variable {s s' : SuperTensorBuffer g ℕ} {log : List (Event g ℕ)}

/-- Rows are owned. -/
theorem rowsOwned_of_responding (h : (responding g).shared s log) : RowsOwned log := by
  obtain ⟨⟨⟨⟨⟨-, hr⟩, -⟩, -⟩, hresponses⟩, hledger⟩ := h
  refine ⟨fun t hd n hev q h₁ h₂ => ?_, hledger.stacked.pairwise, hresponses⟩
  have hq := mem_reservedRows hev h₁ h₂
  refine ⟨hq, hr.once q hq, Blocks.lower g.batchSize q, ?_, fun p hp => ?_⟩
  · exact ⟨Blocks.lower_dvd _ q, Blocks.lower_le _ q, Blocks.lt_lower_add g.batchSize_pos q⟩
  · exact (Blocks.lower_eq g.batchSize_pos hp.1 hp.2.1 hp.2.2).symm

/-- Batches are executed once. -/
theorem executedOnce_of_responding (h : (responding g).shared s log) : ExecutedOnce s log := by
  obtain ⟨⟨⟨⟨⟨⟨⟨⟨hl, -⟩, -⟩, -⟩, -⟩, hc⟩, -⟩, -⟩, -⟩ := h
  refine ⟨fun x n => List.nodup_iff_count_le_one.1 hl.nodup _, fun x n result hout => ?_⟩
  have hstate : s.batchState (g.start x n) = s.states x n := by
    rw [SuperTensorBuffer.batchState, Geometry.cell_start, Geometry.lap_start]
  obtain ⟨hran, -⟩ := hc.output (g.start x n) result (g.start_dvd x n) (by rw [hstate]; exact hout)
  have hreached : Reached log (g.start x n) .ran := List.mem_filterMap.2 ⟨_, hran, rfl⟩
  have hinvoked : Reached log (g.start x n) .invoked := hl.closed hreached (by simp [Stage.rank])
  exact ⟨List.count_eq_one_of_mem hl.nodup hinvoked, hran⟩

/-- The rows of a sealed batch have been copied, and there will be no more of them. -/
theorem copied_of_sealed (h : (responding g).shared s log) {p : ℕ} (hp : Reached log p .sealed) :
    p + g.batchSize ≤ s.head ∧ ∀ q, p ≤ q → q < p + g.batchSize → q ∈ reservedRows log →
      ∀ i < g.numInputs, q ∈ copiedRows i log := by
  obtain ⟨⟨⟨⟨⟨-, hr⟩, -⟩, -⟩, -⟩, hledger⟩ := h
  obtain ⟨hle, hall⟩ := hr.sealed p hp
  exact ⟨hle, fun q h₁ h₂ hq i hi => hledger.copied i hi (hall q h₁ h₂ hq)⟩

/-- The batch that a client writes to is not sealed, and the sealed batches of its tracker are
behind the tail. -/
theorem passed_of_copying (h : (responding g).shared s log) {ins : Insertion g ℕ} {j p : ℕ}
    (ho : (responding g).own s log (.insert ins (.copyInput j))) (hp : Reached log p .sealed)
    (hcell : g.cell p = ins.tracker (CounterOps.unbounded g)) : p + g.batchSize ≤ s.tail := by
  obtain ⟨⟨⟨⟨⟨⟨⟨⟨hl, hw⟩, -⟩, hb⟩, hr⟩, -⟩, -⟩, -⟩, -⟩ := h
  obtain ⟨⟨⟨⟨⟨⟨⟨-, hho⟩, -⟩, hro⟩, -⟩, -⟩, -⟩, -⟩ := ho
  have howes := Pc.owes_currentHead hho rfl
  obtain ⟨h₁, h₂⟩ := Rows.owes_mem hl hw hb hr hro howes
  have hnot := Rows.not_sealed_of_owes hr hro howes
  obtain ⟨hdvd, hlt⟩ := hl.claimed hp
  have hE := hw.executorHead_le
  refine Blocks.add_le_of_dvd hdvd hw.tail_dvd ?_
  by_contra hge
  have heq : p = Blocks.lower g.batchSize ins.currentHead :=
    Geometry.eq_of_cell_eq hdvd (Blocks.lower_dvd _ _) (by omega) (by omega) h₁ h₂
      (hcell.trans (Geometry.cell_lower _).symm)
  rw [heq] at hp
  exact hnot hp

end Responding

/-- A step moves the head on, and what it reserves starts at the head. -/
theorem Transition.reserved_from {i : ℕ} {s s' : SuperTensorBuffer g ℕ} {pc pc' : Pc g ℕ} {c : Choice}
    {e : Option (Event g ℕ)} (ht : Transition (CounterOps.unbounded g) i s pc c s' pc' e) :
    s.head ≤ s'.head ∧ ∀ t hd n, e = some (.reserved t hd n) → hd = s.head := by
  cases ht with
  | reserve request h n hh =>
    subst hh
    exact ⟨Nat.le_add_right _ _, fun t hd n he => by cases he; rfl⟩
  | pad e h d hh =>
    subst hh
    exact ⟨Nat.le_add_right _ _, fun _ _ _ he => by cases he⟩
  | _ => exact ⟨le_rfl, fun _ _ _ he => by cases he⟩

/-- The head of a served ring is past its warmups, and so is what requests have taken. -/
theorem ServedRing.warm_le (h : ServedRing ok k inputTensors w) : k * g.batchSize ≤ w.shared.head ∧
    ∀ t hd n, Event.reserved t hd n ∈ w.log → k * g.batchSize ≤ hd := by
  obtain ⟨s, hrun, h⟩ := h
  have hwarm := (warm_of_warmups hrun).1
  refine h.invariant (I := fun v => k * g.batchSize ≤ v.shared.head ∧
    ∀ t hd n, Event.reserved t hd n ∈ v.log → k * g.batchSize ≤ hd)
    ⟨hwarm.head.ge, fun t hd n hev => absurd hev not_reserved_warmLog⟩ fun v a v' _ hI _ hs => ?_
  obtain ⟨e, ht, hlog⟩ := transition_of_step hs
  obtain ⟨hle, hfrom⟩ := ht.reserved_from
  refine ⟨hI.1.trans hle, fun t hd n hev => ?_⟩
  rw [hlog, List.mem_append, Option.mem_toList] at hev
  rcases hev with hev | hev
  · exact (hfrom t hd n hev).ge.trans' hI.1
  · exact hI.2 t hd n hev

/-- The heads of a warm ring stay within a turn of the tail. -/
theorem ServedRing.head_le (h : ServedRing (Fits g) k inputTensors w) :
    w.shared.head ≤ w.shared.tail + g.slots :=
  (responding_of_served h).left.left.left.left.left.right.shared

/-- The tail is not above the head. -/
theorem ServedRing.tail_le (h : ServedRing (Fits g) k inputTensors w) : w.shared.tail ≤ w.shared.head :=
  (responding_of_served h).left.left.left.left.left.left.right.shared

/-- **Exactly once, after any number of warmups.**  In a run from a warm ring whose accepted requests
fit: the rows of the requests are owned by them alone, are past the batches of the warmups and within
a turn of the tail; `f` is called at most once on a batch in a lap, and exactly once where a result is
seen; a sealed batch has all its rows copied; and from then until the tail has passed it, no client is
at a copy to its tensors. -/
theorem served_exactly_once (h : ServedRing (Fits g) k inputTensors w) :
    RowsOwned w.log ∧ ExecutedOnce w.shared w.log ∧
      (∀ t hd n, Event.reserved t hd n ∈ w.log → k * g.batchSize ≤ hd) ∧
      w.shared.tail ≤ w.shared.head ∧ w.shared.head ≤ w.shared.tail + g.slots ∧
      (∀ p, Reached w.log p .sealed → p + g.batchSize ≤ w.shared.head ∧
        ∀ q, p ≤ q → q < p + g.batchSize → q ∈ reservedRows w.log → ∀ i < g.numInputs, q ∈ copiedRows i w.log) ∧
      ∀ i ins j p, w.threads i = .insert ins (.copyInput j) → Reached w.log p .sealed →
        g.cell p = ins.tracker (CounterOps.unbounded g) → p + g.batchSize ≤ w.shared.tail := by
  have hall := responding_of_served h
  refine ⟨rowsOwned_of_responding hall.shared, executedOnce_of_responding hall.shared, h.warm_le.2,
    h.tail_le, h.head_le,
    fun p hp => copied_of_sealed hall.shared hp, fun i ins j p hpc hp hcell => ?_⟩
  have hown := hall.own i
  rw [hpc] at hown
  exact passed_of_copying hall.shared hown hp hcell

/-- After the warmups of a session a client of a small ring has its row executed, in the batch after
those. -/
theorem served_exactly_once_twoByOne :
    ∃ w : RingWorld twoByOne ℕ, (w.shared.states (twoByOne.cell 3) 1).output.isSome ∧
      (marks w.log).count (twoByOne.start (twoByOne.cell 3) 1, .invoked) = 1 := by
  have hrun : (runServed (fits twoByOne) 3 (fun _ _ => byteTensor 1)
      (reserve 2 byteRequest ++ insertRow 2 ++ claimBatch 0 ++ runBatch 0)).map
      (fun w => (w.shared.states (twoByOne.cell 3) 1).output.isSome) = some true := by decide +kernel
  obtain ⟨w, hrun, hw⟩ := Option.map_eq_some_iff.1 hrun
  obtain ⟨result, hout⟩ := Option.isSome_iff_exists.1 hw
  exact ⟨w, hw, ((served_exactly_once
    (ServedRing.of_runServed (fun _ _ _ _ => fits_spec) hrun)).2.1.output _ 1 result hout).1⟩

/-! ### A ring of one batch -/

/-- A thread that has been given nothing, and has loaded nothing but what the ring still shows. -/
def Pc.Refused (s : SuperTensorBuffer g ℕ) : Pc g ℕ → Prop
  | .idle | .infer _ .loadHead | .claim .loadExecutorHead | .claim .createFullNotified | .claim (.awaitFull _) => True
  | .infer _ (.loadTail h) => h = s.head
  | .claim (.loadTail e) => e = s.executorHead
  | _ => False

/-- A step of a ring whose heads are a turn ahead of the tail: no counter moves, and all that happens is
that a request is refused. -/
theorem Transition.refused {i : ℕ} {s s' : SuperTensorBuffer g ℕ} {pc pc' : Pc g ℕ} {c : Choice}
    {e : Option (Event g ℕ)} (ht : Transition (CounterOps.unbounded g) i s pc c s' pc' e)
    (hhead : s.head = s.tail + g.slots) (hexec : s.executorHead = s.tail + g.slots) (hpc : pc.Refused s) :
    s'.head = s.head ∧ s'.executorHead = s.executorHead ∧ s'.tail = s.tail ∧ pc'.Refused s ∧
      ∀ ev, e = some ev → ev = .failed i .ringFull := by
  have hfull : (CounterOps.unbounded g).isFull (s.tail + g.slots) s.tail = true := by
    simp [CounterOps.unbounded]
  cases ht with
  | callInfer request => exact ⟨rfl, rfl, rfl, True.intro, fun _ he => by cases he⟩
  | callExecute => exact ⟨rfl, rfl, rfl, True.intro, fun _ he => by cases he⟩
  | loadHead request => exact ⟨rfl, rfl, rfl, rfl, fun _ he => by cases he⟩
  | ringFull request h _ => exact ⟨rfl, rfl, rfl, True.intro, fun _ he => by cases he; rfl⟩
  | notFull request h n hroom _ =>
    obtain rfl : h = s.head := hpc
    rw [hhead, hfull] at hroom
    cases hroom
  | loadExecutorHead => exact ⟨rfl, rfl, rfl, rfl, fun _ he => by cases he⟩
  | noRoom p _ => exact ⟨rfl, rfl, rfl, True.intro, fun _ he => by cases he⟩
  | room p hroom =>
    obtain rfl : p = s.executorHead := hpc
    rw [hexec, hfull] at hroom
    cases hroom
  | createFullNotified => exact ⟨rfl, rfl, rfl, True.intro, fun _ he => by cases he⟩
  | awaitFull ticket phase hp =>
    rcases hp with rfl | rfl <;> exact ⟨rfl, rfl, rfl, True.intro, fun _ he => by cases he⟩
  | _ => exact hpc.elim

/-- **A ring of one batch serves nobody.**  Once it has been warmed up, in every run at all: no request is
given a row and no executor a batch, whoever calls; all that ever happens is that calls of `infer` fail
because the ring is full. -/
theorem refused_of_single_batch (hcap : g.capacity = 1) (hk : 0 < k) (h : ServedRing ok k inputTensors w) :
    w.shared.head = w.shared.tail + g.slots ∧ w.shared.head = k * g.batchSize ∧
      (∀ i, (w.threads i).Refused w.shared) ∧
      ∃ refused : List ℕ, w.log = refused.map (fun t => .failed t .ringFull) ++ warmLog g k := by
  obtain ⟨s, hrun, h⟩ := h
  have hwarm := (warm_of_warmups hrun).1
  have hslots : g.slots = g.batchSize := by rw [Geometry.slots, hcap, Nat.one_mul]
  have hnext := hwarm.head_eq hk
  have hexec : s.executorHead = s.head := hwarm.executorHead.trans hwarm.head.symm
  have hall := h.invariant (I := fun v => v.shared.head = s.head ∧ v.shared.executorHead = s.executorHead ∧
    v.shared.tail = s.tail ∧ (∀ i, (v.threads i).Refused v.shared) ∧
      ∃ refused : List ℕ, v.log = refused.map (fun t => .failed t .ringFull) ++ warmLog g k)
    ⟨rfl, rfl, rfl, fun _ => True.intro, [], rfl⟩ fun v a v' _ hI _ hs => ?_
  · obtain ⟨hhead, -, htail, hpcs, hlog⟩ := hall
    exact ⟨by omega, hhead.trans hwarm.head, hpcs, hlog⟩
  · obtain ⟨hhead, hexecutor, htail, hpcs, refused, hlog⟩ := hI
    obtain ⟨e, ht, hlog'⟩ := transition_of_step hs
    obtain ⟨hhead', hexecutor', htail', hpc', hev⟩ := ht.refused (by omega) (by omega) (hpcs a.thread)
    refine ⟨hhead'.trans hhead, hexecutor'.trans hexecutor, htail'.trans htail, fun i => ?_, ?_⟩
    · have hsame : ∀ pc : Pc g ℕ, pc.Refused v.shared → pc.Refused v'.shared := fun pc hpc => by
        unfold Pc.Refused at hpc ⊢
        rw [hhead', hexecutor']
        exact hpc
      by_cases hi : i = a.thread
      · rw [hi]
        exact hsame _ hpc'
      · rw [Program.step_threads hs hi]
        exact hsame _ (hpcs i)
    · cases e with
      | none => exact ⟨refused, hlog'.trans hlog⟩
      | some ev =>
        obtain rfl := hev ev rfl
        exact ⟨a.thread :: refused, by rw [hlog', hlog]; rfl⟩

/-- The three warmups of a session fill a ring of one batch, and a request of one row is refused. -/
theorem refused_of_single_batch_oneByOne :
    ∃ w : RingWorld oneByOne ℕ, w.log.length = (warmLog oneByOne 3).length + 1 ∧
      ∃ refused : List ℕ, w.log = refused.map (fun t => .failed t .ringFull) ++ warmLog oneByOne 3 := by
  have hrun : (runServed (fun _ _ _ _ => true) 3 (fun _ _ => byteTensor 1) (⟨2, .infer byteRequest⟩ :: go 2 2)).map
      (fun w : RingWorld oneByOne ℕ => w.log.length) = some ((warmLog oneByOne 3).length + 1) := by decide +kernel
  obtain ⟨w, hrun, hw⟩ := Option.map_eq_some_iff.1 hrun
  exact ⟨w, hw, (refused_of_single_batch rfl (by decide)
    (ServedRing.of_runServed (fun _ _ _ _ _ => True.intro) hrun : ServedRing (fun _ _ _ _ => True) 3 _ w)).2.2.2⟩

end Toutates
