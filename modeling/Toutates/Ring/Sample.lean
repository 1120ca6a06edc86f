/-
# Small buffers to run

A run that is written down as a list of actions reaches a world
(`Runs.of_runIf`), and the threads it does not name stay idle (`idle_of_runIf`).
With the small buffers and requests below, a list of actions is enough to exhibit a
world with a given property: the kernel runs the actions.
-/

import Toutates.Ring.Transition

namespace Toutates

open Basis

variable {g : Geometry} {α : Type} [DecidableEq α]

/-- The worlds that a list of actions leads to from a new buffer, when the steps are all
allowed by `ok`. -/
def runFresh (ops : CounterOps g α) (ok : ℕ → SuperTensorBuffer g α → Pc g α → Choice → Bool)
    (inputTensors : Fin g.capacity → Fin g.numInputs → BatchableTensor g.batchSize)
    (as : List (Action Choice)) : Option (RingWorld g α) :=
  (program ops).runIf ok (fresh ops inputTensors) as

section

variable {ops : CounterOps g α} {ok : ℕ → SuperTensorBuffer g α → Pc g α → Choice → Bool}
  {inputTensors : Fin g.capacity → Fin g.numInputs → BatchableTensor g.batchSize}
  {as : List (Action Choice)} {w : RingWorld g α}

/-- A run that is computed is a run. -/
theorem Runs.of_runFresh {G : RingGuard g α} (hG : ∀ i s pc c, ok i s pc c = true → G i s pc c)
    (h : runFresh ops ok inputTensors as = some w) : Runs ops G w :=
  ⟨inputTensors, Reach.of_runIf hG h⟩

/-- A thread that takes no step is idle. -/
theorem idle_of_runFresh (h : runFresh ops ok inputTensors as = some w) {i : ℕ}
    (hi : ∀ a ∈ as, a.thread ≠ i) : w.threads i = .idle :=
  Program.runIf_threads h hi

/-- What holds of the threads a run names, and of a thread that is idle, holds of all. -/
theorem forall_threads_of_runFresh (h : runFresh ops ok inputTensors as = some w) {n : ℕ}
    {p : Pc g α → Bool} (hn : as.all (fun a => a.thread < n) = true) (hidle : p .idle = true)
    (hlt : (List.range n).all (fun i => p (w.threads i)) = true) (i : ℕ) : p (w.threads i) = true := by
  rcases Nat.lt_or_ge i n with hi | hi
  · exact List.all_eq_true.1 hlt i (List.mem_range.2 hi)
  · rw [idle_of_runFresh h fun a ha heq => ?_]
    · exact hidle
    · have := of_decide_eq_true (List.all_eq_true.1 hn a ha)
      omega

/-- The run from a new buffer itself. -/
theorem reach_of_runFresh {G : RingGuard g α} (hG : ∀ i s pc c, ok i s pc c = true → G i s pc c)
    (h : runFresh ops ok inputTensors as = some w) :
    Reach (program ops) G (fresh ops inputTensors) w :=
  Reach.of_runIf hG h

/-- A run that shows `x` to an observer ends in a world that shows it. -/
theorem world_of_runFresh {β : Type} (observe : RingWorld g α → β) {x : β}
    (h : (runFresh ops ok inputTensors as).map observe = some x) :
    ∃ w, runFresh ops ok inputTensors as = some w ∧ observe w = x :=
  Option.map_eq_some_iff.1 h

end

/-- A thread goes `n` steps. -/
def go (thread n : ℕ) : List (Action Choice) := List.replicate n ⟨thread, .go⟩

/-- A client thread calls `infer`, and takes its rows if no other thread moves. -/
def reserve (thread : ℕ) (request : Request) : List (Action Choice) :=
  ⟨thread, .infer request⟩ :: go thread 3

/-- A session thread calls `execute_on_batch` and claims a batch, if no other thread moves. -/
def claimBatch (thread : ℕ) : List (Action Choice) := ⟨thread, .executeOnBatch⟩ :: go thread 3

/-- Two batches of one slot, one model input. -/
def twoByOne : Geometry := ⟨2, 1, 1, by decide, by decide, by decide, by decide⟩

/-- Four batches of one slot, one model input. -/
def fourByOne : Geometry := ⟨4, 1, 1, by decide, by decide, by decide, by decide⟩

/-- Two batches of two slots, one model input. -/
def twoByTwo : Geometry := ⟨2, 2, 1, by decide, by decide, by decide, by decide⟩

/-- One batch of one slot, one model input. -/
def oneByOne : Geometry := ⟨1, 1, 1, by decide, by decide, by decide, by decide⟩

/-- A model input of one byte a row. -/
def byteTensor (batchSize : ℕ) : BatchableTensor batchSize where
  innerTensor := ⟨.uint8, [batchSize, 1], List.replicate batchSize 0, fun w hw => by
    obtain rfl : 1 = w := Option.some.inj hw
    simp [numElements]⟩
  dataType := .uint8
  singleTensorShape := [1, 1]
  tag_eq := rfl
  shape_eq := ⟨[1], by simp⟩

/-- A request of one row of one byte. -/
def byteRequest : Request := ⟨[⟨.typeUint8, [1, 1], [7]⟩], by simp⟩

/-- A request of three rows of one byte. -/
def threeRows : Request := ⟨[⟨.typeUint8, [3, 1], [7, 8, 9]⟩], by simp⟩

/-- A client inserts one row into the first slot of a batch, counts it and notifies, once it
has taken the position. -/
def insertRow (thread : ℕ) : List (Action Choice) :=
  go thread 2 ++ ⟨thread, .clock 0⟩ :: go thread 8

/-- An executor goes through all stages of a full batch that has been notified, up to its
reset. -/
def runBatch (thread : ℕ) : List (Action Choice) :=
  go thread 7 ++ ⟨thread, .clock 1⟩ :: go thread 3 ++
    [⟨thread, .ran (.ok [])⟩, ⟨thread, .clock 2⟩] ++ go thread 6

end Toutates
