/-
# Work that is queued on a stream

A stream takes operations on a memory and does them one after the other, in the order in which they were
given to it and at times of its own, as is documented of a CUDA stream.  Streams are a parameter, with this
order as their laws (`WorkStream`).  What an operation reads beside the memory may change until it is done.

`Follows` says what is known of a stream while it works: the operations that were given to it last are done,
or will be, on top of whatever came before them.  Giving it an operation extends it (`Follows.enqueue`), and it
survives the work of the stream (`Follows.works`) and changes of what the operations do not read
(`Follows.congr`); then a stream that is synchronised holds their result (`Follows.of_drained`).  A list of
what is still to be done (`Backlog`) has the laws.
-/

import Mathlib.Data.List.Basic

namespace Basis

/-- The memory after some operations, when each does `exec`. -/
def WorkStream.after {ω μ : Type*} (exec : ω → μ → μ) (ops : List ω) (m : μ) : μ :=
  ops.foldl (fun m op => exec op m) m

/-- A stream of operations `ω` on a memory `μ`: its states are `δ`. -/
class WorkStream (δ : Type*) (ω μ : outParam (Type*)) where
  /-- A stream that has not been given anything. -/
  idle : μ → δ
  /-- An operation is given to the stream. -/
  enqueue : δ → ω → δ
  /-- What the stream may do while nobody looks. -/
  Works : (ω → μ → μ) → δ → δ → Prop
  /-- Somebody waits until the stream has done everything. -/
  synchronize : (ω → μ → μ) → δ → δ
  /-- The memory that the stream works on. -/
  memory : δ → μ
  /-- The operations that are not done, the oldest one first. -/
  pending : δ → List ω
  idle_spec : ∀ m, memory (idle m) = m ∧ pending (idle m) = []
  /-- An operation is put behind the others, and nothing is done yet. -/
  enqueue_spec : ∀ s op, memory (enqueue s op) = memory s ∧ pending (enqueue s op) = pending s ++ [op]
  /-- The stream does some of the oldest operations, in order. -/
  works_spec : ∀ exec s s', Works exec s s' →
    ∃ done, pending s = done ++ pending s' ∧ memory s' = WorkStream.after exec done (memory s)
  /-- A stream that is synchronised has done all operations, in order. -/
  synchronize_spec : ∀ exec s, pending (synchronize exec s) = [] ∧
    memory (synchronize exec s) = WorkStream.after exec (pending s) (memory s)

namespace WorkStream

section After

variable {ω μ : Type*} {exec exec' : ω → μ → μ} {ops : List ω} {m : μ}

/-- No operations do nothing. -/
@[simp] theorem after_nil : after exec [] m = m := rfl

/-- Operations after operations. -/
@[simp] theorem after_append (ops₁ ops₂ : List ω) :
    after exec (ops₁ ++ ops₂) m = after exec ops₂ (after exec ops₁ m) := List.foldl_append

/-- One operation. -/
@[simp] theorem after_singleton (op : ω) : after exec [op] m = exec op m := rfl

/-- Operations that do the same have the same result. -/
theorem after_congr (h : ∀ op ∈ ops, exec op = exec' op) : after exec ops m = after exec' ops m := by
  induction ops generalizing m with
  | nil => rfl
  | cons op ops ih =>
    show after exec ops (exec op m) = after exec' ops (exec' op m)
    rw [h op List.mem_cons_self, ih fun op' hop' => h op' (List.mem_cons_of_mem _ hop')]

/-- What each of the operations keeps, all of them keep. -/
theorem after_keeps {I : μ → Prop} (hexec : ∀ op ∈ ops, ∀ m, I m → I (exec op m)) (hm : I m) :
    I (after exec ops m) := by
  induction ops generalizing m with
  | nil => exact hm
  | cons op ops ih =>
    exact ih (fun op' hop' => hexec op' (List.mem_cons_of_mem _ hop')) (hexec op List.mem_cons_self m hm)

end After

variable {δ ω μ : Type*} [WorkStream δ ω μ]

/-- The operations `ops` were given to the stream last: it has not come to them, or it is amid them, or it has
done them.  `I` is what the memory keeps. -/
inductive Follows (exec : ω → μ → μ) (I : μ → Prop) (ops : List ω) (s : δ) : Prop
  | behind (old : List ω) (hpending : pending s = old ++ ops) (hI : I (memory s))
  | amid (done todo : List ω) (m : μ) (hops : ops = done ++ todo) (hpending : pending s = todo) (hI : I m)
      (hmemory : memory s = after exec done m)

namespace Follows

variable {exec exec' : ω → μ → μ} {I : μ → Prop} {ops : List ω} {s s' : δ}

/-- Nothing has been given to the stream yet. -/
theorem nil (hI : I (memory s)) : Follows exec I [] s := .behind (pending s) (List.append_nil _).symm hI

/-- The stream is given one more operation. -/
theorem enqueue (h : Follows exec I ops s) (op : ω) : Follows exec I (ops ++ [op]) (WorkStream.enqueue s op) := by
  obtain ⟨hmem, hpend⟩ := enqueue_spec s op
  cases h with
  | behind old hpending hI =>
    refine .behind old ?_ (hmem ▸ hI)
    rw [hpend, hpending, List.append_assoc]
  | amid done todo m hops hpending hI hmemory =>
    refine .amid done (todo ++ [op]) m ?_ ?_ hI (hmem.trans hmemory)
    · rw [hops, List.append_assoc]
    · rw [hpend, hpending]

/-- The stream does some operations. -/
theorem progress (hexec : ∀ op m, I m → I (exec op m)) (h : Follows exec I ops s) {finished : List ω}
    (hpend : pending s = finished ++ pending s') (hmem : memory s' = after exec finished (memory s)) :
    Follows exec I ops s' := by
  cases h with
  | behind old hpending hI =>
    rw [hpending] at hpend
    rcases List.append_eq_append_iff.1 hpend with ⟨done, rfl, hops⟩ | ⟨rest, rfl, hrest⟩
    · -- the stream has come to the operations
      refine .amid done (pending s') (after exec old (memory s)) hops rfl (after_keeps (fun op _ => hexec op) hI) ?_
      rw [hmem, after_append]
    · refine .behind rest hrest ?_
      rw [hmem]
      exact after_keeps (fun op _ => hexec op) hI
  | amid done todo m hops hpending hI hmemory =>
    refine .amid (done ++ finished) (pending s') m ?_ rfl hI ?_
    · rw [hops, List.append_assoc, ← hpend, hpending]
    · rw [hmem, hmemory, after_append]

/-- The stream works. -/
theorem works (hexec : ∀ op m, I m → I (exec op m)) (h : Follows exec I ops s) (hs : Works exec s s') :
    Follows exec I ops s' := by
  obtain ⟨done, hpend, hmem⟩ := works_spec exec s s' hs
  exact h.progress hexec hpend hmem

/-- Somebody waits for the stream. -/
theorem synchronize (hexec : ∀ op m, I m → I (exec op m)) (h : Follows exec I ops s) :
    Follows exec I ops (WorkStream.synchronize exec s) := by
  obtain ⟨hpend, hmem⟩ := synchronize_spec exec s
  exact h.progress hexec (by rw [hpend, List.append_nil]) hmem

/-- What the operations do not read changes. -/
theorem congr (hexec : ∀ op ∈ ops, exec op = exec' op) (h : Follows exec I ops s) : Follows exec' I ops s := by
  cases h with
  | behind old hpending hI => exact .behind old hpending hI
  | amid done todo m hops hpending hI hmemory =>
    refine .amid done todo m hops hpending hI ?_
    rw [hmemory]
    exact after_congr fun op hop => hexec op (hops ▸ List.mem_append_left todo hop)

/-- The memory of a stream that works keeps what every operation keeps. -/
theorem keeps (hexec : ∀ op m, I m → I (exec op m)) (h : Follows exec I ops s) : I (memory s) := by
  cases h with
  | behind old hpending hI => exact hI
  | amid done todo m hops hpending hI hmemory =>
    rw [hmemory]
    exact after_keeps (fun op _ => hexec op) hI

/-- **A stream with nothing left to do holds the result of the last operations.** -/
theorem of_drained (h : Follows exec I ops s) (hdrained : pending s = []) :
    ∃ m, I m ∧ memory s = after exec ops m := by
  cases h with
  | behind old hpending hI =>
    obtain ⟨-, rfl⟩ := List.append_eq_nil_iff.1 (hpending.symm.trans hdrained)
    exact ⟨memory s, hI, rfl⟩
  | amid done todo m hops hpending hI hmemory =>
    obtain rfl : todo = [] := hpending.symm.trans hdrained
    rw [List.append_nil] at hops
    exact ⟨m, hI, hops ▸ hmemory⟩

end Follows

end WorkStream

/-! ### A backlog -/

/-- A stream as its memory and the operations that are not done, which does one at a time. -/
structure Backlog (ω μ : Type*) where
  memory : μ
  pending : List ω

instance (ω μ : Type*) : WorkStream (Backlog ω μ) ω μ where
  idle m := ⟨m, []⟩
  enqueue s op := { s with pending := s.pending ++ [op] }
  Works exec s s' := ∃ op, s.pending = op :: s'.pending ∧ s'.memory = exec op s.memory
  synchronize exec s := ⟨WorkStream.after exec s.pending s.memory, []⟩
  memory := Backlog.memory
  pending := Backlog.pending
  idle_spec _ := ⟨rfl, rfl⟩
  enqueue_spec _ _ := ⟨rfl, rfl⟩
  works_spec _ _ _ := fun ⟨op, hpending, hmemory⟩ => ⟨[op], hpending, hmemory⟩
  synchronize_spec _ _ := ⟨rfl, rfl⟩

end Basis
