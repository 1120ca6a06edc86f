/-
# A wake-up cell

The notification cell of `tokio::sync::Notify`, as documented: it carries no
data, only permission to go on.

* `notify_one` wakes the waiter enqueued first, or, when nobody is enqueued,
  stores a permit; a second call before the permit is taken stores nothing more.
* `notify_waiters` wakes every waiter whose future exists already and stores
  nothing: a future remembers how many of these calls it was created after.
* A future is enqueued when it is first polled, not when it is created.  That poll
  takes a stored permit before it looks at the calls of `notify_waiters`; a future
  that was enqueued leaves the permit.
* A future dropped after `notify_one` chose it hands the wake-up on.

A cell is *silent* (`Notify.Silent`) when no poll of it can succeed: no permit,
nobody woken, no `notify_waiters` so far.  A poll of a silent cell waits and
leaves it silent, so whoever goes on has been notified.

A cell is *pending* (`Notify.Pending`) when `notify_one` has left something in it
that no waiter has taken.  A poll that waits leaves it pending, and where the cell
has one waiter, that one goes on.
-/

import Mathlib.Data.List.Basic

namespace Basis

/-- A notification cell: the stored permit, the waiters enqueued and not yet
woken (first come first), the waiters woken by `notify_one` and by `notify_waiters`
that have not run since, and the number of `notify_waiters` calls. -/
structure Notify where
  permit : Bool
  waiters : List ℕ
  woken : List ℕ
  called : List ℕ
  calls : ℕ
deriving DecidableEq

namespace Notify

/-- `Notify::new`. -/
def new : Notify := ⟨false, [], [], [], 0⟩

/-- `Notify::notified`: the future remembers the number of `notify_waiters`
calls so far. -/
def notified (n : Notify) : ℕ := n.calls

/-- One poll by waiter `i` of the future that was created at `ticket`: whether
it is ready, and the cell afterwards. -/
def poll (n : Notify) (ticket i : ℕ) : Bool × Notify :=
  if i ∈ n.woken then (true, { n with woken := n.woken.erase i })
  else if n.permit = true ∧ i ∉ n.waiters ∧ i ∉ n.called then (true, { n with permit := false })
  else if ticket < n.calls then (true, { n with waiters := n.waiters.erase i, called := n.called.erase i })
  else if i ∈ n.waiters then (false, n)
  else (false, { n with waiters := n.waiters ++ [i] })

/-- `Notify::notify_one`. -/
def notifyOne (n : Notify) : Notify :=
  match n.waiters with
  | [] => { n with permit := true }
  | i :: rest => { n with waiters := rest, woken := i :: n.woken }

/-- `Notify::notify_waiters`. -/
def notifyWaiters (n : Notify) : Notify :=
  { n with waiters := [], called := n.called ++ n.waiters, calls := n.calls + 1 }

/-- The future of waiter `i` is dropped before it was ready. -/
def cancel (n : Notify) (i : ℕ) : Notify :=
  if i ∈ n.woken then notifyOne { n with woken := n.woken.erase i }
  else { n with waiters := n.waiters.erase i, called := n.called.erase i }

/-- Nothing in the cell lets a waiter go on. -/
structure Silent (n : Notify) : Prop where
  permit : n.permit = false
  woken : n.woken = []
  calls : n.calls = 0

/-- A new cell is silent. -/
theorem new_silent : new.Silent := ⟨rfl, rfl, rfl⟩

/-- **A silent cell makes everyone wait.** -/
theorem Silent.poll_fst {n : Notify} (h : n.Silent) (ticket i : ℕ) : (n.poll ticket i).1 = false := by
  unfold poll
  rw [h.woken, h.permit, h.calls, if_neg List.not_mem_nil, if_neg fun hp => Bool.false_ne_true hp.1,
    if_neg (Nat.not_lt_zero ticket)]
  split_ifs <;> rfl

/-- A poll of a silent cell leaves it silent. -/
theorem Silent.poll_snd {n : Notify} (h : n.Silent) (ticket i : ℕ) : (n.poll ticket i).2.Silent := by
  unfold poll
  rw [if_neg (h.woken ▸ List.not_mem_nil), if_neg fun hp => Bool.false_ne_true (h.permit.symm.trans hp.1),
    if_neg (h.calls ▸ Nat.not_lt_zero ticket)]
  split_ifs
  · exact h
  · exact ⟨h.permit, h.woken, h.calls⟩

/-- Dropping a future of a silent cell leaves it silent. -/
theorem Silent.cancel {n : Notify} (h : n.Silent) (i : ℕ) : (n.cancel i).Silent := by
  unfold Notify.cancel
  rw [h.woken, if_neg List.not_mem_nil]
  exact ⟨h.permit, rfl, h.calls⟩

/-- At most one poll can succeed before somebody is notified again. -/
structure Single (n : Notify) : Prop where
  calls : n.calls = 0
  one : n.permit = true ∧ n.woken = [] ∨ n.permit = false ∧ n.woken.length ≤ 1

/-- A silent cell lets nobody go on, so at most one. -/
theorem Silent.single {n : Notify} (h : n.Silent) : n.Single :=
  ⟨h.calls, .inr ⟨h.permit, by rw [h.woken]; exact Nat.zero_le 1⟩⟩

/-- One notification of a silent cell lets one waiter go on. -/
theorem Silent.single_notifyOne {n : Notify} (h : n.Silent) : n.notifyOne.Single := by
  unfold notifyOne
  split
  · exact ⟨h.calls, .inl ⟨rfl, h.woken⟩⟩
  · exact ⟨h.calls, .inr ⟨h.permit, by rw [h.woken]; exact Nat.le_refl 1⟩⟩

/-- A poll that waits takes nothing. -/
theorem Single.poll {n : Notify} {ticket i : ℕ} (h : n.Single) (hfst : (n.poll ticket i).1 = false) :
    (n.poll ticket i).2.Single := by
  unfold Notify.poll at hfst ⊢
  split_ifs at hfst ⊢
  · exact h
  · exact ⟨h.calls, h.one⟩

/-- **The poll that succeeds leaves nothing.** -/
theorem Single.poll_silent {n : Notify} {ticket i : ℕ} (h : n.Single) (hfst : (n.poll ticket i).1 = true) :
    (n.poll ticket i).2.Silent := by
  unfold Notify.poll at hfst ⊢
  split_ifs at hfst ⊢ with hwoken hpermit hcalls hwaits
  · rcases h.one with ⟨-, hnil⟩ | ⟨hpermit, hlen⟩
    · exact absurd (hnil ▸ hwoken) List.not_mem_nil
    · refine ⟨hpermit, List.length_eq_zero_iff.1 ?_, h.calls⟩
      have hlength := List.length_erase_of_mem hwoken
      show (n.woken.erase i).length = 0
      omega
  · rcases h.one with ⟨-, hnil⟩ | ⟨hnot, -⟩
    · exact ⟨rfl, hnil, h.calls⟩
    · exact absurd (hnot.symm.trans hpermit.1) Bool.false_ne_true
  · exact absurd hcalls (h.calls ▸ Nat.not_lt_zero ticket)

/-- Nothing was ever put into the cell for one waiter: only a call of `notify_waiters` lets
anybody go on. -/
structure Unfed (n : Notify) : Prop where
  permit : n.permit = false
  woken : n.woken = []

/-- A poll of a cell for all goes on exactly when there was a call after the future was created. -/
theorem Unfed.poll_fst {n : Notify} (h : n.Unfed) (ticket i : ℕ) :
    (n.poll ticket i).1 = decide (ticket < n.calls) := by
  unfold poll
  rw [h.woken, h.permit, if_neg List.not_mem_nil, if_neg fun hp => Bool.false_ne_true hp.1]
  split_ifs with hcalls
  · exact (decide_eq_true hcalls).symm
  · exact (decide_eq_false hcalls).symm
  · exact (decide_eq_false hcalls).symm

/-- A poll of a cell for all leaves it one. -/
theorem Unfed.poll_snd {n : Notify} (h : n.Unfed) (ticket i : ℕ) : (n.poll ticket i).2.Unfed := by
  unfold poll
  rw [if_neg (h.woken ▸ List.not_mem_nil), if_neg fun hp => Bool.false_ne_true (h.permit.symm.trans hp.1)]
  split_ifs <;> exact ⟨h.permit, h.woken⟩

/-- A future of a cell for all that is dropped leaves the queue. -/
theorem Unfed.cancel_eq {n : Notify} (h : n.Unfed) (i : ℕ) :
    n.cancel i = { n with waiters := n.waiters.erase i, called := n.called.erase i } := by
  unfold cancel
  rw [h.woken, if_neg List.not_mem_nil]

/-- Somebody can go on: a permit is stored, or a waiter was woken and has not run since. -/
def Pending (n : Notify) : Prop := n.permit = true ∨ n.woken ≠ []

/-- A permit is stored only while nobody is enqueued, and `notify_waiters` has woken nobody. -/
structure Settled (n : Notify) : Prop where
  waiters : n.permit = true → n.waiters = []
  called : n.called = []

/-- Waiter `i` is enqueued, or was woken and has not run since. -/
def Knows (n : Notify) (i : ℕ) : Prop := i ∈ n.waiters ∨ i ∈ n.woken

/-- A new cell is settled. -/
theorem new_settled : new.Settled := ⟨fun _ => rfl, rfl⟩

/-- A new cell knows nobody. -/
theorem not_knows_new (i : ℕ) : ¬ new.Knows i := by
  rintro (h | h)
  · exact List.not_mem_nil h
  · exact List.not_mem_nil h

/-- **A notification lets somebody go on.** -/
theorem pending_notifyOne (n : Notify) : n.notifyOne.Pending := by
  unfold notifyOne
  split
  · exact .inl rfl
  · exact .inr (List.cons_ne_nil _ _)

/-- A notification leaves a cell settled. -/
theorem Settled.notifyOne {n : Notify} (h : n.Settled) : n.notifyOne.Settled := by
  unfold Notify.notifyOne
  split
  · rename_i hw
    exact ⟨fun _ => hw, h.called⟩
  · rename_i i rest hw
    refine ⟨fun hp => ?_, h.called⟩
    exact absurd (hw.symm.trans (h.waiters hp)) (List.cons_ne_nil _ _)

/-- A notification makes nobody known. -/
theorem Knows.of_notifyOne {n : Notify} {j : ℕ} (h : n.notifyOne.Knows j) : n.Knows j := by
  unfold Notify.notifyOne at h
  split at h
  · exact h
  · rename_i i rest hw
    rcases h with h | h
    · exact .inl (hw ▸ List.mem_cons_of_mem _ h)
    · rcases List.mem_cons.1 h with rfl | h
      · exact .inl (hw ▸ List.mem_cons_self)
      · exact .inr h

section Poll

variable {n : Notify} {ticket i j : ℕ}

/-- A poll leaves a cell settled. -/
theorem Settled.poll (h : n.Settled) : (n.poll ticket i).2.Settled := by
  unfold Notify.poll
  split_ifs with hwoken hpermit hcalls hwaits
  · exact ⟨h.waiters, h.called⟩
  · exact ⟨fun hp => absurd hp Bool.false_ne_true, h.called⟩
  · refine ⟨fun hp => ?_, by rw [h.called, List.erase_nil]⟩
    have hnone : n.waiters.erase i = [] := by rw [h.waiters hp, List.erase_nil]
    exact hnone
  · exact h
  · refine ⟨fun hp => absurd ⟨hp, hwaits, ?_⟩ hpermit, h.called⟩
    rw [h.called]
    exact List.not_mem_nil

/-- A poll that waits takes nothing. -/
theorem Pending.poll (h : n.Pending) (hfst : (n.poll ticket i).1 = false) : (n.poll ticket i).2.Pending := by
  unfold Notify.poll at hfst ⊢
  split_ifs at hfst ⊢
  · exact h
  · exact h

/-- **The one waiter of a cell goes on when somebody can.** -/
theorem Settled.poll_fst (h : n.Settled) (hp : n.Pending) (hmine : ∀ j, n.Knows j → j = i) :
    (n.poll ticket i).1 = true := by
  unfold Notify.poll
  rcases hp with hp | hp
  · have hpermit : n.permit = true ∧ i ∉ n.waiters ∧ i ∉ n.called := by
      rw [h.waiters hp, h.called]
      exact ⟨hp, List.not_mem_nil, List.not_mem_nil⟩
    split_ifs <;> rfl
  · obtain ⟨j, hj⟩ := List.exists_mem_of_ne_nil _ hp
    obtain rfl := hmine j (.inr hj)
    rw [if_pos hj]

/-- A poll makes only its own waiter known. -/
theorem Knows.of_poll (h : (n.poll ticket i).2.Knows j) : n.Knows j ∨ j = i := by
  unfold Notify.poll at h
  split_ifs at h
  · exact .inl (h.imp_right List.mem_of_mem_erase)
  · exact .inl h
  · exact .inl (h.imp_left List.mem_of_mem_erase)
  · exact .inl h
  · rcases h with h | h
    · rcases List.mem_append.1 h with h | h
      · exact .inl (.inl h)
      · exact .inr (List.mem_singleton.1 h)
    · exact .inl (.inr h)

/-- A future that is dropped leaves a cell settled. -/
theorem Settled.cancel (h : n.Settled) : (n.cancel i).Settled := by
  unfold Notify.cancel
  split_ifs
  · exact Settled.notifyOne ⟨h.waiters, h.called⟩
  · refine ⟨fun hp => ?_, by rw [h.called, List.erase_nil]⟩
    have hnone : n.waiters.erase i = [] := by rw [h.waiters hp, List.erase_nil]
    exact hnone

/-- A future that is dropped makes nobody known. -/
theorem Knows.of_cancel (h : (n.cancel i).Knows j) : n.Knows j := by
  unfold Notify.cancel at h
  split_ifs at h
  · exact h.of_notifyOne.imp_right List.mem_of_mem_erase
  · exact h.imp_left List.mem_of_mem_erase

/-- A future created before the last call is ready. -/
theorem poll_fst_of_lt (h : ticket < n.calls) : (n.poll ticket i).1 = true := by
  unfold Notify.poll
  split_ifs <;> rfl

end Poll

/-- A poll calls nobody. -/
theorem poll_calls (n : Notify) (ticket i : ℕ) : (n.poll ticket i).2.calls = n.calls := by
  unfold poll
  split_ifs <;> rfl

end Notify

end Basis
