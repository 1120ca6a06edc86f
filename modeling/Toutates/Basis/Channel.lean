/-
# Channels between threads

The bounded channel of `tokio::sync::mpsc` and the channel of `tokio::sync::oneshot` are parameters, with
what their documentation promises as laws (`Mpsc`, `Oneshot`).

* A send waits while the channel is full, and fails once the receiver is gone.  Messages are received
  in the order in which they were sent.
* A one-shot channel carries one value.  Its receiver waits until the value is sent, and fails once the
  sender is gone without it.

`Mpsc.Carries` ties a channel to what has gone through it: the messages that wait are those that have
been sent and not been received, and a receiver is given the next of them (`Carries.recv`).  A queue
(`Queue`) and a cell (`Cell`) have the laws.
-/

import Mathlib.Data.List.Basic

namespace Basis

/-- What a send comes to at once. -/
inductive Sent (σ : Type*) where
  | full
  | closed
  | sent (channel : σ)

/-- A bounded channel of `tokio::sync::mpsc`: its states are `σ`, its messages `μ`. -/
class Mpsc (σ : Type*) (μ : outParam (Type*)) where
  /-- `mpsc::channel`. -/
  channel : ℕ → σ
  /-- `Sender::blocking_send`; it waits while it is `full`. -/
  send : σ → μ → Sent σ
  /-- `Receiver::recv` while there is a sender; it waits when there is nothing. -/
  recv : σ → Option (μ × σ)
  /-- The messages that wait, in the order in which they were sent. -/
  messages : σ → List μ
  /-- How many messages can wait. -/
  bound : σ → ℕ
  /-- The receiver is gone. -/
  closed : σ → Bool
  /-- A new channel is empty, and its receiver is there. -/
  channel_spec : ∀ n, messages (channel n) = [] ∧ bound (channel n) = n ∧ closed (channel n) = false
  /-- While there is room, a message is put behind the others. -/
  send_spec : ∀ c m, closed c = false → (messages c).length < bound c →
    ∃ c', send c m = .sent c' ∧ messages c' = messages c ++ [m] ∧ bound c' = bound c ∧ closed c' = false
  /-- A send waits for room. -/
  send_full : ∀ c m, closed c = false → ¬ (messages c).length < bound c → send c m = .full
  /-- A send to a receiver that is gone fails. -/
  send_closed : ∀ c m, closed c = true → send c m = .closed
  /-- A receiver is given the first message. -/
  recv_spec : ∀ c m rest, messages c = m :: rest →
    ∃ c', recv c = some (m, c') ∧ messages c' = rest ∧ bound c' = bound c ∧ closed c' = closed c
  /-- A receiver waits when there is none. -/
  recv_empty : ∀ c, messages c = [] → recv c = none

namespace Mpsc

variable {σ μ : Type*} [Mpsc σ μ]

/-- The channel is open and holds the messages of `sent` from number `received` on. -/
structure Carries (c : σ) (n : ℕ) (sent : List μ) (received : ℕ) : Prop where
  messages : messages c = sent.drop received
  le : received ≤ sent.length
  bound : bound c = n
  opened : closed c = false

namespace Carries

variable {c c' : σ} {n : ℕ} {sent : List μ} {received : ℕ} {m : μ}

/-- A new channel carries nothing yet. -/
theorem channel (n : ℕ) : Carries (channel n : σ) n ([] : List μ) 0 := by
  obtain ⟨hmessages, hbound, hclosed⟩ := @channel_spec σ μ _ n
  exact ⟨hmessages, Nat.le_refl 0, hbound, hclosed⟩

/-- What has been sent has been received or waits. -/
theorem length_messages (h : Carries c n sent received) : (Mpsc.messages c).length + received = sent.length := by
  rw [h.messages, List.length_drop, Nat.sub_add_cancel h.le]

/-- An open channel fails no send. -/
theorem send_ne_closed (h : Carries c n sent received) : Mpsc.send c m ≠ .closed := by
  intro hs
  by_cases hlt : (Mpsc.messages c).length < Mpsc.bound c
  · obtain ⟨c', hsent, -⟩ := send_spec c m h.opened hlt
    rw [hsent] at hs
    cases hs
  · rw [send_full c m h.opened hlt] at hs
    cases hs

/-- A channel from which everything has been received fails no send, and does not let one wait. -/
theorem send_ne_full (h : Carries c n sent sent.length) (hn : 0 < n) : Mpsc.send c m ≠ .full := by
  intro hs
  have hlen := h.length_messages
  have hbound := h.bound
  obtain ⟨c', hsent, -⟩ := send_spec c m h.opened (by omega)
  rw [hsent] at hs
  cases hs

/-- A send adds its message at the end. -/
theorem send (h : Carries c n sent received) (hs : Mpsc.send c m = .sent c') : Carries c' n (sent ++ [m]) received := by
  by_cases hlt : (Mpsc.messages c).length < Mpsc.bound c
  · obtain ⟨d, hsent, hmessages, hbound, hclosed⟩ := send_spec c m h.opened hlt
    obtain rfl := Sent.sent.inj (hs.symm.trans hsent)
    refine ⟨?_, ?_, hbound.trans h.bound, hclosed⟩
    · rw [hmessages, h.messages, List.drop_append_of_le_length h.le]
    · rw [List.length_append]
      exact Nat.le_add_right_of_le h.le
  · rw [send_full c m h.opened hlt] at hs
    cases hs

/-- A receiver is given the next message. -/
theorem recv (h : Carries c n sent received) (hr : Mpsc.recv c = some (m, c')) :
    sent[received]? = some m ∧ Carries c' n sent (received + 1) := by
  cases hmessages : Mpsc.messages c with
  | nil =>
    rw [recv_empty c hmessages] at hr
    cases hr
  | cons m' rest =>
    obtain ⟨d, hgiven, hrest, hbound, hclosed⟩ := recv_spec c m' rest hmessages
    obtain ⟨rfl, rfl⟩ := Prod.mk.inj (Option.some.inj (hr.symm.trans hgiven))
    have hdrop : sent.drop received = m :: rest := h.messages.symm.trans hmessages
    have hget : sent[received]? = some m := by
      rw [← Nat.add_zero received, ← List.getElem?_drop, hdrop]
      rfl
    refine ⟨hget, ?_, (List.getElem?_eq_some_iff.1 hget).1, hbound.trans h.bound, hclosed.trans h.opened⟩
    rw [hrest, ← List.tail_drop, hdrop]
    rfl

/-- A receiver waits when it has been given everything, and at no other time. -/
theorem recv_eq_none (h : Carries c n sent received) : Mpsc.recv c = none ↔ received = sent.length := by
  have hlen := h.length_messages
  cases hmessages : Mpsc.messages c with
  | nil =>
    rw [hmessages] at hlen
    exact iff_of_true (recv_empty c hmessages) (by simpa using hlen)
  | cons m rest =>
    obtain ⟨c', hgiven, -⟩ := recv_spec c m rest hmessages
    rw [hmessages, List.length_cons] at hlen
    refine iff_of_false ?_ (by omega)
    rw [hgiven]
    exact nofun

end Carries

end Mpsc

/-- What a receiver of one value finds. -/
inductive Received (β : Type*) where
  | pending
  | value (b : β)
  | dropped

/-- A channel of `tokio::sync::oneshot`: its states are `τ`, its values `β`. -/
class Oneshot (τ : Type*) (β : outParam (Type*)) where
  /-- `oneshot::channel`. -/
  channel : τ
  /-- `Sender::send`. -/
  send : τ → β → τ
  /-- `Receiver::blocking_recv`; it waits while the value is `pending`. -/
  recv : τ → Received β
  /-- The value of a new channel is still to come. -/
  recv_channel : recv channel = .pending
  /-- The receiver is given the value that was sent. -/
  recv_send : ∀ c b, recv c = .pending → recv (send c b) = .value b

/-! ### A queue and a cell -/

/-- A bounded channel as a queue: its bound, the messages that wait, and whether the receiver is gone. -/
structure Queue (μ : Type*) where
  bound : ℕ
  queue : List μ
  closed : Bool

instance (μ : Type*) : Mpsc (Queue μ) μ where
  channel n := ⟨n, [], false⟩
  send c m :=
    if c.closed then .closed
    else if c.queue.length < c.bound then .sent { c with queue := c.queue ++ [m] }
    else .full
  recv c :=
    match c.queue with
    | [] => none
    | m :: queue => some (m, { c with queue := queue })
  messages := Queue.queue
  bound := Queue.bound
  closed := Queue.closed
  channel_spec n := ⟨rfl, rfl, rfl⟩
  send_spec c m hopen hlt := ⟨{ c with queue := c.queue ++ [m] }, by simp [hopen, hlt], rfl, rfl, hopen⟩
  send_full c m hopen hlt := by simp [hopen, hlt]
  send_closed c m hclosed := if_pos hclosed
  recv_spec c m rest hqueue := ⟨{ c with queue := rest }, by rw [hqueue], rfl, rfl, rfl⟩
  recv_empty c hqueue := by rw [hqueue]

/-- A one-shot channel as a cell. -/
abbrev Cell (β : Type*) := Option β

instance (β : Type*) : Oneshot (Cell β) β where
  channel := none
  send _ b := some b
  recv c := c.elim .pending .value
  recv_channel := rfl
  recv_send _ _ _ := rfl

end Basis
