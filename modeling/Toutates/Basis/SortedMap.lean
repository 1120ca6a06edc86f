/-
# Maps as sorted lists of entries

A finite map kept as the list of its entries in the order of the keys, which is also the order
it is iterated in.  `upsert` is the one write: it gives the entry of a key a new value computed
from the old one, or makes the entry.  `orInsert` keeps an entry that exists, and `push` appends
to the list that an entry holds.
-/

import Mathlib.Order.Lattice
import Mathlib.Data.List.Basic

namespace Basis

namespace SortedMap

variable {κ β : Type*} [LinearOrder κ]

/-- The entry of `k` becomes `f` of what it was. -/
def upsert (k : κ) (f : Option β → β) : List (κ × β) → List (κ × β)
  | [] => [(k, f none)]
  | (k', v) :: rest =>
    if k < k' then (k, f none) :: (k', v) :: rest
    else if k' < k then (k', v) :: upsert k f rest
    else (k', f (some v)) :: rest

/-- The entries are in the order of their keys. -/
def Sorted (m : List (κ × β)) : Prop := m.Pairwise (·.1 < ·.1)

/-- What is in a map after an update. -/
theorem mem_upsert {k : κ} {f : Option β → β} {m : List (κ × β)} {p : κ × β} (h : p ∈ upsert k f m) :
    p ∈ m ∨ p = (k, f none) ∨ ∃ v, (k, v) ∈ m ∧ p = (k, f (some v)) := by
  induction m with
  | nil => exact .inr (.inl (List.mem_singleton.1 h))
  | cons q rest ih =>
    obtain ⟨k', v⟩ := q
    rw [upsert] at h
    split_ifs at h with h₁ h₂
    · rcases List.mem_cons.1 h with rfl | h
      · exact .inr (.inl rfl)
      · exact .inl h
    · rcases List.mem_cons.1 h with rfl | h
      · exact .inl List.mem_cons_self
      · rcases ih h with h | h | ⟨u, hu, hp⟩
        · exact .inl (List.mem_cons_of_mem _ h)
        · exact .inr (.inl h)
        · exact .inr (.inr ⟨u, List.mem_cons_of_mem _ hu, hp⟩)
    · obtain rfl := le_antisymm (not_lt.1 h₁) (not_lt.1 h₂)
      rcases List.mem_cons.1 h with rfl | h
      · exact .inr (.inr ⟨v, List.mem_cons_self, rfl⟩)
      · exact .inl (List.mem_cons_of_mem _ h)

/-- An update adds no other key. -/
theorem key_of_mem_upsert {k : κ} {f : Option β → β} {m : List (κ × β)} {p : κ × β} (h : p ∈ upsert k f m) :
    p.1 = k ∨ p ∈ m := by
  rcases mem_upsert h with h | rfl | ⟨v, -, rfl⟩
  · exact .inr h
  · exact .inl rfl
  · exact .inl rfl

/-- An update keeps a map sorted. -/
theorem Sorted.upsert {m : List (κ × β)} (h : Sorted m) (k : κ) (f : Option β → β) :
    Sorted (upsert k f m) := by
  induction m with
  | nil => exact List.pairwise_singleton _ _
  | cons q rest ih =>
    obtain ⟨k', v⟩ := q
    obtain ⟨hhead, hrest⟩ := List.pairwise_cons.1 h
    rw [SortedMap.upsert]
    split_ifs with h₁ h₂
    · refine List.pairwise_cons.2 ⟨fun p hp => ?_, h⟩
      rcases List.mem_cons.1 hp with rfl | hp
      · exact h₁
      · exact lt_trans h₁ (hhead p hp)
    · refine List.pairwise_cons.2 ⟨fun p hp => ?_, ih hrest⟩
      rcases key_of_mem_upsert hp with hk | hp
      · exact hk ▸ h₂
      · exact hhead p hp
    · exact List.pairwise_cons.2 ⟨hhead, hrest⟩

/-- The entry of `k`, made with the value `v` when there is none. -/
def orInsert (k : κ) (v : β) (m : List (κ × β)) : List (κ × β) := upsert k (·.getD v) m

/-- What is in a map after a default. -/
theorem mem_orInsert {k : κ} {v : β} {m : List (κ × β)} {p : κ × β} (h : p ∈ orInsert k v m) :
    p ∈ m ∨ p = (k, v) := by
  rcases mem_upsert h with h | rfl | ⟨u, hu, rfl⟩
  · exact .inl h
  · exact .inr rfl
  · exact .inl hu

/-- A default replaces nothing. -/
theorem mem_orInsert_of_mem {k : κ} {v : β} {m : List (κ × β)} {p : κ × β} (h : p ∈ m) : p ∈ orInsert k v m := by
  induction m with
  | nil => cases h
  | cons q rest ih =>
    obtain ⟨k', u⟩ := q
    rw [orInsert, upsert]
    split_ifs with h₁ h₂
    · exact List.mem_cons_of_mem _ h
    · rcases List.mem_cons.1 h with rfl | h
      · exact List.mem_cons_self
      · exact List.mem_cons_of_mem _ (ih h)
    · exact h

/-- After a default the key is there. -/
theorem exists_mem_orInsert (k : κ) (v : β) (m : List (κ × β)) : ∃ u, (k, u) ∈ orInsert k v m := by
  induction m with
  | nil => exact ⟨v, List.mem_cons_self⟩
  | cons q rest ih =>
    obtain ⟨k', u⟩ := q
    rw [orInsert, upsert]
    split_ifs with h₁ h₂
    · exact ⟨v, List.mem_cons_self⟩
    · obtain ⟨w, hw⟩ := ih
      exact ⟨w, List.mem_cons_of_mem _ hw⟩
    · obtain rfl := le_antisymm (not_lt.1 h₁) (not_lt.1 h₂)
      exact ⟨u, List.mem_cons_self⟩

section Push

variable {γ : Type*}

/-- The list of `k` with `x` at its end. -/
def push (k : κ) (x : γ) (m : List (κ × List γ)) : List (κ × List γ) := upsert k (·.getD [] ++ [x]) m

/-- What the list of a key holds was there before, or is what was pushed on it. -/
theorem mem_push {k : κ} {x y : γ} {m : List (κ × List γ)} {p : κ × List γ} (h : p ∈ push k x m) (hy : y ∈ p.2) :
    (p.1 = k ∧ y = x) ∨ ∃ q ∈ m, q.1 = p.1 ∧ y ∈ q.2 := by
  rcases mem_upsert h with h | rfl | ⟨v, hv, rfl⟩
  · exact .inr ⟨p, h, rfl, hy⟩
  · exact .inl ⟨rfl, by simpa using hy⟩
  · rcases List.mem_append.1 hy with hy | hy
    · exact .inr ⟨(k, v), hv, rfl, hy⟩
    · exact .inl ⟨rfl, List.mem_singleton.1 hy⟩

/-- All lists together hold what they held before and `x`. -/
theorem push_perm (k : κ) (x : γ) (m : List (κ × List γ)) :
    ((push k x m).flatMap Prod.snd).Perm (x :: m.flatMap Prod.snd) := by
  induction m with
  | nil => exact List.Perm.refl _
  | cons q rest ih =>
    obtain ⟨k', v⟩ := q
    rw [push, upsert]
    split_ifs
    · exact List.Perm.refl _
    · rw [List.flatMap_cons, List.flatMap_cons]
      exact (ih.append_left v).trans List.perm_middle
    · simp only [List.flatMap_cons, Option.getD_some, List.append_assoc, List.singleton_append]
      exact List.perm_middle

end Push

end SortedMap

end Basis
