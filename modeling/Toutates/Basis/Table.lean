/-
# A table filled by insertions, and a list sorted by it

`table l` is the map that is left when the pairs of a list are inserted one after the other: a key
that comes again gets the later value.  Where the keys come once, the table says what the list says
(`table_of_mem`).

A list whose keys are `0 .. n - 1` in some order is in the order of its keys once it is sorted by
them (`map_key_insertionSort`).
-/

import Mathlib.Data.List.Sort
import Mathlib.Data.List.Range
import Mathlib.Logic.Function.Basic

namespace Basis

variable {κ β α : Type*} [DecidableEq κ]

/-- The pairs of a list, inserted in order. -/
def table (l : List (κ × β)) : κ → Option β :=
  l.foldl (fun t a => Function.update t a.1 (some a.2)) fun _ => none

/-- One more entry is the latest one. -/
theorem table_concat (l : List (κ × β)) (a : κ × β) :
    table (l ++ [a]) = Function.update (table l) a.1 (some a.2) := by
  rw [table, List.foldl_append]
  rfl

/-- A table has the keys that were entered. -/
theorem table_isSome_iff {l : List (κ × β)} {k : κ} : (table l k).isSome ↔ k ∈ l.map Prod.fst := by
  induction l using List.reverseRecOn with
  | nil => simp [table]
  | append_singleton l a ih =>
    rw [table_concat, Function.update_apply, List.map_append, List.mem_append]
    split_ifs with hk
    · simp [hk]
    · simp [ih, hk]

/-- The value of a key that comes once. -/
theorem table_of_mem {l : List (κ × β)} (hl : (l.map Prod.fst).Nodup) {a : κ × β} (ha : a ∈ l) :
    table l a.1 = some a.2 := by
  induction l using List.reverseRecOn with
  | nil => exact absurd ha List.not_mem_nil
  | append_singleton l b ih =>
    rw [List.map_append, List.nodup_append] at hl
    obtain ⟨hl, -, hdis⟩ := hl
    rw [table_concat, Function.update_apply]
    rcases List.mem_append.1 ha with ha | ha
    · have hne : a.1 ≠ b.1 := hdis _ (List.mem_map_of_mem ha) _ (List.mem_singleton.2 rfl)
      rw [if_neg hne, ih hl ha]
    · rw [List.mem_singleton.1 ha, if_pos rfl]

/-- A list sorted by keys that are `0 .. n - 1` in some order. -/
theorem map_key_insertionSort {key : α → ℕ} {l : List α} {n : ℕ} (h : (l.map key).Perm (List.range n)) :
    (l.insertionSort fun a b => key a ≤ key b).map key = List.range n := by
  have hsorted : ((l.insertionSort fun a b => key a ≤ key b).map key).Pairwise (· ≤ ·) := by
    rw [List.pairwise_map]
    have : Std.Total fun a b : α => key a ≤ key b := ⟨fun a b => le_total (key a) (key b)⟩
    have : IsTrans α fun a b => key a ≤ key b := ⟨fun _ _ _ => le_trans⟩
    exact List.pairwise_insertionSort _ l
  have hperm : ((l.insertionSort fun a b => key a ≤ key b).map key).Perm (List.range n) :=
    ((List.perm_insertionSort _ l).map key).trans h
  exact hperm.eq_of_pairwise (fun _ _ _ _ => le_antisymm) hsorted List.pairwise_le_range

end Basis
