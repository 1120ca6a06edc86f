/-
# Round robin

The picks of a counter that goes round the slots of a list.  A full round picks every slot once
(`roundRobin_length_add`), so after any number of picks a value has been picked about as often as any
other that is in the list as often (`count_roundRobin_bounds`).
-/

import Mathlib.Data.List.Basic
import Mathlib.Data.List.Count

namespace Basis

variable {α : Type*}

/-- The first `n` picks from the slots of `l`. -/
def roundRobin (l : List α) (n : ℕ) : List (Option α) := (List.range n).map fun t => l[t % l.length]?

/-- One choice for each turn. -/
@[simp] theorem length_roundRobin (l : List α) (n : ℕ) : (roundRobin l n).length = n := by
  rw [roundRobin, List.length_map, List.length_range]

/-- One more turn. -/
theorem roundRobin_succ (l : List α) (n : ℕ) : roundRobin l (n + 1) = roundRobin l n ++ [l[n % l.length]?] := by
  rw [roundRobin, List.range_succ, List.map_append]
  rfl

/-- Less than a round. -/
theorem roundRobin_of_le {l : List α} {n : ℕ} (h : n ≤ l.length) : roundRobin l n = (l.take n).map some := by
  refine List.ext_getElem ?_ fun t ht ht' => ?_
  · rw [length_roundRobin, List.length_map, List.length_take, Nat.min_eq_left h]
  · rw [length_roundRobin] at ht
    have hlt : t < l.length := Nat.lt_of_lt_of_le ht h
    simp [roundRobin, Nat.mod_eq_of_lt hlt, hlt]

/-- A round, and then what there would be without it. -/
theorem roundRobin_length_add (l : List α) (n : ℕ) : roundRobin l (l.length + n) = l.map some ++ roundRobin l n := by
  have hround := roundRobin_of_le (Nat.le_refl l.length)
  rw [List.take_length] at hround
  rw [← hround]
  simp only [roundRobin, List.range_add, List.map_append, List.map_map]
  congr 1
  refine List.map_congr_left fun t _ => ?_
  rw [Function.comp_apply, Nat.add_mod_left]

variable [DecidableEq α]

/-- An element is as often among the choices as it is in the list. -/
theorem count_map_some (l : List α) (a : α) : (l.map some).count (some a) = l.count a :=
  List.count_map_of_injective l some (fun _ _ => Option.some.inj) a

/-- Some rounds, and then less than one. -/
theorem count_roundRobin {l : List α} {r : ℕ} (hr : r ≤ l.length) (q : ℕ) (a : α) :
    (roundRobin l (q * l.length + r)).count (some a) = q * l.count a + (l.take r).count a := by
  induction q with
  | zero => rw [Nat.zero_mul, Nat.zero_add, Nat.zero_mul, Nat.zero_add, roundRobin_of_le hr, count_map_some]
  | succ q ih =>
    rw [Nat.succ_mul, Nat.add_right_comm, Nat.add_comm, roundRobin_length_add, List.count_append, count_map_some, ih,
      Nat.succ_mul]
    omega

/-- **Round robin is balanced.** -/
theorem count_roundRobin_bounds (l : List α) (n : ℕ) (a : α) :
    n / l.length * l.count a ≤ (roundRobin l n).count (some a) ∧
      (roundRobin l n).count (some a) ≤ (n / l.length + 1) * l.count a := by
  rcases l.eq_nil_or_concat' with rfl | ⟨_, _, hl⟩
  · refine ⟨Nat.zero_le _, Nat.le_of_eq (List.count_eq_zero.2 fun hmem => ?_)⟩
    obtain ⟨t, -, ht⟩ := List.mem_map.1 hmem
    cases ht
  · have hpos : 0 < l.length := by
      rw [hl, List.length_append]
      exact Nat.succ_pos _
    have hn : n / l.length * l.length + n % l.length = n := Nat.div_add_mod' n l.length
    have hcount := count_roundRobin (Nat.le_of_lt (Nat.mod_lt n hpos)) (n / l.length) a
    rw [hn] at hcount
    have hle : (l.take (n % l.length)).count a ≤ l.count a := (List.take_sublist _ l).count_le a
    rw [hcount, Nat.succ_mul]
    omega

end Basis
