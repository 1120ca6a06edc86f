/-
# Overwriting a range of a list

`segment xs a n` is the slice `xs[a .. a + n]`, and `overwrite xs a src` is `xs`
after `copy_from_slice` of `src` into the slice that starts at `a`.  A list is
compared with another position by position (`getElem?`), so a write is described
by what it leaves at every position: the source inside the range it names and
the old value everywhere else (`getElem?_overwrite`).
-/

import Mathlib.Data.List.Basic

namespace Basis

variable {α : Type*}

/-- The `n` elements from position `a` on. -/
def segment (xs : List α) (a n : ℕ) : List α := (xs.drop a).take n

/-- `xs` with `src` written from position `a` on. -/
def overwrite (xs : List α) (a : ℕ) (src : List α) : List α :=
  xs.take a ++ (src ++ xs.drop (a + src.length))

/-- The length of a segment, cut at the end of the list. -/
theorem length_segment (xs : List α) (a n : ℕ) : (segment xs a n).length = min n (xs.length - a) := by
  simp [segment]

/-- The elements of a segment are those of the list. -/
theorem getElem?_segment (xs : List α) (a n i : ℕ) :
    (segment xs a n)[i]? = if i < n then xs[a + i]? else none := by
  unfold segment
  split_ifs with h
  · rw [List.getElem?_take_of_lt h, List.getElem?_drop]
  · exact List.getElem?_eq_none (by simp; omega)

/-- A list that is overwritten within its bounds keeps its length. -/
theorem length_overwrite {xs src : List α} {a : ℕ} (h : a + src.length ≤ xs.length) :
    (overwrite xs a src).length = xs.length := by
  simp only [overwrite, List.length_append, List.length_take, List.length_drop]
  omega

/-- The elements of a list that is overwritten. -/
theorem getElem?_overwrite {xs src : List α} {a : ℕ} (h : a + src.length ≤ xs.length) (i : ℕ) :
    (overwrite xs a src)[i]? = if a ≤ i ∧ i < a + src.length then src[i - a]? else xs[i]? := by
  have hl : (xs.take a).length = a := by rw [List.length_take]; omega
  unfold overwrite
  split_ifs with hi
  · rw [List.getElem?_append_right (by omega), hl, List.getElem?_append_left (by omega)]
  · rcases Nat.lt_or_ge i a with ha | ha
    · rw [List.getElem?_append_left (by omega), List.getElem?_take_of_lt ha]
    · rw [List.getElem?_append_right (by omega), hl, List.getElem?_append_right (by omega),
        List.getElem?_drop]
      congr 1
      omega

/-- A segment of a segment is one of the list. -/
theorem segment_segment {xs : List α} {a n b m : ℕ} (h : b + m ≤ n) :
    segment (segment xs a n) b m = segment xs (a + b) m := by
  refine List.ext_getElem? fun i => ?_
  rw [getElem?_segment, getElem?_segment, getElem?_segment]
  by_cases hi : i < m
  · rw [if_pos hi, if_pos hi, if_pos (by omega), Nat.add_assoc]
  · rw [if_neg hi, if_neg hi]

/-- A segment is cut anywhere. -/
theorem segment_add (xs : List α) (a n m : ℕ) : segment xs a (n + m) = segment xs a n ++ segment xs (a + n) m := by
  rw [segment, segment, segment, List.take_add, List.drop_drop]

/-- A segment of `n` rows of `w` elements, row by row. -/
theorem segment_mul (xs : List α) (a n w : ℕ) :
    segment xs a (n * w) = (List.range n).flatMap fun k => segment xs (a + k * w) w := by
  induction n with
  | zero => simp [segment]
  | succ n ih =>
    rw [Nat.succ_mul, segment_add, ih, List.range_succ, List.flatMap_append, List.flatMap_singleton]

/-- A part of what was written. -/
theorem segment_overwrite_inside {xs src : List α} {a b n : ℕ} (h : a + src.length ≤ xs.length)
    (hb : b + n ≤ src.length) : segment (overwrite xs a src) (a + b) n = segment src b n := by
  refine List.ext_getElem? fun i => ?_
  rw [getElem?_segment, getElem?_segment]
  split_ifs with hi
  · rw [getElem?_overwrite h, if_pos (by omega), Nat.add_assoc, Nat.add_sub_cancel_left]
  · rfl

/-- What is off the range that was written stays. -/
theorem segment_overwrite_outside {xs src : List α} {a b n : ℕ} (h : a + src.length ≤ xs.length)
    (hb : b + n ≤ a ∨ a + src.length ≤ b) : segment (overwrite xs a src) b n = segment xs b n := by
  refine List.ext_getElem? fun i => ?_
  rw [getElem?_segment, getElem?_segment]
  split_ifs with hi
  · rw [getElem?_overwrite h, if_neg (by omega)]
  · rfl

/-- What was written is what is there afterwards. -/
theorem segment_overwrite {xs src : List α} {a : ℕ} (h : a + src.length ≤ xs.length) :
    segment (overwrite xs a src) a src.length = src := by
  refine List.ext_getElem? fun i => ?_
  rw [getElem?_segment]
  split_ifs with hi
  · rw [getElem?_overwrite h, if_pos (by omega), Nat.add_sub_cancel_left]
  · exact (List.getElem?_eq_none (by omega)).symm

end Basis
