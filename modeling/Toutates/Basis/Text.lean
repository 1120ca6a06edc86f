/-
# Cutting up a text

A text is a list of characters.  `Text.trim` takes the characters of a kind off both ends,
`Text.splitOnce` cuts at the first place of a character, and `Text.firstPart` is what stands between
the separators at the beginning and the next one.  Each comes with the equation between the whole
text and its parts that determines the parts (`Text.trim_append`, `Text.splitOnce_eq_some_iff`,
`Text.firstPart_eq_iff`).
-/

import Mathlib.Data.List.DropRight

namespace Basis
namespace Text

variable {α : Type*}

/-- The characters with the Unicode property `White_Space`. -/
def isWhitespace (c : Char) : Bool :=
  (0x9 ≤ c.toNat && c.toNat ≤ 0xD) || (0x2000 ≤ c.toNat && c.toNat ≤ 0x200A) ||
    c.toNat ∈ [0x20, 0x85, 0xA0, 0x1680, 0x2028, 0x2029, 0x202F, 0x205F, 0x3000]

/-! ### Both ends -/

/-- The text without the characters of a kind at its two ends. -/
def trim (p : α → Bool) (s : List α) : List α := (s.dropWhile p).rdropWhile p

/-- What is taken off is of the kind. -/
theorem exists_trim (p : α → Bool) (s : List α) :
    ∃ l r, s = l ++ trim p s ++ r ∧ (∀ c ∈ l, p c = true) ∧ ∀ c ∈ r, p c = true := by
  refine ⟨s.takeWhile p, (s.dropWhile p).rtakeWhile p, ?_, fun c hc => List.mem_takeWhile_imp hc,
    fun c hc => List.mem_rtakeWhile_imp hc⟩
  rw [trim, List.append_assoc, List.rdropWhile_append_rtakeWhile, List.takeWhile_append_dropWhile]

/-- **What `trim` leaves** between two ends of the kind, when it begins and ends otherwise. -/
theorem trim_append {p : α → Bool} {l m r : List α} (hl : ∀ c ∈ l, p c = true) (hr : ∀ c ∈ r, p c = true)
    (hm : ∀ c ∈ m.head?, p c = false) (hm' : ∀ c ∈ m.getLast?, p c = false) :
    trim p (l ++ m ++ r) = m := by
  have hend : (m ++ r).rdropWhile p = m := by
    rw [List.rdropWhile, List.reverse_append, List.dropWhile_append_of_pos fun c hc => hr c (List.mem_reverse.1 hc)]
    cases h : m.reverse with
    | nil => exact (List.reverse_eq_nil_iff.1 h).symm
    | cons c rest =>
      obtain rfl := List.reverse_eq_cons_iff.1 h
      have hc := hm' c (by simp)
      rw [List.dropWhile_cons_of_neg (by simp [hc]), List.reverse_cons]
  cases m with
  | nil =>
    rw [List.append_nil, trim, List.dropWhile_append_of_pos hl, List.dropWhile_eq_nil_iff.2 hr]
    rfl
  | cons c m =>
    have hc := hm c rfl
    rw [trim, List.append_assoc, List.dropWhile_append_of_pos hl, List.cons_append,
      List.dropWhile_cons_of_neg (by simp [hc])]
    exact hend

/-! ### The first place of a character -/

/-- The parts before and after the first `a`. -/
def splitOnce [DecidableEq α] (a : α) : List α → Option (List α × List α)
  | [] => none
  | c :: rest => if c = a then some ([], rest) else (splitOnce a rest).map fun (l, r) => (c :: l, r)

section SplitOnce

variable [DecidableEq α] {a : α}

/-- A text without the separator cannot be split. -/
theorem splitOnce_eq_none_iff {s : List α} : splitOnce a s = none ↔ a ∉ s := by
  induction s with
  | nil => simp [splitOnce]
  | cons c rest ih =>
    unfold splitOnce
    split_ifs with h
    · simp [h]
    · rw [Option.map_eq_none_iff, ih, List.mem_cons, not_or]
      exact ⟨fun hrest => ⟨Ne.symm h, hrest⟩, fun hrest => hrest.2⟩

/-- A text is split at its first separator. -/
theorem splitOnce_append {l : List α} (hl : a ∉ l) (r : List α) : splitOnce a (l ++ a :: r) = some (l, r) := by
  induction l with
  | nil => simp [splitOnce]
  | cons c l ih =>
    obtain ⟨hne, hrest⟩ := not_or.1 (List.mem_cons.not.1 hl)
    rw [List.cons_append, splitOnce, if_neg (Ne.symm hne), ih hrest]
    rfl

/-- A text is split where it has the separator first. -/
theorem splitOnce_eq_some_iff {s l r : List α} : splitOnce a s = some (l, r) ↔ s = l ++ a :: r ∧ a ∉ l := by
  constructor
  · intro h
    induction s generalizing l with
    | nil => cases h
    | cons c rest ih =>
      unfold splitOnce at h
      split_ifs at h with hc
      · obtain ⟨rfl, rfl⟩ := Prod.mk.inj (Option.some.inj h)
        exact ⟨by rw [hc, List.nil_append], List.not_mem_nil⟩
      · obtain ⟨⟨l', r'⟩, hrest, heq⟩ := Option.map_eq_some_iff.1 h
        obtain ⟨rfl, rfl⟩ := Prod.mk.inj heq
        obtain ⟨rfl, hl⟩ := ih hrest
        exact ⟨rfl, List.mem_cons.not.2 (not_or.2 ⟨Ne.symm hc, hl⟩)⟩
  · rintro ⟨rfl, hl⟩
    exact splitOnce_append hl r

/-- A text is cut at the first `a` in one way only. -/
theorem append_cons_inj {l l' r r' : List α} (hl : a ∉ l) (hl' : a ∉ l') (h : l ++ a :: r = l' ++ a :: r') :
    l = l' ∧ r = r' := by
  have heq := splitOnce_append hl r
  rw [h, splitOnce_append hl'] at heq
  obtain ⟨hfirst, hrest⟩ := Prod.mk.inj (Option.some.inj heq)
  exact ⟨hfirst.symm, hrest.symm⟩

/-! ### The first part that is not empty -/

/-- The text between the separators at its beginning and the next one. -/
def firstPart (a : α) (s : List α) : List α := (s.dropWhile (· = a)).takeWhile (· ≠ a)

/-- What stands before and after the first part. -/
structure FirstPart (a : α) (s part : List α) : Prop where
  notMem : a ∉ part
  split : ∃ before after, s = before ++ part ++ after ∧ (∀ c ∈ before, c = a) ∧ ∀ c ∈ after.head?, c = a

/-- The first part of a text, if there is one. -/
theorem firstPart_eq_iff {s part : List α} (hne : part ≠ []) : firstPart a s = part ↔ FirstPart a s part := by
  constructor
  · rintro rfl
    refine ⟨fun hmem => ?_, s.takeWhile (· = a), (s.dropWhile (· = a)).dropWhile (· ≠ a), ?_, fun c hc => ?_,
      fun c hc => ?_⟩
    · simpa using List.mem_takeWhile_imp hmem
    · rw [firstPart, List.append_assoc, List.takeWhile_append_dropWhile, List.takeWhile_append_dropWhile]
    · simpa using List.mem_takeWhile_imp hc
    · have hhead := List.head?_dropWhile_not (fun c => decide (c ≠ a)) (s.dropWhile (· = a))
      rw [Option.mem_def.1 hc] at hhead
      simpa using hhead
  · rintro ⟨hpart, before, after, rfl, hbefore, hafter⟩
    obtain ⟨c, part, rfl⟩ := List.exists_cons_of_ne_nil hne
    have hc : c ≠ a := by
      rintro rfl
      exact hpart List.mem_cons_self
    have hpos : ∀ x ∈ c :: part, decide (x ≠ a) = true := by
      intro x hx
      rw [decide_eq_true_iff]
      rintro rfl
      exact hpart hx
    rw [firstPart, List.append_assoc, List.dropWhile_append_of_pos (by simpa using hbefore), List.cons_append,
      List.dropWhile_cons_of_neg (by simpa using hc), ← List.cons_append, List.takeWhile_append_of_pos hpos]
    cases after with
    | nil => simp
    | cons d after =>
      obtain rfl := hafter d rfl
      simp

end SplitOnce

/-- The part between the separator at the beginning and the next one. -/
theorem FirstPart.between {a : α} {part : List α} (hpart : a ∉ part) (after : List α) :
    FirstPart a (a :: part ++ a :: after) part where
  notMem := hpart
  split := ⟨[a], a :: after, by simp, by simp, by simp⟩

/-! ### Parts joined -/

/-- A character of a joined text is from a part or from the separator. -/
theorem mem_intercalate {sep : List α} {parts : List (List α)} {c : α} (hc : c ∈ sep.intercalate parts) :
    c ∈ sep ∨ ∃ part ∈ parts, c ∈ part := by
  induction parts with
  | nil => cases hc
  | cons part rest ih =>
    rcases eq_or_ne rest [] with rfl | hrest
    · rw [List.intercalate_singleton] at hc
      exact .inr ⟨part, List.mem_cons_self, hc⟩
    · rw [List.intercalate_cons_of_ne_nil hrest, List.mem_append, List.mem_append] at hc
      rcases hc with (hc | hc) | hc
      · exact .inr ⟨part, List.mem_cons_self, hc⟩
      · exact .inl hc
      · rcases ih hc with hc | ⟨part', hpart', hc⟩
        · exact .inl hc
        · exact .inr ⟨part', List.mem_cons_of_mem part hpart', hc⟩

end Text
end Basis
