/-
# Decimal literals of a bounded natural number

`parseUnsigned bound` reads the numbers below `bound` the way the standard library reads an
unsigned integer: an optional plus sign and at least one decimal digit, with leading zeros as the
writer likes.  `Literal` says which texts stand for which numbers; the two agree
(`parseUnsigned_eq_ok_iff`), and what is printed in decimal is one of the texts (`literal_toDigits`).
-/

import Mathlib.Data.Nat.Notation
import Mathlib.Tactic.SplitIfs

namespace Basis

/-- `IntErrorKind`, as far as an unsigned integer can fail. -/
inductive IntErrorKind where
  | empty | invalidDigit | posOverflow
deriving DecidableEq

/-- How `ParseIntError` is displayed. -/
def IntErrorKind.message : IntErrorKind → String
  | .empty => "cannot parse integer from empty string"
  | .invalidDigit => "invalid digit found in string"
  | .posOverflow => "number too large to fit in target type"

namespace Decimal

/-- The loop over the digits.  A character that is no digit is reported before an overflow. -/
def parseDigits (bound : ℕ) : List Char → ℕ → Except IntErrorKind ℕ
  | [], result => .ok result
  | c :: rest, result =>
    if c.isDigit then
      if 10 * result + (c.toNat - '0'.toNat) < bound then
        parseDigits bound rest (10 * result + (c.toNat - '0'.toNat))
      else .error .posOverflow
    else .error .invalidDigit

/-- An unsigned integer below `bound`. -/
def parseUnsigned (bound : ℕ) : List Char → Except IntErrorKind ℕ
  | [] => .error .empty
  | ['+'] => .error .invalidDigit
  | ['-'] => .error .invalidDigit
  | '+' :: rest => parseDigits bound rest 0
  | src => parseDigits bound src 0

/-- The text `s` stands for the number `n` below `bound`. -/
structure Literal (bound : ℕ) (s : List Char) (n : ℕ) : Prop where
  digits : ∃ digits : List Char, (s = digits ∨ s = '+' :: digits) ∧ digits ≠ [] ∧
    (∀ c ∈ digits, c.isDigit = true) ∧ Nat.ofDigitChars 10 digits 0 = n
  lt : n < bound

/-- More digits make a number larger. -/
theorem le_ofDigitChars (digits : List Char) (n : ℕ) : n ≤ Nat.ofDigitChars 10 digits n := by
  rw [Nat.ofDigitChars_eq_ofDigitChars_zero]
  have hpow : 0 < 10 ^ digits.length := Nat.pow_pos (by decide)
  exact Nat.le_trans (Nat.le_mul_of_pos_left n hpow) (Nat.le_add_right _ _)

/-- The loop yields the value of the digits, when all of them are digits and the value fits. -/
theorem parseDigits_eq_ok_iff {bound result n : ℕ} {s : List Char} (hresult : result < bound) :
    parseDigits bound s result = .ok n ↔
      (∀ c ∈ s, c.isDigit = true) ∧ Nat.ofDigitChars 10 s result = n ∧ n < bound := by
  induction s generalizing result with
  | nil =>
    simp only [parseDigits, Except.ok.injEq, Nat.ofDigitChars_nil, List.not_mem_nil, false_implies,
      implies_true, true_and]
    constructor
    · rintro rfl
      exact ⟨rfl, hresult⟩
    · exact And.left
  | cons c rest ih =>
    rw [parseDigits, List.forall_mem_cons, Nat.ofDigitChars_cons]
    split_ifs with hdigit hlt
    · rw [ih hlt]
      simp only [hdigit, true_and]
    · -- the value only grows with the digits that follow
      have hgrow := le_ofDigitChars rest (10 * result + (c.toNat - '0'.toNat))
      constructor
      · intro h
        cases h
      · rintro ⟨-, rfl, hn⟩
        exact absurd (Nat.lt_of_le_of_lt hgrow hn) hlt
    · simp [hdigit]

/-- A digit is not a sign. -/
theorem ne_sign_of_isDigit {c : Char} (h : c.isDigit = true) : c ≠ '+' ∧ c ≠ '-' := by
  constructor <;> rintro rfl <;> exact absurd h (by decide)

/-- A literal has digits and at most a plus sign. -/
theorem isDigit_of_literal {bound n : ℕ} {s : List Char} (h : Literal bound s n) :
    ∀ c ∈ s, c.isDigit = true ∨ c = '+' := by
  obtain ⟨digits, hs, -, hdigits, -⟩ := h.digits
  intro c hc
  rcases hs with rfl | rfl
  · exact .inl (hdigits c hc)
  · rcases List.mem_cons.1 hc with rfl | hc
    · exact .inr rfl
    · exact .inl (hdigits c hc)

/-- A literal is not empty. -/
theorem Literal.ne_nil {bound n : ℕ} {s : List Char} (h : Literal bound s n) : s ≠ [] := by
  obtain ⟨digits, hs, hne, -⟩ := h.digits
  rcases hs with rfl | rfl
  · exact hne
  · exact List.cons_ne_nil _ _

/-- Digits without a sign. -/
theorem parseUnsigned_of_digits {bound : ℕ} {digits : List Char} (hne : digits ≠ [])
    (hdigits : ∀ c ∈ digits, c.isDigit = true) : parseUnsigned bound digits = parseDigits bound digits 0 := by
  unfold parseUnsigned
  split
  · exact absurd rfl hne
  · exact absurd rfl (ne_sign_of_isDigit (hdigits _ List.mem_cons_self)).1
  · exact absurd rfl (ne_sign_of_isDigit (hdigits _ List.mem_cons_self)).2
  · exact absurd rfl (ne_sign_of_isDigit (hdigits _ List.mem_cons_self)).1
  · rfl

/-- Digits after a plus sign. -/
theorem parseUnsigned_plus {bound : ℕ} {digits : List Char} (hne : digits ≠ []) :
    parseUnsigned bound ('+' :: digits) = parseDigits bound digits 0 := by
  obtain ⟨c, rest, rfl⟩ := List.exists_cons_of_ne_nil hne
  rfl

/-- **Exactly the literals are read**, each as the number that it stands for. -/
theorem parseUnsigned_eq_ok_iff {bound n : ℕ} {s : List Char} (hbound : 0 < bound) :
    parseUnsigned bound s = .ok n ↔ Literal bound s n := by
  constructor
  · intro h
    unfold parseUnsigned at h
    split at h
    · cases h
    · cases h
    · cases h
    · rename_i rest hplus
      obtain ⟨hdigits, hvalue, hlt⟩ := (parseDigits_eq_ok_iff hbound).1 h
      exact ⟨⟨rest, .inr rfl, hplus, hdigits, hvalue⟩, hlt⟩
    · rename_i hnil _ _ _
      obtain ⟨hdigits, hvalue, hlt⟩ := (parseDigits_eq_ok_iff hbound).1 h
      exact ⟨⟨s, .inl rfl, hnil, hdigits, hvalue⟩, hlt⟩
  · rintro ⟨⟨digits, hs, hne, hdigits, hvalue⟩, hlt⟩
    have hparse := (parseDigits_eq_ok_iff hbound).2 ⟨hdigits, hvalue, hlt⟩
    rcases hs with rfl | rfl
    · rwa [parseUnsigned_of_digits hne hdigits]
    · rwa [parseUnsigned_plus hne]

/-- The decimal digits of a number below the bound are a literal of it. -/
theorem literal_toDigits {bound n : ℕ} (hn : n < bound) : Literal bound (Nat.toDigits 10 n) n where
  digits := ⟨_, .inl rfl, Nat.toDigits_ne_nil,
    fun _ hc => Nat.isDigit_of_mem_toDigits (by decide) (by decide) hc, Nat.ofDigitChars_ten_toDigits⟩
  lt := hn

end Decimal
end Basis
