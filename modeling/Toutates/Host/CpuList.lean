/-
# Lists of CPUs in the kernel's format

`parse_cpu_list` of `src/topology.rs`.  The files under `/sys` list CPUs as decimal numbers and
ranges `lo-hi`, joined by commas.  `parseCpuList` reads more than the kernel writes: blanks and a
plus sign around a number, empty parts, ranges that run backwards and are empty.  `PartOf` says
what a part may look like and which CPUs it stands for; a list is read exactly when each of its
parts is of this form, and then as all their CPUs in order (`parseCpuList_exact`).
-/

import Mathlib.Algebra.Group.Nat.Defs
import Toutates.Basis.Decimal
import Toutates.Basis.Fallible
import Toutates.Basis.Text

namespace Toutates

open Basis

/-- `io::Error` of kind `InvalidData`, with its message. -/
structure InvalidData where
  message : String
deriving DecidableEq

/-- `trim().parse::<u32>()`, with its error as an `io::Error`. -/
def parseU32 (s : List Char) : Except InvalidData ℕ :=
  (Decimal.parseUnsigned (2 ^ 32) (Text.trim Text.isWhitespace s)).mapError fun e => ⟨e.message⟩

/-- One turn of the loop of `parse_cpu_list`, for a part that is not empty. -/
def parsePart (part : List Char) (out : List ℕ) : Except InvalidData (List ℕ) :=
  match Text.splitOnce '-' part with
  | some (lo, hi) =>
    (parseU32 lo).bind fun lo => (parseU32 hi).bind fun hi => .ok (out ++ List.range' lo (hi + 1 - lo))
  | none => (parseU32 part).bind fun v => .ok (out ++ [v])

/-- The loop of `parse_cpu_list`. -/
def parseParts : List (List Char) → List ℕ → Except InvalidData (List ℕ)
  | [], out => .ok out
  | part :: rest, out =>
    if part.isEmpty then parseParts rest out
    else (parsePart part out).bind fun out => parseParts rest out

/-- `parse_cpu_list`. -/
def parseCpuList (s : List Char) : Except InvalidData (List ℕ) :=
  parseParts ((Text.trim Text.isWhitespace s).splitOn ',') []

/-- A number of 32 bits with blanks around it. -/
structure Padded (s : List Char) (n : ℕ) : Prop where
  split : ∃ l literal r, s = l ++ literal ++ r ∧ (∀ c ∈ l, Text.isWhitespace c = true) ∧
    (∀ c ∈ r, Text.isWhitespace c = true) ∧ Decimal.Literal (2 ^ 32) literal n

/-- What a part of a list may be, and the CPUs that it stands for. -/
inductive PartOf : List Char → List ℕ → Prop where
  | cpu {part : List Char} {v : ℕ} (hv : Padded part v) : PartOf part [v]
  | range {lo hi : List Char} {a b : ℕ} (ha : Padded lo a) (hb : Padded hi b) :
    PartOf (lo ++ '-' :: hi) (List.range' a (b + 1 - a))

/-- The parts that the loop looks at. -/
def parts (s : List Char) : List (List Char) :=
  ((Text.trim Text.isWhitespace s).splitOn ',').filter fun part => !part.isEmpty

/-- How the kernel prints a range of CPUs. -/
def showRange (r : ℕ × ℕ) : List Char :=
  if r.1 = r.2 then Nat.toDigits 10 r.1 else Nat.toDigits 10 r.1 ++ '-' :: Nat.toDigits 10 r.2

/-- How the kernel prints a list of ranges of CPUs, without the newline. -/
def showRanges (ranges : List (ℕ × ℕ)) : List Char := [','].intercalate (ranges.map showRange)

/-! ### Numbers -/

/-- The characters of a literal are no blanks, no dashes and no commas. -/
theorem of_mem_literal {bound n : ℕ} {s : List Char} (h : Decimal.Literal bound s n) {c : Char} (hc : c ∈ s) :
    Text.isWhitespace c = false ∧ c ≠ '-' ∧ c ≠ ',' := by
  rcases Decimal.isDigit_of_literal h c hc with hdigit | rfl
  · have hlo : 48 ≤ c.toNat := (Char.isDigit_iff_toNat.1 hdigit).1
    have hhi : c.toNat ≤ 57 := (Char.isDigit_iff_toNat.1 hdigit).2
    refine ⟨?_, (Decimal.ne_sign_of_isDigit hdigit).2, ?_⟩
    · simp [Text.isWhitespace]
      omega
    · rintro rfl
      exact absurd hdigit (by decide)
  · decide

/-- **`parseU32` reads the padded numbers.** -/
theorem parseU32_eq_ok_iff {s : List Char} {n : ℕ} : parseU32 s = .ok n ↔ Padded s n := by
  rw [parseU32, Fallible.mapError_eq_ok_iff, Decimal.parseUnsigned_eq_ok_iff (by decide)]
  constructor
  · intro h
    obtain ⟨l, r, hs, hl, hr⟩ := Text.exists_trim Text.isWhitespace s
    exact ⟨l, _, r, hs, hl, hr, h⟩
  · rintro ⟨l, literal, r, rfl, hl, hr, h⟩
    rwa [Text.trim_append hl hr (fun c hc => (of_mem_literal h (List.mem_of_mem_head? hc)).1)
      fun c hc => (of_mem_literal h (List.mem_of_mem_getLast? hc)).1]

/-- A padded number has no dash. -/
theorem Padded.dash_notMem {s : List Char} {n : ℕ} (h : Padded s n) : '-' ∉ s := by
  obtain ⟨l, literal, r, rfl, hl, hr, hlit⟩ := h.split
  intro hmem
  rcases List.mem_append.1 hmem with hmem | hmem
  · rcases List.mem_append.1 hmem with hmem | hmem
    · exact absurd (hl _ hmem) (by decide)
    · exact (of_mem_literal hlit hmem).2.1 rfl
  · exact absurd (hr _ hmem) (by decide)

/-- The digits of a number are that number, padded with nothing. -/
theorem padded_toDigits {n : ℕ} (hn : n < 2 ^ 32) : Padded (Nat.toDigits 10 n) n where
  split := ⟨[], _, [], by simp, by simp, by simp, Decimal.literal_toDigits hn⟩

/-! ### Parts -/

/-- **One part.**  It is appended whole, or the parse fails. -/
theorem parsePart_eq_ok_iff {part : List Char} {out out' : List ℕ} :
    parsePart part out = .ok out' ↔ ∃ cpus, PartOf part cpus ∧ out' = out ++ cpus := by
  unfold parsePart
  split
  · rename_i lo hi hsplit
    obtain ⟨rfl, hlo⟩ := Text.splitOnce_eq_some_iff.1 hsplit
    simp only [Fallible.bind_eq_ok_iff, parseU32_eq_ok_iff, Except.ok.injEq]
    constructor
    · rintro ⟨a, ha, b, hb, rfl⟩
      exact ⟨_, .range ha hb, rfl⟩
    · rintro ⟨cpus, hpart, rfl⟩
      generalize hp : lo ++ '-' :: hi = part at hpart hsplit
      cases hpart with
      | cpu hv => exact absurd (hp ▸ List.mem_append_right _ List.mem_cons_self) hv.dash_notMem
      | range ha hb =>
        rw [Text.splitOnce_append ha.dash_notMem] at hsplit
        obtain ⟨rfl, rfl⟩ := Prod.mk.inj (Option.some.inj hsplit)
        exact ⟨_, ha, _, hb, rfl⟩
  · rename_i hnone
    simp only [Fallible.bind_eq_ok_iff, parseU32_eq_ok_iff, Except.ok.injEq]
    constructor
    · rintro ⟨v, hv, rfl⟩
      exact ⟨_, .cpu hv, rfl⟩
    · rintro ⟨cpus, hpart, rfl⟩
      cases hpart with
      | cpu hv => exact ⟨_, hv, rfl⟩
      | range ha hb =>
        exact absurd (List.mem_append_right _ List.mem_cons_self) (Text.splitOnce_eq_none_iff.1 hnone)

/-- The loop appends what the parts stand for, in order. -/
theorem parseParts_eq_ok_iff {l : List (List Char)} {out out' : List ℕ} :
    parseParts l out = .ok out' ↔ ∃ cpus, List.Forall₂ PartOf (l.filter fun part => !part.isEmpty) cpus ∧
      out' = out ++ cpus.flatten := by
  induction l generalizing out with
  | nil => simp [parseParts, eq_comm]
  | cons part rest ih =>
    unfold parseParts
    split_ifs with hpart
    · rw [ih, List.filter_cons_of_neg (by simp [hpart])]
    · rw [Fallible.bind_eq_ok_iff, List.filter_cons_of_pos (by simp [hpart])]
      simp only [parsePart_eq_ok_iff, ih]
      constructor
      · rintro ⟨_, ⟨cpus, hcpus, rfl⟩, rest', hrest, rfl⟩
        exact ⟨cpus :: rest', .cons hcpus hrest, by rw [List.flatten_cons, List.append_assoc]⟩
      · rintro ⟨_, hall, rfl⟩
        cases hall with
        | cons hcpus hrest =>
          exact ⟨_, ⟨_, hcpus, rfl⟩, _, hrest, by rw [List.flatten_cons, List.append_assoc]⟩

/-- **Exactly the lists of well-formed parts are read**, as what the parts stand for, in order. -/
theorem parseCpuList_exact {s : List Char} {cpus : List ℕ} :
    parseCpuList s = .ok cpus ↔ ∃ expansions, List.Forall₂ PartOf (parts s) expansions ∧ cpus = expansions.flatten := by
  rw [parseCpuList, parseParts_eq_ok_iff, parts]
  simp only [List.nil_append]

/-! ### What the kernel prints -/

/-- A range that is printed is a part for its CPUs. -/
theorem partOf_showRange {r : ℕ × ℕ} (hle : r.1 ≤ r.2) (hlt : r.2 < 2 ^ 32) :
    PartOf (showRange r) (List.range' r.1 (r.2 + 1 - r.1)) := by
  unfold showRange
  split_ifs with h
  · rw [h, Nat.add_sub_cancel_left]
    exact .cpu (padded_toDigits hlt)
  · exact .range (padded_toDigits (hle.trans_lt hlt)) (padded_toDigits hlt)

/-- A range is printed as something. -/
theorem showRange_ne_nil (r : ℕ × ℕ) : showRange r ≠ [] := by
  unfold showRange
  split_ifs
  · exact Nat.toDigits_ne_nil
  · exact List.append_ne_nil_of_left_ne_nil Nat.toDigits_ne_nil _

/-- A range is printed without blanks and commas. -/
theorem of_mem_showRange {r : ℕ × ℕ} {c : Char} (hc : c ∈ showRange r) :
    Text.isWhitespace c = false ∧ c ≠ ',' := by
  have hdigits : ∀ n, c ∈ Nat.toDigits 10 n → Text.isWhitespace c = false ∧ c ≠ ',' := by
    intro n hn
    obtain ⟨hblank, -, hcomma⟩ := of_mem_literal (Decimal.literal_toDigits (Nat.lt_succ_self n)) hn
    exact ⟨hblank, hcomma⟩
  unfold showRange at hc
  split_ifs at hc
  · exact hdigits _ hc
  · rcases List.mem_append.1 hc with hc | hc
    · exact hdigits _ hc
    · rcases List.mem_cons.1 hc with rfl | hc
      · decide
      · exact hdigits _ hc

/-- Ranges are printed without blanks. -/
theorem of_mem_showRanges {ranges : List (ℕ × ℕ)} {c : Char} (hc : c ∈ showRanges ranges) :
    Text.isWhitespace c = false := by
  rcases Text.mem_intercalate hc with hc | ⟨part, hpart, hc⟩
  · obtain rfl := List.mem_singleton.1 hc
    decide
  · obtain ⟨r, -, rfl⟩ := List.mem_map.1 hpart
    exact (of_mem_showRange hc).1

/-- The parts are the ranges, one by one. -/
theorem parts_showRanges (ranges : List (ℕ × ℕ)) {eol : List Char}
    (heol : ∀ c ∈ eol, Text.isWhitespace c = true) :
    parts (showRanges ranges ++ eol) = ranges.map showRange := by
  have htrim := Text.trim_append (l := []) (by simp) heol (m := showRanges ranges)
    (fun c hc => of_mem_showRanges (List.mem_of_mem_head? hc))
    fun c hc => of_mem_showRanges (List.mem_of_mem_getLast? hc)
  rw [List.nil_append] at htrim
  rw [parts, htrim]
  rcases eq_or_ne ranges [] with rfl | hne
  · rfl
  · have hcomma : ∀ l ∈ ranges.map showRange, ',' ∉ l := by
      intro l hl hmem
      obtain ⟨r, -, rfl⟩ := List.mem_map.1 hl
      exact (of_mem_showRange hmem).2 rfl
    rw [showRanges, List.splitOn_intercalate ',' hcomma (List.map_eq_nil_iff.not.2 hne), List.filter_eq_self]
    intro l hl
    obtain ⟨r, -, rfl⟩ := List.mem_map.1 hl
    simp [showRange_ne_nil r]

/-- **What the kernel prints is read back.** -/
theorem parseCpuList_showRanges {ranges : List (ℕ × ℕ)} {eol : List Char}
    (hranges : ∀ r ∈ ranges, r.1 ≤ r.2 ∧ r.2 < 2 ^ 32) (heol : ∀ c ∈ eol, Text.isWhitespace c = true) :
    parseCpuList (showRanges ranges ++ eol) = .ok (ranges.flatMap fun r => List.range' r.1 (r.2 + 1 - r.1)) := by
  rw [parseCpuList_exact, parts_showRanges ranges heol]
  refine ⟨ranges.map fun r => List.range' r.1 (r.2 + 1 - r.1), ?_, List.flatMap_def⟩
  rw [List.forall₂_map_left_iff, List.forall₂_map_right_iff, List.forall₂_same]
  exact fun r hr => partOf_showRange (hranges r hr).1 (hranges r hr).2

/-- **CPU lists decode what the kernel encodes**, and a text is read exactly when each of its parts
is of the form that `PartOf` describes, as all the CPUs of all parts. -/
theorem cpu_list_exact :
    (∀ (ranges : List (ℕ × ℕ)) (eol : List Char), (∀ r ∈ ranges, r.1 ≤ r.2 ∧ r.2 < 2 ^ 32) →
      eol = [] ∨ eol = ['\n'] →
      parseCpuList (showRanges ranges ++ eol) = .ok (ranges.flatMap fun r => List.range' r.1 (r.2 + 1 - r.1))) ∧
    (∀ s, (∃ cpus, parseCpuList s = .ok cpus) ↔ ∀ part ∈ (Text.trim Text.isWhitespace s).splitOn ',',
      part ≠ [] → ∃ cpus, PartOf part cpus) ∧
    ∀ s cpus, parseCpuList s = .ok cpus ↔
      ∃ expansions, List.Forall₂ PartOf (parts s) expansions ∧ cpus = expansions.flatten := by
  refine ⟨fun ranges eol hranges heol => parseCpuList_showRanges hranges ?_, fun s => ?_,
    fun s cpus => parseCpuList_exact⟩
  · rcases heol with rfl | rfl
    · simp
    · intro c hc
      obtain rfl := List.mem_singleton.1 hc
      rfl
  · have hall : (∃ cpus, parseCpuList s = .ok cpus) ↔ ∃ expansions, List.Forall₂ PartOf (parts s) expansions := by
      constructor
      · rintro ⟨cpus, h⟩
        obtain ⟨expansions, hparts, -⟩ := parseCpuList_exact.1 h
        exact ⟨expansions, hparts⟩
      · rintro ⟨expansions, hparts⟩
        exact ⟨_, parseCpuList_exact.2 ⟨expansions, hparts, rfl⟩⟩
    rw [hall, Fallible.exists_forall₂_iff]
    simp [parts, List.mem_filter]

/-- Two ranges and a CPU, as the kernel prints them. -/
theorem cpu_list_exact_sample :
    parseCpuList ['0', '-', '1', ',', '4', ',', '6', '-', '7', '\n'] = .ok [0, 1, 4, 6, 7] :=
  cpu_list_exact.1 [(0, 1), (4, 4), (6, 7)] ['\n'] (by decide) (.inr rfl)

end Toutates
