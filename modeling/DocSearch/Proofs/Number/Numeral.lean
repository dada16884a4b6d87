import DocSearch.Number.Numeral
import DocSearch.Proofs.Text.Trim
import Mathlib.Data.List.Basic
import Mathlib.Tactic.IntervalCases
import Mathlib.Tactic.SplitIfs

/-!
# Runs of digits read as integers

A text that consists of digits alone has no blanks, no sign and no underscores. Whether it is read as
an integer depends on two things: all its digits have to be decimal ones, of whatever script, and
there may be no more of them than are converted (`readInt_of_decimal`). Otherwise reading fails
(`readInt_of_long`, `readInt_of_odd`).
-/

namespace DocSearch.Number

open Text

/-! ## Digits -/

/-- A decimal digit as a digit of ASCII; every other character is left alone. -/
def asciiOf (c : Char) : Char :=
  match decimalValue? c with
  | some d => Char.ofNat (48 + d)
  | none => c

/-- The natural that decimal digits of any script denote. -/
def decimalsValue (cs : List Char) : Nat := cs.foldl (fun n c => 10 * n + (decimalValue? c).getD 0) 0

theorem decimalValue?_lt {c : Char} {d : Nat} (h : decimalValue? c = some d) : d < 10 := by
  unfold decimalValue? at h
  dsimp only at h
  split_ifs at h with hascii hdigit
  · simp only [Bool.and_eq_true, decide_eq_true_eq] at hdigit
    have hd := Option.some.inj h
    omega
  · obtain ⟨r, -, hd⟩ := Option.map_eq_some_iff.1 h
    omega

theorem toNat_ofNat_digit {d : Nat} (h : d < 10) : (Char.ofNat (48 + d)).toNat = 48 + d := by
  interval_cases d <;> rfl

theorem isAsciiDigit_iff {c : Char} : isAsciiDigit c = true ↔ 48 ≤ c.toNat ∧ c.toNat ≤ 57 := by
  simp only [isAsciiDigit, Bool.and_eq_true, decide_eq_true_eq]
  exact Iff.rfl

/-- The digits of ASCII denote what they stand for. -/
theorem decimalValue?_of_ascii {c : Char} (h : isAsciiDigit c = true) :
    decimalValue? c = some (c.toNat - 48) := by
  obtain ⟨hlow, hhigh⟩ := isAsciiDigit_iff.1 h
  have hascii : c.toNat < 128 := by omega
  simp [decimalValue?, hascii, hlow, hhigh]

theorem isDigit_of_ascii {c : Char} (h : isAsciiDigit c = true) : isDigit c = true := by
  simp [isDigit, isDecimal, decimalValue?_of_ascii h]

theorem decimalsValue_of_ascii {cs : List Char} (h : ∀ c ∈ cs, isAsciiDigit c = true) :
    decimalsValue cs = digitsValue cs := by
  unfold decimalsValue digitsValue
  refine List.foldl_ext _ _ 0 fun n c hc => ?_
  rw [decimalValue?_of_ascii (h c hc), Option.getD_some]

theorem isAsciiDigit_asciiOf {c : Char} (h : isDecimal c = true) :
    isAsciiDigit (asciiOf c) = true := by
  obtain ⟨d, hd⟩ := Option.isSome_iff_exists.1 h
  have hlt := decimalValue?_lt hd
  rw [asciiOf, hd, isAsciiDigit_iff, toNat_ofNat_digit hlt]
  omega

/-- A digit without a place value lies beyond ASCII and stays as it is. -/
theorem asciiOf_of_odd {c : Char} (hdigit : isDigit c = true) (hodd : isDecimal c = false) :
    asciiOf c = c ∧ 128 ≤ c.toNat := by
  have hnone : decimalValue? c = none := by simpa [isDecimal] using hodd
  have hother : otherDigits.has c.toNat = true := by simpa [isDigit, hodd] using hdigit
  refine ⟨by rw [asciiOf, hnone], ?_⟩
  obtain ⟨r, hr⟩ := Option.isSome_iff_exists.1 hother
  have hmem := List.mem_of_find?_eq_some hr
  have hin := List.find?_some hr
  have hleast : ∀ r ∈ otherDigits, 128 ≤ r.1 := by decide
  have := hleast r hmem
  simp only [Bool.and_eq_true, decide_eq_true_eq] at hin
  omega

/-- No blank is a digit. -/
theorem not_isDigit_of_blank {c : Char} (h : isBlank c = true) : isDigit c = false := by
  have hblank : c.toNat ∈ [9, 10, 11, 12, 13, 28, 29, 30, 31, 32, 0x85, 0xa0, 0x1680, 0x2000,
      0x2001, 0x2002, 0x2003, 0x2004, 0x2005, 0x2006, 0x2007, 0x2008, 0x2009, 0x200a, 0x2028,
      0x2029, 0x202f, 0x205f, 0x3000] := by
    simp only [isBlank, Bool.or_eq_true, Bool.and_eq_true, decide_eq_true_eq, beq_iff_eq] at h
    simp only [List.mem_cons, List.not_mem_nil]
    omega
  unfold isDigit isDecimal decimalValue?
  revert hblank
  generalize c.toNat = n
  revert n
  decide

theorem isBlank_of_asciiBlank {c : Char} (h : isAsciiBlank c = true) : isBlank c = true := by
  simp only [isAsciiBlank, Bool.or_eq_true, Bool.and_eq_true, decide_eq_true_eq, beq_iff_eq] at h
  simp only [isBlank, Bool.or_eq_true, Bool.and_eq_true, decide_eq_true_eq, beq_iff_eq]
  omega

/-- In ASCII, a digit is still a digit. -/
theorem isDigit_asciiOf {c : Char} (h : isDigit c = true) : isDigit (asciiOf c) = true := by
  cases hdecimal : isDecimal c with
  | true => exact isDigit_of_ascii (isAsciiDigit_asciiOf hdecimal)
  | false => rwa [(asciiOf_of_odd h hdecimal).1]

/-! ## Reading -/

variable {cs : List Char}

/-- Digits have nothing around them that is cut off. -/
theorem normalise_of_digits (h : ∀ c ∈ cs, isDigit c = true) :
    normalise (String.ofList cs) = cs.map asciiOf := by
  have hkept : ∀ blank : Char → Bool, (∀ c, blank c = true → isBlank c = true) →
      ∀ c ∈ cs.map asciiOf, blank c = false := by
    intro blank hblank c hc
    obtain ⟨d, hd, rfl⟩ := List.mem_map.1 hc
    by_contra hne
    have hno := not_isDigit_of_blank (hblank _ (Bool.not_eq_false _ ▸ hne))
    rw [isDigit_asciiOf (h d hd)] at hno
    cases hno
  unfold normalise
  dsimp only
  rw [String.toList_ofList]
  refine trimBy_of_forall (hkept _ fun c hc => ?_)
  split_ifs at hc
  · exact isBlank_of_asciiBlank hc
  · exact hc

theorem cutSign_of_digits (h : ∀ c ∈ cs, isDigit c = true) : cutSign cs = (false, cs) := by
  match cs, h with
  | [], _ => rfl
  | c :: cs, h =>
    have hc := h c List.mem_cons_self
    unfold cutSign
    split
    next heq => exact absurd ((List.cons.inj heq).1 ▸ hc) (by decide)
    next heq => exact absurd ((List.cons.inj heq).1 ▸ hc) (by decide)
    next => rfl

theorem underscores_of_digits (h : ∀ c ∈ cs, isAsciiDigit c = true) :
    underscoresBetweenDigits cs = true := by
  have hne : ∀ {c : Char}, isAsciiDigit c = true → (c == '_') = false := by
    intro c hc
    rw [beq_eq_false_iff_ne]
    rintro rfl
    exact absurd hc (by decide)
  have hgo : ∀ (ds : List Char) (c : Char), isAsciiDigit c = true →
      (∀ d ∈ ds, isAsciiDigit d = true) → underscoresBetweenDigits.go c ds = true := by
    intro ds
    induction ds with
    | nil =>
      intro c hc _
      simp [underscoresBetweenDigits.go, bne, hne hc]
    | cons d ds ih =>
      intro c hc hds
      have hd := hds d List.mem_cons_self
      rw [underscoresBetweenDigits.go, hne hd, ih d hd fun e he => hds e (List.mem_cons_of_mem d he)]
      simp [hd]
  cases cs with
  | nil => rfl
  | cons c cs =>
    have hc := h c List.mem_cons_self
    rw [underscoresBetweenDigits, hgo cs c hc fun d hd => h d (List.mem_cons_of_mem c hd)]
    simp [bne, hne hc]

/-- The run of digits at the front of a numeral is all of it if its digits are decimal ones. -/
theorem takeWhile_asciiOf (h : ∀ c ∈ cs, isDecimal c = true) :
    ((cs.map asciiOf).takeWhile fun c => isAsciiDigit c || c == '_') = cs.map asciiOf := by
  rw [List.takeWhile_eq_self_iff]
  intro c hc
  obtain ⟨d, hd, rfl⟩ := List.mem_map.1 hc
  rw [isAsciiDigit_asciiOf (h d hd), Bool.true_or]

theorem filter_asciiOf (h : ∀ c ∈ cs, isDecimal c = true) :
    (cs.map asciiOf).filter (· != '_') = cs.map asciiOf := by
  rw [List.filter_eq_self]
  intro c hc
  obtain ⟨d, hd, rfl⟩ := List.mem_map.1 hc
  rw [bne_iff_ne]
  intro hline
  exact absurd (hline ▸ isAsciiDigit_asciiOf (h d hd)) (by decide)

theorem digitsValue_asciiOf (h : ∀ c ∈ cs, isDecimal c = true) :
    digitsValue (cs.map asciiOf) = decimalsValue cs := by
  unfold digitsValue decimalsValue
  rw [List.foldl_map]
  refine List.foldl_ext _ _ 0 fun n c hc => ?_
  obtain ⟨d, hd⟩ := Option.isSome_iff_exists.1 (h c hc)
  rw [asciiOf, hd, toNat_ofNat_digit (decimalValue?_lt hd), Option.getD_some,
    Nat.add_sub_cancel_left]

theorem isDigit_of_decimal {c : Char} (h : isDecimal c = true) : isDigit c = true := by
  rw [isDigit, h, Bool.true_or]

/-- What reading does with decimal digits, before they are counted. -/
theorem readInt_eq_of_decimal (hne : cs ≠ []) (h : ∀ c ∈ cs, isDecimal c = true) :
    readInt (String.ofList cs) =
      if maxDigits < cs.length then .error (.tooLong cs.length) else .ok (decimalsValue cs) := by
  have hascii : ∀ c ∈ cs.map asciiOf, isAsciiDigit c = true := by
    intro c hc
    obtain ⟨d, hd, rfl⟩ := List.mem_map.1 hc
    exact isAsciiDigit_asciiOf (h d hd)
  have hempty : (cs.map asciiOf).isEmpty = false := by
    cases cs with
    | nil => exact absurd rfl hne
    | cons => rfl
  unfold readInt
  rw [normalise_of_digits fun c hc => isDigit_of_decimal (h c hc),
    cutSign_of_digits fun c hc => isDigit_of_ascii (hascii c hc)]
  dsimp only
  rw [takeWhile_asciiOf h, filter_asciiOf h, underscores_of_digits hascii, hempty,
    digitsValue_asciiOf h, List.length_map]
  simp

/-- **Decimal digits** of any script are read as the number that they denote. -/
theorem readInt_of_decimal (hne : cs ≠ []) (h : ∀ c ∈ cs, isDecimal c = true)
    (hlength : cs.length ≤ maxDigits) : readInt (String.ofList cs) = .ok (decimalsValue cs) := by
  rw [readInt_eq_of_decimal hne h, if_neg (Nat.not_lt.2 hlength)]

/-- **Too many digits** are not read. -/
theorem readInt_of_long (hne : cs ≠ []) (h : ∀ c ∈ cs, isDecimal c = true)
    (hlength : maxDigits < cs.length) :
    readInt (String.ofList cs) = .error (.tooLong cs.length) := by
  rw [readInt_eq_of_decimal hne h, if_pos hlength]

/-- **A digit without a place value** is not read, whatever digits stand around it. -/
theorem readInt_of_odd (h : ∀ c ∈ cs, isDigit c = true) (hodd : ∃ c ∈ cs, isDecimal c = false) :
    ∃ e, readInt (String.ofList cs) = .error e := by
  obtain ⟨c, hc, hodd⟩ := hodd
  obtain ⟨hsame, hbeyond⟩ := asciiOf_of_odd (h c hc) hodd
  -- The digit ends the run, which is therefore shorter than the numeral.
  have hshort : ((cs.map asciiOf).takeWhile fun c => isAsciiDigit c || c == '_').length ≠
      (cs.map asciiOf).length := by
    intro hlength
    have hall := List.takeWhile_eq_self_iff.1
      ((List.takeWhile_prefix _).eq_of_length hlength) c (hsame ▸ List.mem_map_of_mem hc)
    rw [Bool.or_eq_true, isAsciiDigit_iff, beq_iff_eq] at hall
    rcases hall with hascii | rfl
    · omega
    · exact absurd hbeyond (by decide)
  unfold readInt
  rw [normalise_of_digits h, cutSign_of_digits fun c hc => ?_]
  · dsimp only
    split_ifs
    · exact ⟨_, rfl⟩
    · exact ⟨_, rfl⟩
    · exact ⟨_, rfl⟩
    next hlength => exact absurd (by simpa using hlength) hshort
  · obtain ⟨d, hd, rfl⟩ := List.mem_map.1 hc
    exact isDigit_asciiOf (h d hd)

end DocSearch.Number
