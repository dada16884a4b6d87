import DocSearch.Text.Char

/-!
# Code points

A text is made of characters. A text from outside may hold surrogates as well, each of them half of
a pair and no character on its own. What is said of texts of both kinds is said of what they are
made of: things that are told by their code points and have the characters among them (`Coded`).
-/

namespace DocSearch.Text

/-- The character with the given number. -/
def charOf? (n : Nat) : Option Char := if n.isValidChar then some (Char.ofNat n) else none

theorem isValidChar_toNat (c : Char) : c.toNat.isValidChar := c.valid

theorem toNat_ofNat {n : Nat} (h : n.isValidChar) : (Char.ofNat n).toNat = n := by
  rw [Char.ofNat, dif_pos h]
  rfl

theorem charOf?_eq_some_iff {n : Nat} {c : Char} : charOf? n = some c ↔ c.toNat = n := by
  unfold charOf?
  constructor
  · intro h
    split at h
    case isTrue hn =>
      obtain rfl := Option.some.inj h
      exact toNat_ofNat hn
    case isFalse => cases h
  · rintro rfl
    rw [if_pos (isValidChar_toNat c), Char.ofNat_toNat]

/-- A code point: a character, or a surrogate on its own. -/
inductive CodePoint where
  | char (c : Char)
  | surrogate (n : Fin 0x800)
deriving Repr, DecidableEq

namespace CodePoint

/-- The number of a code point. -/
def toNat : CodePoint → Nat
  | char c => c.toNat
  | surrogate n => 0xd800 + n

/-- The code point with the given number. -/
def ofNat? (n : Nat) : Option CodePoint :=
  if h : 0xd800 ≤ n ∧ n < 0xe000 then some (surrogate ⟨n - 0xd800, by omega⟩)
  else (charOf? n).map char

theorem ofNat?_eq_some_iff {n : Nat} {p : CodePoint} : ofNat? n = some p ↔ p.toNat = n := by
  unfold ofNat?
  split
  case isTrue hn =>
    cases p with
    | char c =>
      have hc := isValidChar_toNat c
      simp only [toNat, Option.some.injEq, reduceCtorEq, false_iff]
      unfold Nat.isValidChar at hc
      omega
    | surrogate m =>
      simp only [toNat, Option.some.injEq, surrogate.injEq, Fin.ext_iff]
      omega
  case isFalse hn =>
    cases p with
    | char c => simp [toNat, charOf?_eq_some_iff]
    | surrogate m =>
      have hm := m.isLt
      simp only [toNat, Option.map_eq_some_iff, reduceCtorEq, and_false, exists_false, false_iff]
      omega

/-- Code points with a printed form. A surrogate has none. -/
def isPrintable : CodePoint → Bool
  | char c => Text.isPrintable c
  | surrogate _ => false

end CodePoint

/-- What texts are made of. -/
class Coded (α : Type) where
  /-- A character as a part of a text. -/
  ofChar : Char → α
  /-- The number of the code point. -/
  code : α → Nat
  /-- What has the given number, if anything has. -/
  ofCode? : Nat → Option α
  code_ofChar : ∀ c, code (ofChar c) = c.toNat
  ofCode?_eq_some_iff : ∀ {n a}, ofCode? n = some a ↔ code a = n
  code_lt : ∀ a, code a < 0x110000

instance : Coded Char where
  ofChar := id
  code := Char.toNat
  ofCode? := charOf?
  code_ofChar _ := rfl
  ofCode?_eq_some_iff := charOf?_eq_some_iff
  code_lt c := by
    have hc := isValidChar_toNat c
    unfold Nat.isValidChar at hc
    omega

instance : Coded CodePoint where
  ofChar := .char
  code := CodePoint.toNat
  ofCode? := CodePoint.ofNat?
  code_ofChar _ := rfl
  ofCode?_eq_some_iff := CodePoint.ofNat?_eq_some_iff
  code_lt p := by
    cases p with
    | char c => exact Coded.code_lt c
    | surrogate n =>
      have hn := n.isLt
      simp only [CodePoint.toNat]
      omega

namespace Coded

variable {α : Type} [Coded α]

theorem ofCode?_code (a : α) : ofCode? (code a) = some a := ofCode?_eq_some_iff.2 rfl

/-- The character that something is, if it is one. -/
def char? (a : α) : Option Char := ofCode? (code a)

theorem char?_eq_some_iff {a : α} {c : Char} : char? a = some c ↔ a = ofChar c := by
  have hcode : char? a = some c ↔ code (ofChar c : α) = code a := by
    rw [code_ofChar]
    exact ofCode?_eq_some_iff
  rw [hcode, ← ofCode?_eq_some_iff, ofCode?_code, Option.some.injEq]

@[simp] theorem char?_ofChar (c : Char) : char? (ofChar c : α) = some c := char?_eq_some_iff.2 rfl

@[simp] theorem ofChar_inj {c d : Char} : (ofChar c : α) = ofChar d ↔ c = d := by
  rw [← char?_eq_some_iff, char?_ofChar, Option.some.injEq]

end Coded

end DocSearch.Text
