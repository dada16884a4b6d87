import DocSearch.Number.Numeral

/-!
# Patterns for file names, and vector types

Rows below a root are found by a pattern in which `%` stands for any text, `_` for any one character
and a backslash makes the character behind it stand for itself.
-/

namespace DocSearch.Store

open Number Text

/-! ## Patterns -/

/-- Makes a text stand for itself in a pattern. -/
def escapePattern : List Char → List Char
  | [] => []
  | c :: cs =>
    if c == '\\' || c == '%' || c == '_' then '\\' :: c :: escapePattern cs
    else c :: escapePattern cs

/-- The pattern for what lies below a root: the root without slashes at its end, a slash, and any
text. -/
def patternChars (root : List Char) : List Char :=
  dropEnd (· == '/') (escapePattern root) ++ ['/', '%']

/-- The pattern for what lies below a root. -/
def patternBelow (root : String) : String := String.ofList (patternChars root.toList)

/-- Whether a text as a whole fits a pattern. -/
def fits : List Char → List Char → Bool
  | [], cs => cs.isEmpty
  | '%' :: p, cs => fitsTail p cs
  | '\\' :: e :: p, c :: cs => e == c && fits p cs
  | '_' :: p, _ :: cs => fits p cs
  | e :: p, c :: cs => e == c && fits p cs
  | _ :: _, [] => false
termination_by p cs => (p.length, cs.length + 1)
where
  /-- Whether some end of the text fits the pattern. -/
  fitsTail (p : List Char) : List Char → Bool
    | [] => fits p []
    | c :: cs => fits p (c :: cs) || fitsTail p cs
  termination_by cs => (p.length + 1, cs.length)

/-! ## Vector types -/

/-- The dimension in the name of a vector type such as `vector(768)`, whatever stands behind it. -/
def vectorDimension (type : String) : Except NumeralError (Option Nat) :=
  match after? "vector(".toList type.toList with
  | none => .ok none
  | some rest =>
    let ds := rest.takeWhile isDecimal
    match ds, rest.dropWhile isDecimal with
    | _ :: _, ')' :: _ =>
      if ds.length > maxDigits then .error (.tooLong ds.length)
      else .ok (some (ds.foldl (fun n c => 10 * n + (decimalValue? c).getD 0) 0))
    | _, _ => .ok none

end DocSearch.Store
