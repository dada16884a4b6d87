import DocSearch.Number.Numeral

/-!
# Faults of YAML documents

A text may not be a document at all, or be one whose values cannot be formed: a tagged numeral that
is none, a date that does not exist, a code point beyond the last.
-/

namespace DocSearch.Yaml

open Number Text

/-- Why a text is no document, or its value cannot be formed. -/
inductive Error where
  | malformed
  | badNumeral (base : Nat) (text : String)
  | tooLong (digits : Nat)
  | tooLarge
  | badFloat (text : String)
  | emptyNumeral
  | unknownTruth (word : String)
  | notTime
  | badDate (reason : String)
  | badCodePoint
  | hugeCodePoint
deriving Repr, DecidableEq

/-- The error text. Where a document is malformed is not told. -/
def Error.message : Error → String
  | .malformed => "<yaml error>"
  | .badNumeral base text =>
    s!"invalid literal for int() with base {base}: " ++
      String.ofList ((quoted text).toList.take 200)
  | .tooLong digits => (NumeralError.tooLong digits).message
  | .tooLarge => "int too large to convert to float"
  | .badFloat text => "could not convert string to float: " ++ quoted text
  | .emptyNumeral => "string index out of range"
  | .unknownTruth word => quoted word
  | .notTime => "'NoneType' object has no attribute 'groupdict'"
  | .badDate reason => reason
  | .badCodePoint => "chr() arg not in range(0x110000)"
  | .hugeCodePoint => "Python int too large to convert to C int"

end DocSearch.Yaml
