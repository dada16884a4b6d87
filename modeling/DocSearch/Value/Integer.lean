import DocSearch.Value

/-!
# Integers from dynamic values

Settings and database rows hold values of any type where an integer is meant. A truth value counts as
zero or one, a floating-point number loses its fraction, and a text is read as a numeral.
-/

namespace DocSearch

open Number Text

/-- Why a value is no integer. -/
inductive IntegerError where
  | notNumber (type : String)
  | numeral (cause : NumeralError)
  | undefined
  | infinite
deriving Repr, DecidableEq

/-- The error text. -/
def IntegerError.message : IntegerError → String
  | .notNumber type =>
    "int() argument must be a string, a bytes-like object or a real number, not " ++ quoted type
  | .numeral cause => cause.message
  | .undefined => "cannot convert float NaN to integer"
  | .infinite => "cannot convert float infinity to integer"

/-- The whole part of a finite floating-point number. -/
def truncated (p : Parts) : Int :=
  let (num, den) := p.ratio
  let n : Int := (num / den : Nat)
  if p.negative then -n else n

/-- The integer that a value counts as. -/
def Value.toInteger : Value → Except IntegerError Int
  | .bool b => .ok (if b then 1 else 0)
  | .int i => .ok i
  | .float f =>
    match parts? f with
    | some p => .ok (truncated p)
    | none => .error (if f != f then .undefined else .infinite)
  | .text s => (readInt s).mapError .numeral
  | v => .error (.notNumber v.typeName)

/-- A number without its fraction, as messages count with it. -/
def Value.countText? : Value → Option String
  | .bool b => some (if b then "1" else "0")
  | .int i => some (toString i)
  | .float f => (parts? f).map fun p => toString (truncated p)
  | _ => none

end DocSearch
