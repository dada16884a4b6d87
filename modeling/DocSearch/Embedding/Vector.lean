import DocSearch.Value

/-!
# Embedding vectors

A vector is a sequence of numbers. From dynamic values it is read leniently: a text iterates its
characters, a mapping its keys, and texts, bytes and truth values count as numbers. The store takes
a vector as a literal.
-/

namespace DocSearch

open Number Text

/-- Why a value is no vector or no number. -/
inductive ConversionError where
  | notIterable (type : String)
  | notNumber (type : String)
  | malformed (text : String)
  | malformedBytes (bytes : Bytes)
  | tooLarge
deriving Repr, DecidableEq

/-- The error text. -/
def ConversionError.message : ConversionError → String
  | .notIterable type => s!"{quoted type} object is not iterable"
  | .notNumber type => s!"float() argument must be a string or a real number, not {quoted type}"
  | .malformed text => s!"could not convert string to float: {quoted text}"
  | .malformedBytes bytes => s!"could not convert string to float: {Value.shownBytes bytes}"
  | .tooLarge => "int too large to convert to float"

/-- The double that bytes denote, all of them ASCII characters. -/
def readFloatBytes? (bs : Bytes) : Option Float :=
  if bs.all (·.toNat < 128) then
    readFloat? (String.ofList (bs.map fun b => Char.ofNat b.toNat))
  else none

/-- The number that a value counts as. -/
def Value.toFloat : Value → Except ConversionError Float
  | .bool b => .ok (if b then 1 else 0)
  | .int i =>
    match ofInt? i with
    | some f => .ok f
    | none => .error .tooLarge
  | .float f => .ok f
  | .text s =>
    match readFloat? s with
    | some f => .ok f
    | none => .error (.malformed s)
  | .bytes bs =>
    match readFloatBytes? bs with
    | some f => .ok f
    | none => .error (.malformedBytes bs)
  | v => .error (.notNumber v.typeName)

/-- The items of a value in order. -/
def Value.items : Value → Except ConversionError (List Value)
  | .list vs | .set vs => .ok vs
  | .pair a b => .ok [a, b]
  | .text s => .ok (s.toList.map fun c => .text (String.singleton c))
  | .bytes bs => .ok (bs.map fun b => .int b.toNat)
  | .map es => .ok (es.map (·.1))
  | v => .error (.notIterable v.typeName)

/-- The numbers of a vector given as a value. -/
def vectorOf (v : Value) : Except ConversionError (List Float) := do
  (← v.items).mapM Value.toFloat

/-- The literal of a vector: its numbers in brackets with commas between them. -/
def vectorLiteral (v : List Float) : String := "[" ++ join "," (v.map floatText) ++ "]"

end DocSearch
