import DocSearch.Value

/-!
# Schemas

A schema describes an object: its fields, and what each of them holds. It can be shown to clients as
a JSON schema, and arguments can be checked against it. Of several violations one is reported: a
missing field before anything else, then the one in the field whose name comes last.
-/

namespace DocSearch.Tool

open Text

/-- What a field holds: a text, or an integer that is not too small. -/
inductive FieldKind where
  | text
  | integer (least : Int)
deriving Repr, DecidableEq

/-- A field that is required. -/
structure Field where
  name : String
  title : String
  description : String
  kind : FieldKind
deriving Repr, DecidableEq

/-- A description of objects. -/
structure Schema where
  title : String
  description : String
  fields : List Field
deriving Repr, DecidableEq

/-! ## Showing schemas -/

/-- The name of a kind. -/
def FieldKind.name : FieldKind → String
  | .text => "string"
  | .integer _ => "integer"

/-- The bounds of a kind. -/
def FieldKind.bounds : FieldKind → List (String × Value)
  | .text => []
  | .integer least => [("minimum", .int least)]

/-- A field as a JSON schema. -/
def Field.value (f : Field) : Value :=
  .object ([("description", .text f.description)] ++ f.kind.bounds ++
    [("title", .text f.title), ("type", .text f.kind.name)])

/-- A schema as a JSON schema. -/
def Schema.value (s : Schema) : Value :=
  .object [("description", .text s.description),
    ("properties", .object (s.fields.map fun f => (f.name, f.value))),
    ("required", .list (s.fields.map fun f => .text f.name)), ("title", .text s.title),
    ("type", .text "object")]

/-! ## Checking arguments -/

/-- How arguments violate a schema. -/
inductive Violation where
  | missing (field : String)
  | tooSmall (shown : String) (least : Int)
  | wrongType (shown type : String)
deriving Repr, DecidableEq

/-- The wording of a violation. -/
def Violation.message : Violation → String
  | .missing field => s!"{quoted field} is a required property"
  | .tooSmall shown least => s!"{shown} is less than the minimum of {least}"
  | .wrongType shown type => s!"{shown} is not of type {quoted type}"

/-- Whether a value is a number below `least`. -/
def isBelow (least : Int) : Value → Bool
  | .int i => i < least
  | .float f => f < Float.ofInt least
  | _ => false

/-- Whether a value is of a kind, whatever its size. A whole floating-point number is an integer. -/
def FieldKind.holds : FieldKind → Value → Bool
  | .text, .text _ => true
  | .integer _, .int _ => true
  | .integer _, .float f => (Number.toInt? f).isSome
  | _, _ => false

/-- How a value violates a kind. -/
def FieldKind.violation? (k : FieldKind) (v : Value) : Option Violation :=
  match k with
  | .integer least =>
    if isBelow least v then some (.tooSmall v.shown least)
    else if k.holds v then none
    else some (.wrongType v.shown k.name)
  | .text => if k.holds v then none else some (.wrongType v.shown k.name)

/-- How arguments violate a schema, if they do. -/
def Schema.violation? (s : Schema) (arguments : Value) : Option Violation :=
  match s.fields.find? fun f => (arguments.get? f.name).isNone with
  | some f => some (.missing f.name)
  | none =>
    (s.fields.mergeSort fun f g => decide (g.name ≤ f.name)).findSome? fun f =>
      (arguments.get? f.name).bind f.kind.violation?

end DocSearch.Tool
