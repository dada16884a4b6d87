import DocSearch.Value

/-!
# Binding values to the fields of a record

A record has a name and named fields, the first of which may be required. Values are bound to the
fields by position or by name; the first fault found is reported.
-/

namespace DocSearch

open Text

/-- The name of a record type and its fields, required ones first. -/
structure Shape where
  name : String
  required : List String
  optional : List String

/-- Why values do not fit a record. -/
inductive BindError where
  | unexpected (record field : String)
  | notText (record : String)
  | surplus (record : String) (allowed given : Nat)
  | missing (record : String) (fields : List String)
deriving Repr, DecidableEq

/-- Quoted names in a sentence: two with `and`, more with commas as well. -/
def enumerate : List String → String
  | [] => ""
  | [a] => quoted a
  | [a, b] => quoted a ++ " and " ++ quoted b
  | names => join ", " (names.dropLast.map quoted) ++ ", and " ++ quoted (names.getLast?.getD "")

/-- The error text. -/
def BindError.message : BindError → String
  | .unexpected record field =>
    s!"{record}.__init__() got an unexpected keyword argument {quoted field}"
  | .notText _ => "keywords must be strings"
  | .surplus record allowed given =>
    s!"{record}.__init__() takes {allowed + 1} positional arguments but {given + 1} were given"
  | .missing record fields =>
    let plural := if fields.length == 1 then "argument" else "arguments"
    s!"{record}.__init__() missing {fields.length} required positional {plural}: " ++
      enumerate fields

namespace Shape

/-- All field names in order. -/
def fields (s : Shape) : List String := s.required ++ s.optional

/-- The values of the entries by field; an entry whose name is no field is refused. -/
def named (s : Shape) (entries : List (Value × Value)) :
    Except BindError (List (String × Value)) :=
  if entries.all fun (k, _) => k matches .text _ then
    entries.foldlM (fun acc (k, v) =>
      let name := k.display
      if s.fields.contains name then .ok (acc ++ [(name, v)]) else .error (.unexpected s.name name))
      []
  else .error (.notText s.name)

/-- Refuses values that leave a required field without one. -/
def complete (s : Shape) (bound : List (String × Value)) :
    Except BindError (List (String × Value)) :=
  let missing := s.required.filter fun f => !bound.any (·.1 == f)
  if missing.isEmpty then .ok bound else .error (.missing s.name missing)

/-- Binds values given by name. -/
def bindNamed (s : Shape) (entries : List (Value × Value)) :
    Except BindError (List (String × Value)) :=
  s.named entries >>= s.complete

/-- Binds values given by position. -/
def bindPositional (s : Shape) (values : List Value) : Except BindError (List (String × Value)) :=
  if values.length > s.fields.length then
    .error (.surplus s.name s.fields.length values.length)
  else s.complete (s.fields.zip values)

end Shape

end DocSearch
