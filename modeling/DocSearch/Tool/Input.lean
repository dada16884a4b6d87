import DocSearch.Value

/-!
# Arguments of the search tool

The tool takes a query and the number of records wanted. The arguments are checked field by field in
the order of the fields, and all faults are reported together. A number may be given as a whole
floating-point number, as a truth value or as a numeral.
-/

namespace DocSearch.Tool

open Number Text

/-- Checked arguments: the number of records is at least one. -/
structure Input where
  query : String
  limit : Int
deriving Repr, DecidableEq

/-- What is wrong with a field, or with the arguments as a whole. -/
inductive Fault where
  | missing
  | notObject
  | notText
  | blankQuery
  | notInteger
  | notNumeral
  | numeralTooLong
  | fractional
  | infinite
  | belowOne
deriving Repr, DecidableEq

/-- The code of a fault. -/
def Fault.code : Fault → String
  | .missing => "missing"
  | .notObject => "model_type"
  | .notText => "string_type"
  | .blankQuery => "value_error"
  | .notInteger => "int_type"
  | .notNumeral => "int_parsing"
  | .numeralTooLong => "int_parsing_size"
  | .fractional => "int_from_float"
  | .infinite => "finite_number"
  | .belowOne => "greater_than_equal"

/-- The wording of a fault. -/
def Fault.message : Fault → String
  | .missing => "Field required"
  | .notObject => "Input should be a valid dictionary or instance of SearchInput"
  | .notText => "Input should be a valid string"
  | .blankQuery => "Value error, query cannot be empty or whitespace"
  | .notInteger => "Input should be a valid integer"
  | .notNumeral => "Input should be a valid integer, unable to parse string as an integer"
  | .numeralTooLong => "Unable to parse input string as an integer, exceeded maximum size"
  | .fractional => "Input should be a valid integer, got a number with a fractional part"
  | .infinite => "Input should be a finite number"
  | .belowOne => "Input should be greater than or equal to 1"

/-- A fault with the field it is in; none for the arguments as a whole. -/
structure Issue where
  fault : Fault
  field : Option String
  input : Value

/-! ## Numbers -/

/-- Whether all characters are digits with single underscores between them. -/
def isDigitRun (cs : List Char) : Bool :=
  cs.all (fun c => isAsciiDigit c || c == '_') && !cs.isEmpty && underscoresBetweenDigits cs

/-- The integer that a numeral denotes: a sign, digits, and perhaps a point with zeros behind it. -/
def numeral? (s : String) : Option Int :=
  let (negative, body) := cutSign (trimBy isBlank s.toList)
  let whole := body.takeWhile (· != '.')
  let rest := (body.dropWhile (· != '.')).drop 1
  if isDigitRun whole && rest.all (· == '0') then
    let n : Int := digitsValue (whole.filter (· != '_'))
    some (if negative then -n else n)
  else none

/-- The largest magnitude of a floating-point number that is taken as an integer. -/
def floatLimit : Int := pow2 63

/-- The integer that a value counts as. -/
def integer : Value → Except Fault Int
  | .bool b => .ok (if b then 1 else 0)
  | .int i => .ok i
  | .float f =>
    if (parts? f).isNone then .error .infinite
    else
      match toInt? f with
      | none => .error .fractional
      | some i => if -floatLimit < i && i < floatLimit then .ok i else .error .numeralTooLong
  | .text s =>
    if (trimBy isBlank s.toList).length > maxDigits then .error .numeralTooLong
    else
      match numeral? s with
      | some i => .ok i
      | none => .error .notNumeral
  | _ => .error .notInteger

/-! ## Fields -/

/-- The query: a text with something other than blanks in it. -/
def checkQuery : Option Value → Except Fault String
  | none => .error .missing
  | some (.text s) => if isAllBlank s then .error .blankQuery else .ok s
  | some _ => .error .notText

/-- The limit: an integer from one on. -/
def checkLimit : Option Value → Except Fault Int
  | none => .error .missing
  | some v => do
    let i ← integer v
    if i < 1 then .error .belowOne else .ok i

/-- The issue of a field that failed its check. -/
def issueOf (arguments : Value) (field : String) : Except Fault α → Option Issue
  | .ok _ => none
  | .error .missing => some ⟨.missing, some field, arguments⟩
  | .error f => some ⟨f, some field, (arguments.get? field).getD .null⟩

/-- The checked arguments, or every issue with them. -/
def Input.check (arguments : Value) : Except (List Issue) Input :=
  match arguments with
  | .map _ =>
    let query := checkQuery (arguments.get? "query")
    let limit := checkLimit (arguments.get? "limit")
    match query, limit with
    | .ok q, .ok n => .ok ⟨q, n⟩
    | _, _ =>
      .error ((issueOf arguments "query" query).toList ++ (issueOf arguments "limit" limit).toList)
  | _ => .error [⟨.notObject, none, arguments⟩]

end DocSearch.Tool
