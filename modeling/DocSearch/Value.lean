import DocSearch.Number.Shortest
import DocSearch.Number.Numeral
import DocSearch.Text.Utf8

/-!
# Dynamic values

The values that data documents hold: JSON replies of the model daemon and YAML settings. Mappings
keep the order in which their keys first came; a later value for the same key replaces the earlier
one in place.
-/

namespace DocSearch

open Number Text

/-- A value of a data document. Days and times are kept in their ISO form; a pair is an entry of a
mapping that was written as a list. -/
inductive Value where
  | null
  | bool (b : Bool)
  | int (i : Int)
  | float (f : Float)
  | text (s : String)
  | bytes (bs : Bytes)
  | day (iso : String)
  | time (iso : String)
  | pair (first second : Value)
  | list (items : List Value)
  | map (entries : List (Value × Value))
  | set (members : List Value)
deriving Inhabited

namespace Value

/-- The name of a value's type as error texts give it. -/
def typeName : Value → String
  | .null => "NoneType"
  | .bool _ => "bool"
  | .int _ => "int"
  | .float _ => "float"
  | .text _ => "str"
  | .bytes _ => "bytes"
  | .day _ => "datetime.date"
  | .time _ => "datetime.datetime"
  | .pair _ _ => "tuple"
  | .list _ => "list"
  | .map _ => "dict"
  | .set _ => "set"

/-- Whether a value counts as true: nothing, zero and whatever is empty do not. -/
def truthy : Value → Bool
  | .null => false
  | .bool b => b
  | .int i => i != 0
  | .float f => f != 0
  | .text s => !s.isEmpty
  | .bytes bs => !bs.isEmpty
  | .day _ | .time _ | .pair _ _ => true
  | .list items => !items.isEmpty
  | .map entries => !entries.isEmpty
  | .set members => !members.isEmpty

/-! ## Keys -/

/-- The number that a value counts as when keys are compared. -/
def numeric? : Value → Option (Int × Nat)
  | .bool b => some (if b then 1 else 0, 1)
  | .int i => some (i, 1)
  | .float f =>
    (parts? f).map fun p =>
      let (num, den) := p.ratio
      let g := num.gcd den
      let n : Int := (num / g : Nat)
      (if p.negative then -n else n, den / g)
  | _ => none

/-- Equality of keys: numbers by value whatever their type, everything else by type and content. -/
def sameKey (a b : Value) : Bool :=
  match a, b with
  | .null, .null => true
  | .text s, .text t => s == t
  | .bytes s, .bytes t => s == t
  | .day s, .day t => s == t
  | .time s, .time t => s == t
  | .float f, .float g => f == g
  | a, b =>
    match numeric? a, numeric? b with
    | some m, some n => m == n
    | _, _ => false

/-- What keeps a value from being the key of a mapping: a list, a mapping or a set, which may be in a
pair. -/
def notKey? : Value → Option Value
  | .list vs => some (.list vs)
  | .map es => some (.map es)
  | .set vs => some (.set vs)
  | .pair a b => (notKey? a).or (notKey? b)
  | _ => none

/-- Whether a value may be the key of a mapping. -/
def isKey (v : Value) : Bool := v.notKey?.isNone

/-- The entries with `v` under the key `k`: in place if the key is there, else at the end. -/
def putEntry (k v : Value) : List (Value × Value) → List (Value × Value)
  | [] => [(k, v)]
  | (k', v') :: es => if sameKey k' k then (k', v) :: es else (k', v') :: putEntry k v es

/-- The value under a text key among entries. -/
def lookup (k : String) : List (Value × Value) → Option Value
  | [] => none
  | (.text k', v) :: es => if k' == k then some v else lookup k es
  | _ :: es => lookup k es

/-- The value under a text key, if the value is a mapping that has it. -/
def get? (k : String) : Value → Option Value
  | .map entries => lookup k entries
  | _ => none

/-- A mapping from text keys. -/
def object (fields : List (String × Value)) : Value := .map (fields.map fun (k, v) => (.text k, v))

/-- A text, or nothing. -/
def ofText? : Option String → Value
  | some s => .text s
  | none => .null

/-! ## Spelling -/

/-- Bytes spelled out as a text of ASCII characters; all others are escaped. -/
def shownBytes (bs : Bytes) : String :=
  let cs := bs.map fun b => Char.ofNat b.toNat
  let q := quoteFor cs
  let spelled (c : Char) : List Char := if c.toNat < 128 then quotedChar q c else codeEscape c
  "b" ++ String.ofList (q :: cs.flatMap spelled ++ [q])

mutual

/-- A value spelled out: texts quoted, lists in brackets, mappings in braces. -/
def shown : Value → String
  | .null => "None"
  | .bool b => if b then "True" else "False"
  | .int i => toString i
  | .float f => floatText f
  | .text s => quoted s
  | .bytes bs => shownBytes bs
  | .day iso | .time iso => iso
  | .pair a b => "(" ++ shown a ++ ", " ++ shown b ++ ")"
  | .list items => "[" ++ join ", " (shownAll items) ++ "]"
  | .map entries => "\x7b" ++ join ", " (shownEntries entries) ++ "\x7d"
  | .set members => "\x7b" ++ join ", " (shownAll members) ++ "\x7d"

/-- Each of several values spelled out. -/
def shownAll : List Value → List String
  | [] => []
  | v :: vs => shown v :: shownAll vs

/-- Each entry of a mapping spelled out. -/
def shownEntries : List (Value × Value) → List String
  | [] => []
  | (k, v) :: es => (shown k ++ ": " ++ shown v) :: shownEntries es

end

/-- A value as a message shows it: a text stands for itself. -/
def display : Value → String
  | .text s => s
  | v => shown v

end Value

end DocSearch
