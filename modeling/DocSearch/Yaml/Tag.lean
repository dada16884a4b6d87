import DocSearch.Text.Trim

/-!
# Tags

What a node of a document stands for. A plain scalar without a tag stands for what its spelling
says: a truth value, a number, a time, nothing, or else itself.
-/

namespace DocSearch.Yaml

open Text

/-- The tags with a meaning. Under `merge`, a map takes over the entries of others; `default` is the
tag of the plain key `=`. -/
inductive Tag where
  | null
  | truth
  | int
  | float
  | binary
  | time
  | text
  | list
  | orderedPairs
  | pairs
  | map
  | set
  | merge
  | default
  | unknown
deriving Repr, DecidableEq

/-- The names behind `tag:yaml.org,2002:`. -/
def tagNames : List (String × Tag) :=
  [("null", .null), ("bool", .truth), ("int", .int), ("float", .float), ("binary", .binary),
    ("timestamp", .time), ("str", .text), ("seq", .list), ("omap", .orderedPairs),
    ("pairs", .pairs), ("map", .map), ("set", .set), ("merge", .merge), ("value", .default)]

/-- What the names of the tags begin with. -/
def tagSpace : List Char := "tag:yaml.org,2002:".toList

/-- The tag of a full name. -/
def Tag.ofName (n : List Char) : Tag :=
  match after? tagSpace n with
  | some short => (tagNames.lookup (String.ofList short)).getD .unknown
  | none => .unknown

/-! ## Spellings of numbers -/

/-- The rest behind an optional sign. -/
def unsigned : List Char → List Char
  | '-' :: cs => cs
  | '+' :: cs => cs
  | cs => cs

/-- Whether the text is a digit of class `p` or an underscore, and more of them. -/
def isRun (p : Char → Bool) (cs : List Char) : Bool := !cs.isEmpty && cs.all fun c => p c || c == '_'

/-- A digit, then digits and underscores. -/
def isNumeral : List Char → Bool
  | [] => false
  | c :: cs => isAsciiDigit c && cs.all fun d => isAsciiDigit d || d == '_'

/-- A number below sixty in one or two digits. -/
def isSixtieth : List Char → Bool
  | [c] => isAsciiDigit c
  | [c, d] => isAsciiDigit c && c ≤ '5' && isAsciiDigit d
  | _ => false

/-- Whether a text spells an integer. -/
def spellsInt (cs : List Char) : Bool :=
  match unsigned cs with
  | ['0'] => true
  | '0' :: 'b' :: ds => isRun (fun c => c == '0' || c == '1') ds
  | '0' :: 'x' :: ds => isRun isHexDigit ds
  | '0' :: ds => isRun (fun c => '0' ≤ c && c ≤ '7') ds
  | ds =>
    match splitAt ':' ds with
    | whole :: parts => isNumeral whole && parts.all isSixtieth
    | [] => false

/-- Whether a text is empty or a signed exponent. -/
def isExponent : List Char → Bool
  | [] => true
  | e :: s :: ds =>
    (e == 'e' || e == 'E') && (s == '-' || s == '+') && !ds.isEmpty && ds.all isAsciiDigit
  | _ => false

/-- Whether a text spells a number with a point. -/
def spellsFloat (cs : List Char) : Bool :=
  let isPart (c : Char) : Bool := isAsciiDigit c || c == '_'
  let body := unsigned cs
  let (whole, rest) := (body.takeWhile (· != '.'), body.dropWhile (· != '.'))
  match rest with
  | [] => false
  | _ :: part =>
    if whole.isEmpty then
      ["inf", "Inf", "INF"].contains (String.ofList part) ||
        cs.length == body.length &&
          (["nan", "NaN", "NAN"].contains (String.ofList part) ||
            part.head?.any isAsciiDigit && isExponent (part.dropWhile isPart))
    else
      match splitAt ':' whole with
      | [w] => isNumeral w && isExponent (part.dropWhile isPart)
      | w :: parts => isNumeral w && parts.all isSixtieth && part.all isPart
      | [] => false

/-! ## Times -/

/-- The offset from universal time. -/
inductive Zone where
  | universal
  | offset (west : Bool) (hours minutes : Nat)
deriving Repr, DecidableEq

/-- A time of day: hours, minutes, seconds, the digits of the fraction and the offset. -/
structure Clock where
  hour : Nat
  minute : Nat
  second : Nat
  fraction : List Char
  zone : Option Zone
deriving Repr, DecidableEq

/-- A day, perhaps with a time. `padded` tells that month and day have two digits. -/
structure Stamp where
  year : Nat
  month : Nat
  day : Nat
  padded : Bool
  clock : Option Clock
deriving Repr, DecidableEq

/-- A number of at least `low` and at most `high` digits, and the rest. -/
def digits? (low high : Nat) (cs : List Char) : Option (Nat × Nat × List Char) :=
  let ds := (cs.take high).takeWhile isAsciiDigit
  if low ≤ ds.length then
    some (ds.foldl (fun n c => 10 * n + (c.toNat - 48)) 0, ds.length, cs.drop ds.length)
  else none

/-- The offset at the end of a time. -/
def zone? : List Char → Option (Option Zone)
  | [] => some none
  | cs =>
    match cs.dropWhile fun c => c == ' ' || c == '\t' with
    | ['Z'] => some (some .universal)
    | s :: ds => do
      if s != '-' && s != '+' then none
      let (h, _, rest) ← digits? 1 2 ds
      match rest with
      | [] => some (some (.offset (s == '-') h 0))
      | ':' :: ms => do
        let (m, _, rest) ← digits? 2 2 ms
        if rest.isEmpty then some (some (.offset (s == '-') h m)) else none
      | _ => none
    | [] => none

/-- The time of day behind the mark that ends the day. -/
def clock? (cs : List Char) : Option Clock := do
  let (hour, _, cs) ← digits? 1 2 cs
  let (minute, _, cs) ← digits? 2 2 (← after? [':'] cs)
  let (second, _, cs) ← digits? 2 2 (← after? [':'] cs)
  let (fraction, cs) := match cs with
    | '.' :: ds => (ds.takeWhile isAsciiDigit, ds.dropWhile isAsciiDigit)
    | cs => ([], cs)
  return { hour, minute, second, fraction, zone := (← zone? cs) }

/-- The day, and perhaps the time, that a text spells. -/
def Stamp.ofText? (cs : List Char) : Option Stamp := do
  let (year, _, cs) ← digits? 4 4 cs
  let (month, n, cs) ← digits? 1 2 (← after? ['-'] cs)
  let (day, m, cs) ← digits? 1 2 (← after? ['-'] cs)
  let padded := n == 2 && m == 2
  match cs with
  | [] => some { year, month, day, padded, clock := none }
  | 'T' :: cs => return { year, month, day, padded, clock := some (← clock? cs) }
  | 't' :: cs => return { year, month, day, padded, clock := some (← clock? cs) }
  | c :: cs =>
    if c == ' ' || c == '\t' then
      let cs := cs.dropWhile fun c => c == ' ' || c == '\t'
      return { year, month, day, padded, clock := some (← clock? cs) }
    else none

/-! ## Plain scalars -/

/-- The spellings of truth values. -/
def truthWords : List String :=
  ["yes", "Yes", "YES", "no", "No", "NO", "true", "True", "TRUE", "false", "False", "FALSE",
    "on", "On", "ON", "off", "Off", "OFF"]

/-- The text without one line feed at its end. -/
def dropFeed (cs : List Char) : List Char := if cs.getLast? == some '\n' then cs.dropLast else cs

/-- The tag that the spelling of a plain scalar gives. -/
def Tag.ofSpelling (text : List Char) : Tag :=
  let cs := dropFeed text
  let s := String.ofList cs
  if text.isEmpty then .null
  else if truthWords.contains s then .truth
  else if spellsFloat cs then .float
  else if spellsInt cs then .int
  else if s == "<<" then .merge
  else if ["~", "null", "Null", "NULL"].contains s then .null
  else if (Stamp.ofText? cs).any fun t => t.padded || t.clock.isSome then .time
  else if s == "=" then .default
  else .text

end DocSearch.Yaml
