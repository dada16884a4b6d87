import DocSearch.Value

/-!
# Writing JSON

One printer with a record of layout choices: what stands between items, how deep lines are indented,
and whether characters beyond ASCII are escaped.
-/

namespace DocSearch.Json

open Number Text

/-- The layout of a written document. With an indent each item has a line of its own. -/
structure Layout where
  comma : String
  colon : String
  indent : Option Nat
  ascii : Bool

/-- No blanks at all, characters beyond ASCII as they are. -/
def Layout.compact : Layout := ⟨",", ":", none, false⟩

/-- One line with a blank behind commas and colons, ASCII alone. -/
def Layout.spaced : Layout := ⟨", ", ": ", none, true⟩

/-- Two blanks per level, ASCII alone. -/
def Layout.indented : Layout := ⟨",", ": ", some 2, true⟩

/-- A UTF-16 unit as an escape. -/
def unitEscape (n : Nat) : List Char := '\\' :: 'u' :: hexDigits 4 n

/-- A character inside a string. -/
def charText (ascii : Bool) (c : Char) : List Char :=
  let n := c.toNat
  if c == '\"' || c == '\\' then ['\\', c]
  else if c == '\n' then ['\\', 'n']
  else if c == '\r' then ['\\', 'r']
  else if c == '\t' then ['\\', 't']
  else if n == 8 then ['\\', 'b']
  else if n == 12 then ['\\', 'f']
  else if n < 32 then unitEscape n
  else if !ascii || n < 127 then [c]
  else if n < 0x10000 then unitEscape n
  else
    unitEscape (0xd800 + (n - 0x10000) / 1024) ++ unitEscape (0xdc00 + (n - 0x10000) % 1024)

/-- A string between double quotes. -/
def stringText (ascii : Bool) (s : String) : String :=
  String.ofList ('\"' :: s.toList.flatMap (charText ascii) ++ ['\"'])

/-- The spelling of a double; infinities and NaN go by name. -/
def numberText (f : Float) : String :=
  match floatText f with
  | "inf" => "Infinity"
  | "-inf" => "-Infinity"
  | "nan" => "NaN"
  | s => s

/-- The line break in front of an item at the given depth. -/
def Layout.break (l : Layout) (depth : Nat) : String :=
  match l.indent with
  | none => ""
  | some n => "\n" ++ "".pushn ' ' (n * depth)

/-- Items between brackets. -/
def Layout.enclose (l : Layout) (depth : Nat) (left right : String) (items : List String) : String :=
  if items.isEmpty then left ++ right
  else left ++ l.break (depth + 1) ++ join (l.comma ++ l.break (depth + 1)) items ++ l.break depth ++
    right

mutual

/-- A value at a depth of nesting. Values that JSON lacks are written as the text that stands for
them. -/
def write (l : Layout) (depth : Nat) : Value → String
  | .null => "null"
  | .bool b => if b then "true" else "false"
  | .int i => toString i
  | .float f => numberText f
  | .text s => stringText l.ascii s
  | .bytes bs => stringText l.ascii (String.ofList (Utf8.decodeLossy bs))
  | .day s | .time s => stringText l.ascii s
  | .pair a b => l.enclose depth "[" "]" [write l (depth + 1) a, write l (depth + 1) b]
  | .list vs => l.enclose depth "[" "]" (writeAll l (depth + 1) vs)
  | .set vs => l.enclose depth "[" "]" (writeAll l (depth + 1) vs)
  | .map es => l.enclose depth "\x7b" "\x7d" (writeEntries l (depth + 1) es)

/-- Several values. -/
def writeAll (l : Layout) (depth : Nat) : List Value → List String
  | [] => []
  | v :: vs => write l depth v :: writeAll l depth vs

/-- The entries of a mapping; a key that is no text is written as the text that stands for it. -/
def writeEntries (l : Layout) (depth : Nat) : List (Value × Value) → List String
  | [] => []
  | (k, v) :: es =>
    (stringText l.ascii k.display ++ l.colon ++ write l depth v) :: writeEntries l depth es

end

/-- A document without blanks. -/
def compact (v : Value) : String := write .compact 0 v

/-- A document on one line in ASCII. -/
def spaced (v : Value) : String := write .spaced 0 v

/-- A document with two blanks per level, in ASCII. -/
def indented (v : Value) : String := write .indented 0 v

end DocSearch.Json
