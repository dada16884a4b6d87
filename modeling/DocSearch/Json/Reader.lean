import DocSearch.Value

/-!
# Reading JSON

A document is one value with nothing but blanks around it. Beyond the standard the constants `NaN`,
`Infinity` and `-Infinity` are numbers. A fault is reported with its line, its column and its
offset in characters.
-/

namespace DocSearch.Json

open Number Text

/-! ## Faults -/

/-- What was expected or wrong where reading stopped. -/
inductive Fault where
  | value
  | key
  | colon
  | comma
  | extra
  | unterminated
  | escape
  | unicodeEscape
  | control
  | mark
deriving Repr, DecidableEq

/-- The wording of a fault. -/
def Fault.reason : Fault → String
  | .value => "Expecting value"
  | .key => "Expecting property name enclosed in double quotes"
  | .colon => "Expecting ':' delimiter"
  | .comma => "Expecting ',' delimiter"
  | .extra => "Extra data"
  | .unterminated => "Unterminated string starting at"
  | .escape => "Invalid \\escape"
  | .unicodeEscape => "Invalid \\uXXXX escape"
  | .control => "Invalid control character at"
  | .mark => "Unexpected UTF-8 BOM (decode using utf-8-sig)"

/-- Why a text is no document. -/
inductive Error where
  | fault (f : Fault) (line column offset : Nat)
  | number (e : NumeralError)
  | encoding (message : String)
deriving Repr, DecidableEq

/-- The error text. -/
def Error.message : Error → String
  | .fault f line column offset => s!"{f.reason}: line {line} column {column} (char {offset})"
  | .number e => e.message
  | .encoding m => m

/-- Where reading stopped, as the text from there on. -/
inductive Stop where
  | fault (f : Fault) (rest : List Char)
  | number (e : NumeralError)

/-- The line and column of an offset: columns count from the last line break before it. -/
def position (doc : List Char) (offset : Nat) : Nat × Nat :=
  let before := doc.take offset
  (before.count '\n' + 1, (before.reverse.takeWhile (· != '\n')).length + 1)

/-- The error for a stop within a document. -/
def Stop.toError (doc : List Char) : Stop → Error
  | .fault f rest =>
    let offset := doc.length - rest.length
    let (line, column) := position doc offset
    .fault f line column offset
  | .number e => .number e

/-! ## Pieces -/

/-- The blanks of JSON. -/
def isSpace (c : Char) : Bool := c == ' ' || c == '\t' || c == '\n' || c == '\r'

/-- The text behind leading blanks. -/
def skip (cs : List Char) : List Char := cs.dropWhile isSpace

/-- The value of exactly four hexadecimal digits. -/
def fourHex? : List Char → Option (Nat × List Char)
  | a :: b :: c :: d :: rest =>
    if isHexDigit a && isHexDigit b && isHexDigit c && isHexDigit d then
      some (((hexValue a * 16 + hexValue b) * 16 + hexValue c) * 16 + hexValue d, rest)
    else none
  | _ => none

/-- The character of a one-letter escape. -/
def escaped? : Char → Option Char
  | '\"' => some '\"'
  | '\\' => some '\\'
  | '/' => some '/'
  | 'b' => some '\x08'
  | 'f' => some '\x0c'
  | 'n' => some '\n'
  | 'r' => some '\r'
  | 't' => some '\t'
  | _ => none

/-- The character that a `\u` escape and, for a high surrogate, the escape behind it stand for. A
surrogate on its own has no character and reads as `U+FFFD`. -/
def unicodeEscape (high : Nat) (rest : List Char) : Char × List Char :=
  if 0xd800 ≤ high && high < 0xdc00 then
    match rest with
    | '\\' :: 'u' :: more =>
      match fourHex? more with
      | some (low, rest') =>
        if 0xdc00 ≤ low && low < 0xe000 then
          (Char.ofNat (0x10000 + (high - 0xd800) * 1024 + (low - 0xdc00)), rest')
        else ('\uFFFD', rest)
      | none => ('\uFFFD', rest)
    | _ => ('\uFFFD', rest)
  else if 0xdc00 ≤ high && high < 0xe000 then ('\uFFFD', rest)
  else (Char.ofNat high, rest)

/-- The body of a string up to its closing quote; `start` is the text from the opening quote on. -/
def stringBody (start : List Char) (acc : List Char) :
    (fuel : Nat) → List Char → Except Stop (String × List Char)
  | 0, _ => .error (.fault .unterminated start)
  | _ + 1, [] => .error (.fault .unterminated start)
  | fuel + 1, c :: cs =>
    if c == '\"' then .ok (String.ofList acc.reverse, cs)
    else if c == '\\' then
      match cs with
      | [] => .error (.fault .unterminated start)
      | 'u' :: digits =>
        match fourHex? digits with
        | none => .error (.fault .unicodeEscape cs)
        | some (_, []) => .error (.fault .unicodeEscape cs)
        | some (n, rest) =>
          let (d, rest) := unicodeEscape n rest
          stringBody start (d :: acc) fuel rest
      | e :: rest =>
        match escaped? e with
        | some d => stringBody start (d :: acc) fuel rest
        | none => .error (.fault .escape (c :: cs))
    else if c.toNat < 32 then .error (.fault .control (c :: cs))
    else stringBody start (c :: acc) fuel cs

/-- The string whose opening quote has been read off `start`. -/
def string (start cs : List Char) : Except Stop (String × List Char) :=
  stringBody start [] (cs.length + 1) cs

/-- The part of a number behind the point, and the exponent, if they have digits. -/
def fraction (cs : List Char) : List Char × List Char :=
  match cs with
  | '.' :: d :: rest =>
    if isAsciiDigit d then
      (rest.takeWhile isAsciiDigit |> fun ds => '.' :: d :: ds, rest.dropWhile isAsciiDigit)
    else ([], cs)
  | _ => ([], cs)

/-- The exponent of a number, if it has digits. -/
def exponent (cs : List Char) : List Char × List Char :=
  match cs with
  | e :: rest =>
    if e == 'e' || e == 'E' then
      let (mark, digits) := match rest with
        | '+' :: r => (['+'], r)
        | '-' :: r => (['-'], r)
        | r => ([], r)
      let ds := digits.takeWhile isAsciiDigit
      if ds.isEmpty then ([], cs) else (e :: mark ++ ds, digits.dropWhile isAsciiDigit)
    else ([], cs)
  | [] => ([], [])

/-- A number: an integer unless it has a fraction or an exponent. -/
def number (cs : List Char) : Except Stop (Value × List Char) :=
  let (negative, body) := match cs with
    | '-' :: r => (true, r)
    | r => (false, r)
  let whole := match body with
    | '0' :: _ => ['0']
    | r => r.takeWhile isAsciiDigit
  if whole.isEmpty then .error (.fault .value cs)
  else
    let rest := body.drop whole.length
    let (part, rest) := fraction rest
    let (power, rest) := exponent rest
    if part.isEmpty && power.isEmpty then
      if whole.length > maxDigits then .error (.number (.tooLong whole.length))
      else
        let n : Int := digitsValue whole
        .ok (.int (if negative then -n else n), rest)
    else .ok (.float ((readDecimal? negative (whole ++ part ++ power)).getD nan), rest)

/-- The constants and the values they stand for. -/
def constants : List (List Char × Value) :=
  [("null".toList, .null), ("true".toList, .bool true), ("false".toList, .bool false),
    ("NaN".toList, .float nan), ("Infinity".toList, .float (infinity false)),
    ("-Infinity".toList, .float (infinity true))]

/-- A constant or a number. -/
def atom (cs : List Char) : Except Stop (Value × List Char) :=
  match constants.findSome? fun (word, v) => (after? word cs).map fun rest => (v, rest) with
  | some r => .ok r
  | none => number cs

/-! ## Documents -/

mutual

/-- A value at the front of the text. -/
def value : (fuel : Nat) → List Char → Except Stop (Value × List Char)
  | 0, cs => .error (.fault .value cs)
  | fuel + 1, cs =>
    match cs with
    | '\"' :: rest => (string cs rest).map fun (s, r) => (.text s, r)
    | '{' :: rest =>
      match skip rest with
      | '}' :: r => .ok (.map [], r)
      | r => members fuel [] r
    | '[' :: rest =>
      match skip rest with
      | ']' :: r => .ok (.list [], r)
      | r => items fuel [] r
    | _ => atom cs

/-- The members of an object up to its closing brace. -/
def members : (fuel : Nat) → List (Value × Value) → List Char → Except Stop (Value × List Char)
  | 0, _, cs => .error (.fault .key cs)
  | fuel + 1, acc, cs =>
    match cs with
    | '\"' :: rest => do
      let (k, r) ← string cs rest
      match skip r with
      | ':' :: r =>
        let (v, r) ← value fuel (skip r)
        let acc := Value.putEntry (.text k) v acc
        match skip r with
        | '}' :: r => .ok (.map acc, r)
        | ',' :: r => members fuel acc (skip r)
        | r => .error (.fault .comma r)
      | r => .error (.fault .colon r)
    | _ => .error (.fault .key cs)

/-- The items of an array up to its closing bracket. -/
def items : (fuel : Nat) → List Value → List Char → Except Stop (Value × List Char)
  | 0, _, cs => .error (.fault .value cs)
  | fuel + 1, acc, cs => do
    let (v, r) ← value fuel cs
    match skip r with
    | ']' :: r => .ok (.list (v :: acc).reverse, r)
    | ',' :: r => items fuel (v :: acc) (skip r)
    | r => .error (.fault .comma r)

end

/-- The value that a document denotes. -/
def readDocument (doc : List Char) : Except Error Value :=
  match value (doc.length + 1) (skip doc) with
  | .error s => .error (s.toError doc)
  | .ok (v, rest) =>
    match skip rest with
    | [] => .ok v
    | r => .error ((Stop.fault .extra r).toError doc)

/-- The value that a text denotes. A byte order mark at its start is refused. -/
def read (text : List Char) : Except Error Value :=
  match text with
  | '\uFEFF' :: _ => .error (.fault .mark 1 1 0)
  | _ => readDocument text

end DocSearch.Json
