import DocSearch.Text.Trim

/-!
# Lexemes of Go source text

A source text is cut into lexemes and the blanks between them. Each lexeme keeps the blanks in front
of it, so that lexemes and blanks one after the other are the text again, and the rows of its first
and its last character. Comments are lexemes like all others.
-/

namespace DocSearch.Go

open Text

/-- The kinds of lexemes. -/
inductive LexemeKind where
  | comment
  | identifier
  | keyword
  | operator
  | number
  | character
  | string
  | endOfText
deriving Repr, DecidableEq

/-- A lexeme with the blanks in front of it and the rows where it begins and ends. -/
structure Lexeme where
  kind : LexemeKind
  text : List Char
  gap : List Char
  firstRow : Nat
  lastRow : Nat
deriving Repr, DecidableEq

/-- The reserved words. -/
def keywords : List String :=
  ["break", "case", "chan", "const", "continue", "default", "defer", "else", "fallthrough", "for",
    "func", "go", "goto", "if", "import", "interface", "map", "package", "range", "return",
    "select", "struct", "switch", "type", "var"]

/-- The operators and delimiters, longer ones first. -/
def operators : List (List Char) :=
  (["&^=", "<<=", ">>=", "...", "&&", "||", "<-", "++", "--", "==", "!=", "<=", ">=", ":=", "+=",
    "-=", "*=", "/=", "%=", "&=", "|=", "^=", "<<", ">>", "&^", "+", "-", "*", "/", "%", "&", "|",
    "^", "<", ">", "=", "!", "(", ")", "[", "]", "\x7b", "\x7d", ",", ";", ".", ":", "~"]).map
    String.toList

/-! ## Extents

Each function below gives the number of characters that a lexeme takes up. -/

/-- The extent of a general comment behind its opening, up to and with the closing mark. -/
def blockExtent : List Char → Option Nat
  | [] => none
  | '*' :: '/' :: _ => some 2
  | _ :: cs => (blockExtent cs).map (· + 1)

/-- The extent of a raw string behind its opening quote. -/
def rawExtent : List Char → Option Nat
  | [] => none
  | c :: cs => if c == '\x60' then some 1 else (rawExtent cs).map (· + 1)

/-- Whether the first `n` characters are there and are hexadecimal digits. -/
def hexRun (n : Nat) (cs : List Char) : Bool :=
  (cs.take n).length == n && (cs.take n).all isHexDigit

/-- The extent of an interpreted string behind its opening quote. A backslash takes the next
character with it; of the numeric escapes enough digits have to follow. -/
def quotedExtent : List Char → Option Nat
  | [] => none
  | '\"' :: _ => some 1
  | '\n' :: _ => none
  | '\\' :: e :: cs =>
    let wellFormed :=
      if e == 'x' then hexRun 2 cs
      else if e == 'u' then hexRun 4 cs
      else if e == 'U' then hexRun 8 cs
      else true
    if wellFormed then (quotedExtent cs).map (· + 2) else none
  | _ :: cs => (quotedExtent cs).map (· + 1)

/-- The extent of a character literal behind its opening quote. -/
def characterExtent : List Char → Option Nat
  | '\\' :: 'x' :: cs => closed 2 (hexRun 2) cs
  | '\\' :: 'u' :: cs => closed 4 (hexRun 4) cs
  | '\\' :: 'U' :: cs => closed 8 (hexRun 8) cs
  | '\\' :: c :: cs =>
    if "abfnrtv\\\x27\"".toList.contains c then closed 0 (fun _ => true) cs
    else closed 3 (fun ds => (ds.take 3).length == 3 && (ds.take 3).all fun d => '0' ≤ d && d ≤ '7')
      (c :: cs) |>.map (· - 1)
  | c :: '\x27' :: _ => if c == '\x27' || c == '\\' then none else some 2
  | _ => none
where
  /-- An escape of `n` digits and the closing quote. -/
  closed (n : Nat) (digits : List Char → Bool) (cs : List Char) : Option Nat :=
    if digits cs && (cs.drop n).head? == some '\x27' then some (n + 3) else none

/-- The extent of a run of digits with single underscores between them. -/
def digitExtent (p : Char → Bool) : List Char → Nat
  | [] => 0
  | c :: cs => if p c then 1 + more cs else 0
where
  more : List Char → Nat
    | [] => 0
    | '_' :: c :: cs => if p c then 2 + more cs else 0
    | c :: cs => if p c then 1 + more cs else 0

/-- The extent of a non-empty run of digits, perhaps behind one underscore. -/
def looseExtent? (p : Char → Bool) (cs : List Char) : Option Nat :=
  let n := match cs with
    | '_' :: r => let n := digitExtent p r; if n == 0 then 0 else n + 1
    | r => digitExtent p r
  if n == 0 then none else some n

/-- The extent of an exponent with one of the marks `e` and `E`, or `p` and `P`. -/
def exponentExtent? (lower upper : Char) : List Char → Option Nat
  | m :: cs =>
    if m == lower || m == upper then
      let (sign, ds) := match cs with
        | '+' :: r => (1, r)
        | '-' :: r => (1, r)
        | r => (0, r)
      let n := digitExtent isAsciiDigit ds
      if n == 0 then none else some (1 + sign + n)
    else none
  | [] => none

/-- The extents of the integer literals at the front. -/
def integerExtents (cs : List Char) : List Nat :=
  match cs with
  | '0' :: r =>
    let based (marks : List Char) (p : Char → Bool) : List Nat :=
      match r with
      | m :: ds => if marks.contains m then ((looseExtent? p ds).map (· + 2)).toList else []
      | [] => []
    let octal (c : Char) : Bool := '0' ≤ c && c ≤ '7'
    1 :: based ['b', 'B'] (fun c => c == '0' || c == '1') ++ based ['o', 'O'] octal ++
      based ['x', 'X'] isHexDigit ++ ((looseExtent? octal r).map (· + 1)).toList
  | c :: _ => if isAsciiDigit c then [digitExtent isAsciiDigit cs] else []
  | [] => []

/-- The extents of the floating-point literals at the front. -/
def floatExtents (cs : List Char) : List Nat :=
  let n := digitExtent isAsciiDigit cs
  let exponentAfter (k : Nat) : Option Nat := (exponentExtent? 'e' 'E' (cs.drop k)).map (· + k)
  let pointed : List Nat :=
    match cs.drop n with
    | '.' :: r =>
      let m := digitExtent isAsciiDigit r
      if n == 0 && m == 0 then []
      else (n + 1 + m) :: (exponentAfter (n + 1 + m)).toList
    | _ => []
  let plain := if n == 0 then [] else (exponentAfter n).toList
  let hexadecimal : List Nat :=
    match cs with
    | '0' :: x :: r =>
      if x == 'x' || x == 'X' then
        let whole := (looseExtent? isHexDigit r).getD 0
        let part := match r.drop whole with
          | '.' :: ds => 1 + digitExtent isHexDigit ds
          | _ => 0
        if whole == 0 && part < 2 then []
        else ((exponentExtent? 'p' 'P' (r.drop (whole + part))).map (· + 2 + whole + part)).toList
      else []
    | _ => []
  pointed ++ plain ++ hexadecimal

/-- The extent of the longest numeric literal at the front, imaginary ones included. -/
def numberExtent (cs : List Char) : Nat :=
  let real := integerExtents cs ++ floatExtents cs
  let digits := digitExtent isAsciiDigit cs
  let candidates := if digits == 0 then real else digits :: real
  let imaginary := (candidates.filter fun n => (cs.drop n).head? == some 'i').map (· + 1)
  (real ++ imaginary).foldl max 0

/-- The kind of the lexeme at the front and the number of characters behind its first. -/
def extent? (c : Char) (cs : List Char) : Option (LexemeKind × Nat) :=
  if beginsIdentifier c then
    let n := (cs.takeWhile continuesIdentifier).length
    let word := String.ofList (c :: cs.take n)
    some (if keywords.contains word then .keyword else .identifier, n)
  else if c == '\"' then (quotedExtent cs).map fun n => (.string, n)
  else if c == '\x60' then (rawExtent cs).map fun n => (.string, n)
  else if c == '\x27' then (characterExtent cs).map fun n => (.character, n)
  else
    match c, cs with
    | '/', '/' :: r => some (.comment, 1 + (r.takeWhile (· != '\n')).length)
    | '/', '*' :: r => (blockExtent r).map fun n => (.comment, 1 + n)
    | _, _ =>
      let n := if isAsciiDigit c || c == '.' then numberExtent (c :: cs) else 0
      if n > 0 then some (.number, n - 1)
      else
        (operators.find? fun op => (after? op (c :: cs)).isSome).map fun op =>
          (.operator, op.length - 1)

/-! ## Cutting -/

/-- The lexemes of a text that begins on row `row` with the blanks `gap` already behind. Nothing, if
some character begins no lexeme. -/
def lexemesFrom (row : Nat) (gap : List Char) : List Char → Option (List Lexeme)
  | [] => some [⟨.endOfText, [], gap.reverse, row, row⟩]
  | c :: cs =>
    if isAsciiBlank c then lexemesFrom (if c == '\n' then row + 1 else row) (c :: gap) cs
    else
      match extent? c cs with
      | none => none
      | some (kind, n) =>
        let text := c :: cs.take n
        let last := row + text.count '\n'
        (lexemesFrom last [] (cs.drop n)).map (⟨kind, text, gap.reverse, row, last⟩ :: ·)
termination_by cs => cs.length
decreasing_by
  · exact Nat.lt_succ_self _
  · rw [List.length_drop, List.length_cons]; omega

/-- The lexemes of a source text; a byte order mark in front of it is passed over. -/
def lexemes? (source : List Char) : Option (List Lexeme) :=
  match source with
  | '\uFEFF' :: rest => check rest
  | rest => check rest
where
  /-- No character may be the null character. -/
  check (cs : List Char) : Option (List Lexeme) :=
    if cs.contains '\x00' then none else lexemesFrom 0 [] cs

end DocSearch.Go
