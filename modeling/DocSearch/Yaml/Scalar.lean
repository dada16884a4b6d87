import DocSearch.Yaml.Cursor

/-!
# Scalars

The three ways to write a text: plain, between quotes, and as an indented block. Inside a scalar a
single line break is folded into a space, and further breaks stand for themselves.
-/

namespace DocSearch.Yaml

open Text

/-! ## Folding -/

/-- What a line break and the empty lines behind it stand for. -/
def folded (first : Char) (more : List Char) : List Char :=
  if first != '\n' then first :: more
  else if more.isEmpty then [' ']
  else more

/-! ## Plain scalars -/

/-- The number of characters of a plain scalar up to a blank, a comment or an indicator. -/
def plainExtent (flow : Bool) : List Char → Nat
  | [] => 0
  | c :: cs =>
    let colon := c == ':' &&
      (endsWord cs.head? || flow && cs.head?.any fun d => ",[]\x7b\x7d".toList.contains d)
    if endsWord (some c) || colon || flow && ",?[]\x7b\x7d".toList.contains c then 0
    else plainExtent flow cs + 1

/-- Empty lines inside a plain scalar. Nothing, if a document mark ends it. -/
def plainBreaks (acc : List Char) : (fuel : Nat) → Cursor → Option (List Char) × Cursor
  | 0, c => (some acc.reverse, c)
  | fuel + 1, c =>
    let c := c.skipSpaces
    match c.lineBreak? with
    | none => (some acc.reverse, c)
    | some (b, c) => if c.atSeparator then (none, c) else plainBreaks (b :: acc) fuel c

/-- The blanks between two words of a plain scalar: what they stand for, the cursor behind them, and
whether a line ended. -/
def plainSpaces (c : Cursor) : List Char × Cursor × Bool :=
  let blanks := c.run (· == ' ')
  let c := c.skipSpaces
  match c.lineBreak? with
  | none => (blanks, c, false)
  | some (b, c) =>
    if c.atSeparator then ([], c, true)
    else
      match plainBreaks [] (c.rest.length + 1) c with
      | (none, c) => ([], c, true)
      | (some more, c) => (folded b more, c, true)

/-- The words of a plain scalar; lines have to be indented to column `indent` at least. The flag
tells whether a line ended behind the last word. -/
def plainWords (flow : Bool) (indent : Nat) (acc spaces : List Char) (ended : Bool) :
    (fuel : Nat) → Cursor → List Char × Cursor × Bool
  | 0, c => (acc, c, ended)
  | fuel + 1, c =>
    let n := plainExtent flow c.rest
    if c.peek == some '#' || n == 0 then (acc, c, ended)
    else
      let acc := acc ++ spaces ++ c.rest.take n
      let (spaces, c, ended) := plainSpaces (c.skip n)
      if spaces.isEmpty || c.peek == some '#' || !flow && c.column < indent then (acc, c, ended)
      else plainWords flow indent acc spaces ended fuel c

/-- A plain scalar. -/
def plainScalar (flow : Bool) (indent : Nat) (c : Cursor) : List Char × Cursor × Bool :=
  plainWords flow indent [] [] false (c.rest.length + 1) c

/-! ## Quoted scalars -/

/-- The characters of the one-letter escapes. -/
def escapeChar? : Char → Option Char
  | '0' => some '\x00'
  | 'a' => some '\x07'
  | 'b' => some '\x08'
  | 't' => some '\t'
  | '\t' => some '\t'
  | 'n' => some '\n'
  | 'v' => some '\x0b'
  | 'f' => some '\x0c'
  | 'r' => some '\r'
  | 'e' => some '\x1b'
  | ' ' => some ' '
  | '\"' => some '\"'
  | '\\' => some '\\'
  | '/' => some '/'
  | 'N' => some '\x85'
  | '_' => some '\xa0'
  | 'L' => some '\u2028'
  | 'P' => some '\u2029'
  | _ => none

/-- The number of digits of a numeric escape. -/
def escapeWidth? : Char → Option Nat
  | 'x' => some 2
  | 'u' => some 4
  | 'U' => some 8
  | _ => none

/-- The character with the given code point; a surrogate reads as `U+FFFD`. -/
def codePoint (n : Nat) : Except Error Char :=
  if n ≥ 0x80000000 then .error .hugeCodePoint
  else if n ≥ 0x110000 then .error .badCodePoint
  else if 0xd800 ≤ n && n < 0xe000 then .ok '\uFFFD'
  else .ok (Char.ofNat n)

/-- The number that hexadecimal digits denote. -/
def hexNumber (cs : List Char) : Nat := cs.foldl (fun v h => v * 16 + hexValue h) 0

/-- The character that two surrogates stand for, the first given as a number, the second as the
escape that follows it. -/
def surrogatePair? (high : Nat) (cs : List Char) : Option Char := do
  let digits := (← after? ['\\', 'u'] cs).take 4
  let low := hexNumber digits
  if digits.length == 4 && digits.all isHexDigit && 0xd800 ≤ high && high < 0xdc00 &&
      0xdc00 ≤ low && low < 0xe000 then
    some (Char.ofNat (0x10000 + (high - 0xd800) * 0x400 + (low - 0xdc00)))
  else none

/-- Empty lines inside a quoted scalar, with blanks around them. A document mark may not stand at the
front of a line. -/
def quotedBreaks (acc : List Char) : (fuel : Nat) → Cursor → Except Error (List Char × Cursor)
  | 0, c => .ok (acc.reverse, c)
  | fuel + 1, c =>
    if c.atSeparator then .error .malformed
    else
      let c := c.skipRun fun d => d == ' ' || d == '\t'
      match c.lineBreak? with
      | none => .ok (acc.reverse, c)
      | some (b, c) => quotedBreaks (b :: acc) fuel c

/-- A quoted scalar behind its opening quote. -/
def quotedBody (double : Bool) (acc : List Char) :
    (fuel : Nat) → Cursor → Except Error (List Char × Cursor)
  | 0, _ => .error .malformed
  | fuel + 1, c =>
    match c.rest with
    | [] => .error .malformed
    | ch :: cs =>
      if ch == ' ' || ch == '\t' || isBreak ch then
        let blank (d : Char) : Bool := d == ' ' || d == '\t'
        let blanks := c.run blank
        let c := c.skipRun blank
        match c.lineBreak? with
        | some (b, c) => do
          let (more, c) ← quotedBreaks [] (c.rest.length + 1) c
          quotedBody double ((folded b more).reverse ++ acc) fuel c
        | none => quotedBody double (blanks.reverse ++ acc) fuel c
      else if !double && ch == '\x27' then
        if cs.head? == some '\x27' then quotedBody double ('\x27' :: acc) fuel (c.skip 2)
        else .ok (acc.reverse, c.next)
      else if double && ch == '\"' then .ok (acc.reverse, c.next)
      else if double && ch == '\\' then
        match cs with
        | [] => .error .malformed
        | e :: ds =>
          match escapeChar? e, escapeWidth? e with
          | some d, _ => quotedBody double (d :: acc) fuel (c.skip 2)
          | none, some n =>
            let digits := ds.take n
            if digits.length == n && digits.all isHexDigit then
              match surrogatePair? (hexNumber digits) (ds.drop n) with
              | some d => quotedBody double (d :: acc) fuel (c.skip (n + 8))
              | none => do
                let d ← codePoint (hexNumber digits)
                quotedBody double (d :: acc) fuel (c.skip (n + 2))
            else .error .malformed
          | none, none =>
            match c.next.lineBreak? with
            | some (_, c) => do
              let (more, c) ← quotedBreaks [] (c.rest.length + 1) c
              quotedBody double (more.reverse ++ acc) fuel c
            | none => .error .malformed
      else quotedBody double (ch :: acc) fuel c.next

/-- A scalar between quotes. -/
def quotedScalar (double : Bool) (c : Cursor) : Except Error (List Char × Cursor) :=
  quotedBody double [] (c.rest.length + 1) c.next

/-! ## Block scalars -/

/-- What becomes of the line breaks at the end of a block. -/
inductive Chomp where
  | clip
  | strip
  | keep
deriving Repr, DecidableEq

/-- The indicators behind the mark of a block: how it ends and, perhaps, how far it is indented. -/
def blockIndicators (c : Cursor) : Except Error (Chomp × Option Nat × Cursor) := do
  let chomp? (c : Cursor) : Option Chomp :=
    match c.peek with
    | some '+' => some .keep
    | some '-' => some .strip
    | _ => none
  let digit? (c : Cursor) : Except Error (Option Nat) :=
    match c.peek with
    | some d =>
      if d == '0' then .error .malformed
      else if isAsciiDigit d then .ok (some (d.toNat - 48))
      else .ok none
    | none => .ok none
  let (chomp, n, c) ← match chomp? c with
    | some k => do
      match ← digit? c.next with
      | some n => pure (k, some n, c.skip 2)
      | none => pure (k, none, c.next)
    | none => do
      match ← digit? c with
      | some n =>
        match chomp? c.next with
        | some k => pure (k, some n, c.skip 2)
        | none => pure (Chomp.clip, some n, c.next)
      | none => pure (Chomp.clip, none, c)
  if endsItem c.peek then .ok (chomp, n, c) else .error .malformed

/-- The rest of a line on which only a comment may stand. -/
def restOfLine (c : Cursor) : Except Error Cursor :=
  let c := c.skipSpaces.skipComment
  match c.lineBreak? with
  | some (_, c) => .ok c
  | none => if c.peek.isNone then .ok c else .error .malformed

/-- The empty lines in front of a block whose indent is still to be found, and the largest column
reached in them. -/
def blockLead (acc : List Char) (deepest : Nat) : (fuel : Nat) → Cursor → List Char × Nat × Cursor
  | 0, c => (acc.reverse, deepest, c)
  | fuel + 1, c =>
    let c := c.skipSpaces
    let deepest := max deepest c.column
    match c.lineBreak? with
    | some (b, c) => blockLead (b :: acc) deepest fuel c
    | none => (acc.reverse, deepest, c)

/-- The empty lines in front of a line of a block that is indented to column `indent`. -/
def blockBreaks (indent : Nat) (acc : List Char) : (fuel : Nat) → Cursor → List Char × Cursor
  | 0, c => (acc.reverse, c)
  | fuel + 1, c =>
    let c := c.skipIndent indent
    match c.lineBreak? with
    | some (b, c) => blockBreaks indent (b :: acc) fuel c
    | none => (acc.reverse, c)

/-- Whether a blank stands here. -/
def atBlank (c : Cursor) : Bool := c.peek == some ' ' || c.peek == some '\t'

/-- The lines of a block: its text, the last line break, the empty lines behind it, and the cursor. -/
def blockLines (fold : Bool) (indent : Nat) (acc : List Char) (last : List Char)
    (breaks : List Char) : (fuel : Nat) → Cursor → List Char × List Char × List Char × Cursor
  | 0, c => (acc, last, breaks, c)
  | fuel + 1, c =>
    if c.column == indent && c.peek.isSome then
      let acc := acc ++ breaks
      let blank := atBlank c
      let text := c.run (!isBreak ·)
      let c := c.skip text.length
      let (last, c) := match c.lineBreak? with
        | some (b, c) => ([b], c)
        | none => ([], c)
      let (breaks, c) := blockBreaks indent [] (c.rest.length + 1) c
      let acc := acc ++ text
      if c.column == indent && c.peek.isSome then
        let joint :=
          if fold && last == ['\n'] && !blank && !atBlank c then
            if breaks.isEmpty then [' '] else []
          else last
        blockLines fold indent (acc ++ joint) [] breaks fuel c
      else (acc, last, breaks, c)
    else (acc, last, breaks, c)

/-- A block scalar behind its mark; `indent` is that of the surrounding block, which may be none. -/
def blockScalar (fold : Bool) (indent : Int) (c : Cursor) : Except Error (List Char × Cursor) := do
  let (chomp, n, c) ← blockIndicators c.next
  let c ← restOfLine c
  let least := (max (indent + 1) 1).toNat
  let (indent, breaks, c) := match n with
    | none =>
      let (breaks, deepest, c) := blockLead [] 0 (c.rest.length + 1) c
      (max least deepest, breaks, c)
    | some n =>
      let indent := least + n - 1
      let (breaks, c) := blockBreaks indent [] (c.rest.length + 1) c
      (indent, breaks, c)
  let (text, last, breaks, c) := blockLines fold indent [] [] breaks (c.rest.length + 1) c
  let tail := match chomp with
    | .clip => last
    | .strip => []
    | .keep => last ++ breaks
  .ok (text ++ tail, c)

end DocSearch.Yaml
