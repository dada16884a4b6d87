import DocSearch.Yaml.Token

/-!
# Cutting a text into tokens

A mapping is known to begin only when the colon behind its first key is met. Where a key may begin,
its place is noted as a *candidate*; the colon turns the candidate into a key and splices the tokens
in front of it. A candidate lapses at the end of its line or after 1024 characters; one that stands
where only a key can stand is *bound* to be followed by a colon.
-/

namespace DocSearch.Yaml

/-- A place where a key may have begun. -/
structure Candidate where
  token : Nat
  bound : Bool
  index : Nat
  line : Nat
  column : Nat

/-- A text half cut. Tokens are kept last first; `splices` holds, for the number of a token, the
tokens that belong in front of it. -/
structure Lexer where
  cursor : Cursor
  tokens : List Token
  count : Nat
  splices : List (Nat × List Token)
  flow : Nat
  indent : Int
  outer : List Int
  keyAllowed : Bool
  candidates : List (Nat × Candidate)

namespace Lexer

/-- The lexer at the start of a text; a byte order mark there is passed over. -/
def start (cs : List Char) : Lexer :=
  let c := Cursor.start cs
  { cursor := if c.peek == some '\uFEFF' then c.next else c
    tokens := []
    count := 0
    splices := []
    flow := 0
    indent := -1
    outer := []
    keyAllowed := true
    candidates := [] }

/-- Adds a token. -/
def push (l : Lexer) (t : Token) : Lexer := { l with tokens := t :: l.tokens, count := l.count + 1 }

/-! ## Blanks -/

/-- Passes over blanks, comments and line breaks; a key may begin on a fresh line. -/
def skipBlanks (l : Lexer) : (fuel : Nat) → Lexer
  | 0 => l
  | fuel + 1 =>
    let c := l.cursor.skipSpaces.skipComment
    match c.lineBreak? with
    | some (_, c) =>
      skipBlanks { l with cursor := c, keyAllowed := l.keyAllowed || l.flow == 0 } fuel
    | none => { l with cursor := c }

/-! ## Candidates -/

/-- Whether a candidate can no longer become a key. -/
def lapsed (l : Lexer) (k : Candidate) : Bool :=
  k.line != l.cursor.line || l.cursor.index - k.index > 1024

/-- Drops the candidates that lapsed, none of which may be bound. -/
def dropLapsed (l : Lexer) : Except Error Lexer :=
  if l.candidates.any fun (_, k) => l.lapsed k && k.bound then .error .malformed
  else .ok { l with candidates := l.candidates.filter fun (_, k) => !l.lapsed k }

/-- Drops the candidate of the current depth, which may not be bound. -/
def dropCandidate (l : Lexer) : Except Error Lexer :=
  if l.candidates.any fun (depth, k) => depth == l.flow && k.bound then .error .malformed
  else .ok { l with candidates := l.candidates.filter (·.1 != l.flow) }

/-- Notes a candidate for the token that comes next. -/
def noteCandidate (l : Lexer) : Except Error Lexer :=
  if l.keyAllowed then do
    let l ← l.dropCandidate
    let c := l.cursor
    let k : Candidate := ⟨l.count, l.flow == 0 && l.indent == c.column, c.index, c.line, c.column⟩
    .ok { l with candidates := (l.flow, k) :: l.candidates }
  else .ok l

/-! ## Blocks -/

/-- Closes the blocks that are indented further than `column`. -/
def closeBlocks (l : Lexer) (column : Int) : Lexer :=
  if l.flow != 0 then l else go l l.outer
where
  go (l : Lexer) : List Int → Lexer
    | [] => l
    | i :: outer =>
      if l.indent > column then go { l.push .blockEnd with indent := i, outer := outer } outer
      else l

/-- Opens a block at `column`, if that is further to the right than the current one. -/
def openBlock? (l : Lexer) (column : Nat) : Option Lexer :=
  if l.indent < column then some { l with indent := column, outer := l.indent :: l.outer } else none

/-- Outside lists and maps in brackets, opens a block for an item, key or value at the cursor, which
has to be the first on its line. -/
def openHere (l : Lexer) (t : Token) : Except Error Lexer :=
  if l.flow != 0 then .ok l
  else if !l.keyAllowed then .error .malformed
  else .ok (((l.openBlock? l.cursor.column).map (·.push t)).getD l)

/-! ## Tokens -/

/-- A token of `n` characters that ends all blocks. -/
def pushMark (l : Lexer) (t : Token) (n : Nat) : Except Error Lexer := do
  let l ← (l.closeBlocks (-1)).dropCandidate
  let l := l.push t
  .ok { l with cursor := l.cursor.skip n, keyAllowed := false }

/-- An opening bracket. -/
def pushOpen (l : Lexer) (t : Token) : Except Error Lexer := do
  let l := (← l.noteCandidate).push t
  .ok { l with cursor := l.cursor.next, flow := l.flow + 1, keyAllowed := true }

/-- A closing bracket. -/
def pushClose (l : Lexer) (t : Token) : Except Error Lexer := do
  let l := (← l.dropCandidate).push t
  .ok { l with cursor := l.cursor.next, flow := l.flow - 1, keyAllowed := false }

/-- A comma. -/
def pushComma (l : Lexer) : Except Error Lexer := do
  let l := (← l.dropCandidate).push .comma
  .ok { l with cursor := l.cursor.next, keyAllowed := true }

/-- The dash in front of an item. -/
def pushItem (l : Lexer) : Except Error Lexer := do
  let l := (← (← l.openHere .blockSequence).dropCandidate).push .item
  .ok { l with cursor := l.cursor.next, keyAllowed := true }

/-- The question mark in front of a key. -/
def pushKey (l : Lexer) : Except Error Lexer := do
  let l := (← (← l.openHere .blockMapping).dropCandidate).push .key
  .ok { l with cursor := l.cursor.next, keyAllowed := l.flow == 0 }

/-- The colon in front of a value: behind a candidate, that becomes a key. -/
def pushValue (l : Lexer) : Except Error Lexer := do
  match l.candidates.lookup l.flow with
  | some k =>
    let l := { l with candidates := l.candidates.filter (·.1 != l.flow) }
    let opened := if l.flow == 0 then l.openBlock? k.column else none
    let l := match opened with
      | some l => { l with splices := (k.token, [.blockMapping, .key]) :: l.splices }
      | none => { l with splices := (k.token, [.key]) :: l.splices }
    let l := l.push .value
    .ok { l with cursor := l.cursor.next, keyAllowed := false }
  | none =>
    let l := (← (← l.openHere .blockMapping).dropCandidate).push .value
    .ok { l with cursor := l.cursor.next, keyAllowed := l.flow == 0 }

/-- A token read by `read`, which may be a key or the first part of one. -/
def pushWord (l : Lexer) (read : Cursor → Except Error (Token × Cursor)) : Except Error Lexer := do
  let l ← l.noteCandidate
  let (t, c) ← read l.cursor
  .ok { l.push t with cursor := c, keyAllowed := false }

/-- A block scalar. -/
def pushBlock (l : Lexer) (fold : Bool) : Except Error Lexer := do
  let l ← l.dropCandidate
  let (s, c) ← blockScalar fold l.indent l.cursor
  .ok { l.push (.scalar s false) with cursor := c, keyAllowed := true }

/-- A quoted scalar. -/
def pushQuoted (l : Lexer) (double : Bool) : Except Error Lexer :=
  l.pushWord fun c => do
    let (s, c) ← quotedScalar double c
    .ok (.scalar s false, c)

/-- A plain scalar; a key may follow if a line ended behind it. -/
def pushPlain (l : Lexer) : Except Error Lexer := do
  let l ← l.noteCandidate
  let (s, c, ended) := plainScalar (l.flow != 0) (l.indent + 1).toNat l.cursor
  .ok { l.push (.scalar s true) with cursor := c, keyAllowed := ended }

/-- Whether a plain scalar may begin here. -/
def beginsPlain (l : Lexer) (ch : Char) : Bool :=
  !endsWord (some ch) && !"-?:,[]\x7b\x7d#&*!|>\x27\"%@`".toList.contains ch ||
    !endsWord (l.cursor.peekAt 1) && (ch == '-' || l.flow == 0 && (ch == '?' || ch == ':'))

/-- The token that begins with the character `ch` here. -/
def pushNext (l : Lexer) (ch : Char) : Except Error Lexer :=
  let c := l.cursor
  let alone := endsWord (c.peekAt 1)
  let inFlow := l.flow != 0
  if c.column == 0 && ch == '%' then do
    let l ← (l.closeBlocks (-1)).dropCandidate
    let (d, c) ← directive c
    .ok { l.push (.directive d) with cursor := c, keyAllowed := false }
  else if c.column == 0 && c.atMark ['-', '-', '-'] then l.pushMark .documentStart 3
  else if c.column == 0 && c.atMark ['.', '.', '.'] then l.pushMark .documentEnd 3
  else if ch == '[' then l.pushOpen .openList
  else if ch == '\x7b' then l.pushOpen .openMap
  else if ch == ']' then l.pushClose .closeList
  else if ch == '\x7d' then l.pushClose .closeMap
  else if ch == ',' then l.pushComma
  else if ch == '-' && alone then l.pushItem
  else if ch == '?' && (inFlow || alone) then l.pushKey
  else if ch == ':' && (inFlow || alone) then l.pushValue
  else if ch == '*' then
    l.pushWord fun c => do let (n, c) ← anchorName c.next; .ok (.alias n, c)
  else if ch == '&' then
    l.pushWord fun c => do let (n, c) ← anchorName c.next; .ok (.anchor n, c)
  else if ch == '!' then l.pushWord tag
  else if ch == '|' && !inFlow then l.pushBlock false
  else if ch == '>' && !inFlow then l.pushBlock true
  else if ch == '\x27' then l.pushQuoted false
  else if ch == '\"' then l.pushQuoted true
  else if l.beginsPlain ch then l.pushPlain
  else .error .malformed

/-- The lexer behind the next token; none behind the last one. -/
def step (l : Lexer) : Except Error (Lexer × Bool) := do
  let l ← (l.skipBlanks (l.cursor.rest.length + 1)).dropLapsed
  let l := l.closeBlocks l.cursor.column
  match l.cursor.peek with
  | none => return (← l.pushMark .streamEnd 0, true)
  | some ch => return (← l.pushNext ch, false)

/-- Cuts the whole text; a fault is the last token. -/
def run (l : Lexer) : (fuel : Nat) → Lexer
  | 0 => l.push (.fault .malformed)
  | fuel + 1 =>
    match l.step with
    | .error e => l.push (.fault e)
    | .ok (l, true) => l
    | .ok (l, false) => run l fuel

/-- The tokens in order, with the splices in their places. -/
def spliced (l : Lexer) : List Token :=
  let rec go (n : Nat) : List Token → List Token
    | [] => []
    | t :: ts => ((l.splices.lookup n).getD []) ++ t :: go (n + 1) ts
  go 0 l.tokens.reverse

end Lexer

/-- The tokens of a text. Its last token is the end or a fault. -/
def tokens (cs : List Char) : List Token := ((Lexer.start cs).run (cs.length + 2)).spliced

end DocSearch.Yaml
