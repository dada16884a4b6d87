import DocSearch.Yaml.Error
import DocSearch.Text.Trim

/-!
# Reading positions in YAML text

A cursor is a place in a text with its line and its column. Text is cut at spaces, tabs and the four
line breaks of YAML.
-/

namespace DocSearch.Yaml

open Text

/-- A place in a text. -/
structure Cursor where
  rest : List Char
  line : Nat
  column : Nat
  index : Nat

/-- The line breaks. -/
def isBreak (c : Char) : Bool := c == '\n' || c == '\x85' || c == '\u2028' || c == '\u2029'

/-- Whether a word ends here: at a blank, a line break or the end of the text. -/
def endsWord : Option Char → Bool
  | none => true
  | some c => c == ' ' || c == '\t' || isBreak c

/-- Whether only a space, not a tab, a line break or the end of the text is here. -/
def endsItem : Option Char → Bool
  | none => true
  | some c => c == ' ' || isBreak c

/-- The letters of anchors, handles and directive names. -/
def isNameChar (c : Char) : Bool :=
  isAsciiDigit c || ('a' ≤ c && c ≤ 'z') || ('A' ≤ c && c ≤ 'Z') || c == '-' || c == '_'

namespace Cursor

/-- The cursor at the start of a text. -/
def start (cs : List Char) : Cursor := ⟨cs, 0, 0, 0⟩

/-- The character here, none at the end. -/
def peek (c : Cursor) : Option Char := c.rest.head?

/-- The character `n` places ahead. -/
def peekAt (c : Cursor) (n : Nat) : Option Char := c.rest[n]?

/-- The cursor behind the character here. -/
def next (c : Cursor) : Cursor :=
  match c.rest with
  | [] => c
  | ch :: rest =>
    if isBreak ch then ⟨rest, c.line + 1, 0, c.index + 1⟩
    else if ch == '\uFEFF' then ⟨rest, c.line, c.column, c.index + 1⟩
    else ⟨rest, c.line, c.column + 1, c.index + 1⟩

/-- The cursor `n` characters further on. -/
def skip (c : Cursor) : Nat → Cursor
  | 0 => c
  | n + 1 => c.next.skip n

/-- The run of characters of class `p` that begins here. -/
def run (c : Cursor) (p : Char → Bool) : List Char := c.rest.takeWhile p

/-- The cursor behind the run of characters of class `p`. -/
def skipRun (c : Cursor) (p : Char → Bool) : Cursor := c.skip (c.run p).length

/-- The cursor behind the spaces here. -/
def skipSpaces (c : Cursor) : Cursor := c.skipRun (· == ' ')

/-- The cursor at the end of the line, if a comment begins here. -/
def skipComment (c : Cursor) : Cursor :=
  if c.peek == some '#' then c.skipRun (!isBreak ·) else c

/-- Reads a line break; all but the two Unicode separators read as a line feed. -/
def lineBreak? (c : Cursor) : Option (Char × Cursor) :=
  match c.peek with
  | some ch =>
    if ch == '\n' || ch == '\x85' then some ('\n', c.next)
    else if isBreak ch then some (ch, c.next)
    else none
  | none => none

/-- Whether the mark of a document's start or end stands here. -/
def atMark (c : Cursor) (mark : List Char) : Bool :=
  (after? mark c.rest).isSome && endsWord (c.peekAt 3)

/-- Whether either mark of a document stands here. -/
def atSeparator (c : Cursor) : Bool := c.atMark ['-', '-', '-'] || c.atMark ['.', '.', '.']

/-- The spaces here as long as the column is below `indent`. -/
def skipIndent (c : Cursor) (indent : Nat) : Cursor :=
  c.skip (min (c.run (· == ' ')).length (indent - c.column))

end Cursor

end DocSearch.Yaml
