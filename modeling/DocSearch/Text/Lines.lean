import DocSearch.Text.Char

/-!
# Lines

A text falls into lines at ten characters; a carriage return and the line feed behind it end one
line together. A text that arrives in parts is cut as if it were whole: a part is kept back until
its line is complete, and so is a carriage return, behind which a line feed may come.
-/

namespace DocSearch.Text

/-- The characters that end a line. -/
def endsTextLine (c : Char) : Bool :=
  let n := c.toNat
  (10 ≤ n && n ≤ 13) || (28 ≤ n && n ≤ 30) || n == 0x85 || n == 0x2028 || n == 0x2029

/-- The complete lines of a text, and what is left behind the last of them. -/
def cutLines (line : List Char) : List Char → List (List Char) × List Char
  | [] => ([], line.reverse)
  | '\r' :: '\n' :: cs =>
    let (lines, rest) := cutLines [] cs
    (line.reverse :: lines, rest)
  | c :: cs =>
    if endsTextLine c then
      let (lines, rest) := cutLines [] cs
      (line.reverse :: lines, rest)
    else cutLines (c :: line) cs

/-- The lines of a text; a last line need not be ended. -/
def splitLines (cs : List Char) : List (List Char) :=
  let (lines, rest) := cutLines [] cs
  if rest.isEmpty then lines else lines ++ [rest]

/-- What is kept back of a text that arrives in parts. -/
structure LineBuffer where
  pending : List Char := []
  returned : Bool := false
deriving Repr, DecidableEq

namespace LineBuffer

/-- The lines that a further part completes. -/
def feed (b : LineBuffer) (part : List Char) : List (List Char) × LineBuffer :=
  let text := b.pending ++ (if b.returned then ['\r'] else []) ++ part
  let returned := text.getLast? == some '\r'
  let (lines, pending) := cutLines [] (if returned then text.dropLast else text)
  (lines, { pending, returned })

/-- The line that is left at the end. -/
def flush (b : LineBuffer) : List (List Char) :=
  if b.pending.isEmpty && !b.returned then [] else [b.pending]

end LineBuffer

end DocSearch.Text
