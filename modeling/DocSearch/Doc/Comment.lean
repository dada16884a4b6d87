import DocSearch.Text.Trim

/-!
# The text of comments

A group of comments is turned into documentation text: the markers are taken off, directives are
left out, blanks at line ends and empty lines at the front are dropped, a run of empty lines becomes
one, and the text ends in one line break.
-/

namespace DocSearch.Doc

open Text

/-! ## Directives -/

/-- The words that begin a directive together with the blank behind them. -/
def directiveWords : List String := ["line ", "extern ", "export "]

/-- The characters on either side of the colon of a directive. -/
def isDirectiveChar (c : Char) : Bool := ('a' ≤ c && c ≤ 'z') || isAsciiDigit c

/-- Whether the body of a `//` comment is a directive: one of the directive words, or a name, a colon
and one more character of a name, as in `go:generate`. -/
def isDirective (body : List Char) : Bool :=
  directiveWords.any (fun w => (after? w.toList body).isSome) ||
    match body.takeWhile isDirectiveChar, body.dropWhile isDirectiveChar with
    | _ :: _, ':' :: c :: _ => isDirectiveChar c
    | _, _ => false

/-! ## Lines -/

/-- The body of a comment without its markers; a directive has none. One space behind `//` belongs
to the marker. -/
def body? : List Char → Option (List Char)
  | '/' :: '/' :: ' ' :: cs => some cs
  | '/' :: '/' :: cs => if isDirective cs then none else some cs
  | '/' :: '*' :: cs => some (cs.take (cs.length - 2))
  | cs => some cs

/-- The blanks that are dropped at the end of a line. -/
def isLineBlank (c : Char) : Bool := c == ' ' || c == '\t' || c == '\n' || c == '\r'

/-- The lines of a group of comments without the blanks at their ends. -/
def lines (comments : List (List Char)) : List (List Char) :=
  (comments.filterMap body?).flatMap fun b => (splitAt '\n' b).map (dropEnd isLineBlank)

/-- Keeps a line unless it is empty and follows an empty line or nothing; `gap` says that it does. -/
def squeeze (gap : Bool) : List (List Char) → List (List Char)
  | [] => []
  | l :: ls =>
    if l.isEmpty then if gap then squeeze true ls else [] :: squeeze true ls
    else l :: squeeze false ls

/-- Lines with line breaks between them; unless the last line is empty, one more line break ends
them. -/
def joinLines : List (List Char) → List Char
  | [] => []
  | [l] => if l.isEmpty then [] else l ++ ['\n']
  | l :: ls => l ++ '\n' :: joinLines ls

/-- The documentation text of a group of comments, given with their markers. -/
def textOf (comments : List (List Char)) : List Char := joinLines (squeeze true (lines comments))

/-- The documentation text of a group of comments. -/
def commentText (comments : List String) : String :=
  String.ofList (textOf (comments.map String.toList))

end DocSearch.Doc
