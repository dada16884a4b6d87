import DocSearch.Text.Trim

/-!
# Wrapping text

A text is cut into pieces: runs of blanks, and words, which may be divided behind a hyphen between
letters. Lines take as many pieces as fit; a piece that fits no line is cut where the line ends.
Blanks at the ends of lines are dropped.
-/

namespace DocSearch.Text

/-! ## Pieces -/

/-- Whether a character is an ASCII letter or an underscore. -/
def isWordLetter (c : Char) : Bool :=
  ('a' ≤ c && c ≤ 'z') || ('A' ≤ c && c ≤ 'Z') || c == '_'

/-- Whether a word may be divided at a hyphen that has `before`, last character first, before it and
`after` behind it. -/
def dividesAt (before after : List Char) : Bool :=
  let behind := match after with
    | a :: '-' :: b :: _ => isWordLetter a && isWordLetter b
    | a :: b :: _ => isWordLetter a && isWordLetter b
    | _ => false
  let ahead := match before with
    | a :: '-' :: b :: _ => isWordLetter a && isWordLetter b
    | a :: b :: _ => isWordLetter a && isWordLetter b
    | _ => false
  behind && ahead

/-- The pieces of a text behind `before`; `piece` is the piece that was begun. Both have their last
character first. -/
def piecesFrom (before piece : List Char) : List Char → List (List Char)
  | [] => if piece.isEmpty then [] else [piece.reverse]
  | c :: cs =>
    match piece with
    | [] => piecesFrom (c :: before) [c] cs
    | p :: _ =>
      if isBlank p != isBlank c then piece.reverse :: piecesFrom (c :: before) [c] cs
      else if c == '-' && dividesAt before cs then
        (c :: piece).reverse :: piecesFrom (c :: before) [] cs
      else piecesFrom (c :: before) (c :: piece) cs

/-- The pieces of a text. -/
def pieces (cs : List Char) : List (List Char) := piecesFrom [] [] cs

/-! ## Lines -/

/-- The pieces that fit on a line on which `used` characters stand already, and the rest. A piece
that is longer than a whole line is cut. -/
def takeLine (width : Nat) : (used : Nat) → List (List Char) → List Char × List (List Char)
  | _, [] => ([], [])
  | used, p :: ps =>
    if used + p.length ≤ width then
      let (line, rest) := takeLine width (used + p.length) ps
      (p ++ line, rest)
    else if width < p.length then
      let n := max (width - used) 1
      (p.take n, p.drop n :: ps)
    else ([], p :: ps)

/-- Pieces without a run of blanks in front. -/
def dropBlankPiece : List (List Char) → List (List Char)
  | p :: ps => if p.all isBlank then ps else p :: ps
  | [] => []

/-- The lines of pieces, `fuel` of them at most. -/
def fillLines (width : Nat) : (fuel : Nat) → List (List Char) → List (List Char)
  | 0, _ | _, [] => []
  | fuel + 1, ps =>
    let (line, rest) := takeLine width 0 ps
    dropEnd isBlank line :: fillLines width fuel (dropBlankPiece rest)

/-- The lines of a text, none of them longer than `width`. -/
def wrap (width : Nat) (s : String) : List String :=
  let cs := s.toList
  (fillLines width cs.length (pieces cs)).map String.ofList

end DocSearch.Text
