import DocSearch.Text.Char

/-!
# Trimming and searching text

Cutting characters off the ends of a text, and finding, splitting at and replacing a piece of it.
-/

namespace DocSearch.Text

/-! ## Ends -/

/-- The text without the trailing characters of class `p`. -/
def dropEnd (p : Char → Bool) (cs : List Char) : List Char := (cs.reverse.dropWhile p).reverse

/-- The text without the leading and trailing characters of class `p`. -/
def trimBy (p : Char → Bool) (cs : List Char) : List Char := dropEnd p (cs.dropWhile p)

/-- The text without blanks at either end. -/
def trim (s : String) : String := String.ofList (trimBy isBlank s.toList)

/-- Whether nothing but blanks is there. -/
def isAllBlank (s : String) : Bool := s.toList.all isBlank

/-! ## Pieces -/

/-- What follows `p` if the text begins with it. -/
def after? [BEq α] : (p cs : List α) → Option (List α)
  | [], cs => some cs
  | _ :: _, [] => none
  | a :: p, c :: cs => if a == c then after? p cs else none

/-- The text before and after the first occurrence of `p`. -/
def cut? (p : List Char) : List Char → Option (List Char × List Char)
  | [] => if p.isEmpty then some ([], []) else none
  | c :: cs =>
    match after? p (c :: cs) with
    | some rest => some ([], rest)
    | none => (cut? p cs).map fun (l, r) => (c :: l, r)

/-- The pieces between the separators `sep`; there is always one more than separators. -/
def splitAt (sep : Char) : List Char → List (List Char)
  | [] => [[]]
  | c :: cs =>
    match splitAt sep cs with
    | [] => [[c]]
    | piece :: pieces => if c == sep then [] :: piece :: pieces else (c :: piece) :: pieces

/-- The text before and after the last `sep`. -/
def cutLast? (sep : Char) (cs : List Char) : Option (List Char × List Char) :=
  let r := cs.reverse
  match r.dropWhile (· != sep) with
  | [] => none
  | _ :: before => some (before.reverse, (r.takeWhile (· != sep)).reverse)

/-- Every run of blanks replaced by one space. -/
def squeezeBlanks : List Char → List Char
  | [] => []
  | c :: cs =>
    if isBlank c then
      match cs with
      | [] => [' ']
      | d :: _ => if isBlank d then squeezeBlanks cs else ' ' :: squeezeBlanks cs
    else c :: squeezeBlanks cs

/-- Blanks squeezed to single spaces and none at the ends. -/
def collapse (s : String) : String := String.ofList (trimBy isBlank (squeezeBlanks s.toList))

/-- The texts one after the other with `sep` in between. -/
def join (sep : String) (ss : List String) : String := sep.intercalate ss

end DocSearch.Text
