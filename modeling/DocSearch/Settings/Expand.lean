import DocSearch.Value

/-!
# References to the environment

Texts may refer to variables as `${NAME}`, or as `${NAME:-DEFAULT}` with a text for the case that the
variable is not set. A text is cut into references and other characters once, from the left; what
replaces a reference is not looked at again.

Texts are made of characters. Surrogates are left out, and so is the fault of looking up a variable
whose name holds one.
-/

namespace DocSearch.Settings

open Text

/-- A piece of a text. -/
inductive Piece where
  | char (c : Char)
  | reference (name : List Char) (default : List Char)
deriving Repr, DecidableEq

/-- The reference behind `${`, and the rest of the text. A name is not empty and holds neither a
brace nor a colon. -/
def reference? (cs : List Char) : Option (Piece × List Char) :=
  let name := cs.takeWhile fun c => c != '\x7d' && c != ':'
  if name.isEmpty then none
  else
    match cs.drop name.length with
    | '\x7d' :: rest => some (.reference name [], rest)
    | ':' :: '-' :: cs =>
      let default := cs.takeWhile (· != '\x7d')
      match cs.drop default.length with
      | _ :: rest => some (.reference name default, rest)
      | [] => none
    | _ => none

/-- Cuts a text into at most `fuel` pieces. -/
def cutWithin : (fuel : Nat) → List Char → List Piece
  | 0, _ => []
  | _, [] => []
  | fuel + 1, c :: cs =>
    let reference := if c == '$' then (after? ['\x7b'] cs).bind reference? else none
    match reference with
    | some (piece, rest) => piece :: cutWithin fuel rest
    | none => .char c :: cutWithin fuel cs

/-- Cuts a text into its pieces. -/
def pieces (cs : List Char) : List Piece := cutWithin cs.length cs

/-- The variables that are set. -/
abbrev Environment := List (String × String)

/-- What stands in place of a piece. -/
def Piece.expand (env : Environment) : Piece → List Char
  | .char c => [c]
  | .reference name default =>
    ((env.lookup (String.ofList name)).map String.toList).getD default

/-- The text with its references replaced. -/
def expandText (env : Environment) (s : String) : String :=
  String.ofList ((pieces s.toList).flatMap (Piece.expand env))

mutual

/-- The value with the references in its texts replaced, at any depth of lists and mappings; keys
stay as they are. -/
def expand (env : Environment) : Value → Value
  | .text s => .text (expandText env s)
  | .list items => .list (expandAll env items)
  | .map entries => .map (expandEntries env entries)
  | v => v

/-- Each of several values with its references replaced. -/
def expandAll (env : Environment) : List Value → List Value
  | [] => []
  | v :: vs => expand env v :: expandAll env vs

/-- Each entry with the references in its value replaced. -/
def expandEntries (env : Environment) : List (Value × Value) → List (Value × Value)
  | [] => []
  | (k, v) :: es => (k, expand env v) :: expandEntries env es

end

end DocSearch.Settings
