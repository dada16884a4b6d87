import DocSearch.Text.Trim

/-!
# Documentation chunks

A chunk is one documented symbol together with the members of its type. It is stored and embedded as
its rendering: one line per node of the tree, two more blanks per level. A stored chunk is found
again by its identity.
-/

namespace DocSearch

open Text

/-- One documented symbol. The members carry neither package nor file. -/
inductive Chunk where
  | mk (kind symbol doc package filename : String) (members : List Chunk)
deriving Repr, Inhabited

namespace Chunk

/-- The category of the declaration; for a member its type, or `method`. -/
def kind : Chunk → String
  | .mk k _ _ _ _ _ => k

/-- The name within the file. -/
def symbol : Chunk → String
  | .mk _ s _ _ _ _ => s

/-- The text of the documentation comment. -/
def doc : Chunk → String
  | .mk _ _ d _ _ _ => d

/-- The name of the declared package. -/
def package : Chunk → String
  | .mk _ _ _ p _ _ => p

/-- The path of the file. -/
def filename : Chunk → String
  | .mk _ _ _ _ f _ => f

/-- The fields or methods of a type. -/
def members : Chunk → List Chunk
  | .mk _ _ _ _ _ ms => ms

/-- A chunk without package, file and members. -/
def member (kind symbol doc : String) : Chunk := .mk kind symbol doc "" "" []

end Chunk

/-! ## Identity -/

/-- What a chunk is found by. -/
structure Identity where
  package : String
  filename : String
  symbol : String
  kind : String
deriving Repr, DecidableEq

/-- The identity of a chunk. -/
def Chunk.identity (c : Chunk) : Identity := ⟨c.package, c.filename, c.symbol, c.kind⟩

/-! ## Rendering -/

/-- A documentation text on one line. -/
def oneLine (doc : String) : String :=
  trim (String.ofList (doc.toList.map fun c => if c == '\n' then ' ' else c))

/-- The line of a node: its kind, its symbol and its documentation on one line. -/
def nodeLine (indent kind symbol doc : String) : String :=
  indent ++ kind ++ " " ++ symbol ++ ": " ++ oneLine doc

mutual

/-- The text of a chunk at an indent: its line and, two blanks further in, those of its members. -/
def Chunk.render (indent : String) : Chunk → String
  | .mk kind symbol doc _ _ members =>
    nodeLine indent kind symbol doc ++ renderMembers (indent ++ "  ") members

/-- The texts of members, each behind a line break. -/
def renderMembers (indent : String) : List Chunk → String
  | [] => ""
  | c :: cs => "\n" ++ c.render indent ++ renderMembers indent cs

end

/-- The text that is stored and embedded. -/
def Chunk.text (c : Chunk) : String := c.render ""

/-! ## Records -/

/-- A stored chunk as a search returns it; `data` is the text of the chunk. -/
structure Record where
  data : String
  package : String
  filename : String
  symbol : String
  kind : String
deriving Repr, DecidableEq

/-- The identity of the chunk that a record was stored from. -/
def Record.identity (r : Record) : Identity := ⟨r.package, r.filename, r.symbol, r.kind⟩

end DocSearch
