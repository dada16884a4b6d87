import DocSearch.Doc.Comment
import DocSearch.Doc.Attachment
import DocSearch.Chunk
import DocSearch.Text.Utf8

/-!
# Extracting chunks from a file

A file yields a chunk for its package clause if that is documented, one for every exported type,
documented or not, and one for every documented, exported function or method, in source order.
-/

namespace DocSearch.Doc

open Go Text

/-- Whether a name is visible outside its package: it begins with a capital. -/
def isExported (name : String) : Bool :=
  match name.toList with
  | [] => false
  | c :: _ => isUpper c

/-- The category of a type. -/
def typeKind : TypeExpr → String
  | .named name => "alias for " ++ name
  | .struct _ => "struct"
  | .interface _ => "interface"
  | .array => "array"
  | .map => "map"
  | .channel => "channel"
  | .function => "function"
  | _ => "type"

/-- The receiver of a method as it stands in front of the method's name: a type name, perhaps with a
star; any other receiver is left out. -/
def receiverName : Option TypeExpr → String
  | some (.named name) => name
  | some (.pointer true (some (.named name))) => "*" ++ name
  | _ => ""

/-- The documentation text of a group. -/
def docText (group : List Comment) : String := commentText (group.map (·.1))

/-! ## Members -/

/-- The documentation of a member: its lead group and then its line group. Comments that a member
itself ends in would stand before those of its line group; the grammar keeps none there. -/
def memberDoc (rows : Rows) (before behind : List (Sibling α)) : String :=
  docText (leadGroup before rows.first) ++ docText (lineGroup rows.last behind)

/-- The chunk of a field. -/
def fieldChunk (parent : String) (f : Field) (doc : String) : Chunk :=
  let symbol :=
    if f.names.isEmpty then "embedded " ++ f.type else parent ++ "." ++ join ", " f.names
  .member f.type symbol doc

/-- The chunk of an interface element. -/
def elementChunk (parent : String) (e : Element) (doc : String) : Chunk :=
  match e with
  | .method name => .member "method" (parent ++ "." ++ name) doc
  | .types text => .member "method" ("embedded " ++ text) doc

/-- The chunks of the members of a type. -/
def memberChunks (parent : String) : TypeExpr → List Chunk
  | .struct fields =>
    (nodesIn [] fields).map fun (f, rows, before, behind) =>
      fieldChunk parent f (memberDoc rows before behind)
  | .interface elements =>
    (nodesIn [] elements).map fun (e, rows, before, behind) =>
      elementChunk parent e (memberDoc rows before behind)
  | _ => []

/-! ## Declarations -/

/-- The chunks of a type declaration. Its lead group documents every type in it; without one, the
types of a parenthesised group are documented one by one. -/
def typeChunks (package filename : String) (group : List Comment) (grouped : Bool)
    (specs : List (Sibling TypeSpec)) : List Chunk :=
  (nodesIn [] specs).filterMap fun (spec, rows, before, _) =>
    if isExported spec.name then
      let comments := if group.isEmpty && grouped then leadGroup before rows.first else group
      some (.mk (typeKind spec.type) spec.name (docText comments) package filename
        (memberChunks spec.name spec.type))
    else none

/-- The chunk of a function or method with the given symbol, if it is documented and exported. -/
def functionChunk? (package filename name symbol : String) (group : List Comment) : Option Chunk :=
  if isExported name && !group.isEmpty then
    some (.mk "function" symbol (docText group) package filename [])
  else none

/-- The chunks of one top-level declaration with the lead group `group`. -/
def declarationChunks (package filename : String) (group : List Comment) :
    Declaration → List Chunk
  | .package _ => []
  | .types grouped specs => typeChunks package filename group grouped specs
  | .function name => (functionChunk? package filename name name group).toList
  | .method receiver name =>
    (functionChunk? package filename name (receiverName receiver ++ "." ++ name) group).toList

/-- The chunks of the declarations among top-level siblings. -/
def siblingChunks (package filename : String) (siblings : SourceFile) : List Chunk :=
  (nodesIn [] siblings).flatMap fun (d, rows, before, _) =>
    declarationChunks package filename (leadGroup before rows.first) d

/-- The name in the first package clause and the lead group of the clause. -/
def packageClause? (file : SourceFile) : Option (String × List Comment) :=
  (nodesIn [] file).findSome? fun (d, rows, before, _) =>
    match d with
    | .package name => some (name, leadGroup before rows.first)
    | _ => none

/-- The chunk of the package clause, if that is documented. -/
def packageChunk? (package filename : String) (group : List Comment) : Option Chunk :=
  if group.isEmpty then none
  else some (.mk "package" package (docText group) package filename [])

/-! ## Files -/

/-- Why a file cannot be read as Go source. -/
inductive ParseError where
  | badSyntax (filename : String)
  | missingPackage
deriving Repr, DecidableEq

/-- The error text. -/
def ParseError.message : ParseError → String
  | .badSyntax filename => filename ++ ": syntax error"
  | .missingPackage => "missing package clause"

/-- The package name of an outline and its chunks in source order. -/
def extract (filename : String) (file : SourceFile) : Except ParseError (String × List Chunk) :=
  match packageClause? file with
  | none => .error .missingPackage
  | some (package, group) =>
    .ok (package,
      (packageChunk? package filename group).toList ++ siblingChunks package filename file)

/-- The package name of a source file and its chunks. Bytes that are not UTF-8 read as `U+FFFD`. -/
def parseSource (source : Bytes) (filename : String) : Except ParseError (String × List Chunk) :=
  match SourceFile.ofText? (Utf8.decodeLossy source) with
  | none => .error (.badSyntax filename)
  | some file => extract filename file

end DocSearch.Doc
