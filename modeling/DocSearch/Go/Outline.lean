import DocSearch.Go.Grammar

/-!
# The outline of a Go file

What documentation is read off: the top-level declarations of a file, the members of its types, and
the comments around them, each in its place among its siblings. Everything else is a mere mark.

An outline is independent of the grammar that produced it: `SourceFile` is a plain list of siblings.
-/

namespace DocSearch.Go

open Text

/-! ## Siblings -/

/-- The rows on which something begins and ends. -/
structure Rows where
  first : Nat
  last : Nat
deriving Repr, DecidableEq

/-- What stands at one level: comments, semicolons, nodes of interest and other marks. A line break
that ends a declaration is a mark too, if a grammar keeps it. It ends on the row where it begins, not
on the one below; ours keeps none. -/
inductive Sibling (α : Type) where
  | comment (text : String) (rows : Rows)
  | semicolon (rows : Rows)
  | mark (rows : Rows)
  | node (value : α) (rows : Rows)
deriving Repr, DecidableEq

namespace Sibling

/-- The rows of a sibling. -/
def rows : Sibling α → Rows
  | .comment _ r | .semicolon r | .mark r | .node _ r => r

/-- Whether a sibling is a comment. -/
def isComment : Sibling α → Bool
  | .comment _ _ => true
  | _ => false

end Sibling

/-! ## Types and declarations -/

/-- A field of a struct: its names, none for an embedded type, and the text of its type. -/
structure Field where
  names : List String
  type : String
deriving Repr, DecidableEq

/-- An element of an interface: a method by its name, or embedded types by their text. -/
inductive Element where
  | method (name : String)
  | types (text : String)
deriving Repr, DecidableEq

/-- A type expression as far as documentation tells types apart. A pointer is plain when nothing
stands between its star and its type. -/
inductive TypeExpr where
  | named (name : String)
  | generic (base : Option TypeExpr)
  | pointer (plain : Bool) (target : Option TypeExpr)
  | parenthesized (inner : Option TypeExpr)
  | struct (fields : List (Sibling Field))
  | interface (elements : List (Sibling Element))
  | array
  | map
  | channel
  | function
  | other

/-- A type by its name and what it stands for. -/
structure TypeSpec where
  name : String
  type : TypeExpr

/-- A top-level declaration. A method's receiver is the type of its first parameter, if it has
one. -/
inductive Declaration where
  | package (name : String)
  | types (grouped : Bool) (members : List (Sibling TypeSpec))
  | function (name : String)
  | method (receiver : Option TypeExpr) (name : String)

/-- A file: its top-level siblings in order. -/
abbrev SourceFile := List (Sibling Declaration)

/-! ## From nodes -/

mutual

/-- The lexemes of a node. -/
def Node.lexemes : Node → List Lexeme
  | .leaf l => [l]
  | .branch _ children => lexemesOf children

/-- The lexemes of several nodes. -/
def lexemesOf : List Node → List Lexeme
  | [] => []
  | n :: ns => n.lexemes ++ lexemesOf ns

end

namespace Node

/-- The source text of a node, from its first lexeme to its last. -/
def text (n : Node) : String :=
  match n.lexemes with
  | [] => ""
  | l :: ls => String.ofList (l.text ++ ls.flatMap fun m => m.gap ++ m.text)

/-- The rows of a node. -/
def rows (n : Node) : Rows :=
  let ls := n.lexemes
  ⟨(ls.head?.map (·.firstRow)).getD 0, (ls.getLast?.map (·.lastRow)).getD 0⟩

/-- The identifiers that stand directly among the children. -/
def names (children : List Node) : List String :=
  children.filterMap fun
    | .leaf l => if l.kind == .identifier then some (String.ofList l.text) else none
    | .branch _ _ => none

/-- The operator at a leaf. -/
def isSign (s : String) : Node → Bool
  | .leaf l => l.kind == .operator && String.ofList l.text == s
  | .branch _ _ => false

/-- The last type among the children. -/
def lastType (children : List Node) : Option Node :=
  children.reverse.find? fun
    | .branch label _ => label.isType
    | .leaf _ => false

/-- The siblings that the children are, with `f` for the nodes of interest. -/
def siblings (f : Label → List Node → Option α) (children : List Node) : List (Sibling α) :=
  children.map fun n =>
    match n with
    | .leaf l =>
      if l.kind == .comment then .comment (String.ofList l.text) n.rows
      else if n.isSign ";" then .semicolon n.rows
      else .mark n.rows
    | .branch label cs =>
      match f label cs with
      | some value => .node value n.rows
      | none => .mark n.rows

/-- The field that a node stands for. The star of an embedded pointer belongs to its type. -/
def field? (label : Label) (children : List Node) : Option Field :=
  if label == .field then
    let type := collapse (((lastType children).map text).getD "")
    let names := names children
    some ⟨names, if names.isEmpty && children.any (isSign "*") then "*" ++ type else type⟩
  else none

/-- The element that a node stands for. -/
def element? (label : Label) (children : List Node) : Option Element :=
  match label with
  | .methodElement => some (.method ((names children).head?.getD ""))
  | .typeElement => some (.types (collapse (branch label children).text))
  | _ => none

/-- The children of the field list among the children of a struct. -/
def fieldNodes (children : List Node) : List Node :=
  children.flatMap fun
    | .branch .fields cs => cs
    | _ => []

mutual

/-- The type expression that a node stands for. -/
def typeExpr : Node → TypeExpr
  | .leaf _ => .other
  | .branch label children =>
    match label with
    | .namedType => .named ((names children).head?.getD "")
    | .genericType => .generic (innerType children)
    | .pointerType => .pointer (!children.any isComment) (innerType children)
    | .parenthesizedType => .parenthesized (innerType children)
    | .structType => .struct (siblings field? (fieldNodes children))
    | .interfaceType => .interface (siblings element? children)
    | .arrayType => .array
    | .mapType => .map
    | .channelType => .channel
    | .functionType => .function
    | _ => .other

/-- The type expression of the first type among the children. -/
def innerType : List Node → Option TypeExpr
  | [] => none
  | .leaf _ :: ns => innerType ns
  | .branch label cs :: ns =>
    if label.isType then some (typeExpr (.branch label cs)) else innerType ns

end

/-- The specification that a node stands for. -/
def typeSpec? (label : Label) (children : List Node) : Option TypeSpec :=
  if label == .typeSpec then
    some ⟨(names children).head?.getD "", ((lastType children).map typeExpr).getD .other⟩
  else none

/-- The type of the first parameter that is not variadic, in the first list of parameters. -/
def receiver (children : List Node) : Option TypeExpr :=
  children.findSome? (fun
    | .branch .parameters ps => some ps
    | _ => none)
  |>.bind fun ps =>
    ps.findSome? (fun
      | .branch .parameter cs => some cs
      | _ => none)
    |>.bind fun cs => (lastType cs).map typeExpr

/-- The declaration that a node stands for. -/
def declaration? (label : Label) (children : List Node) : Option Declaration :=
  let name := (names children).head?.getD ""
  match label with
  | .package => some (.package name)
  | .typeDeclaration =>
    some (.types (children.any (isSign "(")) (siblings typeSpec? children))
  | .function => some (.function name)
  | .method => some (.method (receiver children) name)
  | _ => none

end Node

/-- The outline of a source text, if it has the form of a file. -/
def SourceFile.ofText? (source : List Char) : Option SourceFile := do
  let lexemes ← lexemes? source
  let nodes ← recognise grammar .file (steps [] false lexemes)
  some (Node.siblings Node.declaration? nodes)

end DocSearch.Go
