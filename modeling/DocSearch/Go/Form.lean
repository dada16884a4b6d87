import DocSearch.Go.Lexeme

/-!
# Grammar forms and their recogniser

A grammar is a value: each rule has a form, and `Form.recognise` reads a stream of lexemes by it,
taking the first alternative that fits and repeating as often as it can. What it reads becomes a
forest of labelled nodes.

**Line ends.** A line end closes a construct wherever a terminator may follow it. The context says
whether that is so, and `joined` marks the places where a construct could go on: there a line end
stops it.

**Comments.** A comment stands in front of the lexeme behind it, and never inside the construct that
this lexeme begins.
-/

namespace DocSearch.Go

/-! ## Nodes -/

/-- What a node stands for. -/
inductive Label where
  | package
  | function
  | method
  | typeDeclaration
  | typeSpec
  | typeParameters
  | parameters
  | parameter
  | variadic
  | fields
  | field
  | methodElement
  | typeElement
  | namedType
  | genericType
  | qualifiedType
  | pointerType
  | parenthesizedType
  | negatedType
  | structType
  | interfaceType
  | arrayType
  | mapType
  | channelType
  | functionType
  | statement
deriving Repr, DecidableEq

/-- Whether a label is that of a type expression. -/
def Label.isType : Label → Bool
  | .namedType | .genericType | .qualifiedType | .pointerType | .parenthesizedType
  | .negatedType | .structType | .interfaceType | .arrayType | .mapType | .channelType
  | .functionType => true
  | _ => false

/-- A lexeme, or a labelled sequence of nodes. -/
inductive Node where
  | leaf (l : Lexeme)
  | branch (label : Label) (children : List Node)

/-- Whether a node is a comment. -/
def Node.isComment : Node → Bool
  | .leaf l => l.kind == .comment
  | .branch _ _ => false

/-! ## The stream -/

/-- A lexeme that is no comment, the comments in front of it, and whether a line ends between it and
the lexeme before. -/
structure Step where
  comments : List Lexeme
  lexeme : Lexeme
  newLine : Bool

/-- Attaches the comments to the lexemes behind them. A line break inside a comment ends no line. -/
def steps (comments : List Lexeme) (newLine : Bool) : List Lexeme → List Step
  | [] => []
  | l :: ls =>
    let newLine := newLine || l.gap.contains '\n'
    if l.kind == .comment then steps (l :: comments) newLine ls
    else ⟨comments.reverse, l, newLine⟩ :: steps [] false ls

/-- The nodes of a step: its comments and its lexeme. -/
def Step.nodes (s : Step) : List Node := s.comments.map .leaf ++ [.leaf s.lexeme]

/-! ## Forms -/

/-- The rules of the grammar. -/
inductive Rule where
  | file
  | declaration
  | statement
  | statements
  | block
  | simpleTail
  | ifStatement
  | switchRest
  | switchCases
  | typeCases
  | expression
  | operand
  | literalBody
  | arguments
  | typeArguments
  | type
  | simpleType
  | typeElements
  | parameters
  | typeParameters
deriving Repr, DecidableEq

/-- Whether a line end may close the construct at hand, and whether a block follows it, so that a
brace behind a type name does not begin a literal. -/
structure Context where
  lineEnds : Bool
  header : Bool

/-- How a construct is written. -/
inductive Form where
  | kind (k : LexemeKind)
  | word (s : String)
  | name (s : String)
  | sign (s : String)
  | rule (r : Rule)
  | seq (fs : List Form)
  | alt (fs : List Form)
  | opt (f : Form)
  | many (f : Form)
  | node (label : Label) (f : Form)
  /-- Inside brackets: no line end closes anything and no block follows. -/
  | free (f : Form)
  /-- In front of a block. -/
  | headed (f : Form)
  /-- Where lines end. -/
  | lined (f : Form)
  /-- A continuation, which a line end cuts off. -/
  | joined (f : Form)
  /-- Nothing in front of a block. -/
  | unheaded (f : Form)
  /-- What follows has the form; nothing is read. -/
  | ahead (f : Form)
  /-- What follows does not have the form; nothing is read. -/
  | absent (f : Form)
  /-- A line end or a semicolon. -/
  | terminator

/-- Reads one lexeme that satisfies `p`. -/
def readStep (p : Lexeme → Bool) : List Step → Option (List Node × List Step)
  | [] => none
  | s :: rest => if p s.lexeme then some (s.nodes, rest) else none

/-- Whether the next lexeme stands on a new line. -/
def atNewLine : List Step → Bool
  | [] => false
  | s :: _ => s.newLine

/-- Nodes under a label; comments in front of them stay outside. -/
def labelled (label : Label) (nodes : List Node) : List Node :=
  nodes.takeWhile Node.isComment ++ [.branch label (nodes.dropWhile Node.isComment)]

/-- Repeats a step at most `n` times, until it no longer applies; the nodes so far are kept in
reverse. -/
def repeated (step : List Step → Option (List Node × List Step)) :
    (n : Nat) → List Node → List Step → List Node × List Step
  | 0, acc, rest => (acc.reverse, rest)
  | n + 1, acc, rest =>
    match step rest with
    | none => (acc.reverse, rest)
    | some (nodes, rest') => repeated step n (nodes.reverse ++ acc) rest'

/-- Reads a form at the front of the stream, with rules as `grammar` has them; `fuel` bounds the
depth of the reading. -/
def Form.read (grammar : Rule → Form) :
    (fuel : Nat) → Context → Form → List Step → Option (List Node × List Step)
  | 0, _, _, _ => none
  | fuel + 1, ctx, f, input =>
    match f with
    | .kind k => readStep (·.kind == k) input
    | .word s => readStep (fun l => l.kind == .keyword && String.ofList l.text == s) input
    | .name s => readStep (fun l => l.kind == .identifier && String.ofList l.text == s) input
    | .sign s => readStep (fun l => l.kind == .operator && String.ofList l.text == s) input
    | .rule r => Form.read grammar fuel ctx (grammar r) input
    | .seq fs =>
      fs.foldlM (fun (acc, rest) g =>
        (Form.read grammar fuel ctx g rest).map fun (nodes, rest') => (acc ++ nodes, rest'))
        ([], input)
    | .alt fs => fs.findSome? fun g => Form.read grammar fuel ctx g input
    | .opt g => (Form.read grammar fuel ctx g input).or (some ([], input))
    | .many g => some (repeated (Form.read grammar fuel ctx g) input.length [] input)
    | .node label g =>
      (Form.read grammar fuel ctx g input).map fun (nodes, rest) => (labelled label nodes, rest)
    | .free g => Form.read grammar fuel ⟨false, false⟩ g input
    | .headed g => Form.read grammar fuel ⟨false, true⟩ g input
    | .lined g => Form.read grammar fuel ⟨true, false⟩ g input
    | .joined g =>
      if ctx.lineEnds && atNewLine input then none else Form.read grammar fuel ctx g input
    | .unheaded g => if ctx.header then none else Form.read grammar fuel ctx g input
    | .ahead g => (Form.read grammar fuel ctx g input).map fun _ => ([], input)
    | .absent g =>
      match Form.read grammar fuel ctx g input with
      | some _ => none
      | none => some ([], input)
    | .terminator =>
      if atNewLine input then some ([], input)
      else readStep (fun l => l.kind == .operator && l.text == [';']) input

/-- The forest of a stream that has the form of the rule from beginning to end. Between two lexemes
no more than a few dozen forms are entered, which bounds the depth. -/
def recognise (grammar : Rule → Form) (r : Rule) (input : List Step) : Option (List Node) :=
  match Form.read grammar (256 * (input.length + 1)) ⟨true, false⟩ (.rule r) input with
  | some (nodes, []) => some nodes
  | _ => none

end DocSearch.Go
