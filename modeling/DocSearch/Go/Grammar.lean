import DocSearch.Go.Form

/-!
# The grammar of Go files

The forms of declarations, types, statements and expressions. The grammar is somewhat wider than the
language: declarations come in any order and statements may stand among them.

**Declarations and types** are kept as labelled nodes, because documentation is read off them.
**Statements and expressions** are only recognised.
-/

namespace DocSearch.Go

namespace Form

/-! ## Building blocks -/

def identifier : Form := .kind .identifier
def string : Form := .kind .string
def comma : Form := .sign ","

/-- One or more of a form with commas between them. -/
def commaList (f : Form) : Form := .seq [f, .many (.seq [comma, f])]

/-- One or more of a form with commas between them and perhaps one at the end. -/
def commaListEnd (f : Form) : Form := .seq [f, .many (.seq [comma, f]), .opt comma]

/-- One or more of a form with terminators between them and perhaps one at the end. -/
def lineList (f : Form) : Form := .seq [f, .many (.seq [.terminator, f]), .opt .terminator]

def inParens (f : Form) : Form := .seq [.sign "(", f, .sign ")"]
def inBrackets (f : Form) : Form := .seq [.sign "[", f, .sign "]"]
def inBraces (f : Form) : Form := .seq [.sign "\x7b", f, .sign "\x7d"]

/-- One of several operators. -/
def oneOf (ops : List String) : Form := .alt (ops.map .sign)

/-! ## Types -/

/-- A type by its name alone. -/
def namedType : Form := .node .namedType identifier

/-- A type of another package. -/
def qualifiedType : Form :=
  .node .qualifiedType (.seq [identifier, .joined (.seq [.sign ".", identifier])])

/-- A type by its name, perhaps of another package and perhaps with type arguments. -/
def typeName : Form :=
  .alt [
    .node .genericType (.seq [.alt [qualifiedType, namedType], .joined (.rule .typeArguments)]),
    qualifiedType, namedType]

/-- An array or slice type. -/
def arrayType : Form :=
  .node .arrayType (.seq [inBrackets (.opt (.free (.rule .expression))), .rule .type])

/-- The length-counting array type of a literal. -/
def countedArrayType : Form :=
  .node .arrayType (.seq [inBrackets (.sign "..."), .rule .type])

def mapType : Form :=
  .node .mapType (.seq [.word "map", inBrackets (.free (.rule .type)), .rule .type])

def channelType : Form :=
  .node .channelType (.alt [
    .seq [.word "chan", .sign "<-", .rule .type],
    .seq [.word "chan", .rule .type],
    .seq [.sign "<-", .word "chan", .rule .type]])

/-- The result of a function. -/
def result : Form := .alt [.rule .parameters, .rule .simpleType]

def functionType : Form :=
  .node .functionType (.seq [.word "func", .rule .parameters, .opt (.joined result)])

/-- The tag of a field. -/
def tag : Form := .opt (.joined string)

/-- A field: names and a type, or an embedded type. -/
def field : Form :=
  let stop : Form := .ahead (.alt [.terminator, .sign "\x7d"])
  .node .field (.alt [
    .seq [
      identifier,
      .alt [
        .seq [.joined (.seq [comma, identifier]), .many (.seq [comma, identifier]), .rule .type],
        .joined (.rule .type)],
      tag, stop],
    .seq [.opt (.sign "*"), typeName, tag]])

def structType : Form :=
  .node .structType (.seq [
    .word "struct", .node .fields (inBraces (.lined (.opt (lineList field))))])

/-- An element of an interface: a method, or types. -/
def element : Form :=
  .alt [
    .node .methodElement (.seq [
      identifier, .joined (.rule .parameters), .opt (.joined result)]),
    .node .typeElement (.rule .typeElements)]

def interfaceType : Form :=
  .node .interfaceType (.seq [.word "interface", inBraces (.lined (.opt (lineList element)))])

/-- The types that are not names. -/
def literalType : Form :=
  .alt [
    .node .pointerType (.seq [.sign "*", .rule .type]),
    structType, interfaceType, arrayType, mapType, channelType, functionType,
    .node .negatedType (.seq [.sign "~", .rule .type])]

def parenthesizedType : Form :=
  .node .parenthesizedType (inParens (.free (.rule .type)))

/-- Parameters: names and a type, a type alone, or a type for all further arguments. -/
def parameter : Form :=
  .alt [
    .node .variadic (.seq [.opt identifier, .sign "...", .rule .type]),
    .node .parameter (.alt [.seq [commaList identifier, .rule .type], .rule .type])]

/-- Type parameters with their constraint. -/
def typeParameter : Form := .seq [commaList identifier, .rule .typeElements]

/-! ## Declarations -/

/-- What follows a function's name. -/
def signature : Form :=
  .seq [.rule .parameters, .opt (.joined result), .opt (.joined (.rule .block))]

def importSpec : Form := .seq [.opt (.alt [.sign ".", identifier]), string]

/-- A specification, or several in parentheses. -/
def grouped (spec : Form) : Form :=
  .alt [.seq [.sign "(", .lined (.opt (lineList spec)), .sign ")"], spec]

def package : Form := .node .package (.seq [.word "package", identifier])

def function : Form :=
  .node .function (.seq [
    .word "func", identifier, .opt (.rule .typeParameters), signature])

def method : Form :=
  .node .method (.seq [.word "func", .rule .parameters, identifier, signature])

/-- The declarations that may end a file without a terminator. -/
def topLevel : Form :=
  .alt [
    package,
    .node .statement (.seq [.word "import", grouped importSpec]),
    method, function]

def expressions : Form :=
  .seq [.rule .expression, .many (.joined (.seq [comma, .rule .expression]))]

def constSpec : Form :=
  .seq [
    identifier, .many (.joined (.seq [comma, identifier])),
    .opt (.joined (.seq [.opt (.free (.rule .type)), .sign "=", expressions]))]

def varSpec : Form :=
  .seq [
    commaList identifier,
    .alt [
      .seq [.sign "=", expressions],
      .seq [.rule .type, .opt (.joined (.seq [.sign "=", expressions]))]]]

/-- A type specification. What can be read as an array length is one. -/
def typeSpec : Form :=
  .node .typeSpec (.alt [
    .seq [identifier, .opt (.rule .typeParameters), .sign "=", .rule .type],
    .seq [identifier, .rule .type],
    .seq [identifier, .rule .typeParameters, .rule .type]])

/-- Declarations of types, constants and variables. -/
def declaration : Form :=
  .alt [
    .node .typeDeclaration (.seq [.word "type", grouped typeSpec]),
    .node .statement (.seq [.word "const", grouped constSpec]),
    .node .statement (.seq [.word "var", grouped varSpec])]

/-! ## Expressions -/

def unaryOperators : List String := ["+", "-", "!", "^", "*", "&", "<-", "++", "--", "&&", "&^"]

def binaryOperators : List String :=
  ["||", "&&", "==", "!=", "<", "<=", ">", ">=", "+", "-", "|", "^", "*", "/", "%", "<<", ">>", "&",
    "&^"]

def assignmentOperators : List String :=
  ["=", ":=", "+=", "-=", "*=", "/=", "%=", "&=", "|=", "^=", "<<=", ">>=", "&^="]

/-- An argument that a conversion takes. -/
def converted : Form := inParens (.free (.seq [.rule .expression, .opt comma]))

/-- A literal of a named type. -/
def namedLiteral : Form :=
  .unheaded (.seq [
    identifier, .opt (.joined (.seq [.sign ".", identifier])),
    .opt (.joined (.rule .typeArguments)), .joined (.rule .literalBody)])

/-- An operand that begins with a type other than a name. -/
def typedOperand : Form :=
  .alt [
    .seq [
      .free (.alt [countedArrayType, arrayType, mapType, structType]), .rule .literalBody],
    .seq [.free (.alt [literalType, parenthesizedType]), .alt [converted, .rule .typeArguments]],
    .seq [.word "func", .rule .parameters, converted]]

/-- A call of a built-in function whose first argument is a type. -/
def builtinCall : Form :=
  .seq [
    .alt [.name "new", .name "make"],
    .joined (inParens (.free (.seq [
      .rule .type, .many (.seq [comma, .rule .expression]), .opt comma])))]

/-- What a bracket behind an operand holds: an index or the ends of a slice. -/
def indices : Form :=
  let ends : Form :=
    .seq [
      .sign ":",
      .alt [.seq [.rule .expression, .sign ":", .rule .expression], .opt (.rule .expression)]]
  .alt [.seq [.rule .expression, .opt ends], ends]

/-- What may follow an operand. -/
def suffix : Form :=
  .alt [
    .seq [.sign ".", identifier],
    .seq [.sign ".", inParens (.free (.rule .type))],
    inBrackets (.free indices),
    .rule .typeArguments,
    .rule .arguments]

/-- An operand with operators in front and suffixes behind. -/
def unary : Form :=
  .seq [.many (oneOf unaryOperators), .rule .operand, .many (.joined suffix)]

/-! ## Statements -/

/-- The case list of a switch, with `item` behind the word that begins a case. -/
def caseBody (item : Form) : Form :=
  inBraces (.many (.seq [
    .alt [.seq [.word "case", .free item], .word "default"], .sign ":", .rule .statements]))

/-- The mark that makes a switch one on types. -/
def typeGuard : Form := .seq [.sign ".", inParens (.word "type")]

/-- The rest of a switch on the type of a named value. -/
def boundTypeSwitch : Form :=
  .seq [
    .many (.seq [comma, .rule .expression]), .sign ":=", .rule .expression, typeGuard,
    .rule .typeCases]

/-- The rest of a loop header behind its first semicolon. -/
def loopClause : Form :=
  .seq [
    .opt (.free (.rule .expression)), .sign ";",
    .opt (.headed (.seq [.rule .expression, .opt (.rule .simpleTail)])), .rule .block]

/-- A range over the value of an expression. -/
def loopRange : Form := .seq [.word "range", .headed (.rule .expression), .rule .block]

def loop : Form :=
  .seq [
    .word "for",
    .alt [
      .rule .block, loopRange,
      .seq [.sign ";", loopClause],
      .seq [
        .headed (.rule .expression),
        .alt [
          .rule .block,
          .seq [
            .free (.many (.seq [comma, .rule .expression])), oneOf ["=", ":="], loopRange],
          .seq [.free (.opt (.rule .simpleTail)), .sign ";", loopClause]]]]]

/-- What a case of a select waits for. -/
def communication : Form :=
  .seq [
    .rule .expression,
    .opt (.alt [
      .seq [.sign "<-", .rule .expression],
      .seq [
        .many (.seq [comma, .rule .expression]), oneOf ["=", ":="], .rule .expression]])]

def select : Form := .seq [.word "select", caseBody communication]

def label : Form := .seq [identifier, .joined (.sign ":")]

def simpleStatement : Form :=
  .seq [.rule .expression, .opt (.rule .simpleTail), .absent (.sign ":")]

def statement : Form :=
  .alt [
    .rule .declaration,
    .node .statement (.alt [
      .seq [.word "return", .opt (.joined expressions)],
      .seq [.alt [.word "go", .word "defer"], .rule .expression],
      .rule .ifStatement,
      loop,
      .seq [
        .word "switch",
        .alt [.rule .switchCases, .seq [.headed (.rule .expression), .rule .switchRest]]],
      select,
      .seq [label, .rule .statement],
      .word "fallthrough",
      .seq [.alt [.word "break", .word "continue"], .opt (.joined identifier)],
      .seq [.word "goto", identifier],
      .rule .block,
      .sign ";",
      simpleStatement])]

end Form

open Form

/-- The form of each rule. -/
def grammar : Rule → Form
  | .file =>
    .seq [
      .many (.seq [.alt [topLevel, .rule .statement], .terminator]), .opt topLevel,
      .kind .endOfText]
  | .declaration => declaration
  | .statement => statement
  | .statements =>
    .lined (.opt (.alt [
      .seq [
        .rule .statement, .many (.seq [.terminator, .rule .statement]),
        .opt (.seq [.terminator, .opt label])],
      label]))
  | .block => inBraces (.rule .statements)
  | .simpleTail =>
    .alt [
      .joined (.alt [.sign "++", .sign "--", .seq [.sign "<-", .rule .expression]]),
      .joined (.seq [oneOf assignmentOperators, expressions]),
      .joined (.seq [
        .free (.seq [comma, commaList (.rule .expression)]), oneOf assignmentOperators,
        expressions])]
  | .ifStatement =>
    .seq [
      .word "if", .headed (.rule .expression),
      .alt [
        .rule .block,
        .seq [
          .free (.opt (.rule .simpleTail)), .sign ";", .headed (.rule .expression), .rule .block]],
      .opt (.joined (.seq [.word "else", .alt [.rule .block, .rule .ifStatement]]))]
  | .switchRest =>
    .alt [
      .rule .switchCases,
      .seq [typeGuard, .rule .typeCases],
      .free boundTypeSwitch,
      .seq [
        .free (.opt (.rule .simpleTail)), .sign ";",
        .alt [
          .rule .switchCases,
          .seq [
            .headed (.rule .expression),
            .alt [
              .rule .switchCases, .seq [typeGuard, .rule .typeCases], .free boundTypeSwitch]]]]]
  | .switchCases => caseBody (commaList (.rule .expression))
  | .typeCases => caseBody (commaList (.rule .type))
  | .expression => .seq [unary, .many (.joined (.seq [oneOf binaryOperators, unary]))]
  | .operand =>
    .alt [
      .kind .number, .kind .character, string,
      .seq [.word "func", .free (.seq [.rule .parameters, .opt result]), .rule .block],
      inParens (.free (.rule .expression)),
      namedLiteral, builtinCall, identifier, typedOperand]
  | .literalBody =>
    let item : Form := .alt [.rule .literalBody, .rule .expression]
    inBraces (.free (.seq [
      .opt (commaList (.seq [item, .opt (.seq [.sign ":", item])])), .opt comma]))
  | .arguments =>
    inParens (.free (.opt (commaListEnd (.seq [.rule .expression, .opt (.sign "...")]))))
  | .typeArguments => inBrackets (.free (commaListEnd (.rule .typeElements)))
  | .type => .alt [parenthesizedType, .rule .simpleType]
  | .simpleType => .alt [literalType, typeName]
  | .typeElements => .seq [.rule .type, .many (.joined (.seq [.sign "|", .rule .type]))]
  | .parameters =>
    .node .parameters
      (inParens (.free (.seq [.opt (commaList parameter), .opt comma])))
  | .typeParameters => .node .typeParameters (inBrackets (.free (commaListEnd typeParameter)))

end DocSearch.Go
