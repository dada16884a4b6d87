import DocSearch.Tool.Schema
import DocSearch.Tool.Input
import DocSearch.Search.Retrieve
import DocSearch.Json.Printer

/-!
# Calls of the search tool

The only tool there is searches the chunks. Its arguments are checked against its schema and then
field by field; whatever goes wrong becomes an answer of its own instead of a failure. An answer
holds the hits as structured content and as the JSON text of it.
-/

namespace DocSearch.Tool

open DocSearch.Action Text

variable {σ : Type} (o : Outside σ) (m : Daemon.Models)

/-! ## The tool -/

/-- The name of the tool. -/
def toolName : String := "search"

/-- What the tool does. -/
def toolDescription : String := "Perform a semantic search on the Go documentation data"

/-- The arguments of the tool. -/
def inputSchema : Schema where
  title := "SearchInput"
  description := "Arguments of the ``search`` tool."
  fields :=
    [⟨"query", "Query", "input to use for semantic search", .text⟩,
      ⟨"limit", "Limit", "max number of results to get from the search", .integer 1⟩]

/-- A hit of a search. -/
def hitSchema : Schema where
  title := "SearchHit"
  description := "One retrieved documentation chunk."
  fields :=
    [⟨"kind", "Kind", "type of the symbol (function, struct, package, etc.)", .text⟩,
      ⟨"symbol", "Symbol", "name of the symbol", .text⟩,
      ⟨"data", "Data", "relevant context data (i.e. comment text)", .text⟩,
      ⟨"package", "Package", "name of the Go package", .text⟩,
      ⟨"filename", "Filename", "filename for the data", .text⟩]

/-- The schema of the structured content: a list of hits. -/
def outputSchema : Value :=
  .object [("$defs", .object [(hitSchema.title, hitSchema.value)]),
    ("description", .text "Result of the ``search`` tool."),
    ("properties", .object [("data",
      .object [("description", .text "array of context data from the semantic search"),
        ("items", .object [("$ref", .text s!"#/$defs/{hitSchema.title}")]),
        ("title", .text "Data"), ("type", .text "array")])]),
    ("title", .text "SearchOutput"), ("type", .text "object")]

/-- The list of the tools. -/
def listing : Value :=
  .object [("tools", .list [.object [("name", .text toolName),
    ("description", .text toolDescription), ("inputSchema", inputSchema.value),
    ("outputSchema", outputSchema)]])]

/-! ## Failures -/

/-- Why a call brings no hits. -/
inductive CallError where
  | unknown (tool : String)
  | violation (v : Violation)
  | refused (issues : List Issue)
  | late
  | badDeadline (type : String)
  | failed (cause : RunError)

/-- The longest spelling of an input that is shown in full. -/
def shownLength : Nat := 50

/-- A text cut down in its middle if it is longer than `shownLength`. -/
def abridged (s : String) : String :=
  let cs := s.toList
  if cs.length ≤ shownLength then s
  else
    String.ofList (cs.take (shownLength / 2)) ++ "..." ++
      String.ofList (cs.drop (cs.length - (shownLength / 2 - 1)))

/-- The lines of an issue. -/
def Issue.lines (i : Issue) : List String :=
  i.field.toList ++
    [s!"  {i.fault.message} [type={i.fault.code}, input_value={abridged i.input.shown}, " ++
      s!"input_type={i.input.typeName}]"]

/-- The report of issues. -/
def report (issues : List Issue) : String :=
  let plural := if issues.length = 1 then "" else "s"
  join "\n" (s!"{issues.length} validation error{plural} for {inputSchema.title}" ::
    issues.flatMap Issue.lines)

/-- The error text; a call that is late has none. -/
def CallError.message : CallError → String
  | .unknown tool => s!"unknown tool: {tool}"
  | .violation v => s!"Input validation error: {v.message}"
  | .refused issues => s!"invalid arguments: {report issues}"
  | .late => ""
  | .badDeadline type => s!"unsupported operand type(s) for +: \x27float\x27 and {quoted type}"
  | .failed cause => cause.message

/-! ## Searching -/

/-- The logger of the tool server. -/
def serverLogger : String := "godoc_rag.api.server"

/-- The records nearest to a client's query, for the tool. -/
def searchFor (c : Search.Client σ) (query : String) (limit : Value) : Action σ (List Record) := do
  let records ← c.retrieve o query limit
  log .debug serverLogger s!"search {quoted query} returned {records.length} hits"
  return records

/-- The records nearest to a query, for the tool. -/
def search (query : String) (limit : Value) : Action σ (List Record) :=
  searchFor o (Search.daemonClient o m) query limit

/-- A hit of a search as a value. -/
def hitValue (r : Record) : Value :=
  .object [("kind", .text r.kind), ("symbol", .text r.symbol), ("data", .text r.data),
    ("package", .text r.package), ("filename", .text r.filename)]

/-- The structured content for hits. -/
def outputValue (records : List Record) : Value :=
  .object [("data", .list (records.map hitValue))]

/-! ## Deadlines -/

/-- Whether the time that a call may take is over at once; none at all is unlimited. -/
def isLate (timeout : Value) : Except CallError Bool :=
  match timeout with
  | .null => .ok false
  | .bool b => .ok !b
  | .int n => .ok (n ≤ 0)
  | .float f => .ok (f ≤ 0)
  | v => .error (.badDeadline v.typeName)

/-! ## Calls -/

/-- The outcome of a call. -/
abbrev Outcome := Except CallError (List Record)

/-- Searches with checked arguments within the time allowed. -/
def searchInTime (timeout : Value) (i : Input) : Action σ Outcome := do
  match isLate timeout with
  | .error e => return .error e
  | .ok true =>
    log .warning serverLogger s!"search {quoted i.query} exceeded {timeout.display}s"
    return .error .late
  | .ok false =>
    tryCatch (Except.ok <$> search o m i.query (.int i.limit)) fun e =>
      return .error (.failed e)

/-- The logger of the protocol. -/
def protocolLogger : String := "mcp.server.lowlevel.server"

/-- Calls a tool by its name. -/
def call (timeout : Value) (tool : String) (arguments : Value) : Action σ Outcome := do
  if tool != toolName then
    log .warning protocolLogger s!"Tool \x27{tool}\x27 not listed, no validation will be performed"
    return .error (.unknown tool)
  match inputSchema.violation? arguments with
  | some v => return .error (.violation v)
  | none =>
    match Input.check arguments with
    | .error issues => return .error (.refused issues)
    | .ok input => searchInTime o m timeout input

/-- The answer to a call. -/
def answer (outcome : Outcome) : Value :=
  let content (text : String) : String × Value :=
    ("content", .list [.object [("type", .text "text"), ("text", .text text)]])
  match outcome with
  | .error e => .object [content e.message, ("isError", .bool true)]
  | .ok records =>
    let output := outputValue records
    .object [content (Json.indented output), ("structuredContent", output),
      ("isError", .bool false)]

end DocSearch.Tool
