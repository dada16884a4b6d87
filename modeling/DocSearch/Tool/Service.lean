import DocSearch.Tool.Call

/-!
# The tool server

The server answers requests over HTTP: a health check, and at one path the calls of a protocol whose
messages are JSON objects with a method, its parameters and an id. A message without an id is a
notification, which is accepted and has no answer.
-/

namespace DocSearch.Tool

open DocSearch.Action Text

variable {σ : Type} (o : Outside σ) (m : Daemon.Models)

/-- A request over HTTP. -/
structure Visit where
  method : String
  path : String
  body : Value

/-- The answer to a request over HTTP. -/
structure Response where
  status : Nat
  body : Option Value

/-- How the protocol is served: at which path, and how long a call may take. -/
structure Service where
  path : String
  timeout : Value

/-- The name of the server. -/
def serverName : String := "godoc-rag"

/-- The version of the protocol's server. -/
def serverVersion : String := "v1.0.0"

/-- What clients are told about the server. -/
def instructions : String :=
  "This MCP server provides semantic search capabilities over Go\n" ++
  "package documentation. It parses documentation from both internal projects\n" ++
  "and external Go modules, generates vector embeddings, and stores them in\n" ++
  "pgvector. When queried, the server retrieves the most relevant doc snippets,\n" ++
  "functions, or API descriptions based on semantic similarity.\n\n" ++
  "Use this server to:\n" ++
  "- Look up Go functions, types, methods, and usage examples.\n" ++
  "- Understand external packages or internal APIs without manually browsing docs.\n" ++
  "- Aid code generation by retrieving contextually relevant Go documentation.\n\n" ++
  "The server is not a code executor or compiler; it strictly provides\n" ++
  "semantic search results from the indexed documentation."

/-! ## Messages -/

/-- A message of the protocol about the request with the given id. -/
def message (id : Value) (name : String) (v : Value) : Value :=
  .object [("jsonrpc", .text "2.0"), ("id", id), (name, v)]

/-- Why a message is not served. -/
inductive MessageFault where
  | badMessage
  | badParameters
  | unknownMethod
  | notStopped

/-- The code of a fault. -/
def MessageFault.code : MessageFault → Int
  | .badMessage | .badParameters => -32602
  | .unknownMethod => -32601
  | .notStopped => -32600

/-- The wording of a fault. -/
def MessageFault.message : MessageFault → String
  | .badMessage => "Validation error"
  | .badParameters => "Invalid request parameters"
  | .unknownMethod => "Method not found"
  | .notStopped => "Method Not Allowed: Session termination not supported"

/-- A fault as a value. -/
def MessageFault.value (f : MessageFault) : Value :=
  .object ([("code", .int f.code), ("message", .text f.message)] ++
    if f matches .badParameters then [("data", .text "")] else [])

/-- The id of answers to messages that have none. -/
def noId : Value := .text "server-error"

/-- The versions of the protocol, the latest one last. -/
def protocolVersions : List String := ["2024-11-05", "2025-03-26", "2025-06-18", "2025-11-25"]

/-- The version that is spoken with a client: its own, or the latest one. -/
def spokenVersion (asked : Value) : String :=
  match asked with
  | .text v => if protocolVersions.contains v then v else protocolVersions.getLastD v
  | _ => protocolVersions.getLastD ""

/-- What a client is told first. -/
def greeting (parameters : Value) : Value :=
  .object [
    ("protocolVersion", .text (spokenVersion ((parameters.get? "protocolVersion").getD .null))),
    ("capabilities", .object [("experimental", .object []),
      ("tools", .object [("listChanged", .bool false)])]),
    ("serverInfo", .object [("name", .text serverName), ("version", .text serverVersion)]),
    ("instructions", .text instructions)]

/-- The methods of the protocol that this server knows of but does not serve. -/
def unservedMethods : List String :=
  ["completion/complete", "logging/setLevel", "prompts/get", "prompts/list", "resources/list",
    "resources/read", "resources/subscribe", "resources/templates/list", "resources/unsubscribe"]

/-- Calls the tool that the parameters of a message name. -/
def callNamed (timeout parameters : Value) : Action σ (Except MessageFault Value) := do
  let arguments := match parameters.get? "arguments" with
    | none | some .null => some (.map [])
    | some (.map es) => some (.map es)
    | some _ => none
  match parameters.get? "name", arguments with
  | some (.text name), some arguments =>
    return .ok (answer (← call o m timeout name arguments))
  | _, _ => return .error .badParameters

/-- Serves a method of the protocol. -/
def serveMethod (timeout : Value) (method : String) (parameters : Value) :
    Action σ (Except MessageFault Value) :=
  match method with
  | "tools/list" => return .ok listing
  | "tools/call" => callNamed o m timeout parameters
  | "ping" => return .ok (.object [])
  | "initialize" => return .ok (greeting parameters)
  | _ =>
    return .error (if unservedMethods.contains method then .unknownMethod else .badParameters)

/-- Serves a message of the protocol. -/
def serveMessage (timeout body : Value) : Action σ Response := do
  match body.get? "method", body.get? "id" with
  | some (.text _), none => return ⟨202, none⟩
  | some (.text method), some id =>
    match ← serveMethod o m timeout method ((body.get? "params").getD .null) with
    | .ok v => return ⟨200, some (message id "result" v)⟩
    | .error f => return ⟨200, some (message id "error" f.value)⟩
  | _, _ => return ⟨400, some (message noId "error" MessageFault.badMessage.value)⟩

/-! ## Requests -/

/-- The path of the health check. -/
def healthPath : String := "/health"

/-- What the health check tells. -/
def health : Value :=
  .object [("status", .text "healthy"), ("server", .text serverName),
    ("version", .text serverVersion)]

/-- An answer that says why there is nothing else. -/
def refusal (status : Nat) (detail : String) : Response :=
  ⟨status, some (.object [("detail", .text detail)])⟩

/-- Answers a request over HTTP. -/
def Service.respond (s : Service) (v : Visit) : Action σ Response := do
  if v.path == healthPath && v.method == "GET" then return ⟨200, some health⟩
  if v.path == s.path then
    match v.method with
    | "POST" => serveMessage o m s.timeout v.body
    | "DELETE" => return ⟨405, some (message noId "error" MessageFault.notStopped.value)⟩
    | _ => return refusal 405 "Method Not Allowed"
  else if v.path == healthPath then return refusal 405 "Method Not Allowed"
  else return refusal 404 "Not Found"

/-- Answers requests in order. The session manager starts with the first of them. -/
def Service.attend (s : Service) (visits : List Visit) : Action σ (List Response) := do
  if visits.isEmpty then return []
  log .info serverLogger "Starting MCP session manager"
  let responses ← visits.mapM fun v => s.respond o m v
  log .info serverLogger "MCP session manager stopped"
  return responses

end DocSearch.Tool
