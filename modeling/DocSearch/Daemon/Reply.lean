import DocSearch.Json.Bytes
import DocSearch.Text.Charset
import DocSearch.Text.Lines
import DocSearch.Embedding.Vector
import DocSearch.Cancel

/-!
# Replies of the model daemon

A reply has a status and a body that arrives in parts; it may break off. A body is one JSON object,
or a stream of lines with one object each. A reply of the status 400 or above is a refusal, whose
reason is looked for in its body.
-/

namespace DocSearch.Daemon

open Text

/-- Why no reply comes, or why it breaks off: the connection fails, or something else does. -/
inductive Failure where
  | connection (message : String)
  | other (name message : String)
deriving Repr, DecidableEq

/-- A reply: its body comes in parts and may end in a failure. -/
structure Reply where
  status : Nat := 200
  charset : Charset := .utf8
  parts : List Bytes := []
  failure : Option Failure := none
deriving Repr, DecidableEq

/-- What comes of sending a request. -/
inductive Outcome where
  | failed (f : Failure)
  | replied (r : Reply)
deriving Repr, DecidableEq

/-- Why a request to the daemon brings nothing. -/
inductive Error where
  | cancelled (reason : String)
  | closed
  | failed (path message : String)
  | refused (path : String) (status : Nat) (reason : String)
  | malformed (cause : Json.Error)
  | unexpected (shown : String)
  | reported (text : String)
  | noEmbeddings
  | embeddingCount (n : Nat)
  | notVector (cause : ConversionError)
  | notText (index : Nat) (type : String)
  | other (name message : String)
deriving Repr, DecidableEq

/-- The error text. -/
def Error.message : Error → String
  | .cancelled reason => reason
  | .closed => "Cannot send a request, as the client has been closed."
  | .failed path message => s!"ollama request {path} failed: {message}"
  | .refused path status reason => s!"ollama {path} returned {status}: {reason}"
  | .malformed cause => s!"malformed response from ollama: {cause.message}"
  | .unexpected shown => s!"unexpected response from ollama: {shown}"
  | .reported text => s!"ollama error: {text}"
  | .noEmbeddings => "ollama response has no embeddings"
  | .embeddingCount n => s!"unexpected number of embeddings returned: {n}"
  | .notVector cause => cause.message
  | .notText index type => s!"sequence item {index}: expected str instance, {type} found"
  | .other _ message => message

/-- The error that a failure is for a request to `path`. -/
def Failure.toError (path : String) : Failure → Error
  | .connection message => .failed path message
  | .other name message => .other name message

/-! ## Refusals -/

/-- The standard phrases of refusals. -/
def phrases : List (Nat × String) :=
  [(400, "Bad Request"), (401, "Unauthorized"), (402, "Payment Required"), (403, "Forbidden"),
    (404, "Not Found"), (405, "Method Not Allowed"), (406, "Not Acceptable"),
    (407, "Proxy Authentication Required"), (408, "Request Timeout"), (409, "Conflict"),
    (410, "Gone"), (411, "Length Required"), (412, "Precondition Failed"),
    (413, "Request Entity Too Large"), (414, "Request-URI Too Long"),
    (415, "Unsupported Media Type"), (416, "Requested Range Not Satisfiable"),
    (417, "Expectation Failed"), (418, "I'm a teapot"), (421, "Misdirected Request"),
    (422, "Unprocessable Entity"), (423, "Locked"), (424, "Failed Dependency"), (425, "Too Early"),
    (426, "Upgrade Required"), (428, "Precondition Required"), (429, "Too Many Requests"),
    (431, "Request Header Fields Too Large"), (451, "Unavailable For Legal Reasons"),
    (500, "Internal Server Error"), (501, "Not Implemented"), (502, "Bad Gateway"),
    (503, "Service Unavailable"), (504, "Gateway Timeout"), (505, "HTTP Version Not Supported"),
    (506, "Variant Also Negotiates"), (507, "Insufficient Storage"), (508, "Loop Detected"),
    (510, "Not Extended"), (511, "Network Authentication Required")]

namespace Reply

/-- Whether the daemon refused the request. -/
def isRefusal (r : Reply) : Bool := 400 ≤ r.status && r.status ≤ 599

/-- The whole body. -/
def body (r : Reply) : Bytes := r.parts.flatten

/-- The reason of a refusal: the field `error` of the body, or the text of the body. A body that is
neither JSON nor text has the standard phrase. -/
def reason (r : Reply) : String :=
  let text := trim (String.ofList (r.charset.decode true r.body))
  match Json.readBytes r.body with
  | .error _ => if text.isEmpty then (phrases.lookup r.status).getD "" else text
  | .ok v =>
    match v.get? "error" with
    | some e => e.display
    | none => text

end Reply

/-! ## Bodies -/

/-- The fields of an object that the daemon sent. -/
abbrev Object := List (Value × Value)

/-- The fields of an answer that was read; one with an `error` is none. -/
def object (read : Except Json.Error Value) : Except Error Object :=
  match read with
  | .error e => .error (.malformed e)
  | .ok (.map fields) =>
    match Value.lookup "error" fields with
    | some e => .error (.reported e.display)
    | none => .ok fields
  | .ok v => .error (.unexpected v.shown)

/-- Reads a body in parts; before each part is taken, and at the end, the token is looked at. -/
def readParts (path : String) (trip : Nat → Trip) (failure : Option Failure) (i : Nat)
    (acc : Bytes) : List Bytes → Except Error Bytes
  | [] =>
    match failure with
    | some f => .error (f.toError path)
    | none =>
      match trip i with
      | some reason => .error (.cancelled reason)
      | none => .ok acc
  | p :: ps =>
    if p.isEmpty then readParts path trip failure i acc ps
    else
      match trip i with
      | some reason => .error (.cancelled reason)
      | none => readParts path trip failure (i + 1) (acc ++ p) ps

/-- The reply to a request, if one came that is no refusal. The body of a refusal may break off. -/
def accept (path : String) : Outcome → Except Error Reply
  | .failed f => .error (f.toError path)
  | .replied r =>
    if r.isRefusal then
      match r.failure with
      | some f => .error (f.toError path)
      | none => .error (.refused path r.status r.reason)
    else .ok r

/-- The object that a reply holds. The token is looked at `trip i` before part `i`. -/
def readObject (path : String) (trip : Nat → Trip) (o : Outcome) : Except Error Object := do
  let r ← accept path o
  let bytes ← readParts path trip r.failure 0 [] r.parts
  object (Json.readBytes bytes)

/-! ## Streams -/

/-- What arrives on a stream: a line, or a failure that ends it. -/
inductive Arrival where
  | line (cs : List Char)
  | failure (f : Failure)
deriving Repr, DecidableEq

/-- The lines of a body in parts. `before` are the bytes that came already, and `shown` is how many
characters of their text were taken. -/
def arrivalsFrom (charset : Charset) (failure : Option Failure) (before : Bytes) (shown : Nat)
    (buffer : LineBuffer) : List Bytes → List Arrival
  | [] =>
    match failure with
    | some f => [.failure f]
    | none =>
      let rest := (charset.decode true before).drop shown
      let (lines, buffer) := if rest.isEmpty then ([], buffer) else buffer.feed rest
      (lines ++ buffer.flush).map .line
  | p :: ps =>
    let bytes := before ++ p
    let text := charset.decode false bytes
    let part := text.drop shown
    let (lines, buffer) := if part.isEmpty then ([], buffer) else buffer.feed part
    lines.map .line ++ arrivalsFrom charset failure bytes text.length buffer ps

/-- What arrives on the stream of a reply. -/
def Reply.arrivals (r : Reply) : List Arrival := arrivalsFrom r.charset r.failure [] 0 {} r.parts

end DocSearch.Daemon
