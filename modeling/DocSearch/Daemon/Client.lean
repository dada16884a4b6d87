import DocSearch.Daemon.Reply
import DocSearch.Address.Url

/-!
# Asking the model daemon

Two things are asked of the daemon: to embed a text, and to answer a prompt, at once or as a stream
of pieces. The token is looked at before a request is sent and whenever something has arrived.
-/

namespace DocSearch.Daemon

open Address Text

/-! ## Requests -/

/-- A request: where it goes and what it holds. -/
structure Request where
  path : String
  url : String
  body : Value

/-- The path of embedding requests. -/
def embedPath : String := "/api/embed"

/-- The path of prompts. -/
def generatePath : String := "/api/generate"

/-- The request for the embedding of a text. -/
def embedRequest (base : Url) (model : Value) (text : String) : Request :=
  ⟨embedPath, (base.below embedPath).text,
    .object [("model", model), ("input", .text text)]⟩

/-- The request for the answer to a prompt. -/
def generateRequest (base : Url) (model : Value) (prompt system : String) (stream : Bool) :
    Request :=
  ⟨generatePath, (base.below generatePath).text,
    .object [("model", model), ("prompt", .text prompt), ("system", .text system),
      ("stream", .bool stream), ("think", .bool false)]⟩

/-! ## Embeddings -/

/-- The vector in the reply to an embedding request: exactly one has to be there. -/
def embedding (trip : Nat → Trip) (o : Outcome) : Except Error (List Float) := do
  let fields ← readObject embedPath trip o
  match Value.lookup "embeddings" fields with
  | some (.list [v]) => (vectorOf v).mapError .notVector
  | some (.list vs) => throw (.embeddingCount vs.length)
  | _ => throw .noEmbeddings

/-! ## Answers to prompts -/

/-- The answer to a prompt, with what the daemon told about it. -/
structure Completion where
  content : String
  model : Value
  tokens : Value
  finish : Value

/-- What is known of a token while a prompt is answered: its state when `i` lines or parts have
arrived and `pieces` have been handed out. -/
abbrev Watch := (i : Nat) → (pieces : List Value) → Trip

/-- The text that pieces make up; each has to be a text. -/
def joinPieces (pieces : List Value) : Except Error String :=
  match pieces.findIdx? fun p => !(p matches .text _) with
  | some i => .error (.notText i ((pieces[i]?).getD .null).typeName)
  | none => .ok (String.join (pieces.map Value.display))

/-- The answer made of pieces and the last object that came. -/
def completion (model : Value) (pieces : List Value) (last : Object) : Except Error Completion := do
  let content ← joinPieces pieces
  return {
    content
    model := (Value.lookup "model" last).getD model
    tokens := (Value.lookup "eval_count" last).getD .null
    finish := (Value.lookup "done_reason" last).getD .null }

/-- The piece of an answer that an object holds. -/
def pieceOf (fields : Object) : Value := (Value.lookup "response" fields).getD (.text "")

/-- Whether an object ends the answer that it belongs to. -/
def isLast (fields : Object) : Bool := ((Value.lookup "done" fields).getD .null).truthy

/-- What comes of an arrival: it may have a piece to hand out, and may be the last one of the answer;
or the stream fails there. -/
inductive Taken where
  | line (piece : Option Value) (last : Option Object)
  | failed (e : Error)

/-- Takes an arrival when the token has the state `trip`. Nothing is looked for in a line if the token
is tripped, and in a blank line there is nothing. -/
def Arrival.take (trip : Trip) : Arrival → Taken
  | .failure f => .failed (f.toError generatePath)
  | .line cs =>
    match trip with
    | some reason => .failed (.cancelled reason)
    | none =>
      if cs.all isBlank then .line none none
      else
        match object (Json.read cs) with
        | .error e => .failed e
        | .ok fields =>
          let piece := pieceOf fields
          .line (if piece.truthy then some piece else none) (if isLast fields then some fields else none)

/-- The pieces on a stream and the object that ends it; the end of the stream counts as an empty
object. Line `i` comes first, and `pieces` have been handed out. -/
def streamPieces (watch : Watch) (i : Nat) (pieces : List Value) :
    List Arrival → List Value × Except Error Object
  | [] => (pieces, .ok [])
  | a :: rest =>
    match a.take (watch i pieces) with
    | .failed e => (pieces, .error e)
    | .line piece (some last) => (pieces ++ piece.toList, .ok last)
    | .line piece none => streamPieces watch (i + 1) (pieces ++ piece.toList) rest

/-- The pieces of a reply that comes at once: a single one. -/
def wholePiece (watch : Watch) (o : Outcome) : List Value × Except Error Object :=
  match readObject generatePath (fun i => watch i []) o with
  | .error e => ([], .error e)
  | .ok fields => ([pieceOf fields], .ok fields)

/-- The pieces of the reply to a prompt and the object that ends it. -/
def replyPieces (stream : Bool) (watch : Watch) (o : Outcome) : List Value × Except Error Object :=
  if stream then
    match accept generatePath o with
    | .error e => ([], .error e)
    | .ok r => streamPieces watch 0 [] r.arrivals
  else wholePiece watch o

/-- The pieces of the reply to a prompt, as they are handed out, and the answer. -/
def generation (model : Value) (stream : Bool) (watch : Watch) (o : Outcome) :
    List Value × Except Error Completion :=
  let (pieces, last) := replyPieces stream watch o
  (pieces, last >>= completion model pieces)

end DocSearch.Daemon
