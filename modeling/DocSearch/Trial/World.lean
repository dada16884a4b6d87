import DocSearch.Trial.Words
import DocSearch.Store.Tables
import DocSearch.Json.Printer
import DocSearch.Action

/-!
# Trial worlds

A world for trying the program out: tables for a database, a daemon that counts words and gives the
same answer to every prompt, a clock that goes on by a fixed amount whenever it is read, and faults
that can be put in at any place.
-/

namespace DocSearch.Trial

open Store Text Daemon

/-- Where the database can fail. -/
inductive Site where
  | connect
  | lend
  | upsertChunk
  | upsertVector
  | nearest
  | prune
deriving Repr, DecidableEq

/-- The place in the database that a statement reaches. -/
def Site.of : Statement → Option Site
  | .upsertChunk _ => some .upsertChunk
  | .upsertVector _ _ => some .upsertVector
  | .nearest _ _ => some .nearest
  | .prune _ _ _ => some .prune
  | _ => none

/-- What the daemon replies instead to a request whose text begins with `opening`. -/
structure FalseReply where
  opening : String
  status : Nat
  body : String

/-- The faults of a world: messages of the database by place, the row behind which fetching fails,
false replies by path, and the request during which the token is tripped. -/
structure Faults where
  messages : List (Site × String) := []
  fetchAfter : Option Nat := none
  replies : List (String × FalseReply) := []
  interruptAt : Option Nat := none

/-- A trial world. -/
structure World where
  tables : SerialTables
  words : List String
  answer : List String
  tick : Float
  faults : Faults := {}
  now : Float := 0
  trip : Trip := none
  requests : Nat := 0
  tripOnPiece : Option Nat := none

/-- The reason of an interruption. -/
def interrupted : Option String := some "interrupted"

/-- What fetching behind the last row says. -/
def connectionLost : String := "server closed the connection unexpectedly"

/-- The rows up to a failure behind the first `n`, if there are as many. -/
def breakAfter (n : Option Nat) (r : Rows) : Rows :=
  match n with
  | some n =>
    if n ≤ r.rows.length then { r with rows := r.rows.take n, failure := some connectionLost } else r
  | none => r

/-! ## The daemon -/

/-- A reply with a JSON document. -/
def jsonReply (v : Value) : Reply := { parts := [Utf8.encode (Json.compact v)] }

/-- A text field of a request. -/
def requestText (r : Request) (field : String) : String :=
  match r.body.get? field with
  | some (.text s) => s
  | _ => ""

/-- The reply to a request for an embedding. -/
def embeddingReply (w : World) (r : Request) : Reply :=
  jsonReply (.object [("embeddings",
    .list [.list ((wordCounts w.words (requestText r "input")).map fun (n : Nat) => .int n)])])

/-- A piece of an answer. -/
def pieceFields (r : Request) (piece : String) (done : Bool) : List (String × Value) :=
  [("model", (r.body.get? "model").getD .null), ("response", .text piece), ("done", .bool done)]

/-- The end of an answer. -/
def lastFields (r : Request) (piece : String) : List (String × Value) :=
  pieceFields r piece true ++ [("done_reason", .text "stop"), ("eval_count", .int 5)]

/-- The reply to a prompt: all at once, or a line for each piece and one for the end. -/
def answerReply (w : World) (r : Request) : Reply :=
  match r.body.get? "stream" with
  | some (.bool true) =>
    let lines := w.answer.map (fun piece => Value.object (pieceFields r piece false)) ++
      [.object (lastFields r "")]
    { parts := lines.map fun v => Utf8.encode (Json.compact v ++ "\n") }
  | _ => jsonReply (.object (lastFields r (String.join w.answer)))

/-- The reply to a request. -/
def reply (w : World) (r : Request) : Reply :=
  let text := requestText r (if r.path == embedPath then "input" else "prompt")
  match w.faults.replies.lookup r.path with
  | some f =>
    if text.startsWith f.opening then { status := f.status, parts := [Utf8.encode f.body] }
    else if r.path == embedPath then embeddingReply w r else answerReply w r
  | none => if r.path == embedPath then embeddingReply w r else answerReply w r

/-- The state of the token when `pieces` have been handed out. -/
def pieceWatch (w : World) : Watch := fun _ pieces =>
  match w.tripOnPiece with
  | some n => if 0 < n && n ≤ pieces.length then w.trip.cancel interrupted else w.trip
  | none => w.trip

/-! ## The world -/

/-- A trial world as a world outside. -/
def outside : Outside World where
  connect w := (w.faults.messages.lookup .connect, w)
  lend w := (w.faults.messages.lookup .lend, w)
  execute s w :=
    match (Site.of s).bind fun site => w.faults.messages.lookup site with
    | some message => (.failed message, w)
    | none =>
      let (reaction, tables) := w.tables.execute s
      let reaction : Reaction := match s, reaction with
        | .nearest _ _, .brought r => .brought (breakAfter w.faults.fetchAfter r)
        | _, reaction => reaction
      (reaction, { w with tables })
  ask r w :=
    let requests := w.requests + 1
    let trip := if w.faults.interruptAt = some requests then w.trip.cancel interrupted else w.trip
    let w := { w with requests, trip }
    (⟨.replied (reply w r), pieceWatch w⟩, w)
  look w := (w.trip, w)
  clock w := (w.now + w.tick, { w with now := w.now + w.tick })

end DocSearch.Trial
