import DocSearch.Search.Results
import DocSearch.Store.Access
import DocSearch.Daemon.Ask

/-!
# Retrieval

A query is embedded and the chunks nearest to it are looked up. Either all of them are returned in
order of distance or the retrieval fails; the connection is given back in both cases. A prompt is
answered from a complete retrieval only.

Whoever embeds queries and answers prompts is a `Client`; the program itself is one of the model
daemon.
-/

namespace DocSearch.Search

open Store DocSearch.Action Text

variable {σ : Type} (o : Outside σ) (m : Daemon.Models)

/-- The logger of retrievals. -/
def searchLogger : String := "godoc_rag.rag.retriever"

/-- Who embeds queries, and answers prompts with the model `model`. -/
structure Client (σ : Type) where
  embed : (text : String) → Action σ (List Float)
  generate : (prompt : String) → (stream : Bool) → Action σ Daemon.Completion
  model : Value

/-- The client of the model daemon. -/
def daemonClient : Client σ := ⟨Daemon.embed o m none, Daemon.generate o m, m.query⟩

/-! ## Searching -/

/-- Starts a client's search for the chunks nearest to a query. -/
def Client.search (c : Client σ) (query : String) (limit : Value) : Action σ Results := do
  let vector ← c.embed query
  let cursor ← nearest o (.list (vector.map .float)) limit
  let shown := limit.countText?.getD limit.display
  log .debug searchLogger s!"Searching {shown} nearest chunks for {quoted query}"
  return .ofCursor cursor

/-- Starts a search for the chunks nearest to a query. -/
def search (query : String) (limit : Value) : Action σ Results :=
  (daemonClient o m).search o query limit

/-- Hands out the next result. -/
def fetch (r : Results) : Action σ (Results × Fetched) := do
  let trip ← outside o.look
  let (r, fetched, deeds) := r.next trip
  for d in deeds do leave d
  return (r, fetched)

/-- Ends results. -/
def finish (r : Results) : Action σ Unit := do
  for d in r.finish.2 do leave d

/-- Hands out the results up to their end, `fuel` of them at most, with the error that is left. -/
def drain : (fuel : Nat) → Results → List Record → Action σ (List Record × Option RunError)
  | 0, r, records => do
    finish r
    return (records, r.error)
  | fuel + 1, r, records => do
    match ← fetch o r with
    | (r, .record record) => drain fuel r (records ++ [record])
    | (r, .stop) => return (records, r.error)
    | (r, .failed e) =>
      finish r
      return (records, some e)

/-- The records nearest to a client's query, in order. -/
def Client.retrieve (c : Client σ) (query : String) (limit : Value) : Action σ (List Record) := do
  let results ← c.search o query limit
  match ← drain o (results.cursor.rows.length + 1) results [] with
  | (_, some e) => throw e
  | (records, none) => return records

/-- The records nearest to a query, in order. -/
def retrieve (query : String) (limit : Value) : Action σ (List Record) :=
  (daemonClient o m).retrieve o query limit

/-- The answer to a client's query from the records nearest to it. -/
def Client.prompt (c : Client σ) (query : String) (limit : Value) (stream : Bool) :
    Action σ Daemon.Completion := do
  let records ← c.retrieve o query limit
  let prompt := Prompt.prompt query (Prompt.context records)
  log .debug searchLogger
    s!"Prompting {c.model.display} with {records.length} context records"
  leave (.prompted prompt)
  c.generate prompt stream

/-- The answer to a query from the records nearest to it. -/
def prompt (query : String) (limit : Value) (stream : Bool) : Action σ Daemon.Completion :=
  (daemonClient o m).prompt o query limit stream

end DocSearch.Search
