import DocSearch.Action
import DocSearch.Prompt.Context
import DocSearch.Address.Host

/-!
# Asking the daemon as an action

A request is sent only while the token is not tripped, and leaves a deed. A run with several workers
gives its tasks a trip of its own, which counts like that of the token.
-/

namespace DocSearch.Daemon

open DocSearch.Action

variable {σ : Type} (o : Outside σ)

/-- The models that a program asks, and the address of the daemon that runs them. -/
structure Models where
  base : Address.Url
  embedding : Value
  query : Value

/-- Sends a request to the daemon, unless the token is tripped. -/
def ask (stopped : Trip) (r : Request) : Action σ Heard := do
  match stopped with
  | some reason => throw (.cancelled reason)
  | none =>
    checkToken o
    leave (.asked r)
    outside (o.ask r)

/-- The embedding of a text. -/
def embed (m : Models) (stopped : Trip) (text : String) : Action σ (List Float) := do
  let heard ← ask o stopped (embedRequest m.base m.embedding text)
  ofExcept .ofDaemon (embedding (fun i => heard.watch i []) heard.outcome)

/-- The answer to a prompt; its pieces are handed out as they come. -/
def generate (m : Models) (prompt : String) (stream : Bool) : Action σ Completion := do
  let heard ← ask o none (generateRequest m.base m.query prompt Prompt.systemPrompt stream)
  let (pieces, last) := replyPieces stream heard.watch heard.outcome
  for piece in pieces do leave (.answered piece)
  let last ← ofExcept .ofDaemon last
  log .debug Address.daemonLogger s!"Generated {pieces.length} pieces with {m.query.display}"
  ofExcept .ofDaemon (completion m.query pieces last)

end DocSearch.Daemon
