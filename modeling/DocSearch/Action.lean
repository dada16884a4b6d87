import DocSearch.RunError
import DocSearch.Store.Database
import DocSearch.Daemon.Client
import DocSearch.Log

/-!
# Actions

An action is a step of the program that may fail. It changes the program's own state and the world
outside, and it leaves a trace of deeds: whatever can be seen of it from outside, in order. A failed
action leaves its trace as well.
-/

namespace DocSearch

open Store (Statement Reaction Rows PoolPlan)

/-- Something the program did. -/
inductive Deed where
  | poolMade (plan : PoolPlan)
  | poolOpened
  | poolClosed
  | lent
  | returned
  | cursorClosed
  | executed (s : Statement)
  | asked (r : Daemon.Request)
  | logged (l : LogLine)
  | prompted (prompt : String)
  | answered (piece : Value)
  | sourceClosed
  | printed (text : String)
  | served (host : String) (port : Int)
  | replied (status : Nat) (body : Option Value)

/-- What a request to the daemon brings: its outcome, and the state of the token while the reply is
read. -/
structure Heard where
  outcome : Daemon.Outcome
  watch : Daemon.Watch

/-- The world outside with states of type `σ`: a database, the model daemon, whoever may trip the
token, and a clock in seconds. Looking at the token may itself take time. -/
structure Outside (σ : Type) extends Store.Database σ where
  ask : Daemon.Request → σ → Heard × σ
  look : σ → Trip × σ
  clock : σ → Float × σ

/-- The state of the program: the world outside, whether the pool is open, and the trace. -/
structure Program (σ : Type) where
  outside : σ
  isOpen : Bool
  trace : List Deed

/-- A step of the program that may fail. -/
abbrev Action (σ : Type) := ExceptT RunError (StateM (Program σ))

namespace Action

variable {σ : Type}

/-- Leaves a deed in the trace. -/
def leave (d : Deed) : Action σ Unit := modify fun p => { p with trace := p.trace ++ [d] }

/-- Writes a message to the log. -/
def log (level : LogLevel) (logger message : String) : Action σ Unit :=
  leave (.logged ⟨level, logger, message⟩)

/-- Lets the world outside do something. -/
def outside (f : σ → α × σ) : Action σ α :=
  modifyGet fun p => ((f p.outside).1, { p with outside := (f p.outside).2 })

/-- Fails with `e` if there is one. -/
def ofExcept (wrap : ε → RunError) : Except ε α → Action σ α
  | .ok a => pure a
  | .error e => throw (wrap e)

/-- Fails if the token is tripped. -/
def checkToken (o : Outside σ) : Action σ Unit := do
  match ← outside o.look with
  | some reason => throw (.cancelled reason)
  | none => pure ()

/-- Performs an action and, whether it fails or not, another one behind it. -/
def always (a : Action σ α) (behind : Action σ Unit) : Action σ α := do
  let r ← tryCatch (Except.ok <$> a) fun e => pure (Except.error e)
  behind
  ofExcept id r

/-- The outcome of an action from a state, and the state behind it. -/
def perform (a : Action σ α) (p : Program σ) : Except RunError α × Program σ := a.run.run p

end Action

end DocSearch
