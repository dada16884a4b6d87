import DocSearch.Store.Error
import DocSearch.Daemon.Reply
import DocSearch.Doc.Walk

/-!
# Why an action fails

An action of the program fails in its store, in the model daemon or in the walk through the sources,
or because it is cancelled.
-/

namespace DocSearch

/-- Why an action fails. -/
inductive RunError where
  | cancelled (reason : String)
  | store (cause : Store.Error)
  | daemon (cause : Daemon.Error)
  | unwalked (path : String) (cause : Files.PathError)
deriving Repr, DecidableEq

namespace RunError

/-- The error text. -/
def message : RunError → String
  | .cancelled reason => reason
  | .store cause => cause.message
  | .daemon cause => cause.message
  | .unwalked path cause => (Doc.WalkError.unlisted path cause).message

/-- The failure of a request to the daemon. -/
def ofDaemon : Daemon.Error → RunError
  | .cancelled reason => .cancelled reason
  | e => .daemon e

/-- The failure of a walk. -/
def ofWalk : Doc.WalkError → RunError
  | .cancelled reason => .cancelled reason
  | .unlisted path cause => .unwalked path cause

end RunError

end DocSearch
