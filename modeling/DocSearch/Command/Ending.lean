import DocSearch.Command.Help
import DocSearch.Settings.Load
import DocSearch.Address.Url
import DocSearch.Action

/-!
# How a run of the program ends

A run ends well, with help, with a misuse that is reported, with a failure that is reported, because
it is cancelled, or with a crash: a failure that nobody expected and that is not turned into a
report.
-/

namespace DocSearch.Command

open Text

/-- A failure that is not reported. -/
inductive Crash where
  | run (cause : RunError)
  | settings (cause : Settings.LoadError)
  | address (cause : Address.UrlError)
  | notIterable (type : String)
  | notKey (type : String)
  | notOrdered (type : String)
  | noMethod (type method : String)
  | badRoute

/-- The error text. -/
def Crash.message : Crash → String
  | .run cause => cause.message
  | .settings cause => cause.message
  | .address cause => cause.message
  | .notIterable type => s!"{quoted type} object is not iterable"
  | .notKey type => s!"unhashable type: {quoted type}"
  | .notOrdered type => s!"\x27>\x27 not supported between instances of {quoted type} and \x27int\x27"
  | .noMethod type method => s!"{quoted type} object has no attribute {quoted method}"
  | .badRoute => "Routed paths must start with \x27/\x27"

/-- How a run ends. -/
inductive Ending where
  | done
  | told (text : String)
  | helped (text : String)
  | misused (f : Interface) (m : Misuse)
  | failed (message : String)
  | cancelled
  | crashed (cause : Crash)

namespace Ending

/-- The exit code of a cancelled run. -/
def cancelledCode : Nat := 130

/-- The exit code. -/
def code : Ending → Nat
  | .done | .told _ => 0
  | .helped _ | .misused _ _ => 2
  | .failed _ | .crashed _ => 1
  | .cancelled => cancelledCode

/-- What is printed at the end. -/
def output : Ending → String
  | .told text => text ++ "\n"
  | _ => ""

/-- What is reported at the end. -/
def report : Ending → String
  | .helped text => text ++ "\n"
  | .misused f m => m.report f
  | .failed message => s!"Error: {message}\n"
  | .cancelled => "Cancelled\n"
  | _ => ""

end Ending

/-! ## Which failures are reported -/

/-- Whether a numeral or another value that cannot be an integer is the user's fault. -/
def isIntegerReported : IntegerError → Bool
  | .notNumber _ | .infinite => false
  | _ => true

/-- Whether a vector that cannot be read is the user's fault. -/
def isVectorReported : ConversionError → Bool
  | .malformed _ | .malformedBytes _ => true
  | _ => false

/-- Whether a failure of the store is reported. -/
def isStoreReported : Store.Error → Bool
  | .notOpen | .noRow | .notTypeName _ | .notCount _ | .notRecord _ | .emptyRow => false
  | .notInteger e => isIntegerReported e
  | .notVector e => isVectorReported e
  | _ => true

/-- Whether a failure of the daemon is reported. -/
def isDaemonReported : Daemon.Error → Bool
  | .closed | .notText _ _ | .other _ _ => false
  | .notVector e => isVectorReported e
  | _ => true

/-- How a run ends that fails. -/
def Ending.ofError : RunError → Ending
  | .cancelled _ => .cancelled
  | .store e => if isStoreReported e then .failed e.message else .crashed (.run (.store e))
  | .daemon e => if isDaemonReported e then .failed e.message else .crashed (.run (.daemon e))
  | .unwalked path e => .failed (RunError.unwalked path e).message

/-- Whether settings that cannot be used are reported. -/
def isSettingsReported : Settings.LoadError → Bool
  | .endless => false
  | .unformed .tooLarge | .unformed .hugeCodePoint | .unformed .emptyNumeral | .unformed .notTime
  | .unformed (.unknownTruth _) => false
  | _ => true

/-- How a run ends whose settings cannot be used. -/
def Ending.ofSettings (e : Settings.LoadError) : Ending :=
  if isSettingsReported e then .failed s!"Configuration error: {e.message}"
  else .crashed (.settings e)

end DocSearch.Command
