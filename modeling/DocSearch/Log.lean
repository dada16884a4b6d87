import DocSearch.Text.Trim

/-!
# Log levels and log lines

Messages have a level and the name of the logger that wrote them. The least level that is shown
comes from the command line or the environment.
-/

namespace DocSearch

open Text

/-- The levels of messages. -/
inductive LogLevel where
  | debug
  | info
  | warning
  | error
deriving Repr, DecidableEq

namespace LogLevel

/-- The name of a level. -/
def name : LogLevel → String
  | .debug => "DEBUG"
  | .info => "INFO"
  | .warning => "WARNING"
  | .error => "ERROR"

/-- The rank of a level. -/
def rank : LogLevel → Nat
  | .debug => 10
  | .info => 20
  | .warning => 30
  | .error => 40

end LogLevel

/-- A message of a logger. -/
structure LogLine where
  level : LogLevel
  logger : String
  message : String
deriving Repr, DecidableEq

/-- The variable that sets the least level that is shown. -/
def logLevelVariable : String := "GODOC_RAG_LOG_LEVEL"

/-- The ranks that can be asked for by name. -/
def levelNames : List (String × Nat) :=
  [("CRITICAL", 50), ("FATAL", 50), ("ERROR", 40), ("WARN", 30), ("WARNING", 30), ("INFO", 20),
    ("DEBUG", 10), ("NOTSET", 0)]

/-- The capital of a letter where that is an ASCII letter: besides the ASCII letters the dotless `ı`
and the long `ſ` have one. -/
def asciiCapital (c : Char) : Char :=
  if 'a' ≤ c && c ≤ 'z' then Char.ofNat (c.toNat - 32)
  else if c == 'ı' then 'I'
  else if c == 'ſ' then 'S'
  else c

/-- The least rank that is shown: the debug rank if asked for, else the one named in the
environment, else the info rank. -/
def shownRank (verbose : Bool) (setting : Option String) : Nat :=
  if verbose then 10
  else
    let name := String.ofList ((trim (setting.getD "")).toList.map asciiCapital)
    (levelNames.lookup name).getD 20

end DocSearch
