import DocSearch.Command.Run
import DocSearch.Trial.World

/-!
# The command line

The program on a command line of its own. It runs in a trial world: the tables are in memory and end
with the run, and the daemon counts letters. The sources that are indexed are the files whose paths
stand on the lines of the standard input.
-/

namespace DocSearch.Main

open Files

/-- The variables of the environment that are read whatever the settings say. -/
def knownNames : List String :=
  ["GODOC_RAG_DB", "GODOC_RAG_CONFIG", "ADDR", "OLLAMA_HOST", logLevelVariable]

/-- The variables that a text refers to. -/
def namesIn (cs : List Char) : List String :=
  (Settings.pieces cs).filterMap fun
    | .reference name _ => some (String.ofList name)
    | .char _ => none

/-- The values of those variables that are set. -/
def readVariables (names : List String) : IO Settings.Environment := do
  let values ← names.mapM fun n => do return (n, ← IO.getEnv n)
  return values.filterMap fun (n, v) => v.map fun v => (n, v)

/-- The content of a file, if it can be read. -/
def readContent (path : String) : IO (Option Text.Bytes) := do
  try
    return some (← IO.FS.readBinFile path).toList
  catch _ => return none

/-- The lines of a stream. -/
partial def readLines (input : IO.FS.Stream) (lines : List String) : IO (List String) := do
  let line ← input.getLine
  if line.isEmpty then return lines
  readLines input (lines ++ [Text.trim line])

/-- A tree with the files at `paths` that can be read. -/
def readTree (paths : List String) : IO Entry :=
  paths.foldlM (fun top path => do
    match ← readContent path with
    | some content => return top.put (namesOf path) (.file content)
    | none => return top) (.folder [])

/-- The path of the settings file that a call names. -/
def settingsPath? (c : Command.Call) : Option String :=
  match c.ops.get "config" with
  | .text path => some path
  | _ => none

/-- The variables that the settings file of a call refers to. -/
def settingsNames (c : Command.Call) : IO (List String) := do
  match settingsPath? c with
  | some path => return namesIn (Text.Utf8.decodeLossy ((← readContent path).getD []))
  | none => return []

/-- The paths of the files that a call needs. -/
def neededPaths (c : Command.Call) : IO (List String) := do
  let sources ← if c.verb = .embed then readLines (← IO.getStdin) [] else pure []
  return (settingsPath? c).toList ++ sources

/-- What a call finds. A command line that makes no call needs nothing. -/
def surroundings (words : List String) : IO Command.Surroundings := do
  let env ← readVariables knownNames
  let bare : Command.Surroundings := ⟨env, ⟨.folder [], [], []⟩, []⟩
  match Command.Call.ofWords bare words with
  | .error _ => return bare
  | .ok c =>
    let more ← readVariables (← settingsNames c)
    let top ← readTree (← neededPaths c)
    return ⟨env ++ more, ⟨top, [], []⟩, []⟩

/-- The world of the command line: an embedding counts the letters of a text. -/
def world : Trial.World where
  tables := .empty
  words := "abcdefghijklmnopqrstuvwxyz".toList.map String.singleton
  answer := ["There is no model in a trial world."]
  tick := 0

end DocSearch.Main

open DocSearch in
/-- Runs the program with the words of a command line. -/
def main (words : List String) : IO UInt32 := do
  let found ← Main.surroundings words
  let (outcome, _) :=
    Command.run Trial.outside found "--:--:--" words ⟨Main.world, false, []⟩
  IO.print outcome.output
  IO.eprint outcome.report
  match outcome.ending with
  | .crashed cause => IO.eprintln cause.message
  | _ => pure ()
  return outcome.ending.code.toUInt32
