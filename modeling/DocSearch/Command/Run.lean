import DocSearch.Command.Ending
import DocSearch.Command.Parse
import DocSearch.Command.Program
import DocSearch.Index.Run
import DocSearch.Tool.Service
import DocSearch.Address.Listen

/-!
# Running the program

A command line names a command; the settings come from a file with the command line over it. The
store is opened when a command needs it and closed when the program ends, however it ends.
-/

namespace DocSearch.Command

open DocSearch.Action Text Files

variable {σ : Type} (o : Outside σ)

/-- What a run finds: the environment, the disk, and the requests that come while the tool server is
running. -/
structure Surroundings where
  env : Settings.Environment
  disk : Disk
  visits : List Tool.Visit

/-- A part of a run, which may end it. -/
abbrev Job (σ : Type) := ExceptT Ending (StateM (Program σ))

namespace Job

/-- Performs an action; its failure ends the run. -/
def act (a : Action σ α) : Job σ α := do
  match (a.perform (← get)) with
  | (.ok v, p) =>
    set p
    return v
  | (.error e, p) =>
    set p
    throw (.ofError e)

/-- Ends the run with `e` if there is one. -/
def ofExcept (ending : ε → Ending) : Except ε α → Job σ α
  | .ok a => return a
  | .error e => throw (ending e)

/-- Prints a text. -/
def print (text : String) : Job σ Unit := act (leave (.printed text))

end Job

/-- Performs an action and prints what `shown` gives for its deeds, each behind its deed. -/
def echoing (shown : Deed → Option String) (a : Action σ α) : Action σ α := do
  let before := (← get).trace.length
  let r ← tryCatch (Except.ok <$> a) fun e => return Except.error e
  modify fun p => { p with
    trace := p.trace.take before ++
      (p.trace.drop before).flatMap fun d => d :: ((shown d).map Deed.printed).toList }
  Action.ofExcept id r

/-! ## Settings -/

/-- The settings for the switches of the program. -/
def settingsFor (sur : Surroundings) (ops : Operands) : Except Ending Settings := do
  let path := match ops.get "config" with
    | .text path => some path
    | _ => none
  let settings ← (Settings.load sur.env sur.disk path).mapError .ofSettings
  let overrides : List (String × Value) :=
    [("database", .object [("url", ops.get "db")]),
      ("models", .object [("embedding_model", ops.get "embedding-model"),
        ("query_model", ops.get "query-model")])]
  (settings.override overrides).mapError fun e => .failed e.message

/-- The first of two values, or the second one if the first counts as false. -/
def orElse (given setting : Value) : Value := if given.truthy then given else setting

/-- The names of folders that a setting excludes. -/
def excluded : Value → Except Crash (List String)
  | .text s => .ok (s.toList.map String.singleton)
  | .bytes _ => .ok []
  | .list vs | .set vs => textsOf vs
  | .pair a b => textsOf [a, b]
  | .map es => textsOf (es.map (·.1))
  | v => .error (.notIterable v.typeName)
where
  /-- The texts among values, all of which may be keys. -/
  textsOf (vs : List Value) : Except Crash (List String) :=
    match vs.findSome? Value.notKey? with
    | some v => .error (.notKey v.typeName)
    | none =>
      .ok (vs.filterMap fun
        | .text s => some s
        | _ => none)

/-- The number of workers that a setting asks for: one at least. -/
def crewSize : Value → Except Crash Nat
  | .bool _ => .ok 1
  | .int n => .ok (max 1 n.toNat)
  | .float f => .ok (if 1 < f then f.ceil.toUInt64.toNat else 1)
  | v => .error (.notOrdered v.typeName)

/-! ## Resources -/

/-- Opens the store. -/
def openStore (s : Settings) : Job σ Unit :=
  .act (Store.openPool o
    ⟨s.get .database "url", s.get .database "min_pool_size", s.get .database "max_pool_size"⟩)

/-- The models that the settings name, at the address of the daemon. -/
def findModels (sur : Surroundings) (s : Settings) : Job σ Daemon.Models := do
  let host ← match s.get .models "ollama_host" with
    | .null => pure none
    | .text host => pure (some host)
    | v => throw (.crashed (.noMethod v.typeName "strip"))
  let resolved ← Job.ofExcept (fun e => .failed e.message)
    (Address.resolveOr host (sur.env.lookup "OLLAMA_HOST"))
  for l in resolved.warnings do .act (leave (.logged l))
  let base ← Job.ofExcept (fun e => .crashed (.address e)) (Address.Url.ofText resolved.url)
  return ⟨base, s.get .models "embedding_model", s.get .models "query_model"⟩

/-! ## Commands -/

/-- Indexes the documentation below a directory. -/
def runEmbed (sur : Surroundings) (s : Settings) (ops : Operands) : Job σ Unit := do
  let exclude ← Job.ofExcept .crashed (excluded (s.get .index "exclude_dirs"))
  let walk := Doc.Walk.start (ops.get "dir").display exclude
  openStore o s
  let m ← findModels sur s
  let workers ← Job.ofExcept .crashed
    (crewSize (orElse (ops.get "workers") (s.get .index "workers")))
  let prune := (orElse (ops.get "prune") (s.get .index "prune")).truthy
  let stats ← Job.act (Index.run o (fun stopped t => Daemon.embed o m stopped t) sur.disk workers
    (.walking walk) (if prune then some walk.root else none))
  Job.print s!"✓ Embedded {stats.chunks} chunks in {Number.fixedText 2 stats.elapsed}s\n"
  if stats.pruned != 0 then Job.print s!"  Pruned: {stats.pruned}\n"

/-- What the answer to a prompt shows: the prompt, and the pieces of the answer, each on a line of
its own unless they are streamed. -/
def promptShown (streaming : Bool) : Deed → Option String
  | .prompted prompt => some (prompt ++ "\n")
  | .answered piece => some (piece.display ++ if streaming then "" else "\n")
  | _ => none

/-- Answers a prompt. -/
def runPrompt (sur : Surroundings) (s : Settings) (ops : Operands) : Job σ Unit := do
  let streaming := (orElse (ops.get "stream") (s.get .retrieval "stream")).truthy
  openStore o s
  let m ← findModels sur s
  let limit := orElse (ops.get "limit") (s.get .retrieval "limit")
  discard (Job.act (echoing (promptShown streaming)
    (Search.prompt o m (ops.get "prompt").display limit streaming)))
  if streaming then Job.print "\n"

/-- The text of a setting that has to be one, because `method` is asked of it. -/
def textFor (method : String) : Value → Except Crash String
  | .text s => .ok s
  | v => .error (.noMethod v.typeName method)

/-- Serves the search tool until it is interrupted. -/
def runServer (sur : Surroundings) (s : Settings) (ops : Operands) : Job σ Unit := do
  openStore o s
  let m ← findModels sur s
  let address ← Job.ofExcept .crashed
    (textFor "rpartition" (orElse (ops.get "addr") (s.get .server "addr")))
  let (host, port) ← Job.ofExcept (fun e => .failed e.message) (Address.parseListen address)
  let path := s.get .server "path"
  Job.act (log .info Tool.serverLogger
    s!"MCP server listening on {host}:{port}{path.display}")
  let path ← Job.ofExcept .crashed (textFor "startswith" path)
  if !path.startsWith "/" then throw (.crashed .badRoute)
  Job.act (leave (.served host port))
  let service : Tool.Service := ⟨path, s.get .server "request_timeout"⟩
  let responses ← Job.act (service.attend o m sur.visits)
  for r in responses do Job.act (leave (.replied r.status r.body))

/-- Creates the database schema. -/
def runMigrate (s : Settings) (ops : Operands) : Job σ Unit := do
  let dimension := orElse (ops.get "dimension") (s.get .database "dimension")
  openStore o s
  Job.act (Store.migrate o dimension
    (orElse (ops.get "ann-index") (s.get .database "ann_index")))
  Job.print s!"✓ Schema ready (dimension {dimension.display})\n"

/-- Runs a command with the values of its switches. -/
def Verb.run (v : Verb) (sur : Surroundings) (s : Settings) (ops : Operands) : Job σ Unit :=
  match v with
  | .embed => runEmbed o sur s ops
  | .prompt => runPrompt o sur s ops
  | .mcp => runServer o sur s ops
  | .migrate => runMigrate o s ops

/-! ## The program -/

/-- How a run ends that stops before any command is run. -/
def Ending.ofStop (f : Interface) : Stop → Ending
  | .misused m => .misused f m
  | .version => .told s!"{programName}, version {programVersion}"
  | .help => .told f.help

/-- The values of the switches of a command, and its arguments. -/
def Interface.call (f : Interface) (sur : Surroundings) (words : List String) :
    Except Ending (Operands × List String) := do
  let parsed ← (f.split [] words).mapError (.misused f)
  let ops ← (f.operands sur.env sur.disk parsed.given).mapError (.ofStop f)
  return (ops, parsed.rest)

/-- A command line that names a command: the values of the program's switches, the command and the
words behind its name. -/
structure Call where
  ops : Operands
  verb : Verb
  words : List String

/-- The call that a command line makes. -/
def Call.ofWords (sur : Surroundings) (words : List String) : Except Ending Call := do
  if words.isEmpty then throw (.helped program.help)
  match ← program.call sur words with
  | (_, []) => throw (.misused program .commandLacks)
  | (ops, name :: rest) =>
    match Verb.ofName? name with
    | some verb => return ⟨ops, verb, rest⟩
    | none =>
      if Interface.isSwitchWord name then discard (program.call sur (name :: rest))
      throw (.misused program
        (.unknownCommand name (similarNames name (Verb.all.map Verb.name))))

/-- Makes a call: the settings are read before the switches of the command. -/
def Call.make (c : Call) (sur : Surroundings) : Job σ Unit := do
  let settings ← Job.ofExcept id (settingsFor sur c.ops)
  let (ops, rest) ← Job.ofExcept id (c.verb.interface.call sur c.words)
  if !rest.isEmpty then throw (.misused c.verb.interface (.excess rest))
  c.verb.run o sur settings ops

/-! ## What is seen of a run -/

/-- What a run leaves: how it ended, and what was printed and reported. -/
structure Outcome where
  ending : Ending
  output : String
  report : String

/-- A message as it is reported. -/
def LogLine.text (time : String) (l : LogLine) : String :=
  let level := l.level.name.pushn ' ' (7 - l.level.name.length)
  s!"{time} {level} {l.logger}: {l.message}\n"

/-- What is printed by a deed. -/
def printedOf : Deed → String
  | .printed text => text
  | _ => ""

/-- What is reported by a deed, if ranks from `least` on are shown. -/
def reportedOf (time : String) (least : Nat) : Deed → String
  | .logged l => if least ≤ l.level.rank then LogLine.text time l else ""
  | _ => ""

/-- Runs the program on a command line. `time` is the time that messages bear. -/
def run (sur : Surroundings) (time : String) (words : List String) (p : Program σ) :
    Outcome × Program σ :=
  match Call.ofWords sur words with
  | .error ending => (⟨ending, ending.output, ending.report⟩, p)
  | .ok c =>
    let (r, p) := (c.make o sur).run p
    let (_, p) := (Store.closePool : Action σ Unit).perform p
    let ending := match r with
      | .ok _ => .done
      | .error ending => ending
    let least := shownRank (c.ops.get "verbose").truthy (sur.env.lookup logLevelVariable)
    (⟨ending, String.join (p.trace.map printedOf) ++ ending.output,
      String.join (p.trace.map (reportedOf time least)) ++ ending.report⟩, p)

end DocSearch.Command
