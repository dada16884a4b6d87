import DocSearch.Address.Ip
import DocSearch.Number.Numeral
import DocSearch.Log

/-!
# The address of the model daemon

A setting such as `example.com:4000/base` is completed to a URL: the scheme defaults to `http`, the
port to the daemon's own or, with an explicit scheme `http` or `https`, to that scheme's. A port that
is none is replaced by the default with a warning.
-/

namespace DocSearch.Address

open Number Text

/-- The port of the daemon. -/
def daemonPort : List Char := "11434".toList

/-- The logger of the daemon's client. -/
def daemonLogger : String := "godoc_rag.llm.ollama"

/-- A host and a port, separated by the only colon, or by the first `]:` behind a leading bracket. -/
def splitHostPort? (cs : List Char) : Option (List Char × List Char) :=
  match cs with
  | '[' :: rest => cut? [']', ':'] rest
  | _ => if cs.count ':' == 1 then cut? [':'] cs else none

/-- A host and a port with a colon between them; a host that holds colons stands in brackets. -/
def joinHostPort (host port : List Char) : List Char :=
  (if host.contains ':' then '[' :: host ++ [']'] else host) ++ ':' :: port

/-- A setting without blanks and quotes around it. -/
def bareSetting (cs : List Char) : List Char :=
  trimBy isBlank (trimBy (fun c => c == '\"' || c == '\x27') (trimBy isBlank cs))

/-- The parts of a setting: its scheme, the default port, the host with its port, and the path. -/
structure Setting where
  scheme : List Char
  defaultPort : List Char
  hostPort : List Char
  path : List Char
deriving Repr, DecidableEq

/-- Takes a bare setting apart. -/
def Setting.ofBare (cs : List Char) : Setting :=
  let (scheme, defaultPort, rest) := match cut? "://".toList cs with
    | none => ("http".toList, daemonPort, cs)
    | some (s, rest) =>
      (s,
        if s == "http".toList then "80".toList
        else if s == "https".toList then "443".toList
        else daemonPort,
        rest)
  let hostPort := rest.takeWhile (· != '/')
  ⟨scheme, defaultPort, hostPort, (rest.dropWhile (· != '/')).drop 1⟩

/-- The host and the port that a setting names. A host without a port may be an address, in brackets
or not, which is brought to its canonical form; without a host it is the local one. -/
def Setting.hostAndPort (s : Setting) : List Char × List Char :=
  match splitHostPort? s.hostPort with
  | some parts => parts
  | none =>
    match canonical? (trimBy (fun c => c == '[' || c == ']') s.hostPort) with
    | some ip => (ip, s.defaultPort)
    | none => (if s.hostPort.isEmpty then "127.0.0.1".toList else s.hostPort, s.defaultPort)

/-- A resolved setting: the base URL and the warnings that it gave rise to. -/
structure Resolved where
  url : String
  warnings : List LogLine
deriving Repr, DecidableEq

/-- Whether a text of digits is a port. -/
def validPort (port : List Char) : Except NumeralError Bool :=
  if port.isEmpty || !port.all isDigit then .ok false
  else (readInt (String.ofList port)).map fun n => n ≤ 65535

/-- The warning about a port that is none. -/
def portWarning (port defaultPort : List Char) : LogLine :=
  ⟨.warning, daemonLogger,
    s!"Invalid Ollama port {quoted (String.ofList port)}, using {String.ofList defaultPort}"⟩

/-- The base URL for a setting. -/
def resolve (setting : String) : Except NumeralError Resolved := do
  let s := Setting.ofBare (bareSetting setting.toList)
  let (host, port) := s.hostAndPort
  let valid ← validPort port
  let port' := if valid then port else s.defaultPort
  let path := if s.path.isEmpty then [] else '/' :: s.path
  let url := s.scheme ++ "://".toList ++ joinHostPort host port' ++ path
  .ok ⟨String.ofList url, if valid then [] else [portWarning port s.defaultPort]⟩

/-- The base URL for a setting, or for the one in the environment if there is none. -/
def resolveOr (setting environment : Option String) : Except NumeralError Resolved :=
  resolve (setting.getD (environment.getD ""))

end DocSearch.Address
