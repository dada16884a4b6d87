import DocSearch.Text.Quoted
import DocSearch.Text.Trim

/-!
# Switches of a command

A command is called with switches such as `--dir PATH`, `-v` or `--help`. This module says what
switches and commands are and how a command line can misuse them.
-/

namespace DocSearch.Command

open Text

/-- What a switch is for: to turn something on, to take an operand, or to be told about the
command instead of running it. -/
inductive SwitchKind where
  | flag
  | text
  | count
  | file
  | version
  | help
deriving Repr, DecidableEq

/-- Whether a switch of this kind takes an operand. -/
def SwitchKind.takesOperand : SwitchKind → Bool
  | .text | .count | .file => true
  | _ => false

/-- The word that stands for an operand in help texts. -/
def SwitchKind.placeholder : SwitchKind → String
  | .text => " TEXT"
  | .count => " INTEGER RANGE"
  | .file => " FILE"
  | _ => ""

/-- A switch: its long name, perhaps a letter and a variable of the environment that stands in for
it, the operand when none is given, and the help about it. -/
structure Switch where
  name : String
  kind : SwitchKind
  help : String
  letter : Option Char := none
  envName : Option String := none
  preset : Option String := none
  required : Bool := false
deriving Repr, DecidableEq

namespace Switch

/-- The long spelling. -/
def long (s : Switch) : String := "--" ++ s.name

/-- The short spelling, if there is one. -/
def short? (s : Switch) : Option String := s.letter.map fun c => String.ofList ['-', c]

/-- The spellings as error texts give them. -/
def hint (s : Switch) : String :=
  join " / " ((s.long :: s.short?.toList).map fun n => "\x27" ++ n ++ "\x27")

/-- Whether the switch asks about the command. -/
def isQuestion (s : Switch) : Bool := s.kind = .version || s.kind = .help

end Switch

/-- What a command line can address: the words that lead to it, what it is about, its switches, and
its commands with their summaries. -/
structure Interface where
  path : String
  about : List String
  switches : List Switch
  commands : List (String × String)
deriving Repr, DecidableEq

/-! ## Misuse -/

/-- What is wrong with a command line. -/
inductive Misuse where
  | unknownSwitch (name : String) (similar : List String)
  | operandLacks (name : String)
  | operandIdle (name : String)
  | switchLacks (s : Switch)
  | notCount (s : Switch) (operand : String)
  | belowOne (s : Switch) (n : Int)
  | isFolder (s : Switch) (path : String)
  | excess (arguments : List String)
  | commandLacks
  | unknownCommand (name : String) (similar : List String)
deriving Repr, DecidableEq

/-- The hint at names that are similar to one that is not known; `kind` is what they are names of. -/
def similarHint (kind : String) : List String → String
  | [] => ""
  | [n] => s!" Did you mean {n}?"
  | ns => s!" (Possible {kind}: " ++ join ", " (ns.mergeSort fun a b => decide (a ≤ b)) ++ ")"

/-- The error text of an operand that a switch does not take. -/
def badOperand (s : Switch) (message : String) : String := s!"Invalid value for {s.hint}: {message}"

/-- The error text. -/
def Misuse.message : Misuse → String
  | .unknownSwitch name similar => s!"No such option: {name}" ++ similarHint "options" similar
  | .operandLacks name => s!"Option {quoted name} requires an argument."
  | .operandIdle name => s!"Option {quoted name} does not take a value."
  | .switchLacks s => s!"Missing option {s.hint}."
  | .notCount s operand => badOperand s s!"{quoted operand} is not a valid integer range."
  | .belowOne s n => badOperand s s!"{n} is not in the range x>=1."
  | .isFolder s path => badOperand s s!"File {quoted path} is a directory."
  | .excess [a] => s!"Got unexpected extra argument ({a})"
  | .excess arguments => "Got unexpected extra arguments (" ++ join " " arguments ++ ")"
  | .commandLacks => "Missing command."
  | .unknownCommand name similar =>
    s!"No such command {quoted name}." ++ similarHint "commands" (similar.map quoted)

/-- Whether the error text comes with the usage of the command. -/
def Misuse.showsUsage : Misuse → Bool
  | .operandLacks _ | .operandIdle _ => false
  | _ => true

end DocSearch.Command
