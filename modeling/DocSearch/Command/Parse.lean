import DocSearch.Command.Switch
import DocSearch.Text.Similar
import DocSearch.Number.Numeral
import DocSearch.Files.Disk
import DocSearch.Settings.Expand

/-!
# Reading command lines

A command line is read in two passes. The first one tells switches from arguments; it does not look
at operands. The second one brings the switches into order — questions first, then the switches as
they were given, then the others — and checks them one by one, so that the first fault in that order
is reported.
-/

namespace DocSearch.Command

open Text Files Number

/-! ## Switches and arguments -/

/-- The switches that were given, with their operands, and the arguments. -/
structure Parsed where
  given : List (Switch × String)
  rest : List String
deriving Repr, DecidableEq

/-- What is read of a word of several letters: switches with their operands, and perhaps a last one
whose operand is the next word. -/
structure Cluster where
  given : List (Switch × String)
  open? : Option Switch

namespace Interface

/-- The switch with a long spelling. -/
def ofLong? (f : Interface) (name : String) : Option Switch := f.switches.find? (·.long == name)

/-- The switch with a letter. -/
def ofLetter? (f : Interface) (c : Char) : Option Switch := f.switches.find? (·.letter == some c)

/-- A word of several letters behind a dash. -/
def cluster (f : Interface) : List Char → Except Misuse Cluster
  | [] => .ok ⟨[], none⟩
  | c :: cs =>
    match f.ofLetter? c with
    | none => .error (.unknownSwitch (String.ofList ['-', c]) [])
    | some s =>
      if s.kind.takesOperand then
        if cs.isEmpty then .ok ⟨[], some s⟩ else .ok ⟨[(s, String.ofList cs)], none⟩
      else do
        let more ← f.cluster cs
        return { more with given := (s, "") :: more.given }

/-- What is read of a word that begins with a dash. -/
def word (f : Interface) (w : String) : Except Misuse Cluster :=
  let cs := w.toList
  let name := String.ofList (cs.takeWhile (· != '='))
  let operand? := (cut? ['='] cs).map fun p => String.ofList p.2
  match f.ofLong? name, operand? with
  | some s, none => .ok (if s.kind.takesOperand then ⟨[], some s⟩ else ⟨[(s, "")], none⟩)
  | some s, some operand =>
    if s.kind.takesOperand then .ok ⟨[(s, operand)], none⟩ else .error (.operandIdle name)
  | none, _ =>
    if (after? ['-', '-'] cs).isSome then
      .error (.unknownSwitch name (similarNames name (f.switches.map Switch.long)))
    else f.cluster (cs.drop 1)

/-- Whether a word begins with a dash and has more to it. -/
def isSwitchWord (w : String) : Bool :=
  match w.toList with
  | '-' :: _ :: _ => true
  | _ => false

/-- Tells switches from arguments, with the arguments `rest` so far. Where there are commands, what
follows the first argument is left alone. -/
def split (f : Interface) (rest : List String) : List String → Except Misuse Parsed
  | [] => .ok ⟨[], rest⟩
  | w :: ws =>
    if w == "--" then .ok ⟨[], rest ++ ws⟩
    else if !isSwitchWord w then
      if f.commands.isEmpty then f.split (rest ++ [w]) ws else .ok ⟨[], rest ++ w :: ws⟩
    else do
      let c ← f.word w
      match c.open?, ws with
      | none, ws =>
        let more ← f.split rest ws
        return { more with given := c.given ++ more.given }
      | some s, [] => throw (.operandLacks (if (f.ofLong? w).isSome then w else s.short?.getD w))
      | some s, operand :: ws =>
        let more ← f.split rest ws
        return { more with given := c.given ++ (s, operand) :: more.given }

end Interface

/-! ## Operands -/

/-- What a command line asks for instead of running a command. -/
inductive Stop where
  | misused (m : Misuse)
  | version
  | help
deriving Repr, DecidableEq

/-- The values of switches by name. -/
abbrev Operands := List (String × Value)

/-- The value of an operand, if the switch takes it. -/
def Switch.check (disk : Disk) (s : Switch) (operand : String) : Except Misuse Value :=
  match s.kind with
  | .count =>
    match readInt operand with
    | .error _ => .error (.notCount s operand)
    | .ok n => if n < 1 then .error (.belowOne s n) else .ok (.int n)
  | .file =>
    match disk.entry ⟨operand, []⟩ true with
    | .ok (.folder _) => .error (.isFolder s operand)
    | _ => .ok (.text operand)
  | .text => .ok (.text operand)
  | _ => .ok (.bool true)

/-- The operand of a switch: the last one that was given, or the variable of the environment if it is
set and not empty, or the preset. -/
def Switch.operand? (env : Settings.Environment) (given : List (Switch × String)) (s : Switch) :
    Option String :=
  match (given.filter (·.1 = s)).getLast? with
  | some (_, operand) => some operand
  | none =>
    match (s.envName.bind fun name => env.lookup name).filter fun v => !v.isEmpty with
    | some operand => some operand
    | none => s.preset

/-- The value of a switch. -/
def Switch.value (env : Settings.Environment) (disk : Disk) (given : List (Switch × String))
    (s : Switch) : Except Misuse Value :=
  match s.operand? env given with
  | some operand => s.check disk operand
  | none =>
    if s.required then .error (.switchLacks s)
    else .ok (if s.kind.takesOperand then .null else .bool false)

/-- The switches in the order in which they are checked: those given first. -/
def Interface.order (f : Interface) (given : List (Switch × String)) : List Switch :=
  let present := (given.map (·.1)).eraseDups
  present ++ f.switches.filter fun s => !present.contains s

/-- The values of all switches, or the first fault. -/
def Interface.values (f : Interface) (env : Settings.Environment) (disk : Disk)
    (given : List (Switch × String)) : Except Misuse Operands :=
  (f.order given).mapM fun s => do return (s.name, ← s.value env disk given)

/-- The values of all switches, unless one of those that were given is a question. -/
def Interface.operands (f : Interface) (env : Settings.Environment) (disk : Disk)
    (given : List (Switch × String)) : Except Stop Operands :=
  match (given.map (·.1)).find? Switch.isQuestion with
  | some s => .error (if s.kind = .version then .version else .help)
  | none => (f.values env disk given).mapError .misused

/-- The value under a name; nothing if there is none. -/
def Operands.get (ops : Operands) (name : String) : Value := (ops.lookup name).getD .null

end DocSearch.Command
