import DocSearch.Command.Switch
import DocSearch.Text.Wrap

/-!
# Help texts

The help about a command says how to call it, what it is about, and lists its switches and commands
in two columns, wrapped to the width of a page.
-/

namespace DocSearch.Command

open Text

/-- The number of characters on a line. -/
def pageWidth : Nat := 80

/-- The greatest width of the first of two columns. -/
def columnLimit : Nat := 30

/-- The space between two columns. -/
def columnGap : Nat := 2

/-- A line that is moved to the right. -/
def indentBy (n : Nat) (s : String) : String := "".pushn ' ' n ++ s

/-! ## Columns -/

/-- The lines of a row of two columns, the second of which begins at `start`. -/
def rowLines (start : Nat) (row : String × String) : List String :=
  let (left, right) := row
  match wrap (pageWidth - start - columnGap) right with
  | [] => [indentBy columnGap left]
  | line :: lines =>
    let below := lines.map (indentBy (start + columnGap))
    if left.length + columnGap ≤ start then
      (indentBy columnGap left ++ "".pushn ' ' (start - left.length) ++ line) :: below
    else indentBy columnGap left :: indentBy (start + columnGap) line :: below

/-- The lines of rows of two columns. -/
def tableLines (rows : List (String × String)) : List String :=
  let widest := (rows.map fun r => r.1.length).foldl max 0
  rows.flatMap (rowLines (min widest columnLimit + columnGap))

/-! ## Parts of a help text -/

/-- A switch as it is listed. -/
def Switch.label (s : Switch) : String :=
  join ", " (s.short?.toList ++ [s.long]) ++ s.kind.placeholder

/-- What is noted behind the help about a switch. -/
def Switch.notes (s : Switch) : List String :=
  (s.preset.map fun v => s!"default: {v}").toList ++ (if s.kind = .count then ["x>=1"] else []) ++
    (if s.required then ["required"] else [])

/-- The help about a switch with the notes behind it. -/
def Switch.description (s : Switch) : String :=
  if s.notes.isEmpty then s.help else s.help ++ "  [" ++ join "; " s.notes ++ "]"

/-- The line that says how to call a command. -/
def Interface.usage (f : Interface) : String :=
  s!"Usage: {f.path} [OPTIONS]" ++ if f.commands.isEmpty then "" else " COMMAND [ARGS]..."

/-- The lines of a paragraph. -/
def paragraphLines (s : String) : List String :=
  "" :: (wrap (pageWidth - columnGap) s).map (indentBy columnGap)

/-- The help about a command, without a line break at its end. -/
def Interface.help (f : Interface) : String :=
  join "\n" (f.usage :: f.about.flatMap paragraphLines ++
    "" :: "Options:" :: tableLines (f.switches.map fun s => (s.label, s.description)) ++
    if f.commands.isEmpty then [] else "" :: "Commands:" :: tableLines f.commands)

/-! ## Reports of misuse -/

/-- The report of a misuse: where it helps, how to call the command; then what is wrong. -/
def Misuse.report (f : Interface) (m : Misuse) : String :=
  let usage := s!"{f.usage}\nTry \x27{f.path} --help\x27 for help.\n\n"
  (if m.showsUsage then usage else "") ++ s!"Error: {m.message}\n"

end DocSearch.Command
