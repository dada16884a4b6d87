import DocSearch.Fields

/-!
# The outcome of an indexing run
-/

namespace DocSearch.Index

open Number Text

/-- How many chunks a run stored and embedded, how many stale rows it removed, and how long it
took in seconds. -/
structure Stats where
  chunks : Nat
  embedded : Nat
  pruned : Int
  elapsed : Float

/-- The fields of an outcome by name. -/
def Stats.shape : Shape := ⟨"IndexStats", [], ["chunks", "embedded", "pruned", "elapsed"]⟩

/-- A value rounded to milliseconds: whole numbers stay as they are, and what is no number cannot be
rounded. -/
def roundMillis : Value → Except String Value
  | .float f => .ok (.float (roundPlaces 3 f))
  | .int i => .ok (.int i)
  | .bool b => .ok (.int (if b then 1 else 0))
  | v => .error s!"type {v.typeName} doesn't define __round__ method"

/-- The report of an outcome with fields of any type; a field that is not given is zero. -/
def reportOf (given : List (String × Value)) : Except String Value := do
  let value (k : String) (default : Value) : Value := (given.lookup k).getD default
  let elapsed ← roundMillis (value "elapsed" (.float 0))
  .ok (.object [("chunks", value "chunks" (.int 0)), ("embedded", value "embedded" (.int 0)),
    ("pruned", value "pruned" (.int 0)), ("elapsed", elapsed)])

/-- The report of an outcome. -/
def Stats.report (s : Stats) : Value :=
  .object [("chunks", .int s.chunks), ("embedded", .int s.embedded), ("pruned", .int s.pruned),
    ("elapsed", .float (roundPlaces 3 s.elapsed))]

end DocSearch.Index
