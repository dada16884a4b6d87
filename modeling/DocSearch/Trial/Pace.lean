import DocSearch.Index.Shift
import DocSearch.Trial.World

/-!
# The pace of a trial

The daemon of a trial world takes long to count the words of a long text. Where several workers are
at work, tasks with long texts are overtaken by the others.
-/

namespace DocSearch.Trial

open DocSearch.Action Files Index

/-- Whether the text of a chunk takes long to embed. -/
def takesLong (c : Chunk) : Bool := 10000 ≤ c.text.length

/-- A run in a trial world, at its pace. -/
def index (embed : Embedder World) (disk : Disk) (workers : Nat) (source : Source)
    (pruneRoot : Option String) : Action World Stats :=
  match source with
  | .listed cs _ =>
    if 1 < workers && cs.any takesLong then
      runChosen outside embed disk (Shift.overtaking takesLong) (8 * cs.length + 8) workers source
        pruneRoot
    else run outside embed disk workers source pruneRoot
  | _ => run outside embed disk workers source pruneRoot

end DocSearch.Trial
