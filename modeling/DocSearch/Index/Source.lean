import DocSearch.Doc.Walk
import DocSearch.RunError

/-!
# Sources of chunks

A run takes its chunks in batches, from a walk or from a list. A source that has failed or has been
closed yields nothing any more.
-/

namespace DocSearch.Index

open Doc Files

/-- Where chunks come from. A list may end in a failure. -/
inductive Source where
  | listed (chunks : List Chunk) (failure : Option RunError)
  | walking (w : Walk)
  | closed

/-- What comes next from a source. -/
inductive Batch where
  | chunks (cs : List Chunk)
  | finished
  | failed (e : RunError)

namespace Source

/-- The next batch of a source while the token is in the state `trip`. -/
def next (disk : Disk) (trip : Trip) : Source → Source × Batch × List LogLine
  | .listed [] none => (.closed, .finished, [])
  | .listed [] (some e) => (.closed, .failed e, [])
  | .listed (c :: cs) failure => (.listed [] failure, .chunks (c :: cs), [])
  | .walking w =>
    match w.visit disk trip with
    | (w, .chunks cs, logs) => (.walking w, .chunks cs, logs)
    | (_, .finished, logs) => (.closed, .finished, logs)
    | (_, .failed e, logs) => (.closed, .failed (.ofWalk e), logs)
  | .closed => (.closed, .finished, [])

/-- More batches than a source has. -/
def bound (disk : Disk) : Source → Nat
  | .listed _ _ => 2
  | .walking w => folderCount disk.top + w.waiting + 2
  | .closed => 1

end Source

end DocSearch.Index
