import DocSearch.Index.Source
import DocSearch.Index.Stats
import DocSearch.Index.Crew

/-!
# Indexing runs

A run takes every chunk of a source, stores it, embeds its text and stores the vector. The first
failure ends the run and closes the source. Rows that the run did not touch are deleted only behind
a run without failure.
-/

namespace DocSearch.Index

open DocSearch.Action Files Number

variable {σ : Type} (o : Outside σ) (embed : Embedder σ) (disk : Disk)

/-! ## One after the other -/

/-- Indexes chunks in order and tells their ids behind the ids `done`. -/
def indexAll : List Chunk → (done : List Int) → Action σ (List Int)
  | [], done => return done
  | c :: cs, done => do
    let id ← indexChunk o embed c
    indexAll cs (done ++ [id])

/-- The next batch of a source. -/
def pull (source : Source) : Action σ (Source × Batch) := do
  let trip ← outside o.look
  let (source, batch, lines) := source.next disk trip
  for l in lines do leave (.logged l)
  return (source, batch)

/-- Indexes the batches of a source, `fuel` of them at most. -/
def indexBatches : (fuel : Nat) → Source → (done : List Int) → Action σ (List Int)
  | 0, _, done => return done
  | fuel + 1, source, done => do
    match ← pull o disk source with
    | (_, .finished) => return done
    | (_, .failed e) => throw e
    | (source, .chunks cs) => indexBatches fuel source (← indexAll o embed cs done)

/-! ## Several at a time -/

/-- Lets a crew take the batches of a source, `fuel` of them at most. -/
def Crew.feed : (fuel : Nat) → Source → Crew σ → Crew σ
  | 0, _, crew => crew
  | fuel + 1, source, crew =>
    match crew.phase with
    | .feeding =>
      let (r, program) := (pull o disk source).perform crew.program
      let crew := { crew with program }
      match r with
      | .error e => crew.move o embed (.broke e)
      | .ok (_, .failed e) => crew.move o embed (.broke e)
      | .ok (_, .finished) => (crew.move o embed .exhausted).complete o embed
      | .ok (source, .chunks cs) => feed fuel source (cs.foldl (fun crew c => crew.hand o embed c) crew)
    | _ => crew

/-- Indexes the chunks of a source with a crew of workers, by the one schedule of `Crew.hand`. A crew
may go other ways (`Shift.act?`). -/
def indexTogether (workers : Nat) (source : Source) : Action σ (List Int) := do
  let crew := Crew.feed o embed disk (source.bound disk) source (.start workers (← get))
  set crew.program
  match crew.phase with
  | .over (some e) => throw e
  | _ => return crew.collected

/-! ## Runs -/

/-- Indexes the chunks of a source, `workers` of them at a time, and closes it. -/
def indexSource (workers : Nat) (source : Source) : Action σ (List Int) :=
  always
    (if workers ≤ 1 then indexBatches o embed disk (source.bound disk) source []
      else indexTogether o embed disk workers source)
    (leave .sourceClosed)

/-- Deletes what a run did not touch, if a root is given, and tells the number of the rows. -/
def sweep (pruneRoot : Option String) (ids : List Int) : Action σ Int :=
  match pruneRoot with
  | some root => Store.prune o root ids
  | none => pure 0

/-- Reads the clock again and tells the outcome. -/
def report (started : Float) (ids : List Int) (pruned : Int) : Action σ Stats := do
  let elapsed := (← outside o.clock) - started
  log .info indexLogger
    s!"Indexed {ids.length} chunks ({pruned} pruned) in {fixedText 2 elapsed}s"
  return ⟨ids.length, ids.length, pruned, elapsed⟩

/-- A whole run. With a root, rows at or below it that the run did not touch are deleted. -/
def run (workers : Nat) (source : Source) (pruneRoot : Option String) : Action σ Stats := do
  let started ← outside o.clock
  let ids ← indexSource o embed disk workers source
  let pruned ← sweep o pruneRoot ids
  report o started ids pruned

end DocSearch.Index
