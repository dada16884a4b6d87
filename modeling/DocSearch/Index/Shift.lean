import DocSearch.Index.Run

/-!
# Shifts

A crew at work takes chunks from its source, submits them when there is room, and collects results,
while its tasks make their steps. Which of these comes next is up to the world: threads run as they
like, and some texts take longer to embed than others. Here it is up to a choice, of which the
schedule of `indexTogether` is one.
-/

namespace DocSearch.Index

open DocSearch.Action Files

variable {σ : Type}

/-- A crew at work, its source, and the chunks that were taken from there and are not submitted
yet. -/
structure Shift (σ : Type) where
  source : Source
  held : List Chunk
  crew : Crew σ

/-- What may be done next in a shift. -/
inductive Act where
  | work (i : Nat)
  | collect (picks : List Nat)
  | submit
  | pull

namespace Shift

variable (o : Outside σ) (embed : Embedder σ) (disk : Disk)

/-- Takes what comes next from the source. -/
def pull? (s : Shift σ) : Option (Shift σ) :=
  match s.crew.phase, s.held with
  | .feeding, [] =>
    match (Index.pull o disk s.source).perform s.crew.program with
    | (.ok (source, .chunks cs), program) => some ⟨source, cs, { s.crew with program }⟩
    | (.ok (source, .finished), program) => do
      return ⟨source, [], ← Crew.step? o embed { s.crew with program } .exhausted⟩
    | (.ok (source, .failed e), program) => do
      return ⟨source, [], ← Crew.step? o embed { s.crew with program } (.broke e)⟩
    | (.error e, program) => do
      return ⟨.closed, [], ← Crew.step? o embed { s.crew with program } (.broke e)⟩
  | _, _ => none

/-- The shift behind an act, if the act is possible. -/
def act? (s : Shift σ) : Act → Option (Shift σ)
  | .work i => do return { s with crew := ← s.crew.step? o embed (.work i) }
  | .collect picks => do return { s with crew := ← s.crew.step? o embed (.collect picks) }
  | .submit =>
    match s.held with
    | [] => none
    | c :: cs => do return ⟨s.source, cs, ← s.crew.step? o embed (.submit c)⟩
  | .pull => s.pull? o embed disk

/-- The shift behind acts that are chosen one after the other, `fuel` of them at most: each time the
first possible one of those that are preferred. -/
def go (prefer : Shift σ → List Act) : (fuel : Nat) → Shift σ → Shift σ
  | 0, s => s
  | fuel + 1, s =>
    match (prefer s).findSome? (s.act? o embed disk) with
    | some s => go prefer fuel s
    | none => s

/-- The places of the tasks for which `p` holds. -/
def tasksAt (s : Shift σ) (p : Task → Bool) : List Nat :=
  (s.crew.tasks.zipIdx.filter fun t => p t.1).map (·.2)

/-- What is preferred where slow chunks are overtaken: their texts are embedded when nothing else
can be done. -/
def overtaking (slow : Chunk → Bool) (s : Shift σ) : List Act :=
  let isSlow (t : Task) : Bool := (t.stage matches .stored _) && slow t.chunk
  (s.tasksAt fun t => !isSlow t).map .work ++
    [.submit, .pull, .collect (s.tasksAt fun t => t.stage matches .ended _)] ++
    (s.tasksAt isSlow).map .work

end Shift

variable (o : Outside σ) (embed : Embedder σ) (disk : Disk)

/-- What a run does when its crew is over: it closes the source, and behind a crew without failure
it deletes what was not touched. -/
def Crew.conclude (started : Float) (pruneRoot : Option String) (crew : Crew σ) :
    Action σ Stats := do
  leave .sourceClosed
  match crew.phase with
  | .over (some e) => throw e
  | _ =>
    let pruned ← sweep o pruneRoot crew.collected
    report o started crew.collected pruned

/-- A whole run with several workers in which `fuel` acts at most are chosen. -/
def runChosen (prefer : Shift σ → List Act) (fuel workers : Nat) (source : Source)
    (pruneRoot : Option String) : Action σ Stats := do
  let started ← outside o.clock
  let s := Shift.go o embed disk prefer fuel ⟨source, [], .start workers (← get)⟩
  set s.crew.program
  s.crew.conclude o started pruneRoot

end DocSearch.Index
