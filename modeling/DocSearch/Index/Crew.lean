import DocSearch.Store.Access

/-!
# Indexing with several workers

A crew has tasks in flight, at most two for each worker, and each task stores its chunk, embeds its
text and stores the vector, in three steps that may fall between the steps of other tasks. Results
are collected when there is no room for another task and when the source is at its end. The first
failure that is collected stops the crew: tasks that have not begun are dropped, and the others see
a tripped token of their own.

What a crew may do next is told by `Crew.step?`; a schedule is any list of moves. One schedule is
that of `Crew.hand`, which lets every task end before the next one is submitted.
-/

namespace DocSearch.Index

open DocSearch.Action Store

variable {σ : Type}

/-- Embeds a text, unless the token is tripped; the first argument is a trip of the run's own. -/
abbrev Embedder (σ : Type) := Trip → String → Action σ (List Float)

/-- The logger of runs. -/
def indexLogger : String := "godoc_rag.pipeline.indexer"

/-! ## One chunk -/

/-- Stores the vector of a chunk that has been stored and embedded. -/
def settle (o : Outside σ) (c : Chunk) (id : Int) (vector : List Float) : Action σ Unit := do
  upsertVector o id (.list (vector.map .float))
  log .debug indexLogger s!"Indexed {c.kind} {c.symbol} (id={id})"

/-- Stores a chunk and its embedding, and tells its id. -/
def indexChunk (o : Outside σ) (embed : Embedder σ) (c : Chunk) : Action σ Int := do
  let id ← upsertChunk o c
  let vector ← embed none c.text
  settle o c id vector
  return id

/-! ## Tasks -/

/-- How far a task has come. -/
inductive Stage where
  | queued
  | begun
  | stored (id : Int)
  | embedded (id : Int) (vector : List Float)
  | ended (result : Except RunError Int)

/-- Whether a worker is busy with a task of this stage. -/
def Stage.isActive : Stage → Bool
  | .begun | .stored _ | .embedded _ _ => true
  | _ => false

/-- A chunk in flight. -/
structure Task where
  chunk : Chunk
  stage : Stage

/-- The result of a task that has ended. -/
def Task.result? (t : Task) : Option (Except RunError Int) :=
  match t.stage with
  | .ended r => some r
  | _ => none

/-- One step of a task that has begun, with the run's own trip. -/
def Task.advance (o : Outside σ) (embed : Embedder σ) (stopped : Trip) (t : Task)
    (p : Program σ) : Task × Program σ :=
  match t.stage with
  | .begun =>
    match (upsertChunk o t.chunk).perform p with
    | (.ok id, p) => ({ t with stage := .stored id }, p)
    | (.error e, p) => ({ t with stage := .ended (.error e) }, p)
  | .stored id =>
    match (embed stopped t.chunk.text).perform p with
    | (.ok v, p) => ({ t with stage := .embedded id v }, p)
    | (.error e, p) => ({ t with stage := .ended (.error e) }, p)
  | .embedded id v =>
    match (settle o t.chunk id v).perform p with
    | (.ok _, p) => ({ t with stage := .ended (.ok id) }, p)
    | (.error e, p) => ({ t with stage := .ended (.error e) }, p)
  | _ => (t, p)

/-! ## Crews -/

/-- What a crew is at: taking chunks, waiting for the last tasks, waiting for the busy workers after
a failure, or over. -/
inductive Phase where
  | feeding
  | finishing
  | stopping (e : RunError)
  | over (e : Option RunError)

/-- Tasks in flight in the order of their submission, and the ids that have been collected. -/
structure Crew (σ : Type) where
  program : Program σ
  workers : Nat
  tasks : List Task
  collected : List Int
  stopped : Trip
  phase : Phase

/-- What may happen next: a chunk is submitted, a task makes a step, results are collected in some
order, the source is at its end, or it fails. -/
inductive Move where
  | submit (c : Chunk)
  | work (i : Nat)
  | collect (picks : List Nat)
  | exhausted
  | broke (e : RunError)

/-- The reason that tasks see when their run is stopped. -/
def stopReason : String := "indexing stopped"

/-- The ids of results up to the first failure, and the failure. -/
def gather : List (Except RunError Int) → List Int × Option RunError
  | [] => ([], none)
  | .ok id :: rs => (id :: (gather rs).1, (gather rs).2)
  | .error e :: _ => ([], some e)

namespace Crew

/-- A crew without tasks. -/
def start (workers : Nat) (p : Program σ) : Crew σ := ⟨p, workers, [], [], none, .feeding⟩

/-- Whether there is no room for another task. -/
def isFull (crew : Crew σ) : Bool := 2 * crew.workers ≤ crew.tasks.length

/-- The number of busy workers. -/
def busy (crew : Crew σ) : Nat := crew.tasks.countP (·.stage.isActive)

/-- A crew that waited for its last tasks or its busy workers in vain is over. -/
def rest (crew : Crew σ) : Crew σ :=
  match crew.phase with
  | .finishing => if crew.tasks.isEmpty then { crew with phase := .over none } else crew
  | .stopping e => if crew.busy == 0 then { crew with phase := .over (some e) } else crew
  | _ => crew

/-- Stops a crew because of `e`. -/
def stop (o : Outside σ) (crew : Crew σ) (e : RunError) : Crew σ :=
  let (trip, outside) := o.look crew.program.outside
  rest { crew with
    program := { crew.program with outside }
    stopped := some (trip.getD stopReason)
    tasks := crew.tasks.filter fun t => !(t.stage matches .queued)
    phase := .stopping e }

/-- The results of the tasks at `picks`, if each of them is there once and has ended. -/
def results? (crew : Crew σ) (picks : List Nat) : Option (List (Except RunError Int)) :=
  if decide picks.Nodup then picks.mapM fun i => (crew.tasks[i]?).bind Task.result? else none

/-- The tasks that are not at `picks`. -/
def others (crew : Crew σ) (picks : List Nat) : List Task :=
  (crew.tasks.zipIdx.filter fun t => !picks.contains t.2).map (·.1)

/-- Takes the results of the tasks at `picks`. -/
def take (o : Outside σ) (crew : Crew σ) (picks : List Nat) (results : List (Except RunError Int)) :
    Crew σ :=
  let (ids, failure) := gather results
  let crew := { crew with tasks := crew.others picks, collected := crew.collected ++ ids }
  match failure with
  | some e => crew.stop o e
  | none => crew.rest

/-- Whether the crew may stop waiting when the tasks at `picks` have ended: any of them is enough to
make room; at the end all have to, unless one has failed. -/
def mayCollect (crew : Crew σ) (picks : List Nat) (results : List (Except RunError Int)) : Bool :=
  match crew.phase with
  | .feeding => crew.isFull && !picks.isEmpty
  | .finishing =>
    !picks.isEmpty &&
      (picks.length == crew.tasks.length || results.any fun r => r matches .error _)
  | _ => false

/-- The crew when the task at `i` has made a step. A queued task begins when it is the first one and
a worker is free. -/
def work? (o : Outside σ) (embed : Embedder σ) (crew : Crew σ) (i : Nat) : Option (Crew σ) :=
  match crew.phase, crew.tasks[i]? with
  | .over _, _ | _, none => none
  | _, some t =>
    match t.stage with
    | .ended _ => none
    | .queued =>
      if crew.busy < crew.workers && (crew.tasks.take i).all fun t => !(t.stage matches .queued) then
        some { crew with tasks := crew.tasks.set i { t with stage := .begun } }
      else none
    | _ =>
      let (t, program) := t.advance o embed crew.stopped crew.program
      some (rest { crew with program, tasks := crew.tasks.set i t })

/-- The crew behind a move, if the move is possible. -/
def step? (o : Outside σ) (embed : Embedder σ) (crew : Crew σ) : Move → Option (Crew σ)
  | .work i => crew.work? o embed i
  | .collect picks => do
    let results ← crew.results? picks
    if crew.mayCollect picks results then return crew.take o picks results else none
  | .submit c =>
    match crew.phase with
    | .feeding =>
      if crew.isFull then none
      else some { crew with tasks := crew.tasks ++ [⟨c, .queued⟩] }
    | _ => none
  | .exhausted =>
    match crew.phase with
    | .feeding => some (rest { crew with phase := .finishing })
    | _ => none
  | .broke e =>
    match crew.phase with
    | .feeding => some (crew.stop o e)
    | _ => none

/-- The crew behind a schedule, if all its moves are possible. -/
def run? (o : Outside σ) (embed : Embedder σ) (crew : Crew σ) : List Move → Option (Crew σ)
  | [] => some crew
  | m :: ms => do (← crew.step? o embed m).run? o embed ms

/-! ## A schedule -/

/-- The crew behind a move; one that is not possible is passed over. -/
def move (o : Outside σ) (embed : Embedder σ) (crew : Crew σ) (m : Move) : Crew σ :=
  (crew.step? o embed m).getD crew

/-- Lets the task at `i` begin and go through its three steps. -/
def serveTask (o : Outside σ) (embed : Embedder σ) (crew : Crew σ) (i : Nat) : Crew σ :=
  (List.range 4).foldl (fun crew _ => crew.move o embed (.work i)) crew

/-- Lets every task end, one after the other. -/
def serve (o : Outside σ) (embed : Embedder σ) (crew : Crew σ) : Crew σ :=
  (List.range crew.tasks.length).foldl (fun crew i => crew.serveTask o embed i) crew

/-- Collects everything. -/
def collectAll (o : Outside σ) (embed : Embedder σ) (crew : Crew σ) : Crew σ :=
  crew.move o embed (.collect (List.range crew.tasks.length))

/-- Makes room if necessary, submits a chunk and lets its task end. -/
def hand (o : Outside σ) (embed : Embedder σ) (crew : Crew σ) (c : Chunk) : Crew σ :=
  let crew := if crew.isFull then crew.collectAll o embed else crew
  (crew.move o embed (.submit c)).serve o embed

/-- Lets the last tasks end and collects them. -/
def complete (o : Outside σ) (embed : Embedder σ) (crew : Crew σ) : Crew σ :=
  (crew.serve o embed).collectAll o embed

end Crew

end DocSearch.Index
