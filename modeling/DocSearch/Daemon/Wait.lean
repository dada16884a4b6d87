import DocSearch.Daemon.Client

/-!
# Waiting for an answer

The reply to a prompt is read by a worker while the caller waits for it. The worker looks at the token
before it takes a line. The caller looks at it now and then, and if it finds the token tripped before
it was told how the stream ended, it gives up at once; the worker goes on to its next look.
-/

namespace DocSearch.Daemon

/-- How far the worker is: some of the stream is still to arrive, or it knows how the stream ended,
and then it tells the caller. -/
inductive Stage where
  | reading (rest : List Arrival)
  | ended (last : Except Error Object)
  | told (last : Except Error Object)

/-- A worker and its caller: the stage of the worker, the pieces that it has handed out, the token,
and what the caller has got. -/
structure Waiting where
  stage : Stage
  pieces : List Value := []
  token : Trip := none
  answer : Option (Except Error Object) := none

/-- What may happen next: the worker goes one step further, somebody trips the token, or the caller
looks whether it has been told. -/
inductive Event where
  | work
  | trip (reason : Option String)
  | look

namespace Waiting

/-- A worker at the start of a stream, and its caller. -/
def start (arrivals : List Arrival) : Waiting := { stage := .reading arrivals }

/-- One step of the worker. -/
def work (w : Waiting) : Waiting :=
  match w.stage with
  | .reading [] => { w with stage := .ended (.ok []) }
  | .reading (a :: rest) =>
    match a.take w.token with
    | .failed e => { w with stage := .ended (.error e) }
    | .line piece last =>
      { w with
        stage := (last.map fun fields => .ended (.ok fields)).getD (.reading rest)
        pieces := w.pieces ++ piece.toList }
  | .ended last => { w with stage := .told last }
  | .told _ => w

/-- One look of the caller, which waits no longer once it has got something. -/
def look (w : Waiting) : Waiting :=
  match w.answer, w.stage, w.token with
  | some _, _, _ => w
  | none, .told last, _ => { w with answer := some last }
  | none, _, some reason => { w with answer := some (.error (.cancelled reason)) }
  | none, _, none => w

/-- What is left when something has happened. -/
def step (w : Waiting) : Event → Waiting
  | .work => w.work
  | .trip reason => { w with token := w.token.cancel reason }
  | .look => w.look

/-- What is left when all of this has happened. -/
def after (w : Waiting) : List Event → Waiting
  | [] => w
  | e :: es => (w.step e).after es

/-- What the token is at each step of the worker. -/
def tokens (w : Waiting) : List Event → List Trip
  | [] => []
  | .work :: es => w.token :: w.work.tokens es
  | e :: es => (w.step e).tokens es

/-- What the caller is given, once it has got something: an answer to its prompt, or an error. -/
def result? (w : Waiting) (model : Value) : Option (Except Error Completion) :=
  w.answer.map fun last => last >>= completion model w.pieces

end Waiting

end DocSearch.Daemon
