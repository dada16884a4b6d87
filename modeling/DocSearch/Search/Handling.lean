import DocSearch.Search.Results

/-!
# Handling search results

What a caller may do to the results of a search and to the cursor under them, in any order and for
as long as it likes: ask for the next record, close, leave a block that closes, let go of the last
reference, and ask the results for the error that ended them. The last four of these end the stream.
-/

namespace DocSearch.Search

open Store

/-- What may be done to results and to a cursor alike. -/
inductive Use where
  | next (trip : Trip)
  | close
  | exit
  | drop
deriving Repr, DecidableEq

/-- What is done, to the results or to the cursor under them. -/
inductive Handling where
  | results (u : Use)
  | error
  | cursor (u : Use)
deriving Repr, DecidableEq

/-- What the caller gets. -/
inductive Answer where
  | fetched (f : Fetched)
  | told (e : Option RunError)
  | done

/-- What was done, what the caller got, and what was done outside. -/
structure Handled where
  what : Handling
  answer : Answer
  deeds : List Deed

/-- Uses a cursor. -/
def Use.onCursor (c : Cursor) : Use → Cursor × Answer × List Deed
  | .next trip =>
    let (c, fetched, deeds) := c.next trip
    (c, .fetched fetched, deeds)
  | .close | .exit | .drop => (c.close.1, .done, c.close.2)

/-- Uses results. -/
def Use.onResults (r : Results) : Use → Results × Answer × List Deed
  | .next trip =>
    let (r, fetched, deeds) := r.next trip
    (r, .fetched fetched, deeds)
  | .close | .exit | .drop => (r.finish.1, .done, r.finish.2)

/-- Whether something is done to the results and not to the cursor under them. -/
def Handling.atResults : Handling → Bool
  | .results _ | .error => true
  | .cursor _ => false

namespace Results

/-- The results of a search right after its statement. -/
def opened (script : Rows) : Results := .ofCursor (.ofRows script)

/-- Does one thing. -/
def handle (r : Results) (h : Handling) : Results × Handled :=
  let (r, answer, deeds) := match h with
    | .results u => u.onResults r
    | .error => (r.finish.1, .told r.finish.1.error, r.finish.2)
    | .cursor u =>
      let (cursor, answer, deeds) := u.onCursor r.cursor
      ({ r with cursor }, answer, deeds)
  (r, ⟨h, answer, deeds⟩)

/-- The results after all of this is done. -/
def after (r : Results) : List Handling → Results
  | [] => r
  | h :: hs => (r.handle h).1.after hs

/-- What happens while all of this is done. -/
def log (r : Results) : List Handling → List Handled
  | [] => []
  | h :: hs => (r.handle h).2 :: (r.handle h).1.log hs

end Results

end DocSearch.Search
