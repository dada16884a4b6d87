import DocSearch.Store.Cursor

/-!
# Search results

The results of a search are the records of a cursor. A failure to read one, or a cancellation, ends
them like their end does; which of these it was is told afterwards. The cursor is closed as soon as
the results have ended.
-/

namespace DocSearch.Search

open Store

/-- A cursor, whether the results have ended, and the error that ended them. -/
structure Results where
  cursor : Cursor
  finished : Bool
  error : Option RunError

namespace Results

/-- The results that a cursor hands out. -/
def ofCursor (c : Cursor) : Results := ⟨c, false, none⟩

/-- Ends the results and closes the cursor. -/
def finish (r : Results) : Results × List Deed :=
  if r.finished then (r, [])
  else ({ r with finished := true, cursor := r.cursor.close.1 }, r.cursor.close.2)

/-- Whether an error of the cursor ends the results instead of being handed on. -/
def isEnding : RunError → Bool
  | .cancelled _ => true
  | .store (.rowUnread _) => true
  | _ => false

/-- Hands out the next record while the token is in the state `trip`. -/
def next (trip : Trip) (r : Results) : Results × Fetched × List Deed :=
  if r.finished then (r, .stop, [])
  else
    let (cursor, fetched, deeds) := r.cursor.next trip
    let r := { r with cursor }
    match fetched with
    | .record record => (r, .record record, deeds)
    | .stop => (r.finish.1, .stop, deeds ++ r.finish.2)
    | .failed e =>
      if isEnding e then
        let r := { r with error := some e }
        (r.finish.1, .stop, deeds ++ r.finish.2)
      else (r, .failed e, deeds)

end Results

end DocSearch.Search
