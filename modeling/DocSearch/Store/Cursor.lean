import DocSearch.Action

/-!
# Cursors

A cursor hands out the rows of a search one by one and holds a connection meanwhile. The connection
goes back when the rows are at their end, when reading one fails, when the token is found tripped,
and when the cursor is closed; a row that is no record leaves the cursor open.
-/

namespace DocSearch.Store

/-- The rows that are still to come, how they end, and whether the cursor is closed. -/
structure Cursor where
  rows : List Row
  failure : Option String
  closed : Bool

/-- What a cursor hands out. -/
inductive Fetched where
  | record (r : Record)
  | stop
  | failed (e : RunError)

/-- The fields of a record in the order of its columns. -/
def recordShape : Shape := ⟨"ChunkRecord", ["data", "package", "filename", "symbol", "kind"], []⟩

/-- The record with the values of bound fields. -/
def recordOfFields (bound : List (String × Value)) : Record :=
  let text (k : String) : String := ((bound.lookup k).map Value.display).getD ""
  ⟨text "data", text "package", text "filename", text "symbol", text "kind"⟩

/-- The record that a row holds. -/
def recordOfRow (row : Row) : Except BindError Record :=
  (recordShape.bindPositional row).map recordOfFields

namespace Cursor

/-- A cursor over what a statement brought. -/
def ofRows (r : Rows) : Cursor := ⟨r.rows, r.failure, false⟩

/-- Closes a cursor and gives its connection back, once. -/
def close (c : Cursor) : Cursor × List Deed :=
  if c.closed then (c, []) else ({ c with closed := true }, [.cursorClosed, .returned])

/-- Closes a cursor and hands out `f`. -/
def closeWith (c : Cursor) (f : Fetched) : Cursor × Fetched × List Deed :=
  (c.close.1, f, c.close.2)

/-- Hands out the next record while the token is in the state `trip`. -/
def next (trip : Trip) (c : Cursor) : Cursor × Fetched × List Deed :=
  if c.closed then (c, .stop, [])
  else
    match trip with
    | some reason => c.closeWith (.failed (.cancelled reason))
    | none =>
      match c.rows, c.failure with
      | row :: rows, _ =>
        ({ c with rows }, match recordOfRow row with
          | .ok r => .record r
          | .error e => .failed (.store (.notRecord e)), [])
      | [], some message => c.closeWith (.failed (.store (.rowUnread message)))
      | [], none => c.closeWith .stop

end Cursor

end DocSearch.Store
