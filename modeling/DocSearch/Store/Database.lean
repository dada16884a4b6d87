import DocSearch.Store.Statement

/-!
# Databases

What the store needs of a database: to connect to it, to lend a connection, and to execute a
statement. Any state will do for the database, so that a script of answers and real tables serve
alike.
-/

namespace DocSearch.Store

/-- A row as it is fetched. -/
abbrev Row := List Value

/-- What a statement brings: rows, one after the other, at whose end there is no more or the
connection breaks, and the number of rows it touched. -/
structure Rows where
  rows : List Row := []
  failure : Option String := none
  count : Int := -1

/-- The first row, if there is one. -/
def Rows.first (r : Rows) : Except String (Option Row) :=
  match r.rows, r.failure with
  | row :: _, _ => .ok (some row)
  | [], some message => .error message
  | [], none => .ok none

/-- How a database answers a statement. -/
inductive Reaction where
  | failed (message : String)
  | brought (r : Rows)

/-- A database with states of type `σ`. Connecting and lending may fail with a message. -/
structure Database (σ : Type) where
  connect : σ → Option String × σ
  lend : σ → Option String × σ
  execute : Statement → σ → Reaction × σ

/-- What a pool of connections is made with. -/
structure PoolPlan where
  address : Value
  least : Value
  most : Value

end DocSearch.Store
