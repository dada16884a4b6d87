import DocSearch.Store.Cursor
import DocSearch.Store.Pattern

/-!
# The store of chunks

Chunks and their embeddings live in two tables of a database that is reached through a pool of
connections. Each operation is an action over a world outside.
-/

namespace DocSearch.Store

open DocSearch.Action

variable {σ : Type} (o : Outside σ)

/-- The logger of the store. -/
def storeLogger : String := "godoc_rag.storage.store"

/-! ## The pool -/

/-- Makes and opens the pool, unless it is open. -/
def openPool (plan : PoolPlan) : Action σ Unit := do
  if (← get).isOpen then return
  leave (.poolMade plan)
  leave .poolOpened
  match ← outside o.connect with
  | some message => throw (.store (.unconnected message))
  | none => modify fun p => { p with isOpen := true }

/-- Closes the pool, if it is open. -/
def closePool : Action σ Unit := do
  if (← get).isOpen then
    leave .poolClosed
    modify fun p => { p with isOpen := false }

/-- Fails unless the pool is open. -/
def requireOpen : Action σ Unit := do
  if !(← get).isOpen then throw (.store .notOpen)

/-! ## Statements -/

/-- Executes a statement. -/
def send (s : Statement) : Action σ Reaction := do
  leave (.executed s)
  outside (o.execute s)

/-- Executes a statement that has to succeed. -/
def execute (s : Statement) : Action σ Rows := do
  match ← send o s with
  | .failed message => throw (.store (.failed message))
  | .brought r => pure r

/-- Executes a statement and fetches its first row. -/
def executeFirst (s : Statement) : Action σ (Option Row) := do
  ofExcept (fun message => .store (.failed message)) (← execute o s).first

/-- The integer in the first column of a row. -/
def firstInteger : Row → Except Error Int
  | [] => .error .emptyRow
  | v :: _ => v.toInteger.mapError .notInteger

/-! ## The schema -/

/-- The dimension of the column of embeddings, if there is one already. -/
def columnDimension : Action σ (Option Nat) := do
  match ← executeFirst o .columnType with
  | none | some [] => pure none
  | some (.text type :: _) => ofExcept (fun e => .store (.dimensionUnread e)) (vectorDimension type)
  | some (v :: _) => throw (.store (.notTypeName v.typeName))

/-- The text of a value that a message counts with. -/
def countText (v : Value) : Except Error String :=
  match v.countText? with
  | some s => .ok s
  | none => .error (.notCount v.typeName)

/-- Creates the extension, the tables and, if asked for, the index. A column of embeddings that has
another dimension is reported and left alone. -/
def migrate (dimension annIndex : Value) : Action σ Unit := do
  let n ← ofExcept (fun e => .store (.notInteger e)) dimension.toInteger
  if n ≤ 0 then throw (.store (.badDimension dimension.display))
  requireOpen
  discard (execute o .createExtension)
  discard (execute o .createChunks)
  match ← columnDimension o with
  | some existing =>
    if (existing : Int) != n then
      let wanted ← ofExcept .store (countText dimension)
      log .warning storeLogger
        s!"Table embeddings has dimension {existing}, but {wanted} was requested; leaving it unchanged"
  | none => pure ()
  discard (execute o (.createEmbeddings n))
  if annIndex.truthy then discard (execute o .createIndex)
  let shown ← ofExcept .store (countText dimension)
  log .info storeLogger s!"Schema ready (dimension={shown}, ann_index={annIndex.display})"

/-! ## Writing -/

/-- The row of a chunk: its text and its identity. -/
def chunkRow (c : Chunk) : Record := ⟨c.text, c.package, c.filename, c.symbol, c.kind⟩

/-- Stores a chunk under its identity and tells its id. -/
def upsertChunk (c : Chunk) : Action σ Int := do
  requireOpen
  match ← executeFirst o (.upsertChunk (chunkRow c)) with
  | none => throw (.store (.noId c.symbol))
  | some row => ofExcept .store (firstInteger row)

/-- The literal of a vector that is given as a value. -/
def literalOf (vector : Value) : Except Error String :=
  ((vectorOf vector).map vectorLiteral).mapError .notVector

/-- Stores the embedding of the chunk with the given id. -/
def upsertVector (id : Int) (vector : Value) : Action σ Unit := do
  requireOpen
  let literal ← ofExcept .store (literalOf vector)
  discard (execute o (.upsertVector id literal))

/-- Ids in order, each once. -/
def sortedIds (ids : List Int) : List Int := (ids.mergeSort fun a b => decide (a ≤ b)).eraseDups

/-- Deletes the chunks at or below `root` whose ids are not among `keep`, with their embeddings, and
tells their number. -/
def prune (root : String) (keep : List Int) : Action σ Int := do
  requireOpen
  let r ← execute o (.prune root (patternBelow root) (sortedIds keep))
  log .info storeLogger s!"Pruned {r.count} stale chunks under {root}"
  return r.count

/-! ## Reading -/

/-- The number that a counting statement brings. -/
def count (s : Statement) : Action σ Int := do
  requireOpen
  match ← executeFirst o s with
  | none => throw (.store .noRow)
  | some row => ofExcept .store (firstInteger row)

/-- The number of chunks. -/
def countChunks : Action σ Int := count o .countChunks

/-- The number of embeddings. -/
def countEmbeddings : Action σ Int := count o .countEmbeddings

/-- Starts a search for the chunks nearest to a vector. The cursor holds a connection. -/
def nearest (vector limit : Value) : Action σ Cursor := do
  requireOpen
  match ← outside o.lend with
  | some message => throw (.store (.failed message))
  | none => leave .lent
  let literal ← ofExcept .store (literalOf vector)
  match ← send o (.nearest literal limit) with
  | .failed message =>
    leave .returned
    throw (.store (.queryFailed message))
  | .brought r => return .ofRows r

end DocSearch.Store
