import DocSearch.Store.Database
import DocSearch.Store.Pattern
import DocSearch.Embedding.Nearness
import DocSearch.Embedding.Vector
import DocSearch.Value.Integer

/-!
# Tables

What the statements of the store mean for its two tables. A chunk has an id, an embedding belongs to
the chunk with its id and goes when that chunk goes. A search orders the embedded chunks by nearness,
and equally near ones by identity.

Which id a new chunk gets is not up to the tables. `SerialTables` have a counter for it, which begins
with one and goes on by one for each new identity.
-/

namespace DocSearch.Store

open Number Text

/-- The chunks with their ids, the literals of the embeddings by chunk, and the dimension of the
column of embeddings. -/
structure Tables where
  chunks : List (Int × Record)
  vectors : List (Int × String)
  dimension : Option Int
deriving DecidableEq

namespace Tables

/-- No tables yet. -/
def empty : Tables := ⟨[], [], none⟩

/-! ## Writing -/

/-- The id of the chunk with an identity. -/
def idOf? (t : Tables) (i : Identity) : Option Int :=
  (t.chunks.find? fun c => c.2.identity = i).map (·.1)

/-- Stores a row under its identity: the data of the row that is there, or a row with the id
`new`. -/
def upsertChunk (new : Int) (t : Tables) (r : Record) : Int × Tables :=
  match t.idOf? r.identity with
  | some id =>
    (id, { t with
      chunks := t.chunks.map fun c => if c.1 = id then (id, { c.2 with data := r.data }) else c })
  | none => (new, { t with chunks := t.chunks ++ [(new, r)] })

/-- Stores the literal of the chunk with the given id, if there is such a chunk. -/
def upsertVector (t : Tables) (id : Int) (literal : String) : Option Tables :=
  if t.chunks.any fun c => c.1 = id then
    some { t with
      vectors := if t.vectors.any fun v => v.1 = id then
          t.vectors.map fun v => if v.1 = id then (id, literal) else v
        else t.vectors ++ [(id, literal)] }
  else none

/-- Whether pruning deletes a chunk. -/
def isStale (root pattern : String) (keep : List Int) (c : Int × Record) : Bool :=
  (c.2.filename == root || fits pattern.toList c.2.filename.toList) && !keep.contains c.1

/-- Deletes stale chunks and their embeddings, and tells the number of the chunks. -/
def prune (t : Tables) (root pattern : String) (keep : List Int) : Nat × Tables :=
  let stale := t.chunks.filter (isStale root pattern keep)
  (stale.length, { t with
    chunks := t.chunks.filter fun c => !isStale root pattern keep c
    vectors := t.vectors.filter fun v => !stale.any fun c => c.1 = v.1 })

/-! ## Reading -/

/-- The numbers of a literal. -/
def numbersOf (literal : String) : List Float :=
  (splitAt ',' (trimBy (fun c => c == '[' || c == ']') literal.toList)).filterMap fun cs =>
    readFloat? (String.ofList cs)

/-- The order of identities: by package, file, symbol and kind. -/
def identityLe (a b : Identity) : Bool :=
  (compareOfLessAndEq a.package b.package |>.then <|
    compareOfLessAndEq a.filename b.filename |>.then <|
    compareOfLessAndEq a.symbol b.symbol |>.then <|
    compareOfLessAndEq a.kind b.kind).isLE

/-- A chunk with the nearness of its embedding. -/
structure Hit where
  nearness : Fraction
  record : Record

/-- Whether a hit comes before another one, or may. -/
def Hit.le (a b : Hit) : Bool :=
  !a.nearness.le b.nearness ||
    (b.nearness.le a.nearness && identityLe a.record.identity b.record.identity)

/-- The chunks that have an embedding, with their nearness to `query`. -/
def hits (t : Tables) (query : List Float) : List Hit :=
  t.chunks.filterMap fun c =>
    (t.vectors.lookup c.1).map fun literal => ⟨nearness query (numbersOf literal), c.2⟩

/-- The embedded chunks, nearest first. -/
def ranked (t : Tables) (query : List Float) : List Record :=
  ((t.hits query).mergeSort Hit.le).map (·.record)

/-! ## Answers -/

/-- The row of a record in the order of the columns that a search selects. -/
def rowOf (r : Record) : Row := [r.data, r.package, r.filename, r.symbol, r.kind].map .text

/-- Cuts rows to a limit; without a limit all remain. -/
def cut (limit : Value) (rows : List Row) : Reaction :=
  match limit with
  | .null => .brought { rows }
  | v =>
    match v.toInteger with
    | .ok n =>
      if n < 0 then .failed "LIMIT must not be negative" else .brought { rows := rows.take n.toNat }
    | .error e => .failed e.message

end Tables

/-! ## Statements -/

/-- Tables with a counter for the ids of new chunks. -/
structure SerialTables extends Tables where
  nextId : Int

namespace SerialTables

instance : Coe SerialTables Tables := ⟨toTables⟩

/-- No tables yet. -/
def empty : SerialTables := ⟨.empty, 1⟩

/-- The id of the next new chunk. The counter passes over ids that are in use. -/
def newId (t : SerialTables) : Int := t.chunks.foldl (fun n c => max n (c.1 + 1)) t.nextId

/-- Stores a row, a new one with the next id. -/
def upsertChunk (t : SerialTables) (r : Record) : Int × SerialTables :=
  let (id, tables) := t.toTables.upsertChunk t.newId r
  (id, ⟨tables, max t.nextId (id + 1)⟩)

/-- What a statement brings, and the tables behind it. -/
def execute (s : Statement) (t : SerialTables) : Reaction × SerialTables :=
  match s with
  | .createExtension | .createChunks | .createIndex => (.brought {}, t)
  | .columnType =>
    (.brought { rows := (t.dimension.map fun n => [Value.text s!"vector({n})"]).toList }, t)
  | .createEmbeddings n => (.brought {}, { t with dimension := some (t.dimension.getD n) })
  | .upsertChunk r =>
    let (id, t) := t.upsertChunk r
    (.brought { rows := [[.int id]] }, t)
  | .upsertVector id literal =>
    match t.upsertVector id literal with
    | some tables => (.brought {}, ⟨tables, t.nextId⟩)
    | none => (.failed s!"Key (id)=({id}) is not present in table \"chunks\".", t)
  | .nearest literal limit =>
    (Tables.cut limit ((t.ranked (Tables.numbersOf literal)).map Tables.rowOf), t)
  | .prune root pattern keep =>
    let (n, tables) := t.prune root pattern keep
    (.brought { count := n }, ⟨tables, t.nextId⟩)
  | .countChunks => (.brought { rows := [[.int t.chunks.length]] }, t)
  | .countEmbeddings => (.brought { rows := [[.int t.vectors.length]] }, t)

end SerialTables

end DocSearch.Store
