import DocSearch.Chunk
import DocSearch.Value

/-!
# Statements

The statements that the store sends to its database, with their texts and parameters. Chunks are
unique by identity, and the table of embeddings has at most one vector for each chunk.
-/

namespace DocSearch.Store

/-- A statement with its parameters. -/
inductive Statement where
  | createExtension
  | createChunks
  | columnType
  | createEmbeddings (dimension : Int)
  | createIndex
  | upsertChunk (row : Record)
  | upsertVector (id : Int) (literal : String)
  | nearest (literal : String) (limit : Value)
  | prune (root pattern : String) (keep : List Int)
  | countChunks
  | countEmbeddings

namespace Statement

/-- The text of a statement on one line. -/
def text : Statement → String
  | .createExtension => "CREATE EXTENSION IF NOT EXISTS vector"
  | .createChunks =>
    "CREATE TABLE IF NOT EXISTS chunks ( id SERIAL PRIMARY KEY, data TEXT NOT NULL, " ++
    "package TEXT NOT NULL, filename TEXT NOT NULL, symbol TEXT NOT NULL, kind TEXT NOT NULL, " ++
    "UNIQUE (package, filename, symbol, kind) )"
  | .columnType =>
    "SELECT pg_catalog.format_type(atttypid, atttypmod) FROM pg_attribute " ++
    "WHERE attrelid = to_regclass(\x27embeddings\x27) AND attname = \x27embedding\x27"
  | .createEmbeddings dimension =>
    "CREATE TABLE IF NOT EXISTS embeddings ( " ++
    "id INTEGER PRIMARY KEY REFERENCES chunks(id) ON DELETE CASCADE, embedding vector(" ++
    toString dimension ++ ") )"
  | .createIndex =>
    "CREATE INDEX IF NOT EXISTS embeddings_embedding_idx ON embeddings " ++
    "USING hnsw (embedding vector_cosine_ops)"
  | .upsertChunk _ =>
    "INSERT INTO chunks (data, package, filename, symbol, kind) VALUES (%s, %s, %s, %s, %s) " ++
    "ON CONFLICT (package, filename, symbol, kind) DO UPDATE SET data = EXCLUDED.data RETURNING id"
  | .upsertVector _ _ =>
    "INSERT INTO embeddings (id, embedding) VALUES (%s, %s::vector) " ++
    "ON CONFLICT (id) DO UPDATE SET embedding = EXCLUDED.embedding"
  | .nearest _ _ =>
    "SELECT c.data, c.package, c.filename, c.symbol, c.kind FROM chunks c " ++
    "JOIN embeddings e ON c.id = e.id ORDER BY e.embedding <=> %s::vector LIMIT %s"
  | .prune _ _ _ =>
    "DELETE FROM chunks WHERE (filename = %s OR filename LIKE %s) AND NOT (id = ANY(%s))"
  | .countChunks => "SELECT COUNT(*) FROM chunks"
  | .countEmbeddings => "SELECT COUNT(*) FROM embeddings"

/-- The parameters of a statement, if it takes any. -/
def parameters : Statement → Option (List Value)
  | .upsertChunk r => some ([r.data, r.package, r.filename, r.symbol, r.kind].map .text)
  | .upsertVector id literal => some [.int id, .text literal]
  | .nearest literal limit => some [.text literal, limit]
  | .prune root pattern keep => some [.text root, .text pattern, .list (keep.map .int)]
  | _ => none

end Statement

end DocSearch.Store
