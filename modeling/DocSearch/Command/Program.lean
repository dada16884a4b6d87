import DocSearch.Command.Switch
import DocSearch.Settings.Section
import DocSearch.Prompt.Context

/-!
# The commands of the program

The program has four commands: to embed the documentation below a directory, to answer a prompt, to
serve the search tool, and to create the database schema.
-/

namespace DocSearch.Command

/-- The name that the program is called by. -/
def programName : String := "godoc-rag"

/-- The version of the program. -/
def programVersion : String := "0.1.0"

/-- The switch that asks for help. -/
def helpSwitch : Switch := ⟨"help", .help, "Show this message and exit.", none, none, none, false⟩

/-- The commands. -/
inductive Verb where
  | embed
  | mcp
  | migrate
  | prompt
deriving Repr, DecidableEq

namespace Verb

/-- All commands, in the order in which they are listed. -/
def all : List Verb := [.embed, .mcp, .migrate, .prompt]

/-- The name of a command. -/
def name : Verb → String
  | .embed => "embed"
  | .mcp => "mcp"
  | .migrate => "migrate"
  | .prompt => "prompt"

/-- The command of a name. -/
def ofName? (n : String) : Option Verb := all.find? (·.name == n)

/-- What a command does. -/
def summary : Verb → String
  | .embed => "Embed chunks from a directory."
  | .mcp => "Run MCP server."
  | .migrate => "Create the database schema."
  | .prompt => "Query with a prompt."

/-- The switches of a command. -/
def switches : Verb → List Switch
  | .embed =>
    [{ name := "dir", kind := .text, required := true, help := "Root directory to parse" },
      { name := "workers", kind := .count, help := "Chunks embedded concurrently" },
      { name := "progress", kind := .flag, help := "Show a progress bar" },
      { name := "prune", kind := .flag
        help := "Delete stored chunks under --dir not seen in this run" }]
  | .mcp =>
    [{ name := "addr", kind := .text, envName := some "ADDR"
       help := "Address to bind MCP server (e.g. :8080)" }]
  | .migrate =>
    [{ name := "dimension", kind := .count, help := "Embedding dimension [default: 768]" },
      { name := "ann-index", kind := .flag, help := "Create an HNSW cosine index" }]
  | .prompt =>
    [{ name := "prompt", kind := .text, preset := some Prompt.defaultPrompt
       help := "Prompt to query" },
      { name := "limit", kind := .count, help := "Context records to retrieve" },
      { name := "stream", kind := .flag, help := "Print tokens as they are generated" }]

/-- The interface of a command. -/
def interface (v : Verb) : Interface :=
  ⟨programName ++ " " ++ v.name, [v.summary], v.switches ++ [helpSwitch], []⟩

end Verb

/-- The interface of the program itself. -/
def program : Interface where
  path := programName
  about := ["RAG tools for Go documentation.",
    "A CLI for embedding, querying, and serving Go documentation using RAG."]
  switches :=
    [{ name := "db", kind := .text, envName := some "GODOC_RAG_DB"
       help := s!"Postgres connection string [default: {defaultDatabase}]" },
      { name := "embedding-model", kind := .text
        help := s!"Embedding model name [default: {defaultEmbeddingModel}]" },
      { name := "query-model", kind := .text
        help := s!"Query model name [default: {defaultQueryModel}]" },
      { name := "config", kind := .file, letter := some 'c', envName := some "GODOC_RAG_CONFIG"
        help := "Configuration file path" },
      { name := "verbose", kind := .flag, letter := some 'v', help := "Enable debug logging" },
      { name := "version", kind := .version, help := "Show the version and exit." },
      helpSwitch]
  commands := Verb.all.map fun v => (v.name, v.summary)

end DocSearch.Command
