import DocSearch.Prompt.Quote
import DocSearch.Chunk

/-!
# Prompts with retrieved context

The prompt for the query model holds the user's words and, behind them, one block per retrieved
record, in rank order.
-/

namespace DocSearch.Prompt

open Text

/-- The instructions that the query model gets with every prompt. -/
def systemPrompt : String :=
  "You will receive user prompts/queries along with real context from RAG.\n" ++
  "The user prompt will be surrounded by <user></user>\n" ++
  "The context will be surrounded by <context source=\"...\"></context>\n" ++
  "Provide the user details about the source of the context that you use.\n" ++
  "If the context doesn't contain relevant information, say \"I don't have enough information to " ++
  "answer that question."

/-- The prompt that is asked when none is given. -/
def defaultPrompt : String :=
  "I am designing another package that needs to update a user's email. " ++
  "Which files should I look at first?"

/-- The block of a record: its identity as attributes and its text. -/
def contextBlock (r : Record) : String :=
  "<context package=" ++ quote r.package ++ " filename=" ++ quote r.filename ++ " symbol=" ++
    quote r.symbol ++ " kind=" ++ quote r.kind ++ ">" ++ r.data ++ "</context>\n"

/-- The blocks of the records, one after the other. -/
def context (records : List Record) : String := String.join (records.map contextBlock)

/-- The user's words and the context behind them. -/
def prompt (query context : String) : String := "<user>" ++ query ++ "</user>\n" ++ context

end DocSearch.Prompt
