import DocSearch.Fields
import DocSearch.Embedding.Vector
import DocSearch.Value.Integer

/-!
# Why the store fails
-/

namespace DocSearch.Store

open Number Text

/-- Why an operation of the store fails. -/
inductive Error where
  | notOpen
  | unconnected (message : String)
  | failed (message : String)
  | queryFailed (message : String)
  | rowUnread (message : String)
  | noId (symbol : String)
  | noRow
  | emptyRow
  | notInteger (cause : IntegerError)
  | badDimension (shown : String)
  | notTypeName (type : String)
  | dimensionUnread (cause : NumeralError)
  | notCount (type : String)
  | notVector (cause : ConversionError)
  | notRecord (cause : BindError)
deriving Repr, DecidableEq

/-- The error text. -/
def Error.message : Error → String
  | .notOpen => "ChunkStore not initialized"
  | .unconnected message => s!"unable to connect: {message}"
  | .failed message => message
  | .queryFailed message => s!"failed to query similar chunks: {message}"
  | .rowUnread message => s!"failed to read search result: {message}"
  | .noId symbol => s!"upsert returned no id for {symbol}"
  | .noRow => quoted "NoneType" ++ " object is not subscriptable"
  | .emptyRow => "list index out of range"
  | .notInteger cause => cause.message
  | .badDimension shown => s!"invalid embedding dimension: {shown}"
  | .notTypeName type => s!"expected string or bytes-like object, got {quoted type}"
  | .dimensionUnread cause => cause.message
  | .notCount type => s!"%d format: a real number is required, not {type}"
  | .notVector cause => cause.message
  | .notRecord cause => cause.message

end DocSearch.Store
