import DocSearch.Settings.Layer
import DocSearch.Yaml.Document
import DocSearch.Files.Disk

/-!
# Settings files

A settings file is a YAML document that is a mapping; an empty document, or one that is false, zero
or the like, counts as an empty mapping.
-/

namespace DocSearch.Settings

open Files Text

/-- Why a settings file cannot be used. -/
inductive LoadError where
  | missing (path : String)
  | unread (cause : PathError)
  | notUtf8 (cause : Utf8.DecodeError)
  | malformed (path : String)
  | unformed (cause : Yaml.Error)
  | notMapping (path : String)
  | endless
  | unfit (path : String) (cause : SectionError)
deriving Repr, DecidableEq

/-- The error text. -/
def LoadError.message : LoadError → String
  | .missing path => s!"Config not found: {path}"
  | .unread cause => cause.message
  | .notUtf8 cause => cause.message
  | .malformed path => s!"Invalid config {path}: {Yaml.Error.malformed.message}"
  | .unformed cause => cause.message
  | .notMapping path => s!"Config {path} must be a mapping"
  | .endless => "maximum recursion depth exceeded"
  | .unfit path cause => s!"Invalid config {path}: {cause.message}"

/-- The settings that the entries of a document give; in an endless one something holds itself. -/
def ofEntries (env : Environment) (path : String) (entries : List (Value × Value))
    (endless : Bool) : Except LoadError Settings :=
  if endless then .error .endless else (ofDocument env entries).mapError (.unfit path)

/-- The settings that the text of a file gives. -/
def ofText (env : Environment) (path : String) (cs : List Char) : Except LoadError Settings := do
  let document ← (Yaml.read cs).mapError fun e =>
    if e = .malformed then .malformed path else .unformed e
  match document.value with
  | .map entries => ofEntries env path entries document.endless
  | v => if v.truthy then throw (.notMapping path) else return .default

/-- The settings of a file; without a file, the defaults. -/
def load (env : Environment) (disk : Disk) (path : Option String) : Except LoadError Settings := do
  match path with
  | none => return .default
  | some path =>
    let path := tidy path
    let place : Place := ⟨path, []⟩
    if (disk.entry place true).isOk then
      let bytes ← (disk.read place).mapError .unread
      let cs ← (Utf8.decode bytes).mapError .notUtf8
      ofText env path cs
    else throw (.missing path)

end DocSearch.Settings
