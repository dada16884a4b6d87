import DocSearch.Settings.Section
import DocSearch.Settings.Expand

/-!
# Layers of settings

A document lies over the defaults, and overrides lie over both. A mapping in an upper layer is merged
with the one below it key by key; anything else hides what is below.
-/

namespace DocSearch.Settings

/-! ## Merging -/

/-- The value under a key among entries. -/
def under? (k : Value) : List (Value × Value) → Option Value
  | [] => none
  | (k', v) :: es => if Value.sameKey k' k then some v else under? k es

mutual

/-- The value `upper` over the value `lower`. -/
def layer (lower : Option Value) : (upper : Value) → Value
  | .map upper =>
    match lower with
    | some (.map below) => .map (layerEntries below upper)
    | _ => .map upper
  | v => v

/-- Entries over the entries `below`. -/
def layerEntries (below : List (Value × Value)) : (upper : List (Value × Value)) →
    List (Value × Value)
  | [] => below
  | (k, v) :: es => layerEntries (Value.putEntry k (layer (under? k below) v) below) es

end

/-- The defaults of all sections as a document. -/
def defaultDocument : List (Value × Value) :=
  Section.all.map fun s => (.text s.name, Value.object s.defaults)

/-! ## Documents -/

/-- Why a section cannot be filled. -/
inductive SectionError where
  | notMapping (s : Section) (type : String)
  | unfit (cause : BindError)
deriving Repr, DecidableEq

/-- The error text. -/
def SectionError.message : SectionError → String
  | .notMapping s type =>
    s!"godoc_rag.config.{s.recordName}() argument after ** must be a mapping, not {type}"
  | .unfit cause => cause.message

/-- The fields of a section in a merged document. -/
def sectionFields (document : List (Value × Value)) (s : Section) :
    Except SectionError FieldValues :=
  match Value.lookup s.name document with
  | some (.map entries) => (s.shape.bindNamed entries).mapError .unfit
  | some v => .error (.notMapping s v.typeName)
  | none => .ok s.defaults

/-- The settings with a document over the defaults. Sections are filled in order; other keys of the
document are passed over. -/
def ofDocument (env : Environment) (document : List (Value × Value)) :
    Except SectionError Settings := do
  let merged := layerEntries defaultDocument (expandEntries env document)
  let database ← sectionFields merged .database
  let models ← sectionFields merged .models
  let index ← sectionFields merged .index
  let retrieval ← sectionFields merged .retrieval
  let server ← sectionFields merged .server
  return ⟨fun
    | .database => database
    | .models => models
    | .index => index
    | .retrieval => retrieval
    | .server => server⟩

/-! ## Overrides -/

/-- Why overrides cannot be applied. -/
inductive OverrideError where
  | unknownSection (name : String)
  | notMapping (type : String)
  | unfit (cause : BindError)
deriving Repr, DecidableEq

/-- The error text. -/
def OverrideError.message : OverrideError → String
  | .unknownSection name => s!"'AppConfig' object has no attribute {Text.quoted name}"
  | .notMapping type => s!"'{type}' object has no attribute 'items'"
  | .unfit cause => cause.message

/-- Fields with new values for some of them. -/
def replaceFields (fields new : FieldValues) : FieldValues :=
  fields.map fun (k, v) => (k, (new.lookup k).getD v)

/-- The settings with new values in one section; nulls leave the old value. -/
def overrideSection (given : Settings) (s : Section) (new : List (Value × Value)) :
    Except OverrideError FieldValues := do
  let kept := new.filter fun (_, v) => !(v matches .null)
  if kept.isEmpty then return given.fields s
  let bound ← (s.shape.bindNamed kept).mapError .unfit
  return replaceFields (given.fields s) bound

/-- The settings with overrides, given by section name, over them. -/
def override (given : Settings) (overrides : List (String × Value)) :
    Except OverrideError Settings :=
  overrides.foldlM (fun settings (name, new) =>
    match Section.ofName? name, new with
    | none, _ => .error (.unknownSection name)
    | some s, .map entries => do
      let fields ← overrideSection given s entries
      return ⟨fun t => if t = s then fields else settings.fields t⟩
    | some _, v => .error (.notMapping v.typeName)) given

end DocSearch.Settings
