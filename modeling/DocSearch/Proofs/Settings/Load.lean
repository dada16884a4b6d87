import DocSearch.Settings.Load
import DocSearch.Proofs.Files.Follow
import DocSearch.Proofs.Settings.Layer

/-!
# What a settings file gives

A settings file is told by the entries of its document, and by whether a list or a mapping in it
holds itself (`Holds`); a file is loaded from these alone (`load_of_holds`).

**Layers.** Each field of the settings has the value given on top, else the expanded value of the
file, else its default (`topmost_layer_iff`). A file in which something holds itself is the one
exception, since its expansion has no end.

**Refusals.** A file is refused if a section of it does not fit. Other keys at its top are not looked
at, so that a misspelt section is passed over (`refusal_iff`).

Both are first said of any entries, whoever has read them (`entries_layered_iff`,
`entries_refused_iff`).
-/

namespace DocSearch.Settings

open Files Text Value Yaml

variable {disk : Disk} {path : String} {entries : List (Value × Value)} {endless : Bool}

/-! ## Files -/

/-- What the settings file at a path holds: the entries of its document, and whether a list or a
mapping in it holds itself. A document that counts as false has no entries. -/
inductive Holds (disk : Disk) (path : String) : List (Value × Value) → (endless : Bool) → Prop
  | mapping {bytes : Bytes} {cs : List Char} {document : Document} {entries : List (Value × Value)}
    (hbytes : disk.read ⟨tidy path, []⟩ = .ok bytes) (hcs : Utf8.decode bytes = .ok cs)
    (hdocument : read cs = .ok document) (hvalue : document.value = .map entries) :
    Holds disk path entries document.endless
  | nothing {bytes : Bytes} {cs : List Char} {document : Document}
    (hbytes : disk.read ⟨tidy path, []⟩ = .ok bytes) (hcs : Utf8.decode bytes = .ok cs)
    (hdocument : read cs = .ok document) (hvalue : ∀ es, document.value ≠ .map es)
    (hfalse : document.value.truthy = false) : Holds disk path [] false

theorem keyedOnce_nil : KeyedOnce [] := ⟨.nil, fun _ he => absurd he List.not_mem_nil⟩

theorem Holds.keyedOnce (h : Holds disk path entries endless) : KeyedOnce entries := by
  cases h with
  | mapping _ _ hdocument hvalue => exact keyedOnce_of_read hdocument hvalue
  | nothing => exact keyedOnce_nil

theorem isOk_entry_of_read {p : Place} {bytes : Bytes} (h : disk.read p = .ok bytes) :
    (disk.entry p true).isOk = true := by
  unfold Disk.read at h
  split_ifs at h
  · cases h
  · obtain ⟨e, he, -⟩ := exists_of_bind h
    rw [he]
    rfl

/-- A file that can be read is loaded from its text. -/
theorem load_of_read {bytes : Bytes} {cs : List Char} (env : Environment)
    (hbytes : disk.read ⟨tidy path, []⟩ = .ok bytes) (hcs : Utf8.decode bytes = .ok cs) :
    load env disk (some path) = ofText env (tidy path) cs := by
  unfold load
  dsimp only
  rw [if_pos (isOk_entry_of_read hbytes), hbytes]
  change ((Utf8.decode bytes).mapError _ >>= _) = _
  rw [hcs]
  rfl

/-- A document without sections leaves the defaults. -/
theorem ofDocument_of_none (h : KeyedOnce entries)
    (hnone : ∀ s : Section, lookup s.name entries = none) (env : Environment) :
    ofDocument env entries = .ok .default := by
  rw [ofDocument_of_fits h (fun s v hv => by simp [hnone s] at hv) env]
  refine congrArg Except.ok (ext_fields fun s => ?_)
  simp [documentSettings, Settings.default, fieldIn?, hnone s]

section Text

variable {cs : List Char} {document : Document} {env : Environment}

theorem ofText_of_map (hdocument : read cs = .ok document)
    (hvalue : document.value = .map entries) :
    ofText env path cs = ofEntries env path entries document.endless := by
  unfold ofText
  rw [hdocument]
  obtain ⟨value, endless⟩ := document
  obtain rfl : value = .map entries := hvalue
  rfl

theorem ofText_of_false (hdocument : read cs = .ok document)
    (hvalue : ∀ es, document.value ≠ .map es) (hfalse : document.value.truthy = false) :
    ofText env path cs = .ok .default := by
  unfold ofText
  rw [hdocument]
  obtain ⟨value, endless⟩ := document
  cases value with
  | map es => exact absurd rfl (hvalue es)
  | _ => exact if_neg (t := Except.error (LoadError.notMapping path)) (ne_true_of_eq_false hfalse)

end Text

/-- **What is loaded from a file**: the settings of its document, unless something in it holds
itself. -/
theorem load_of_holds (h : Holds disk path entries endless) (env : Environment) :
    load env disk (some path) = ofEntries env (tidy path) entries endless := by
  cases h with
  | mapping hbytes hcs hdocument hvalue =>
    rw [load_of_read env hbytes hcs, ofText_of_map hdocument hvalue]
  | nothing hbytes hcs hdocument hvalue hfalse =>
    rw [load_of_read env hbytes hcs, ofText_of_false hdocument hvalue hfalse,
      ofEntries, ofDocument_of_none keyedOnce_nil fun _ => rfl]
    rfl

/-! ## A folder with a settings file -/

/-- A folder with one settings file. -/
def settingsDisk (text : String) : Disk :=
  ⟨.folder [("config.yaml", .file (Utf8.encode text))], [], []⟩

/-- Whether what was read is one section with one field, whose value passes a test. -/
def isSection (name field : String) (test : Value → Bool) (endless : Bool) :
    Except Yaml.Error Document → Bool
  | .ok ⟨.map [(.text s, .map [(.text f, v)])], e⟩ =>
    s = name && f = field && test v && e == endless
  | _ => false

theorem eq_ok_of_isSection {name field : String} {test : Value → Bool} {value : Value}
    {r : Except Yaml.Error Document} (h : isSection name field test endless r = true)
    (htest : ∀ v, test v = true → v = value) :
    r = .ok ⟨.map [(.text name, .map [(.text field, value)])], endless⟩ := by
  unfold isSection at h
  split at h
  · simp only [Bool.and_eq_true, decide_eq_true_eq, beq_iff_eq] at h
    obtain ⟨⟨⟨rfl, rfl⟩, hv⟩, rfl⟩ := h
    rw [htest _ hv]
  · cases h

/-- Whether a value is this text. -/
def isText (s : String) : Value → Bool
  | .text t => t = s
  | _ => false

theorem eq_of_isText {s : String} (v : Value) (h : isText s v = true) : v = .text s := by
  unfold isText at h
  split at h
  · rw [of_decide_eq_true h]
  · cases h

/-- Whether a value is a list that has nothing in it where it holds itself. -/
def isLoop : Value → Bool
  | .list [.null] => true
  | _ => false

theorem eq_of_isLoop (v : Value) (h : isLoop v = true) : v = .list [.null] := by
  unfold isLoop at h
  split at h
  · rfl
  · cases h

theorem holds_settingsDisk {text : String} (document : Document)
    (hcs : Utf8.decode (Utf8.encode text) = .ok text.toList)
    (hdocument : read text.toList = .ok document) (hvalue : document.value = .map entries) :
    Holds (settingsDisk text) "config.yaml" entries document.endless := by
  have htidy : tidy "config.yaml" = "config.yaml" := by decide +kernel
  refine .mapping ?_ hcs hdocument hvalue
  rw [htidy]
  exact read_name rfl ⟨by decide, by decide, by decide⟩ (by decide) (Keyed.lookup_cons_self)

/-- A document that names the database and nothing else. -/
def databaseAlone (url : Value) : List (Value × Value) :=
  [(.text "database", .map [(.text "url", url)])]

theorem isField_url (url : Value) : ∀ e ∈ [(Value.text "url", url)], IsField .database e.1 :=
  fun e he => ⟨"url", by decide, List.mem_singleton.1 he ▸ rfl⟩

theorem sectionsFit_databaseAlone (url : Value) : SectionsFit (databaseAlone url) := by
  intro s v hv
  obtain ⟨hname, rfl⟩ := Prod.mk.inj (List.mem_singleton.1 (mem_of_lookup hv))
  obtain rfl : s = .database := name_inj.1 (Value.text.inj hname)
  exact ⟨_, rfl, isField_url url⟩

theorem fieldsGiven_database (url : Value) :
    FieldsGiven [("database", .map [(.text "url", url)])] :=
  ⟨List.nodup_singleton _, fun _ hg =>
    ⟨.database, _, List.mem_singleton.1 hg, List.pairwise_singleton _ _, isField_url url⟩⟩

theorem holds_database : Holds (settingsDisk "database:\n  url: db\n") "config.yaml"
    (databaseAlone (.text "db")) false :=
  holds_settingsDisk ⟨.map (databaseAlone (.text "db")), false⟩ (by decide +kernel)
    (eq_ok_of_isSection (by decide +kernel) (eq_of_isText (s := "db"))) rfl

/-! ## Every field comes from the topmost layer that has it -/

/-- The layers of any document, whoever has read it, in which no mapping has a key twice. -/
theorem entries_layered_iff (env : Environment) {given : List (String × Value)}
    (hkeyed : KeyedOnce entries) (hfits : SectionsFit entries) (hgiven : FieldsGiven given) :
    (∃ loaded settings, ofEntries env path entries endless = .ok loaded ∧
      loaded.override given = .ok settings ∧
      (∀ s, settings.fields s = s.defaults.map fun f => (f.1,
        (givenFor? given s f.1).getD (((fieldIn? entries s f.1).map (expand env)).getD f.2))) ∧
      settings.override given = .ok settings) ↔ endless = false := by
  rw [ofEntries, ofDocument_of_fits hkeyed hfits env]
  cases endless with
  | true =>
    refine iff_of_false (fun h => ?_) Bool.noConfusion
    obtain ⟨_, _, hloaded, -⟩ := h
    cases hloaded
  | false =>
    refine iff_of_true ⟨documentSettings env entries, _, rfl, override_eq hgiven _,
      fun s => ?_, ?_⟩ rfl
    · simp [overridden, documentSettings]
    · rw [override_eq hgiven, overridden_overridden]

/-- **Layers.** For a file whose sections fit and for values given for fields: the file is loaded
and overridden, each field has the value given for it, else the expanded value that the file has for
it, else its default, and overriding once more changes nothing; all this exactly if nothing in the
file holds itself. Escapes in the file that stand for surrogates are left out: one on its own reads
as `U+FFFD`, and two halves read as the character that they make. -/
theorem topmost_layer_iff (env : Environment) {given : List (String × Value)}
    (hfile : Holds disk path entries endless) (hfits : SectionsFit entries)
    (hgiven : FieldsGiven given) :
    (∃ loaded settings, load env disk (some path) = .ok loaded ∧
      loaded.override given = .ok settings ∧
      (∀ s, settings.fields s = s.defaults.map fun f => (f.1,
        (givenFor? given s f.1).getD (((fieldIn? entries s f.1).map (expand env)).getD f.2))) ∧
      settings.override given = .ok settings) ↔ endless = false := by
  rw [load_of_holds hfile]
  exact entries_layered_iff env hfile.keyedOnce hfits hgiven

/-- A database that is given stands in place of the one in the file. -/
theorem topmost_layer_iff_database :
    Holds (settingsDisk "database:\n  url: db\n") "config.yaml"
        (databaseAlone (.text "db")) false ∧
      SectionsFit (databaseAlone (.text "db")) ∧
      FieldsGiven [("database", .map [(.text "url", .text "other")])] ∧
      ∃ loaded settings,
        load [] (settingsDisk "database:\n  url: db\n") (some "config.yaml") = .ok loaded ∧
        loaded.override [("database", .map [(.text "url", .text "other")])] = .ok settings ∧
        settings.get .database "url" = .text "other" ∧
        settings.get .database "dimension" = .int 768 := by
  have hfits := sectionsFit_databaseAlone (.text "db")
  have hgiven := fieldsGiven_database (.text "other")
  obtain ⟨loaded, settings, hload, hoverride, hfields, -⟩ :=
    (topmost_layer_iff [] holds_database hfits hgiven).2 rfl
  refine ⟨holds_database, hfits, hgiven, loaded, settings, hload, hoverride, ?_, ?_⟩
  · rw [Settings.get, hfields]
    rfl
  · rw [Settings.get, hfields]
    rfl

/-- Where the database of the file is a list that holds itself, nothing is loaded. -/
theorem self_holding_unloaded :
    Holds (settingsDisk "database:\n  url: &a [*a]\n") "config.yaml"
        (databaseAlone (.list [.null])) true ∧
      SectionsFit (databaseAlone (.list [.null])) ∧
      FieldsGiven [("database", .map [(.text "url", .text "postgres://db/docs")])] ∧
      load [] (settingsDisk "database:\n  url: &a [*a]\n") (some "config.yaml") =
        .error .endless := by
  have hholds : Holds (settingsDisk "database:\n  url: &a [*a]\n") "config.yaml"
      (databaseAlone (.list [.null])) true :=
    holds_settingsDisk ⟨.map (databaseAlone (.list [.null])), true⟩ (by decide +kernel)
      (eq_ok_of_isSection (by decide +kernel) eq_of_isLoop) rfl
  exact ⟨hholds, sectionsFit_databaseAlone _, fieldsGiven_database _, load_of_holds hholds []⟩

/-! ## What is refused -/

/-- Entries that name sections and fields of these and nothing else. -/
structure WellNamed (entries : List (Value × Value)) : Prop where
  sections : ∀ e ∈ entries, ∃ s : Section, e.1 = .text s.name
  fields : SectionsFit entries

/-- What is refused of any document, whoever has read it, in which no mapping has a key twice. -/
theorem entries_refused_iff (env : Environment) (hkeyed : KeyedOnce entries) :
    ((¬ WellNamed entries →
        ∃ cause, ofEntries env path entries endless = .error (.unfit path cause)) ∧
      (WellNamed entries → ∃ settings, ofEntries env path entries endless = .ok settings)) ↔
    endless = false ∧
      (SectionsFit entries → ∀ e ∈ entries, ∃ s : Section, e.1 = .text s.name) := by
  rw [ofEntries]
  cases endless with
  | true =>
    refine iff_of_false (fun h => ?_) fun h => Bool.noConfusion h.1
    by_cases hnamed : WellNamed entries
    · obtain ⟨_, hloaded⟩ := h.2 hnamed
      cases hloaded
    · obtain ⟨_, hrefused⟩ := h.1 hnamed
      cases hrefused
  | false =>
    -- What is at the top matters only where the sections fit: otherwise it is refused anyway.
    by_cases hfits : SectionsFit entries
    · rw [ofDocument_of_fits hkeyed hfits env]
      constructor
      · refine fun h => ⟨rfl, fun _ => ?_⟩
        by_contra hunknown
        obtain ⟨_, hrefused⟩ := h.1 fun hnamed => hunknown hnamed.sections
        cases hrefused
      · exact fun h => ⟨fun hnamed => absurd ⟨h.2 hfits, hfits⟩ hnamed, fun _ => ⟨_, rfl⟩⟩
    · obtain ⟨cause, hcause⟩ := ofDocument_of_unfit hkeyed hfits env
      rw [hcause]
      exact iff_of_true ⟨fun _ => ⟨cause, rfl⟩, fun hnamed => absurd hnamed.fields hfits⟩
        ⟨rfl, fun h => absurd h hfits⟩

/-- **Misspelt settings.** A file is refused if it names anything unknown and loaded otherwise,
exactly if nothing in it holds itself and, where its sections fit, nothing but sections stands at its
top: other keys at the top are passed over. As with the layers, escapes of surrogates are left
out. -/
theorem refusal_iff (env : Environment) (hfile : Holds disk path entries endless) :
    ((¬ WellNamed entries →
        ∃ cause, load env disk (some path) = .error (.unfit (tidy path) cause)) ∧
      (WellNamed entries → ∃ settings, load env disk (some path) = .ok settings)) ↔
    endless = false ∧
      (SectionsFit entries → ∀ e ∈ entries, ∃ s : Section, e.1 = .text s.name) := by
  rw [load_of_holds hfile]
  exact entries_refused_iff env hfile.keyedOnce

/-- A file that names a database and nothing else is loaded. -/
theorem refusal_iff_database :
    Holds (settingsDisk "database:\n  url: db\n") "config.yaml"
        (databaseAlone (.text "db")) false ∧
      WellNamed (databaseAlone (.text "db")) ∧
      ∃ settings,
        load [] (settingsDisk "database:\n  url: db\n") (some "config.yaml") = .ok settings := by
  have hnamed : WellNamed (databaseAlone (.text "db")) :=
    ⟨fun e he => ⟨.database, List.mem_singleton.1 he ▸ rfl⟩, sectionsFit_databaseAlone _⟩
  exact ⟨holds_database, hnamed,
    ((refusal_iff [] holds_database).2 ⟨rfl, fun _ => hnamed.sections⟩).2 hnamed⟩

/-- A misspelt section is passed over without a sign. -/
theorem misspelt_section_loaded :
    Holds (settingsDisk "databse:\n  url: db\n") "config.yaml"
        [(.text "databse", .map [(.text "url", .text "db")])] false ∧
      ¬ WellNamed [(.text "databse", .map [(.text "url", .text "db")])] ∧
      load [] (settingsDisk "databse:\n  url: db\n") (some "config.yaml") = .ok .default := by
  have hholds : Holds (settingsDisk "databse:\n  url: db\n") "config.yaml"
      [(.text "databse", .map [(.text "url", .text "db")])] false :=
    holds_settingsDisk ⟨.map [(.text "databse", .map [(.text "url", .text "db")])], false⟩
      (by decide +kernel) (eq_ok_of_isSection (by decide +kernel) (eq_of_isText (s := "db"))) rfl
  refine ⟨hholds, fun hnamed => ?_, ?_⟩
  · obtain ⟨s, hs⟩ := hnamed.sections _ List.mem_cons_self
    cases s <;> simp [Section.name] at hs
  · rw [load_of_holds hholds, ofEntries,
      ofDocument_of_none hholds.keyedOnce fun s => by cases s <;> rfl]
    rfl

end DocSearch.Settings
