import DocSearch.Proofs.Doc.Course
import DocSearch.Proofs.Files.Paths

/-!
# The chunks of a folder

A folder is read as a whole. If one of its source files is lost, withheld or no Go source, the
folder has no chunks; otherwise it has those of all its source files, by package and path. **`Own`**
says so of a list of chunks without a word on how files are found and sorted, and `own_spec` that
this is what the chunks of a folder are.
-/

namespace DocSearch.Doc

open Files Text

/-! ## Lists -/

section

variable {α β ε : Type} {l : List α}

theorem mapM_eq_ok {f : α → Except ε β} {g : α → β} (h : ∀ a ∈ l, f a = .ok (g a)) :
    l.mapM f = .ok (l.map g) := by
  induction l with
  | nil => rfl
  | cons a l ih =>
    rw [List.forall_mem_cons] at h
    rw [List.mapM_cons, h.1, ih h.2]
    rfl

theorem filterAuxM_eq_ok {f : α → Except ε Bool} {g : α → Bool} (h : ∀ a ∈ l, f a = .ok (g a))
    (acc : List α) : l.filterAuxM f acc = .ok ((l.filter g).reverse ++ acc) := by
  induction l generalizing acc with
  | nil => rfl
  | cons a l ih =>
    rw [List.forall_mem_cons] at h
    rw [List.filterAuxM, h.1]
    show List.filterAuxM f l (cond (g a) (a :: acc) acc) = _
    rw [ih h.2]
    cases hg : g a <;> simp [hg]

theorem filterM_eq_ok {f : α → Except ε Bool} {g : α → Bool} (h : ∀ a ∈ l, f a = .ok (g a)) :
    l.filterM f = .ok (l.filter g) := by
  rw [List.filterM, filterAuxM_eq_ok h]
  simp [pure, Except.pure, bind, Except.bind]

theorem filterM_eq_error {f : α → Except ε Bool} {a : α} {e : ε} (ha : a ∈ l)
    (h : f a = .error e) : ∃ e', l.filterM f = .error e' := by
  have haux (acc : List α) : ∃ e', l.filterAuxM f acc = .error e' := by
    induction l generalizing acc with
    | nil => cases ha
    | cons b l ih =>
      rw [List.filterAuxM]
      cases hb : f b with
      | error e' => exact ⟨e', rfl⟩
      | ok keep =>
        rcases List.mem_cons.1 ha with rfl | ha
        · rw [h] at hb
          cases hb
        · exact ih ha _
  obtain ⟨e', he'⟩ := haux []
  exact ⟨e', by rw [List.filterM, he']; rfl⟩

end

/-! ## Source files -/

/-- Under a name of the folder at `p` there is a file, perhaps at the end of a link, that holds
`content`. -/
def Holds (disk : Disk) (p : Place) (name : String) (content : Bytes) : Prop :=
  disk.entry (p.below name) true = .ok (.file content)

/-- The name of a source file that keeps its folder from being read. -/
inductive Spoils (disk : Disk) (p : Place) (name : String) : Prop
  /-- A link that comes to no end. -/
  | lost {cause : PathError} (h : disk.entry (p.below name) true = .error cause)
      (hfault : cause.fault ≠ .missing)
  | withheld {content : Bytes} (h : Holds disk p name content)
      (hpath : (p.below name).path ∈ disk.unreadable)
  | unparsed {content : Bytes} {e : ParseError} (h : Holds disk p name content)
      (he : parseSource content (p.below name).path = .error e)

/-- A file found under a name of the folder at `p`, with what parsing its content gives. -/
def Parsed (disk : Disk) (p : Place) (name : String) (f : ParsedFile) : Prop :=
  f.path = (p.below name).path ∧
    ∃ content, Holds disk p name content ∧ parseSource content f.path = .ok (f.package, f.chunks)

variable {disk : Disk} {p : Place} {entries : List (String × Entry)} {name : String}

theorem read_of_holds {content : Bytes} (h : Holds disk p name content)
    (hread : (p.below name).path ∉ disk.unreadable) : disk.read (p.below name) = .ok content := by
  rw [Disk.read, if_neg (by simpa using hread), h]
  rfl

theorem parseFile_of_parsed {f : ParsedFile} (h : Parsed disk p name f)
    (hread : (p.below name).path ∉ disk.unreadable) : parseFile disk (p.below name) = .ok f := by
  obtain ⟨hpath, content, hholds, hparse⟩ := h
  obtain ⟨package, path, chunks⟩ := f
  obtain rfl : path = (p.below name).path := hpath
  rw [parseFile, read_of_holds hholds hread]
  simp only [hparse, Except.mapError, bind, Except.bind, pure, Except.pure]

theorem parsed_of_parseFile {f : ParsedFile} (h : parseFile disk (p.below name) = .ok f) :
    Parsed disk p name f := by
  rw [parseFile] at h
  cases hread : disk.read (p.below name) with
  | error e => rw [hread] at h; cases h
  | ok content =>
    rw [hread] at h
    cases hparse : parseSource content (p.below name).path with
    | error e => simp [hparse, Except.mapError, bind, Except.bind] at h
    | ok r =>
      have hf : (⟨r.1, (p.below name).path, r.2⟩ : ParsedFile) = f := by
        simpa [hparse, Except.mapError, bind, Except.bind, pure, Except.pure] using h
      subst hf
      refine ⟨rfl, content, ?_, hparse⟩
      rw [Disk.read] at hread
      split_ifs at hread
      · cases hread
      · cases hentry : disk.entry (p.below name) true with
        | error e => rw [hentry] at hread; cases hread
        | ok d =>
          rw [hentry] at hread
          cases d with
          | file c =>
            obtain rfl := Except.ok.inj hread
            exact hentry
          | _ => cases hread

theorem parseFile_of_spoils {content : Bytes} (h : Spoils disk p name)
    (hholds : Holds disk p name content) : ∃ e, parseFile disk (p.below name) = .error e := by
  cases hfile : parseFile disk (p.below name) with
  | error e => exact ⟨e, rfl⟩
  | ok f =>
    obtain ⟨hpath, content', hholds', hparse⟩ := parsed_of_parseFile hfile
    rw [hpath] at hparse
    cases h with
    | lost h => cases h.symm.trans hholds
    | withheld _ hpath =>
      have hdenied : disk.read (p.below name) = .error ⟨.denied, (p.below name).path⟩ := by
        rw [Disk.read, if_pos (by simpa using hpath)]
        rfl
      rw [parseFile, hdenied] at hfile
      cases hfile
    | unparsed h he =>
      obtain rfl := Entry.file.inj (Except.ok.inj (hholds'.symm.trans h))
      rw [he] at hparse
      cases hparse

theorem not_spoils_of_parsed {f : ParsedFile} (h : Parsed disk p name f)
    (hread : (p.below name).path ∉ disk.unreadable) : ¬ Spoils disk p name := by
  intro hspoils
  obtain ⟨e, he⟩ := parseFile_of_spoils hspoils h.2.choose_spec.1
  cases (parseFile_of_parsed h hread).symm.trans he

/-- An entry of a folder that is no link is found under its name. -/
theorem entry_below (hstands : Stands disk p entries) {e : Entry} (hname : IsName name)
    (hlookup : entries.lookup name = some e) (hlink : ∀ target, e ≠ .link target) :
    disk.entry (p.below name) true = .ok e := by
  obtain ⟨links, here, hat, honward⟩ := hstands.onward
  have hparts : (p.below name).parts = p.parts ++ [name] := by
    simp [Place.parts, Place.below, List.append_assoc]
  have hfound : disk.top.at? (name :: here).reverse = some e := by
    rw [List.reverse_cons, Entry.at?_append, hat]
    simp [Entry.at?, Entry.get?, hlookup]
  have hspoken : ¬ (p.below name).base.isEmpty = true := hstands.spoken
  rw [Disk.entry, if_neg hspoken, hparts, start_below, honward,
    follow_entry hat hname hlookup hlink, follow_nil, hfound]
  rfl

/-! ## Their names -/

section

variable (hstands : Stands disk p entries) (hproper : (Entry.folder entries).Proper)
  {e : String × Entry} (he : e ∈ entries)

include hstands hproper he

/-- Whether an entry of a folder is a file is told by what is found under its name. -/
theorem isFile_eq : disk.isFile p e =
    match disk.entry (p.below e.1) true with
    | .ok (.file _) => .ok true
    | .ok _ => .ok false
    | .error ⟨.missing, _⟩ => .ok false
    | .error cause => .error cause := by
  cases hproper with
  | folder distinct named proper =>
    have hlookup := Keyed.lookup_of_mem distinct he
    obtain ⟨n, d⟩ := e
    cases d with
    | link target => rfl
    | _ =>
      rw [entry_below hstands (named _ he) hlookup fun _ => Entry.noConfusion]
      rfl

theorem isFile_of_lost {cause : PathError} (h : disk.entry (p.below e.1) true = .error cause)
    (hfault : cause.fault ≠ .missing) : disk.isFile p e = .error cause := by
  rw [isFile_eq hstands hproper he, h]
  obtain ⟨fault, path⟩ := cause
  cases fault <;> simp_all

open Classical in
theorem isFile_of_kept
    (h : ∀ cause, disk.entry (p.below e.1) true = .error cause → cause.fault = .missing) :
    disk.isFile p e = .ok (decide (∃ content, Holds disk p e.1 content)) := by
  rw [isFile_eq hstands hproper he]
  cases hentry : disk.entry (p.below e.1) true with
  | error cause =>
    obtain ⟨fault, path⟩ := cause
    obtain rfl : fault = .missing := h _ hentry
    simp [Holds, hentry]
  | ok d => cases d <;> simp [Holds, hentry]

end

theorem sourceNames_eq_error (hstands : Stands disk p entries)
    (hproper : (Entry.folder entries).Proper) (hlist : disk.list p = .ok entries)
    (hname : name ∈ entries.map (·.1)) (hsource : isSourceName name = true) {cause : PathError}
    (h : disk.entry (p.below name) true = .error cause) (hfault : cause.fault ≠ .missing) :
    ∃ e, sourceNames disk p = .error e := by
  obtain ⟨e, he, rfl⟩ := List.mem_map.1 hname
  obtain ⟨e', he'⟩ := filterM_eq_error
    (f := fun e => if isSourceName e.1 then disk.isFile p e else .ok false) he
    ((if_pos hsource).trans (isFile_of_lost hstands hproper he h hfault))
  refine ⟨e', ?_⟩
  simp only [sourceNames, hlist, bind, Except.bind, he']

/-- Where no name is lost, those of source files are found, each once. -/
theorem sourceNames_eq_ok (hstands : Stands disk p entries)
    (hproper : (Entry.folder entries).Proper) (hlist : disk.list p = .ok entries)
    (h : ∀ name ∈ entries.map (·.1), isSourceName name = true →
      ∀ cause, disk.entry (p.below name) true = .error cause → cause.fault = .missing) :
    ∃ names, sourceNames disk p = .ok names ∧ names.Nodup ∧ ∀ name, name ∈ names ↔
      name ∈ entries.map (·.1) ∧ isSourceName name = true ∧
        ∃ content, Holds disk p name content := by
  classical
  have hkept := filterM_eq_ok (l := entries)
    (f := fun e => if isSourceName e.1 then disk.isFile p e else .ok false)
    (g := fun e => isSourceName e.1 && decide (∃ content, Holds disk p e.1 content)) fun e he => by
      split_ifs with hsource
      · rw [isFile_of_kept hstands hproper he (h e.1 (List.mem_map_of_mem he) hsource), hsource,
          Bool.true_and]
      · simp [hsource]
  have hperm (l : List String) : (sortNames l).Perm l := List.mergeSort_perm _ _
  refine ⟨_, ?_, (hperm ((entries.filter fun e => isSourceName e.1 &&
    decide (∃ content, Holds disk p e.1 content)).map (·.1))).nodup_iff.2 ?_, fun name => ?_⟩
  · simp only [sourceNames, hlist, bind, Except.bind, hkept]
    rfl
  · cases hproper with
    | folder distinct named proper => exact distinct.sublist (List.filter_sublist.map _)
  · rw [(hperm _).mem_iff]
    simp only [List.mem_map, List.mem_filter, Bool.and_eq_true, decide_eq_true_eq]
    constructor
    · rintro ⟨e, ⟨he, hsource, hholds⟩, rfl⟩
      exact ⟨⟨e, he, rfl⟩, hsource, hholds⟩
    · rintro ⟨⟨e, he, rfl⟩, hsource, hholds⟩
      exact ⟨e, ⟨he, hsource, hholds⟩, rfl⟩

/-! ## Their order -/

/-- A file comes before another one: by package, then by path. -/
def ParsedFile.Before (f g : ParsedFile) : Prop :=
  f.package < g.package ∨ f.package = g.package ∧ f.path < g.path

theorem ParsedFile.le_iff {f g : ParsedFile} :
    f.le g = true ↔ f.package < g.package ∨ f.package = g.package ∧ f.path ≤ g.path := by
  simp [ParsedFile.le]

theorem ParsedFile.le_trans (f g h : ParsedFile) (hfg : f.le g = true) (hgh : g.le h = true) :
    f.le h = true := by
  rw [le_iff] at *
  obtain hfg | ⟨hfg, hpath⟩ := hfg
  · obtain hgh | ⟨hgh, -⟩ := hgh
    · exact .inl (String.lt_trans hfg hgh)
    · exact .inl (hgh ▸ hfg)
  · obtain hgh | ⟨hgh, hpath'⟩ := hgh
    · exact .inl (hfg ▸ hgh)
    · exact .inr ⟨hfg.trans hgh, String.le_trans hpath hpath'⟩

theorem ParsedFile.le_total (f g : ParsedFile) : (f.le g || g.le f) = true := by
  rw [Bool.or_eq_true, le_iff, le_iff]
  by_cases hfg : f.package < g.package
  · exact .inl (.inl hfg)
  by_cases hgf : g.package < f.package
  · exact .inr (.inl hgf)
  have heq : f.package = g.package :=
    String.le_antisymm (String.not_lt.1 hgf) (String.not_lt.1 hfg)
  exact (String.le_total f.path g.path).imp (fun h => .inr ⟨heq, h⟩) fun h => .inr ⟨heq.symm, h⟩

/-- Files with different paths that are sorted come before one another. -/
theorem before_mergeSort {files : List ParsedFile} (hpaths : (files.map (·.path)).Nodup) :
    (files.mergeSort ParsedFile.le).Pairwise ParsedFile.Before := by
  have hperm := files.mergeSort_perm ParsedFile.le
  have hpaths' := List.pairwise_map.1 ((hperm.map (·.path)).nodup_iff.2 hpaths)
  have hsorted := List.pairwise_mergeSort ParsedFile.le_trans ParsedFile.le_total files
  refine (hsorted.and hpaths').imp fun {f g} ⟨hle, hne⟩ => ?_
  obtain hlt | ⟨heq, hle⟩ := ParsedFile.le_iff.1 hle
  · exact .inl hlt
  · exact .inr ⟨heq, Std.lt_of_le_of_ne hle hne⟩

theorem child_injective {folder a b : String} (h : child folder a = child folder b) : a = b := by
  unfold child at h
  split_ifs at h
  · exact String.append_right_inj folder |>.1 h
  · exact String.append_right_inj (folder ++ "/") |>.1 h

/-! ## The folder -/

/-- Which chunks are those of the folder at `p` with the entries `entries`. -/
inductive Own (disk : Disk) (p : Place) (entries : List (String × Entry)) : List Chunk → Prop
  /-- One of its source files cannot be read as such. -/
  | spoiled {name : String} (hname : name ∈ entries.map (·.1)) (hsource : isSourceName name = true)
      (h : Spoils disk p name) : Own disk p entries []
  /-- All of them can; their chunks stand in the order of the files. -/
  | whole (files : List ParsedFile)
      (hgood : ∀ name ∈ entries.map (·.1), isSourceName name = true → ¬ Spoils disk p name)
      (hfiles : ∀ f, f ∈ files ↔ ∃ name ∈ entries.map (·.1), isSourceName name = true ∧
        Parsed disk p name f)
      (hsorted : files.Pairwise ParsedFile.Before) : Own disk p entries (files.flatMap (·.chunks))

section

variable (hstands : Stands disk p entries) (hproper : (Entry.folder entries).Proper)
  (hlist : disk.list p = .ok entries)

include hstands hproper hlist

theorem parseFolder_of_spoils (hname : name ∈ entries.map (·.1))
    (hsource : isSourceName name = true) (h : Spoils disk p name) :
    ∃ e, parseFolder disk p = .error e := by
  have hfound {names : List String} {content : Bytes} (hnames : sourceNames disk p = .ok names)
      (hmem : name ∈ names) (hholds : Holds disk p name content) :
      ∃ e, parseFolder disk p = .error e := by
    obtain ⟨e, he⟩ := parseFile_of_spoils h hholds
    obtain ⟨e', he'⟩ := mapM_eq_error (f := fun n => parseFile disk (p.below n)) hmem he
    refine ⟨e', ?_⟩
    simp only [parseFolder, hnames, Except.mapError, bind, Except.bind, he']
  by_cases hlost : ∀ name ∈ entries.map (·.1), isSourceName name = true →
      ∀ cause, disk.entry (p.below name) true = .error cause → cause.fault = .missing
  · obtain ⟨names, hnames, -, hmem⟩ := sourceNames_eq_ok hstands hproper hlist hlost
    cases h with
    | lost h hfault => exact absurd (hlost name hname hsource _ h) hfault
    | withheld h => exact hfound hnames ((hmem name).2 ⟨hname, hsource, _, h⟩) h
    | unparsed h => exact hfound hnames ((hmem name).2 ⟨hname, hsource, _, h⟩) h
  · simp only [not_forall] at hlost
    obtain ⟨n, hn, hns, cause, hcause, hfault⟩ := hlost
    obtain ⟨e, he⟩ := sourceNames_eq_error hstands hproper hlist hn hns hcause hfault
    exact ⟨_, by simp only [parseFolder, he, Except.mapError, bind, Except.bind]; rfl⟩

theorem parseFolder_of_good
    (hgood : ∀ name ∈ entries.map (·.1), isSourceName name = true → ¬ Spoils disk p name) :
    ∃ files, parseFolder disk p = .ok files ∧ files.Pairwise ParsedFile.Before ∧
      ∀ f, f ∈ files ↔ ∃ name ∈ entries.map (·.1), isSourceName name = true ∧
        Parsed disk p name f := by
  obtain ⟨names, hnames, hnodup, hmem⟩ := sourceNames_eq_ok hstands hproper hlist
    fun name hname hsource cause hcause => by
      by_contra hfault
      exact hgood name hname hsource (.lost hcause hfault)
  have hparsed : ∀ n ∈ names, ∃ f, parseFile disk (p.below n) = .ok f ∧ Parsed disk p n f := by
    intro n hn
    obtain ⟨hname, hsource, content, hholds⟩ := (hmem n).1 hn
    have hread : (p.below n).path ∉ disk.unreadable := fun hpath =>
      hgood n hname hsource (.withheld hholds hpath)
    cases hparse : parseSource content (p.below n).path with
    | error e => exact absurd (.unparsed hholds hparse) (hgood n hname hsource)
    | ok r =>
      have h : Parsed disk p n ⟨r.1, (p.below n).path, r.2⟩ := ⟨rfl, content, hholds, hparse⟩
      exact ⟨_, parseFile_of_parsed h hread, h⟩
  have : Nonempty ParsedFile := ⟨⟨"", "", []⟩⟩
  choose! g hg using hparsed
  have hfiles : (names.mapM fun n => parseFile disk (p.below n)) = .ok (names.map g) :=
    mapM_eq_ok fun n hn => (hg n hn).1
  have hpaths : ((names.map g).map (·.path)).Nodup := by
    have heq : (names.map g).map (·.path) = names.map fun n => child p.path n := by
      rw [List.map_map]
      exact List.map_congr_left fun n hn => (hg n hn).2.1.trans (path_below p n)
    rw [heq]
    exact hnodup.map fun _ _ => child_injective
  refine ⟨_, ?_, before_mergeSort hpaths, fun f => ?_⟩
  · simp only [parseFolder, hnames, Except.mapError, bind, Except.bind, hfiles]
    rfl
  · rw [((names.map g).mergeSort_perm ParsedFile.le).mem_iff, List.mem_map]
    constructor
    · rintro ⟨n, hn, rfl⟩
      obtain ⟨hname, hsource, -⟩ := (hmem n).1 hn
      exact ⟨n, hname, hsource, (hg n hn).2⟩
    · rintro ⟨n, hname, hsource, hpath, content, hholds, hparse⟩
      have hn : n ∈ names := (hmem n).2 ⟨hname, hsource, content, hholds⟩
      have hread : (p.below n).path ∉ disk.unreadable := fun hdenied =>
        hgood n hname hsource (.withheld hholds hdenied)
      have hf := parseFile_of_parsed ⟨hpath, content, hholds, hparse⟩ hread
      exact ⟨n, hn, Except.ok.inj ((hg n hn).1.symm.trans hf)⟩

/-- **The chunks of a folder** that can be listed are none or those of all its source files. -/
theorem own_spec : Own disk p entries (own disk p) := by
  by_cases hgood : ∀ name ∈ entries.map (·.1), isSourceName name = true → ¬ Spoils disk p name
  · obtain ⟨files, hfolder, hsorted, hfiles⟩ := parseFolder_of_good hstands hproper hlist hgood
    rw [own, hfolder]
    exact .whole files hgood hfiles hsorted
  · simp only [not_forall, not_not] at hgood
    obtain ⟨name, hname, hsource, h⟩ := hgood
    obtain ⟨e, he⟩ := parseFolder_of_spoils hstands hproper hlist hname hsource h
    rw [own, he]
    exact .spoiled hname hsource h

end

end DocSearch.Doc
