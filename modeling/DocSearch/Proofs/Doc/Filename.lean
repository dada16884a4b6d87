import DocSearch.Proofs.Doc.Folder

/-!
# The files that chunks come from

Every chunk of a folder names a file in it (`filename_of_own`). Where no name has a slash in it, the
path of a file tells the folder (`Rooted.below_inj`), so no two folders of a walk have chunks of one
file.
-/

namespace DocSearch.Doc

open Files Text

/-! ## Files of chunks -/

theorem filename_of_functionChunk? {package filename name symbol : String} {group : List Comment}
    {c : Chunk} (h : functionChunk? package filename name symbol group = some c) :
    c.filename = filename := by
  unfold functionChunk? at h
  split_ifs at h
  obtain rfl := Option.some.inj h
  rfl

theorem filename_of_typeChunks {package filename : String} {group : List Comment} {grouped : Bool}
    {specs : List (Go.Sibling Go.TypeSpec)} {c : Chunk}
    (h : c ∈ typeChunks package filename group grouped specs) : c.filename = filename := by
  obtain ⟨⟨spec, rows, before, behind⟩, -, hspec⟩ := List.mem_filterMap.1 h
  dsimp only at hspec
  split_ifs at hspec <;> obtain rfl := Option.some.inj hspec <;> rfl

theorem filename_of_siblingChunks {package filename : String} {siblings : Go.SourceFile} {c : Chunk}
    (h : c ∈ siblingChunks package filename siblings) : c.filename = filename := by
  obtain ⟨⟨d, rows, before, behind⟩, -, hd⟩ := List.mem_flatMap.1 h
  cases d with
  | package name => cases hd
  | types grouped specs => exact filename_of_typeChunks hd
  | function name => exact filename_of_functionChunk? (Option.mem_toList.1 hd)
  | method receiver name => exact filename_of_functionChunk? (Option.mem_toList.1 hd)

/-- Every chunk of a source file names the file. -/
theorem filename_of_parseSource {source : Bytes} {filename : String} {r : String × List Chunk}
    (h : parseSource source filename = .ok r) : ∀ c ∈ r.2, c.filename = filename := by
  unfold parseSource extract at h
  split at h
  · cases h
  · split at h
    · cases h
    · obtain rfl := Except.ok.inj h
      intro c hc
      rcases List.mem_append.1 hc with hpackage | hsibling
      · rw [Option.mem_toList, packageChunk?] at hpackage
        split_ifs at hpackage
        obtain rfl := Option.some.inj hpackage
        rfl
      · exact filename_of_siblingChunks hsibling

/-! ## Chunks of folders -/

section

variable {disk : Disk} {p : Place} {entries : List (String × Entry)}
  (hstands : Stands disk p entries) (hproper : (Entry.folder entries).Proper)
  (hlist : disk.list p = .ok entries)

include hstands hproper hlist

/-- A folder with a source file that spoils it has no chunks. -/
theorem own_of_spoils {name : String} (hname : name ∈ entries.map (·.1))
    (hsource : isSourceName name = true) (h : Spoils disk p name) : own disk p = [] := by
  obtain ⟨e, he⟩ := parseFolder_of_spoils hstands hproper hlist hname hsource h
  rw [own, he]

/-- Any other folder has those of its source files. -/
theorem mem_own_of_good
    (hgood : ∀ name ∈ entries.map (·.1), isSourceName name = true → ¬ Spoils disk p name)
    {c : Chunk} :
    c ∈ own disk p ↔ ∃ name ∈ entries.map (·.1), isSourceName name = true ∧
      ∃ f, Parsed disk p name f ∧ c ∈ f.chunks := by
  obtain ⟨files, hfiles, -, hmem⟩ := parseFolder_of_good hstands hproper hlist hgood
  rw [own, hfiles, List.mem_flatMap]
  constructor
  · rintro ⟨f, hf, hc⟩
    obtain ⟨name, hname, hsource, hparsed⟩ := (hmem f).1 hf
    exact ⟨name, hname, hsource, f, hparsed, hc⟩
  · rintro ⟨name, hname, hsource, f, hparsed, hc⟩
    exact ⟨f, (hmem f).2 ⟨name, hname, hsource, hparsed⟩, hc⟩

/-- Every chunk of a folder names a file in it. -/
theorem filename_of_own {c : Chunk} (hc : c ∈ own disk p) :
    ∃ name ∈ entries.map (·.1), c.filename = (p.below name).path := by
  by_cases hgood : ∀ name ∈ entries.map (·.1), isSourceName name = true → ¬ Spoils disk p name
  · obtain ⟨name, hname, -, f, ⟨hpath, content, -, hparse⟩, hc⟩ :=
      (mem_own_of_good hstands hproper hlist hgood).1 hc
    exact ⟨name, hname, (filename_of_parseSource hparse c hc).trans hpath⟩
  · simp only [not_forall, not_not] at hgood
    obtain ⟨name, hname, hsource, hspoils⟩ := hgood
    rw [own_of_spoils hstands hproper hlist hname hsource hspoils] at hc
    cases hc

end

/-! ## Folders of a walk -/

/-- A folder at a root, on a disk that is like any other: no name has a slash in it. -/
structure Rooted (disk : Disk) (root : String) (entries : List (String × Entry)) : Prop where
  top : disk.top.Proper
  entry : disk.entry ⟨normalise root, []⟩ false = .ok (.folder entries)
  slashFree : (Entry.folder entries).SlashFree

/-- The names that lead to a folder are names. -/
theorem names_of_at? {e : Entry} (he : e.Proper) (hfree : e.SlashFree) {names : List String}
    {es : List (String × Entry)} (hat : e.at? names = some (.folder es)) :
    ∀ n ∈ names, n ≠ "" ∧ SlashFree n := by
  induction names generalizing e with
  | nil => simp
  | cons n ns ih =>
    obtain ⟨d, hd, hrest⟩ := Option.bind_eq_some_iff.1 hat
    cases he with
    | file content => cases hd
    | link target => cases hd
    | @folder entries distinct named proper =>
      have hmem : (n, d) ∈ entries := Keyed.mem_of_lookup hd
      have hn : SlashFree n := hfree [] entries rfl n (List.mem_map_of_mem hmem)
      exact List.forall_mem_cons.2 ⟨⟨(named _ hmem).1, hn⟩,
        ih (proper _ hmem) (hfree.of_lookup hd) hrest⟩

namespace Rooted

variable {disk : Disk} {root : String} {entries : List (String × Entry)}

theorem proper (h : Rooted disk root entries) : (Entry.folder entries).Proper :=
  (stands_of_entry h.entry).proper h.top

theorem stands (h : Rooted disk root entries) {names : List String} {es : List (String × Entry)}
    (hat : (Entry.folder entries).at? names = some (.folder es)) :
    Stands disk ⟨normalise root, names⟩ es ∧ (Entry.folder es).Proper :=
  ⟨stands_at h.proper (stands_of_entry h.entry) hat, h.proper.at? hat⟩

theorem list (h : Rooted disk root entries) {names : List String} {es : List (String × Entry)}
    (hat : (Entry.folder entries).at? names = some (.folder es))
    (hlist : Listable disk ⟨normalise root, names⟩) :
    disk.list ⟨normalise root, names⟩ = .ok es := by
  obtain ⟨es', hes'⟩ := hlist
  have hlisted := (h.stands hat).1.list
  rw [hes'] at hlisted
  split_ifs at hlisted
  rw [hes', Except.ok.inj hlisted]

/-- Files of one path are in one folder. -/
theorem below_inj (h : Rooted disk root entries) {names names' : List String}
    {es es' : List (String × Entry)}
    (hat : (Entry.folder entries).at? names = some (.folder es))
    (hat' : (Entry.folder entries).at? names' = some (.folder es')) {n n' : String}
    (hn : n ∈ es.map (·.1)) (hn' : n' ∈ es'.map (·.1))
    (heq : (Place.below ⟨normalise root, names⟩ n).path =
      (Place.below ⟨normalise root, names'⟩ n').path) : names = names' ∧ n = n' :=
  Files.below_inj (names_of_at? h.proper h.slashFree hat) (names_of_at? h.proper h.slashFree hat')
    (h.slashFree names es hat n hn) (h.slashFree names' es' hat' n' hn') heq

end Rooted

end DocSearch.Doc
