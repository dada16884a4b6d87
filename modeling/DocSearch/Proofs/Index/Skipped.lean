import DocSearch.Proofs.Doc.Damage
import DocSearch.Proofs.Doc.Stream
import DocSearch.Proofs.Index.Runs

/-!
# Pruning behind a skipped folder

A folder with a source file that cannot be read as such is passed over with a warning, and the run
succeeds all the same. None of the rows of the folder is touched then, so a run with a root deletes
them all: those of the file that has been damaged and those of the files beside it, which have not
(`skipped_folder_loses_rows`).

**`rerun_keeps_iff`** says which rows a second run keeps when files have been damaged behind a first
one: all of them if it fails, and otherwise those of the folders without a damaged source file. Both
runs may have several workers and go any way.
-/

namespace DocSearch.Index

open DocSearch.Action Doc Files Store

variable {σ : Type} {o : Outside σ} {embed : Embedder σ} {disk disk' : Disk} {tables : σ → Tables}
  {vector : String → List Float} {root : String} {exclude : List String}
  {entries : List (String × Entry)}

/-! ## Rows of two runs -/

namespace Finished

variable {literal : String → String} {t t' : Tables} {cs : List Chunk} {ws : List Write}
  {stats : Stats} {i : Identity} {row : Int × Record}

/-- A run with a root keeps the row of an identity at or below it exactly if there is a chunk for
it. -/
theorem key_mem_iff (h : Finished literal t cs (some root) ws stats t') (hs : t.Sound)
    (hbelow : AtOrBelow root i.filename) (hrow : row ∈ t.rowsOf i) :
    (row.1, row.2.identity) ∈ t'.rowKeys ↔ lastOf cs i ≠ none := by
  obtain ⟨hmem, rfl⟩ := Tables.mem_rowsOf.1 hrow
  constructor
  · intro hkey hnone
    obtain ⟨row', hrow', hkey'⟩ := List.mem_map.1 hkey
    have hheld := Tables.holding?_of_mem (h.sound hs) hrow'
    rw [(Prod.mk.inj hkey').2, h.holding?_gone hs rfl hbelow (lastOf_eq_none_iff.1 hnone)] at hheld
    cases hheld
  · intro hsome
    obtain ⟨c, hlast⟩ := Option.ne_none_iff_exists'.1 hsome
    obtain ⟨hc, hi⟩ := lastOf_mem hlast
    obtain ⟨r, -, v, -, id, -, -, hheld, hid⟩ := h.holding?_of_mem hs hc
    rw [hi] at hheld hid
    obtain ⟨d, hd, -⟩ := Tables.holding?_eq_some_iff.1 hheld
    obtain ⟨hmem', hi'⟩ := (Tables.row?_eq_some_iff (h.sound hs)).1 hd
    refine List.mem_map.2 ⟨_, hmem', Prod.ext ?_ hi'⟩
    exact (hid _ (Tables.holding?_of_mem hs hmem)).symm

/-- Of two runs with one worker that succeed one behind the other, the second one keeps the row of
an identity as it is exactly if there is a chunk for it, as long as this is the one that the first
run had. -/
theorem row_mem_iff {t₀ : Tables} {cs₀ : List Chunk} {pruneRoot : Option String} {stats₀ : Stats}
    (hs : t₀.Sound) (h₀ : Finished literal t₀ cs₀ pruneRoot (Write.inOrder cs₀) stats₀ t)
    (h : Finished literal t cs (some root) (Write.inOrder cs) stats t')
    (hbelow : AtOrBelow root i.filename) (hrow : row ∈ t.rowsOf i)
    (hsame : lastOf cs i ≠ none → lastOf cs i = lastOf cs₀ i) :
    row ∈ t'.chunks ↔ lastOf cs i ≠ none := by
  have hst := h₀.sound hs
  constructor
  · intro hkept
    exact (h.key_mem_iff hst hbelow hrow).1 (List.mem_map_of_mem hkept)
  · intro hsome
    obtain ⟨c, hlast⟩ := Option.ne_none_iff_exists'.1 hsome
    have hlast₀ := (hsame hsome).symm.trans hlast
    obtain ⟨hc, rfl⟩ := lastOf_mem hlast
    -- Both runs leave the text of this chunk, and the id does not change.
    obtain ⟨r₀, -, v₀, -, id₀, hr₀, -, hheld₀, -⟩ := h₀.holding?_of_mem hs (lastOf_mem hlast₀).1
    obtain ⟨r, -, v, -, id, hr, -, hheld, hid⟩ := h.holding?_of_mem hst hc
    rw [Write.rows_inOrder, hlast₀] at hr₀
    rw [Write.rows_inOrder, hlast] at hr
    have htext : r₀ = r := (Option.some.inj hr₀).symm.trans (Option.some.inj hr)
    obtain rfl : id₀ = id := hid _ hheld₀
    rw [(Tables.rowsOf_of_holding? hst hheld₀).1] at hrow
    rw [htext, ← (Tables.rowsOf_of_holding? (h.sound hst) hheld).1] at hrow
    exact (Tables.mem_rowsOf.1 hrow).1

end Finished

/-! ## Chunks by folder -/

/-- The last chunk of a walk that has a file of a folder in its identity is the last one of that
folder. -/
theorem lastOf_walk (hrooted : Rooted disk root entries)
    (hlist : ∀ q ∈ preorder exclude ⟨normalise root, []⟩ (.folder entries), Listable disk q)
    {names : List String} (hnames : ∀ n ∈ names, n ∉ exclude) {es : List (String × Entry)}
    (hat : (Entry.folder entries).at? names = some (.folder es)) {name : String}
    (hname : name ∈ es.map (·.1)) {i : Identity}
    (hi : i.filename = (Place.below ⟨normalise root, names⟩ name).path) :
    lastOf ((preorder exclude ⟨normalise root, []⟩ (.folder entries)).flatMap (own disk)) i =
      lastOf (own disk ⟨normalise root, names⟩) i := by
  refine lastOf_flatMap ((mem_preorder_iff hrooted.proper).2 ⟨names, es, rfl, hnames, hat⟩)
    fun q hq c hc hci => ?_
  obtain ⟨names', es', rfl, -, hat'⟩ := (mem_preorder_iff hrooted.proper).1 hq
  obtain ⟨hstands, hproper⟩ := hrooted.stands hat'
  obtain ⟨name', hname', hfilename⟩ :=
    filename_of_own hstands hproper (hrooted.list hat' (hlist _ hq)) hc
  obtain ⟨rfl, -⟩ := hrooted.below_inj hat' hat hname' hname
    (hfilename.symm.trans ((congrArg Identity.filename hci).trans hi))
  rfl

/-- The chunk of a file is still there behind the damage exactly if no source file beside it, nor
the file itself, is damaged, and then the last chunk of its identity is the one that it was. -/
theorem lastOf_own_damaged (hdamaged : disk.Damaged Unparsable disk') {p : Place}
    {es es' : List (String × Entry)} (hstands : Stands disk p es)
    (hproper : (Entry.folder es).Proper) (hlist : disk.list p = .ok es)
    (hstands' : Stands disk' p es') (hlist' : disk'.list p = .ok es')
    (hes : (Entry.folder es).Damaged Unparsable (.folder es')) {name : String}
    (hname : name ∈ es.map (·.1)) (hsource : isSourceName name = true) {f : ParsedFile}
    (hf : Parsed disk p name f) {c : Chunk} (hc : c ∈ f.chunks) :
    (lastOf (own disk' p) c.identity ≠ none →
      lastOf (own disk' p) c.identity = lastOf (own disk p) c.identity) ∧
    (lastOf (own disk' p) c.identity ≠ none ↔
      ∀ n ∈ es.map (·.1), isSourceName n = true → ¬ Spoils disk' p n) := by
  by_cases hgood : ∀ n ∈ es.map (·.1), isSourceName n = true → ¬ Spoils disk' p n
  · have hmem : c ∈ own disk' p := by
      rw [mem_own_of_good hstands' (hes.proper hproper) hlist' (hes.names ▸ hgood), hes.names]
      exact ⟨name, hname, hsource, f, parsed_of_not_spoils hdamaged (hgood name hname hsource) hf,
        hc⟩
    have hsome : lastOf (own disk' p) c.identity ≠ none := fun hnone =>
      lastOf_eq_none_iff.1 hnone c hmem rfl
    rw [own_damaged hdamaged hstands hproper hlist hstands' hlist' hes hgood] at hsome ⊢
    exact ⟨fun _ => rfl, iff_of_true hsome hgood⟩
  · have hnone : lastOf (own disk' p) c.identity = none := by
      simp only [not_forall, not_not] at hgood
      obtain ⟨n, hn, hns, hspoils⟩ := hgood
      rw [own_of_spoils hstands' (hes.proper hproper) hlist' (hes.names ▸ hn) hns hspoils]
      rfl
    exact ⟨fun hsome => absurd hnone hsome, iff_of_false (not_not.2 hnone) hgood⟩

/-- What a run over a walk that succeeds has done. -/
theorem of_walked_run (ho : Backed o tables) (he : Embeds embed tables vector)
    (hrooted : Rooted disk root entries) {workers : Nat} {pruneRoot : Option String}
    {p q : Program σ} (hs : (tables p.outside).Sound) {stats : Stats}
    (h : Runs o embed disk workers (.walking (.start root exclude)) pruneRoot p (.ok stats) q) :
    (∀ q ∈ preorder exclude ⟨normalise root, []⟩ (.folder entries), Listable disk q) ∧
      ∃ cs ws, cs = (preorder exclude ⟨normalise root, []⟩ (.folder entries)).flatMap (own disk) ∧
        (workers ≤ 1 → ws = Write.inOrder cs) ∧
        Finished (vectorLiteral ∘ vector) (tables p.outside) cs pruneRoot ws stats
          (tables q.outside) := by
  obtain ⟨bs, ending, hgives, hbound, hnone, -⟩ :=
    Source.gives_start hrooted.top exclude hrooted.entry
  obtain ⟨hending, ws, hone, hfinished⟩ := h.finished ho he hgives hs hbound
  obtain ⟨rfl, hlist⟩ := hnone hending
  exact ⟨hlist, _, ws, rfl, hone, hfinished⟩

/-! ## A second run -/

/-- A second run that succeeds keeps the row of a chunk of a file exactly if no source file in the
folder of the file is damaged. With one worker it keeps the row as it is. -/
theorem mem_rerun_walk_iff (ho : Backed o tables) (he : Embeds embed tables vector)
    (hrooted : Rooted disk root entries) (hdamaged : disk.Damaged Unparsable disk')
    {workers workers' : Nat} {pruneRoot : Option String} (p p' : Program σ)
    (hs : (tables p.outside).Sound) {stats stats' : Stats} {q q' : Program σ}
    (hfirst : Runs o embed disk workers (.walking (.start root exclude)) pruneRoot p (.ok stats) q)
    (hbetween : tables p'.outside = tables q.outside)
    (hsecond : Runs o embed disk' workers' (.walking (.start root exclude))
      (some (normalise root)) p' (.ok stats') q')
    {names : List String} (hnames : ∀ n ∈ names, n ∉ exclude) {es : List (String × Entry)}
    (hat : (Entry.folder entries).at? names = some (.folder es)) {name : String}
    (hname : name ∈ es.map (·.1)) (hsource : isSourceName name = true) {f : ParsedFile}
    (hf : Parsed disk ⟨normalise root, names⟩ name f) {c : Chunk} (hc : c ∈ f.chunks)
    {row : Int × Record} (hrow : row ∈ (tables q.outside).rowsOf c.identity) :
    ((row.1, row.2.identity) ∈ (tables q'.outside).rowKeys ↔
      ∀ n ∈ es.map (·.1), isSourceName n = true → ¬ Spoils disk' ⟨normalise root, names⟩ n) ∧
    (workers ≤ 1 → workers' ≤ 1 → (row ∈ (tables q'.outside).chunks ↔
      ∀ n ∈ es.map (·.1), isSourceName n = true →
        ¬ Spoils disk' ⟨normalise root, names⟩ n)) := by
  obtain ⟨entries', hrooted', hentries⟩ := hrooted.damaged hdamaged
  obtain ⟨es', hat', hes⟩ := hentries.folder_at? hat
  obtain ⟨hstands, hproper⟩ := hrooted.stands hat
  obtain ⟨hstands', hproper'⟩ := hrooted'.stands hat'
  obtain ⟨hlist, cs, ws, rfl, hone, hq⟩ := of_walked_run ho he hrooted hs hfirst
  have hsq : (tables q.outside).Sound := hq.sound hs
  obtain ⟨hlist', cs', ws', rfl, hone', hq'⟩ :=
    of_walked_run ho he hrooted' (hbetween ▸ hsq) hsecond
  rw [hbetween] at hq'
  have hlisted := hrooted.list hat (hlist _ ((mem_preorder_iff hrooted.proper).2
    ⟨names, es, rfl, hnames, hat⟩))
  have hlisted' := hrooted'.list hat' (hlist' _ ((mem_preorder_iff hrooted'.proper).2
    ⟨names, es', rfl, hnames, hat'⟩))
  have hfile : c.identity.filename = (Place.below ⟨normalise root, names⟩ name).path := by
    obtain ⟨hpath, content, -, hparse⟩ := hf
    exact (filename_of_parseSource hparse c hc).trans hpath
  have hbelow : AtOrBelow (normalise root) c.identity.filename :=
    .inr (hfile ▸ below_path ⟨normalise root, names⟩ name)
  obtain ⟨hsame, hkept⟩ := lastOf_own_damaged hdamaged hstands hproper hlisted hstands' hlisted' hes
    hname hsource hf hc
  -- The last chunks of the two walks are those of the folder.
  rw [← lastOf_walk hrooted hlist hnames hat hname hfile,
    ← lastOf_walk hrooted' hlist' hnames hat' (hes.names ▸ hname) hfile] at hsame
  rw [← lastOf_walk hrooted' hlist' hnames hat' (hes.names ▸ hname) hfile] at hkept
  refine ⟨(hq'.key_mem_iff hsq hbelow hrow).trans hkept, fun hw hw' => ?_⟩
  rw [hone hw] at hq
  rw [hone' hw'] at hq'
  exact (hq.row_mem_iff hs hq' hbelow hrow hsame).trans hkept

/-- **Which rows a second run keeps** when files have been damaged behind a first one, however the
two runs go. If it fails, no row goes. If it succeeds, the row of a chunk that a file had before the
damage stays exactly if no source file in the folder of that file is damaged, be it this file or
another one. With one worker it stays as it is. -/
theorem rerun_keeps_iff (ho : Backed o tables) (he : Embeds embed tables vector)
    (hrooted : Rooted disk root entries) (hdamaged : disk.Damaged Unparsable disk')
    (exclude : List String) (workers workers' : Nat) (pruneRoot : Option String) (p p' : Program σ)
    (hs : (tables p.outside).Sound) {stats : Stats} {q q' : Program σ}
    (hfirst : Runs o embed disk workers (.walking (.start root exclude)) pruneRoot p (.ok stats) q)
    (hbetween : tables p'.outside = tables q.outside) {r : Except RunError Stats}
    (hsecond : Runs o embed disk' workers' (.walking (.start root exclude))
      (some (normalise root)) p' r q')
    {names : List String} (hnames : ∀ n ∈ names, n ∉ exclude) {es : List (String × Entry)}
    (hat : (Entry.folder entries).at? names = some (.folder es)) {name : String}
    (hname : name ∈ es.map (·.1)) (hsource : isSourceName name = true) {f : ParsedFile}
    (hf : Parsed disk ⟨normalise root, names⟩ name f) {c : Chunk} (hc : c ∈ f.chunks)
    {row : Int × Record} (hrow : row ∈ (tables q.outside).rowsOf c.identity) :
    (∀ e, r = .error e → (row.1, row.2.identity) ∈ (tables q'.outside).rowKeys) ∧
      ∀ stats', r = .ok stats' →
        ((row.1, row.2.identity) ∈ (tables q'.outside).rowKeys ↔
          ∀ n ∈ es.map (·.1), isSourceName n = true →
            ¬ Spoils disk' ⟨normalise root, names⟩ n) ∧
        (workers ≤ 1 → workers' ≤ 1 → (row ∈ (tables q'.outside).chunks ↔
          ∀ n ∈ es.map (·.1), isSourceName n = true →
            ¬ Spoils disk' ⟨normalise root, names⟩ n)) := by
  constructor
  · rintro e rfl
    obtain ⟨entries', hrooted', -⟩ := hrooted.damaged hdamaged
    obtain ⟨bs, ending, hgives, -⟩ := Source.gives_start hrooted'.top exclude hrooted'.entry
    obtain ⟨-, cs, ws, -, -, hq⟩ := of_walked_run ho he hrooted hs hfirst
    obtain ⟨ws', hwritten⟩ := hsecond.written ho he hgives (hbetween ▸ hq.sound hs)
    rw [hbetween] at hwritten
    exact hwritten.rowKeys_prefix.subset (List.mem_map_of_mem (Tables.mem_rowsOf.1 hrow).1)
  · rintro stats' rfl
    exact mem_rerun_walk_iff ho he hrooted hdamaged p p' hs hfirst hbetween hsecond hnames hat hname
      hsource hf hc hrow

/-! ## Two packages -/

/-- The source of a documented function. -/
def openSource : Text.Bytes :=
  Text.Utf8.encode "package store\n\n// Open opens a store.\nfunc Open() {}\n"

/-- A source without documentation. -/
def bareSource : Text.Bytes := Text.Utf8.encode "package store\n"

/-- The files of a package. -/
def storeEntries : List (String × Entry) :=
  [("open.go", .file openSource), ("close.go", .file bareSource)]

/-- The folders of two packages. -/
def packages : List (String × Entry) :=
  [("store", .folder storeEntries), ("tool", .folder [("main.go", .file bareSource)])]

/-- A disk with two packages on which some files are withheld. -/
def packagesDisk (withheld : List String) : Disk := ⟨.folder packages, [], withheld⟩

theorem proper_packages : (Entry.folder packages).Proper := by
  have hfile (content : Text.Bytes) : (Entry.file content).Proper := .file content
  have hstore : (Entry.folder storeEntries).Proper :=
    .folder (by decide) (by simp [storeEntries, IsName])
      (by simpa [storeEntries] using ⟨hfile _, hfile _⟩)
  have htool : (Entry.folder [("main.go", .file bareSource)]).Proper :=
    .folder (by decide) (by simp [IsName]) (by simpa using hfile _)
  exact .folder (by decide) (by simp [packages, IsName]) (by simpa [packages] using ⟨hstore, htool⟩)

theorem packagesDisk_damaged (withheld : List String) :
    (packagesDisk []).Damaged Unparsable (packagesDisk withheld) :=
  ⟨.refl proper_packages, rfl, by simp [packagesDisk], rfl⟩

theorem normalise_dot : normalise "." = "." := by decide +kernel

theorem rooted_packagesDisk (withheld : List String) :
    Rooted (packagesDisk withheld) "." packages where
  top := proper_packages
  entry := by
    rw [normalise_dot]
    exact (stands_dot rfl).entry false
  slashFree := by
    have hstore : (Entry.folder storeEntries).SlashFree :=
      .folder (by simp [storeEntries, SlashFree]) (by
        simpa [storeEntries] using ⟨Entry.SlashFree.file _, Entry.SlashFree.file _⟩)
    have htool : (Entry.folder [("main.go", .file bareSource)]).SlashFree :=
      .folder (by simp [SlashFree]) (by simpa using Entry.SlashFree.file _)
    exact .folder (by simp [packages, SlashFree]) (by simpa [packages] using ⟨hstore, htool⟩)

theorem storeEntries_at : (Entry.folder packages).at? ["store"] = some (.folder storeEntries) := rfl

/-- Where the two packages can be read, they are walked to the end. -/
theorem exists_walked_run (withheld : List String) {t : SerialTables} (hs : t.Sound)
    (pruneRoot : Option String) :
    ∃ stats q, (run tablesWorld (fun _ _ => pure [1]) (packagesDisk withheld) 1
        (.walking (.start "." [])) pruneRoot).perform ⟨t, true, []⟩ = (.ok stats, q) := by
  have hrooted := rooted_packagesDisk withheld
  obtain ⟨bs, ending, hgives, hbound, -, hall⟩ :=
    Source.gives_start hrooted.top [] hrooted.entry
  have hending := hall (listable_preorder hrooted.proper (stands_of_entry hrooted.entry) rfl)
  obtain ⟨stats, q, hq, -⟩ := run_of_gives (p := ⟨t, true, []⟩) hgives hbound hs
    reliable_tablesWorld (answers_pure stored [1]) (fun _ => rfl) hending rfl
  exact ⟨stats, q, hq⟩

/-- A file of the store package. -/
theorem parsed_packagesDisk (withheld : List String) {name : String} {content : Text.Bytes}
    (hname : IsName name) (hlookup : storeEntries.lookup name = some (.file content))
    {r : String × List Chunk}
    (hparse : parseSource content (Place.below ⟨normalise ".", ["store"]⟩ name).path = .ok r) :
    Parsed (packagesDisk withheld) ⟨normalise ".", ["store"]⟩ name
      ⟨r.1, (Place.below ⟨normalise ".", ["store"]⟩ name).path, r.2⟩ := by
  obtain ⟨hstands, -⟩ := (rooted_packagesDisk withheld).stands storeEntries_at
  exact ⟨rfl, content, entry_below hstands hname hlookup nofun, hparse⟩

theorem exists_chunk {ε : Type} {r : Except ε (String × List Chunk)} {i : Identity}
    (h : (match r with
      | .ok r => r.2.any fun c => c.identity = i
      | .error _ => false) = true) : ∃ v c, r = .ok v ∧ c ∈ v.2 ∧ c.identity = i := by
  cases r with
  | error e => cases h
  | ok v =>
    obtain ⟨c, hc, hi⟩ := List.any_eq_true.1 h
    exact ⟨v, c, rfl, hc, of_decide_eq_true hi⟩

/-- The function of the store package. -/
def openIdentity : Identity := ⟨"store", "./store/open.go", "Open", "function"⟩

theorem exists_openFile :
    ∃ f c, (∀ withheld, Parsed (packagesDisk withheld) ⟨normalise ".", ["store"]⟩ "open.go" f) ∧
      c ∈ f.chunks ∧ c.identity = openIdentity := by
  obtain ⟨r, c, hr, hc, hi⟩ : ∃ r c, parseSource openSource
      (Place.below ⟨normalise ".", ["store"]⟩ "open.go").path = .ok r ∧ c ∈ r.2 ∧
        c.identity = openIdentity := exists_chunk (by decide +kernel)
  exact ⟨_, c, fun withheld => parsed_packagesDisk withheld (by simp [IsName]) rfl hr, hc, hi⟩

/-- Where none of its files is withheld, nothing spoils the folder of the store package. -/
theorem good_packagesDisk {withheld : List String}
    (hread : ∀ n ∈ storeEntries.map (·.1),
      (Place.below ⟨normalise ".", ["store"]⟩ n).path ∉ withheld) :
    ∀ n ∈ storeEntries.map (·.1), isSourceName n = true →
      ¬ Spoils (packagesDisk withheld) ⟨normalise ".", ["store"]⟩ n := by
  intro n hn _
  have hfile : ∃ f, Parsed (packagesDisk withheld) ⟨normalise ".", ["store"]⟩ n f := by
    obtain rfl | rfl : n = "open.go" ∨ n = "close.go" := by simpa [storeEntries] using hn
    · obtain ⟨f, -, hf, -⟩ := exists_openFile
      exact ⟨f, hf withheld⟩
    · have hok : (parseSource bareSource
          (Place.below ⟨normalise ".", ["store"]⟩ "close.go").path).isOk = true := by
        decide +kernel
      rcases hr : parseSource bareSource
        (Place.below ⟨normalise ".", ["store"]⟩ "close.go").path with e | r
      · rw [hr] at hok
        cases hok
      · exact ⟨_, parsed_packagesDisk withheld (by simp [IsName]) rfl hr⟩
  obtain ⟨f, hf⟩ := hfile
  exact not_spoils_of_parsed hf (hread n hn)

/-- A first run stores the function of the store package. -/
theorem exists_first_run :
    ∃ stats q, (run tablesWorld (fun _ _ => pure [1]) (packagesDisk []) 1
        (.walking (.start "." [])) none).perform ⟨.empty, true, []⟩ = (.ok stats, q) ∧
      q.outside.Sound ∧ ∃ row, row ∈ q.outside.rowsOf openIdentity := by
  obtain ⟨stats, q, hq⟩ := exists_walked_run [] (t := SerialTables.empty) Tables.sound_empty none
  have hrooted := rooted_packagesDisk []
  obtain ⟨hlist, cs, ws, hcs, -, hfinished⟩ := of_walked_run (p := ⟨.empty, true, []⟩)
    reliable_tablesWorld.toBacked (answers_pure stored [1]).embeds hrooted Tables.sound_empty
      (.alone (Nat.le_refl 1) hq)
  have hs : q.outside.Sound := hfinished.sound Tables.sound_empty
  obtain ⟨hstands, hproper⟩ := hrooted.stands storeEntries_at
  have hmem : (⟨normalise ".", ["store"]⟩ : Place) ∈
      preorder [] ⟨normalise ".", []⟩ (.folder packages) :=
    (mem_preorder_iff hrooted.proper).2 ⟨["store"], storeEntries, rfl, by simp, storeEntries_at⟩
  obtain ⟨f, c, hf, hc, hi⟩ := exists_openFile
  have hown : c ∈ own (packagesDisk []) ⟨normalise ".", ["store"]⟩ :=
    (mem_own_of_good hstands hproper (hrooted.list storeEntries_at (hlist _ hmem))
      (good_packagesDisk (by simp))).2 ⟨"open.go", by decide, by decide +kernel, f, hf [], hc⟩
  have hccs : c ∈ cs := hcs ▸ List.mem_flatMap.2 ⟨_, hmem, hown⟩
  obtain ⟨_, -, _, -, _, -, -, hheld, -⟩ := hfinished.holding?_of_mem Tables.sound_empty hccs
  rw [hi] at hheld
  exact ⟨stats, q, hq, hs, _, (Tables.rowsOf_of_holding? hs hheld).1 ▸ List.mem_singleton_self _⟩

/-- A source file is withheld behind a first run. A second one succeeds, and the function in the
file beside it is deleted, which is there as it was. -/
theorem skipped_folder_loses_rows :
    (packagesDisk []).Damaged Unparsable (packagesDisk ["./store/close.go"]) ∧
      ∃ f c, Parsed (packagesDisk []) ⟨normalise ".", ["store"]⟩ "open.go" f ∧
        Parsed (packagesDisk ["./store/close.go"]) ⟨normalise ".", ["store"]⟩ "open.go" f ∧
        c ∈ f.chunks ∧
        ∃ stats q stats' q', (run tablesWorld (fun _ _ => pure [1]) (packagesDisk []) 1
            (.walking (.start "." [])) none).perform ⟨.empty, true, []⟩ = (.ok stats, q) ∧
          (run tablesWorld (fun _ _ => pure [1]) (packagesDisk ["./store/close.go"]) 1
            (.walking (.start "." [])) (some (normalise "."))).perform ⟨q.outside, true, []⟩ =
              (.ok stats', q') ∧
          ∃ row ∈ q.outside.rowsOf c.identity, row ∉ q'.outside.chunks := by
  have hdamaged := packagesDisk_damaged ["./store/close.go"]
  obtain ⟨stats, q, hq, hs, row, hrow⟩ := exists_first_run
  obtain ⟨stats', q', hq'⟩ :=
    exists_walked_run ["./store/close.go"] hs (some (normalise "."))
  obtain ⟨f, c, hf, hc, hi⟩ := exists_openFile
  rw [← hi] at hrow
  refine ⟨hdamaged, f, c, hf _, hf _, hc, stats, q, stats', q', hq, hq', row, hrow, ?_⟩
  have he := (answers_pure stored [1]).embeds
  obtain ⟨hkept, -⟩ := mem_rerun_walk_iff reliable_tablesWorld.toBacked he
    (rooted_packagesDisk []) hdamaged ⟨.empty, true, []⟩ ⟨q.outside, true, []⟩ Tables.sound_empty
    (.alone (Nat.le_refl 1) hq) rfl (.alone (Nat.le_refl 1) hq') (by simp) storeEntries_at
    (by decide) (by decide +kernel) (hf []) hc hrow
  obtain ⟨hstands, -⟩ := (rooted_packagesDisk ["./store/close.go"]).stands storeEntries_at
  intro hmem
  exact hkept.1 (List.mem_map_of_mem hmem) "close.go" (by decide) (by decide +kernel)
    (.withheld (entry_below hstands (by simp [IsName]) rfl nofun) (by decide +kernel))

/-- Where a file of the other package is withheld, the function stays. -/
theorem rerun_keeps_iff_packages :
    ∃ stats q stats' q', (run tablesWorld (fun _ _ => pure [1]) (packagesDisk []) 1
        (.walking (.start "." [])) none).perform ⟨.empty, true, []⟩ = (.ok stats, q) ∧
      (run tablesWorld (fun _ _ => pure [1]) (packagesDisk ["./tool/main.go"]) 1
        (.walking (.start "." [])) (some (normalise "."))).perform ⟨q.outside, true, []⟩ =
          (.ok stats', q') ∧
      ∃ row ∈ q.outside.rowsOf openIdentity, row ∈ q'.outside.chunks := by
  obtain ⟨stats, q, hq, hs, row, hrow⟩ := exists_first_run
  obtain ⟨stats', q', hq'⟩ :=
    exists_walked_run ["./tool/main.go"] hs (some (normalise "."))
  obtain ⟨f, c, hf, hc, hi⟩ := exists_openFile
  rw [← hi] at hrow ⊢
  have he := (answers_pure stored [1]).embeds
  obtain ⟨-, hkept⟩ := rerun_keeps_iff reliable_tablesWorld.toBacked he (rooted_packagesDisk [])
    (packagesDisk_damaged ["./tool/main.go"]) [] 1 1 none ⟨.empty, true, []⟩
    ⟨q.outside, true, []⟩ Tables.sound_empty (.alone (Nat.le_refl 1) hq) rfl
    (.alone (Nat.le_refl 1) hq') (by simp) storeEntries_at (by decide) (by decide +kernel) (hf [])
    hc hrow
  obtain ⟨-, hasis⟩ := hkept stats' rfl
  exact ⟨stats, q, stats', q', hq, hq', row, hrow,
    (hasis (Nat.le_refl 1) (Nat.le_refl 1)).2 (good_packagesDisk (by decide +kernel))⟩

end DocSearch.Index
