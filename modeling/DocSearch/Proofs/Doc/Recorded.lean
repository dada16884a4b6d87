import DocSearch.Proofs.Doc.Filename
import DocSearch.Proofs.Store.Like

/-!
# The files that a walk records lie below its root

A walk joins the names on its way to its normalised root, and a chunk has the path of its file as it
was joined. Pruning looks for what lies below the root by a pattern. Both agree, whatever the root
is and whatever names are met: a dot, a path up, one slash or two, and names that hold characters
with a meaning in patterns.

**The invariant** (`Walk.From`) is that all folders that a walk is at or has still to visit are
places below its root, and that the chunks in hand name files that are joined to it. A visit keeps
it, so a pull does and so does any number of pulls (`joined_of_mem_pulls`). What is on the disk is
not asked: it may change from pull to pull, and folders may be missing or not be read.
-/

namespace DocSearch.Doc

open Files Store

/-! ## Joined paths -/

/-- A file under a root: its path is that of the root with the names of folders and one name more
joined to it. -/
def Joined (root file : String) : Prop :=
  ∃ (names : List String) (name : String), file = (names ++ [name]).foldl child root

theorem joined_below {p : Place} {root : String} (hp : p.base = root) (name : String) :
    Joined root (p.below name).path := ⟨p.names, name, by rw [← hp]; rfl⟩

/-- What is joined to a root lies below it. -/
theorem Joined.below {root file : String} (h : Joined root file) : Below root file := by
  obtain ⟨names, name, rfl⟩ := h
  exact below_path ⟨root, names⟩ name

/-! ## One folder -/

theorem of_mem_mapM {α β ε : Type} {f : α → Except ε β} {l : List α} {bs : List β}
    (h : l.mapM f = .ok bs) : ∀ b ∈ bs, ∃ a ∈ l, f a = .ok b := by
  induction l generalizing bs with
  | nil =>
    rw [List.mapM_nil] at h
    obtain rfl := Except.ok.inj h
    simp
  | cons a l ih =>
    rw [List.mapM_cons] at h
    cases ha : f a with
    | error e => simp [ha, bind, Except.bind] at h
    | ok b =>
      cases hl : l.mapM f with
      | error e => simp [ha, hl, bind, Except.bind] at h
      | ok others =>
        obtain rfl : b :: others = bs := by
          simpa [ha, hl, bind, Except.bind, pure, Except.pure] using h
        intro b' hb'
        rcases List.mem_cons.1 hb' with rfl | hothers
        · exact ⟨a, List.mem_cons_self, ha⟩
        · obtain ⟨a', ha', hf⟩ := ih hl b' hothers
          exact ⟨a', List.mem_cons_of_mem a ha', hf⟩

/-- Every chunk of a folder names a file in it, whatever is on the disk. -/
theorem exists_filename_of_own {disk : Disk} {p : Place} {c : Chunk} (hc : c ∈ own disk p) :
    ∃ name, c.filename = (p.below name).path := by
  unfold own parseFolder at hc
  cases hnames : sourceNames disk p with
  | error e => simp [hnames, Except.mapError, bind, Except.bind] at hc
  | ok names =>
    cases hfiles : names.mapM fun n => parseFile disk (p.below n) with
    | error e => simp [hnames, hfiles, Except.mapError, bind, Except.bind] at hc
    | ok files =>
      have hmem : ∃ f ∈ files, c ∈ f.chunks := by
        simpa [hnames, hfiles, Except.mapError, bind, Except.bind, pure, Except.pure] using hc
      obtain ⟨f, hf, hcf⟩ := hmem
      obtain ⟨name, -, hparse⟩ := of_mem_mapM hfiles f hf
      obtain ⟨hpath, content, -, hsource⟩ := parsed_of_parseFile hparse
      exact ⟨name, (filename_of_parseSource hsource c hcf).trans hpath⟩

/-! ## Walks -/

/-- A walk that is under `root` with all that it has at hand or to come. -/
structure Walk.From (root : String) (w : Walk) : Prop where
  root_eq : w.root = root
  base_eq : ∀ p others, w.stage = .behind p others → p.base = root ∧ ∀ q ∈ others, q.base = root
  joined : ∀ c ∈ w.pending, Joined root c.filename

namespace Walk.From

variable {root : String} {w w' : Walk} {disk : Disk} {trip : Trip} {logs logs' : List LogLine}

theorem close (h : w.From root) : w.close.From root :=
  ⟨h.root_eq, nofun, by simp [Walk.close]⟩

theorem pend (h : w.From root) {cs : List Chunk} (hcs : ∀ c ∈ cs, Joined root c.filename) :
    { w with pending := cs }.From root := ⟨h.root_eq, h.base_eq, hcs⟩

/-- Entering a folder under the root. -/
theorem enter (h : w.From root) {p : Place} {others : List Place} (hp : p.base = root)
    (hothers : ∀ q ∈ others, q.base = root) {v : Visit}
    (henter : Walk.enter disk trip w p others = (w', v, logs)) :
    w'.From root ∧ ∀ cs, v = .chunks cs → ∀ c ∈ cs, Joined root c.filename := by
  cases trip with
  | some reason =>
    rw [Walk.enter_tripped] at henter
    obtain ⟨rfl, rfl, -⟩ := by simpa using henter
    exact ⟨h.close, nofun⟩
  | none =>
    obtain ⟨more, hentered⟩ := Walk.enter_untripped disk w p others
    rw [hentered] at henter
    obtain ⟨rfl, rfl, -⟩ := by simpa using henter
    refine ⟨⟨h.root_eq, ?_, h.joined⟩, ?_⟩
    · intro p' others' hstage
      obtain ⟨rfl, rfl⟩ := Stage.behind.inj hstage
      exact ⟨hp, hothers⟩
    · intro cs hcs c hc
      obtain rfl := Visit.chunks.inj hcs
      obtain ⟨name, hname⟩ := exists_filename_of_own hc
      rw [hname]
      exact joined_below hp name

/-- **A visit stays under the root.** -/
theorem visit (h : w.From root) {v : Visit} (hvisit : w.visit disk trip = (w', v, logs)) :
    w'.From root ∧ ∀ cs, v = .chunks cs → ∀ c ∈ cs, Joined root c.filename := by
  unfold Walk.visit at hvisit
  split at hvisit
  next =>
    obtain ⟨rfl, rfl, -⟩ := by simpa using hvisit
    exact ⟨h, nofun⟩
  next =>
    split at hvisit
    next =>
      obtain ⟨rfl, rfl, -⟩ := by simpa using hvisit
      exact ⟨h.close, nofun⟩
    next => exact h.enter h.root_eq (by simp) hvisit
    next =>
      obtain ⟨rfl, rfl, -⟩ := by simpa using hvisit
      exact ⟨h.close, nofun⟩
  next p others hstage =>
    obtain ⟨hp, hothers⟩ := h.base_eq p others hstage
    split at hvisit
    next =>
      obtain ⟨rfl, rfl, -⟩ := by simpa using hvisit
      exact ⟨h.close, nofun⟩
    next names hnames =>
      have hcoming : ∀ q ∈ names.map p.below ++ others, q.base = root := by
        intro q hq
        rcases List.mem_append.1 hq with hq | hq
        · obtain ⟨n, -, rfl⟩ := List.mem_map.1 hq
          exact hp
        · exact hothers q hq
      split at hvisit
      next =>
        obtain ⟨rfl, rfl, -⟩ := by simpa using hvisit
        exact ⟨h.close, nofun⟩
      next q others' hnext =>
        rw [hnext] at hcoming
        exact h.enter (hcoming q List.mem_cons_self)
          (fun q' hq' => hcoming q' (List.mem_cons_of_mem q hq')) hvisit

/-- A pull stays under the root, and what is pulled is a chunk of a file under it. -/
theorem pullWithin (h : w.From root) {fuel : Nat} {r : Walk.Pull}
    (hpull : Walk.pullWithin disk trip logs fuel w = (w', r, logs')) :
    w'.From root ∧ ∀ c, r = .chunk c → Joined root c.filename := by
  induction fuel generalizing w logs with
  | zero =>
    obtain ⟨rfl, rfl, -⟩ := by simpa [Walk.pullWithin] using hpull
    refine ⟨h.close, fun c hc => ?_⟩
    cases hc
  | succ fuel ih =>
    rw [Walk.pullWithin] at hpull
    cases hpending : w.pending with
    | cons c cs =>
      have hjoined := hpending ▸ h.joined
      rw [hpending] at hpull
      obtain ⟨rfl, rfl, -⟩ := by simpa using hpull
      refine ⟨h.pend fun d hd => hjoined d (List.mem_cons_of_mem c hd), ?_⟩
      intro d hd
      obtain rfl := Walk.Pull.chunk.inj hd
      exact hjoined c List.mem_cons_self
    | nil =>
      rw [hpending] at hpull
      rcases hvisit : w.visit disk trip with ⟨w'', v, more⟩
      obtain ⟨hfrom, hchunks⟩ := h.visit hvisit
      rw [hvisit] at hpull
      cases v with
      | chunks cs => exact ih (hfrom.pend (hchunks cs rfl)) hpull
      | _ =>
        obtain ⟨rfl, rfl, -⟩ := by simpa using hpull
        refine ⟨hfrom, fun c hc => ?_⟩
        cases hc

end Walk.From

/-- The chunks that are pulled from a walk, each pull from a disk and with a token as it finds
them. -/
def pulls : List (Disk × Trip) → Walk → List Chunk
  | [], _ => []
  | (disk, trip) :: finds, w =>
    match w.pull disk trip with
    | (w, .chunk c, _) => c :: pulls finds w
    | (w, _, _) => pulls finds w

/-- **All that is pulled stays under the root**, by induction on the pulls. -/
theorem joined_of_mem_pulls {root : String} {finds : List (Disk × Trip)} {w : Walk}
    (h : w.From root) : ∀ c ∈ pulls finds w, Joined root c.filename := by
  induction finds generalizing w with
  | nil => simp [pulls]
  | cons find finds ih =>
    obtain ⟨disk, trip⟩ := find
    rcases hpull : w.pull disk trip with ⟨w', r, logs⟩
    obtain ⟨hfrom, hchunk⟩ := h.pullWithin hpull
    rw [pulls, hpull]
    cases r with
    | chunk c => exact List.forall_mem_cons.2 ⟨hchunk c rfl, ih hfrom⟩
    | _ => exact ih hfrom

theorem from_start (root : String) (exclude : List String) :
    (Walk.start root exclude).From (normalise root) := ⟨rfl, nofun, by simp [Walk.start]⟩

/-- **The pattern of pruning means what lies under the root, and a walk records nothing else.** The
pattern is the root with a backslash in front of each backslash, percent sign and underscore,
without slashes at the end, and a slash and a percent sign behind. By the meaning of patterns, and
by the matcher that decides it, a file is like the pattern exactly if its path begins with the root,
without slashes at its end, and a slash. This holds of every path that is joined to the root of a
walk, and all chunks that are ever pulled from the walk have such paths. -/
theorem recorded_like_patternBelow :
    (∀ root file : String,
      (patternBelow root).toList =
          (escaped '_' (escaped '%' (escaped '\\' root.toList))).rdropWhile (· == '/') ++
            ['/', '%'] ∧
        (Like (patternBelow root).toList file.toList ↔ Below root file) ∧
        (fits (patternBelow root).toList file.toList = true ↔
          Like (patternBelow root).toList file.toList)) ∧
    ∀ (root : String) (exclude : List String),
      (Walk.start root exclude).root = normalise root ∧
        (∀ (names : List String) (name : String),
          Like (patternBelow (Walk.start root exclude).root).toList
            ((names ++ [name]).foldl child (normalise root)).toList) ∧
        ∀ finds, ∀ c ∈ pulls finds (Walk.start root exclude),
          Joined (normalise root) c.filename ∧
            Like (patternBelow (Walk.start root exclude).root).toList c.filename.toList := by
  refine ⟨fun root file => ⟨toList_patternBelow root, like_patternBelow_iff, ?_⟩, ?_⟩
  · exact fits_iff_like (complete_patternBelow root) _
  · intro root exclude
    have hlike : ∀ file, Joined (normalise root) file →
        Like (patternBelow (normalise root)).toList file.toList :=
      fun file hfile => like_patternBelow_iff.2 hfile.below
    refine ⟨rfl, fun names name => hlike _ ⟨names, name, rfl⟩, fun finds c hc => ?_⟩
    have hjoined := joined_of_mem_pulls (from_start root exclude) c hc
    exact ⟨hjoined, hlike _ hjoined⟩

/-! ## A root with odd characters -/

/-- The first chunk of a walk is the first of its root folder. -/
theorem pulls_start {disk : Disk} {root : String} {exclude : List String}
    {entries : List (String × Entry)} {c : Chunk} {cs : List Chunk}
    (hentry : disk.entry ⟨normalise root, []⟩ false = .ok (.folder entries))
    (hown : own disk ⟨normalise root, []⟩ = c :: cs) :
    pulls [(disk, none)] (.start root exclude) = [c] := by
  obtain ⟨more, henter⟩ :=
    Walk.enter_untripped disk (.start root exclude) ⟨normalise root, []⟩ []
  have hpull : ∃ w logs, (Walk.start root exclude).pull disk none = (w, .chunk c, logs) := by
    rw [Walk.pull, Walk.pullWithin_chunks rfl ((visit_start_folder hentry none).trans henter), hown]
    exact ⟨_, _, rfl⟩
  obtain ⟨w, logs, hpull⟩ := hpull
  rw [pulls, hpull]
  rfl

/-- The source of a documented function. -/
def oddSource : Text.Bytes :=
  Text.Utf8.encode "package a\n\n// Open opens.\nfunc Open() \x7b\x7d\n"

/-- The one file of a folder. -/
def oddEntries : List (String × Entry) := [("a.go", .file oddSource)]

/-- A disk with a folder whose name is a percent sign and an underscore. -/
def oddDisk : Disk := ⟨.folder [("%_", .folder oddEntries)], [], []⟩

theorem stands_oddDisk : Stands oddDisk ⟨"%_", []⟩ oddEntries :=
  stands_name rfl (by simp [IsName]) (by decide) rfl

theorem exists_own_oddDisk : ∃ c cs, own oddDisk ⟨"%_", []⟩ = c :: cs := by
  have hproper : (Entry.folder oddEntries).Proper :=
    .folder (by decide) (by simp [oddEntries, IsName]) (by simpa [oddEntries] using .file _)
  have hlist : oddDisk.list ⟨"%_", []⟩ = .ok oddEntries := stands_oddDisk.list
  have hholds : Holds oddDisk ⟨"%_", []⟩ "a.go" oddSource :=
    entry_below stands_oddDisk (by simp [IsName]) rfl (by simp)
  have hchunks : (parseSource oddSource (Place.below ⟨"%_", []⟩ "a.go").path).toOption.map
      (fun r => r.2.isEmpty) = some false := by decide +kernel
  cases hparse : parseSource oddSource (Place.below ⟨"%_", []⟩ "a.go").path with
  | error e =>
    rw [hparse] at hchunks
    cases hchunks
  | ok r =>
    rw [hparse] at hchunks
    have hparsed : Parsed oddDisk ⟨"%_", []⟩ "a.go"
        ⟨r.1, (Place.below ⟨"%_", []⟩ "a.go").path, r.2⟩ := ⟨rfl, _, hholds, hparse⟩
    have hgood : ∀ name ∈ oddEntries.map (·.1), isSourceName name = true →
        ¬ Spoils oddDisk ⟨"%_", []⟩ name := by
      intro name hname _
      obtain rfl : name = "a.go" := by simpa [oddEntries] using hname
      exact not_spoils_of_parsed hparsed List.not_mem_nil
    obtain ⟨c, hc⟩ := List.exists_mem_of_ne_nil r.2
      (List.isEmpty_eq_false_iff.1 (Option.some.inj hchunks))
    have hown : c ∈ own oddDisk ⟨"%_", []⟩ :=
      (mem_own_of_good stands_oddDisk hproper hlist hgood).2
        ⟨"a.go", by simp [oddEntries], by decide +kernel, _, hparsed, hc⟩
    exact List.exists_cons_of_ne_nil (List.ne_nil_of_mem hown)

/-- A chunk of that folder is below the root. The file of another folder is not, though it would be
like the root if nothing in it were escaped. -/
theorem recorded_like_patternBelow_odd :
    ∃ c, c ∈ pulls [(oddDisk, none)] (Walk.start "%_/" []) ∧
      Joined (normalise "%_/") c.filename ∧
      Like (patternBelow (Walk.start "%_/" []).root).toList c.filename.toList ∧
      Like "%_/%".toList "50/a.go".toList ∧
      ¬ Like (patternBelow "%_").toList "50/a.go".toList := by
  have hnormalise : normalise "%_/" = "%_" := by decide +kernel
  obtain ⟨c, cs, hown⟩ := exists_own_oddDisk
  have hmem : c ∈ pulls [(oddDisk, none)] (Walk.start "%_/" []) := by
    rw [pulls_start (hnormalise ▸ stands_oddDisk.entry false) (hnormalise ▸ hown)]
    exact List.mem_singleton_self c
  obtain ⟨hjoined, hlike⟩ := (recorded_like_patternBelow.2 "%_/" []).2.2 _ c hmem
  refine ⟨c, hmem, hjoined, hlike, ?_, ?_⟩
  · have hrest : Like ['/', '%'] "/a.go".toList :=
      .plain (by decide) (by decide) (by decide) (.any "a.go".toList .nil)
    exact .any [ '5' ] (.one '0' hrest)
  · rw [(recorded_like_patternBelow.1 "%_" "50/a.go").2.1]
    intro hbelow
    obtain ⟨rest, hrest⟩ := hbelow
    simp [Text.dropEnd] at hrest

end DocSearch.Doc
