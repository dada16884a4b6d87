import DocSearch.Proofs.Doc.Folder

/-!
# The stream of a walk

A walk keeps a list of the folders that it has found and not visited. Where every folder can be
listed, what it yields is **`stream`**: the chunks of the first folder, and behind them the streams
of the folders in it, in the order of their names. Links are not entered, so links that go round in
circles do no harm, and every folder is visited once (`Visits`).
-/

namespace DocSearch.Doc

open Files Text

variable {exclude : List String} {p : Place} {entries : List (String × Entry)}


/-! ## The stream -/

/-- The chunks of a tree at `p`: those of its folder, and behind them those of the folders in it,
one after the other. -/
def stream (disk : Disk) (exclude : List String) (p : Place) : Entry → List Chunk
  | .folder entries =>
    own disk p ++ (subfolders exclude entries).attach.flatMap fun e =>
      stream disk exclude (p.below e.1.1) e.1.2
  | _ => []
termination_by e => sizeOf e
decreasing_by
  have hmem := List.sizeOf_lt_of_mem (mem_subfolders.1 e.2).1
  have hpair : sizeOf e.1 = 1 + sizeOf e.1.1 + sizeOf e.1.2 := rfl
  simp only [Entry.folder.sizeOf_spec]
  omega

variable {disk : Disk}

theorem stream_folder : stream disk exclude p (.folder entries) =
    own disk p ++ (subfolders exclude entries).flatMap fun e =>
      stream disk exclude (p.below e.1) e.2 := by
  have hunattach := List.flatMap_map Subtype.val
    (fun e : String × Entry => stream disk exclude (p.below e.1) e.2)
    (subfolders exclude entries).attach
  rw [List.attach_map_subtype_val] at hunattach
  rw [stream, hunattach]

/-- The stream of a tree is made of the chunks of its folders in pre-order. -/
theorem stream_eq {e : Entry} (he : e.Proper) (p : Place) :
    stream disk exclude p e = (preorder exclude p e).flatMap (own disk) := by
  induction he generalizing p with
  | file content => simp [stream, preorder]
  | link target => simp [stream, preorder]
  | folder distinct named proper ih =>
    rw [stream_folder, preorder_folder, List.flatMap_cons, List.flatMap_assoc]
    congr 1
    exact List.flatMap_congr fun e he => ih e (mem_subfolders.1 he).1 _

/-! ## Visits -/

/-- The folders that a walk visits up to its end, while nobody trips the token. -/
inductive Visits (disk : Disk) : Walk → List Place → Prop
  | finished {w w' : Walk} {logs : List LogLine} (h : w.visit disk none = (w', .finished, logs)) :
      Visits disk w []
  | folder {w w' : Walk} {p : Place} {others ps : List Place} {cs : List Chunk}
      {logs : List LogLine} (h : w.visit disk none = (w', .chunks cs, logs))
      (hstage : w'.stage = .behind p others) (rest : Visits disk w' ps) : Visits disk w (p :: ps)

theorem visits_of_next {w : Walk} {q : Place} {others ps : List Place}
    (hvisit : ∀ trip, w.visit disk trip = Walk.enter disk trip w q others)
    (rest : Visits disk { w with stage := .behind q others } ps) : Visits disk w (q :: ps) := by
  obtain ⟨logs, henter⟩ := Walk.enter_untripped disk w q others
  exact .folder ((hvisit none).trans henter) rfl rest

theorem visits_ahead (htop : disk.top.Proper) {w : Walk} {ds : List Place}
    (h : Walk.Ahead disk w p ds) (hlist : ∀ q ∈ p :: ds, Listable disk q) : Visits disk w ds := by
  induction ds generalizing w p with
  | nil => exact .finished (Walk.visit_end htop h (hlist p List.mem_cons_self) none)
  | cons q ds ih =>
    rw [List.forall_mem_cons] at hlist
    obtain ⟨others, hvisit, hahead⟩ := Walk.visit_next htop h hlist.1
    exact visits_of_next hvisit (ih hahead hlist.2)

/-! ## Walks without a fault -/

theorem segment_whole {dirs : List Place} {cs : List Chunk} {ending : Option WalkError}
    (hlist : ∀ p ∈ dirs, Listable disk p) (h : Segment disk (fun _ => none) dirs cs ending) :
    cs = dirs.flatMap (own disk) ∧ ending = none := by
  cases h with
  | whole => exact ⟨rfl, rfl⟩
  | @unlisted front rest p cause hdirs _ hp =>
    obtain ⟨entries, hentries⟩ := hlist p (by simp [hdirs])
    cases hp.symm.trans hentries
  | cancelled _ _ _ htrip => cases htrip

theorem list_of_stands (h : Stands disk p entries) (hlist : disk.unlistable = []) :
    disk.list p = .ok entries := by
  rw [h.list, hlist]
  rfl

theorem listable_preorder (hproper : (Entry.folder entries).Proper) (h : Stands disk p entries)
    (hlist : disk.unlistable = []) :
    ∀ q ∈ preorder exclude p (.folder entries), Listable disk q := by
  intro q hq
  obtain ⟨names, es, rfl, -, hat⟩ := (mem_preorder_iff hproper).1 hq
  exact ⟨es, list_of_stands (stands_at hproper h hat) hlist⟩

/-- **A walk from a folder yields the stream of its tree** where every folder can be listed. It
visits each folder that is not below an excluded name once, and what it takes from a folder is told
by `Own`. -/
theorem walk_yields_stream (disk : Disk) (htop : disk.top.Proper) (hlist : disk.unlistable = [])
    (root : String) (exclude : List String) {entries : List (String × Entry)}
    (hroot : disk.entry ⟨normalise root, []⟩ false = .ok (.folder entries)) :
    (∀ cs ending, Yields disk (fun _ => none) (.start root exclude) 0 cs ending ↔
      cs = stream disk exclude ⟨normalise root, []⟩ (.folder entries) ∧ ending = none) ∧
    (∃ visited, Visits disk (.start root exclude) visited ∧ visited.Nodup ∧
      ∀ q, q ∈ visited ↔ ∃ names es, q = ⟨normalise root, names⟩ ∧ (∀ n ∈ names, n ∉ exclude) ∧
        (Entry.folder entries).at? names = some (.folder es)) ∧
    ∀ names es, (Entry.folder entries).at? names = some (.folder es) →
      Own disk ⟨normalise root, names⟩ es (own disk ⟨normalise root, names⟩) := by
  have hstands := stands_of_entry hroot
  have hproper := hstands.proper htop
  have hlistable : ∀ q ∈ preorder exclude ⟨normalise root, []⟩ (.folder entries), Listable disk q :=
    listable_preorder hproper hstands hlist
  refine ⟨fun cs ending => ?_, ⟨preorder exclude ⟨normalise root, []⟩ (.folder entries), ?_,
    nodup_preorder hproper exclude _, fun q => ?_⟩, ?_⟩
  · obtain ⟨cs', ending', hyields, hsegment⟩ : ∃ cs' ending',
        Yields disk (fun _ => none) (.start root exclude) 0 cs' ending' ∧
          Segment disk (fun _ => none)
            (preorder exclude ⟨normalise root, []⟩ (.folder entries)) cs' ending' :=
      start_yields_segment htop hroot
    obtain ⟨rfl, rfl⟩ := segment_whole hlistable hsegment
    rw [stream_eq hproper]
    refine ⟨yields_unique hyields, ?_⟩
    rintro ⟨rfl, rfl⟩
    exact hyields
  · rw [preorder_folder] at hlistable ⊢
    exact visits_of_next (visit_start_folder hroot)
      (visits_ahead htop (ahead_start hstands) hlistable)
  · exact mem_preorder_iff hproper
  · intro names es hat
    have hstands' := stands_at hproper hstands hat
    exact own_spec hstands' (hproper.at? hat) (list_of_stands hstands' hlist)

/-- A tree with links that go round in circles: back to the folder that they are in, and up from the
folder below it. -/
def tangledDisk : Disk :=
  ⟨.folder [("src", .folder [("loop", .link "../src"), ("vendor", .folder []), ("lib", .folder
    [("up", .link "..")])])], [], []⟩

theorem proper_tangledDisk : tangledDisk.top.Proper := by
  have hlink (target : String) : (Entry.link target).Proper := .link target
  have hvendor : (Entry.folder []).Proper := .folder .nil (by simp) (by simp)
  have hlib : (Entry.folder [("up", .link "..")]).Proper :=
    .folder (by simp) (by simp [IsName]) (by simpa using hlink "..")
  have hsrc : (Entry.folder [("loop", .link "../src"), ("vendor", .folder []), ("lib", .folder
      [("up", .link "..")])]).Proper :=
    .folder (by simp) (by simp [IsName]) (by simpa using ⟨hlink "../src", hvendor, hlib⟩)
  exact .folder (by simp) (by simp [IsName]) (by simpa using hsrc)

/-- A walk through it goes from `src` to `src/lib` and ends there. -/
theorem walk_yields_stream_tangledDisk :
    Yields tangledDisk (fun _ => none) (.start "src/" ["vendor"]) 0
      (own tangledDisk ⟨"src", []⟩ ++ own tangledDisk ⟨"src", ["lib"]⟩) none := by
  have hnormalise : normalise "src/" = "src" := by decide +kernel
  have hroot : tangledDisk.entry ⟨normalise "src/", []⟩ false = .ok (.folder [("loop",
      .link "../src"), ("vendor", .folder []), ("lib", .folder [("up", .link "..")])]) := by
    rw [hnormalise]
    exact (stands_name rfl (by simp [IsName]) (by decide) rfl).entry false
  obtain ⟨hyields, -⟩ :=
    walk_yields_stream tangledDisk proper_tangledDisk rfl "src/" ["vendor"] hroot
  refine (hyields _ _).2 ⟨?_, rfl⟩
  rw [hnormalise]
  simp [stream_folder, subfolders, Entry.isFolder, Place.below]
end DocSearch.Doc
