import DocSearch.Doc.Walk
import DocSearch.Proofs.Files.Follow

/-!
# The pre-order of folders

`preorder` lists the folders of a tree: the folder at the root, and behind it the folders below each
of its own ones, in the order of their names. Links are not entered, nor are folders with an
excluded name below the root.

The walk does not hold this list. It holds the folders that it has found and not visited, and
**`Coming`** says which list of folders is still to come from them.
-/

namespace DocSearch.Doc

open Files

/-! ## The list -/

mutual

/-- The folders of a tree at `p` in lexical pre-order. -/
def preorder (exclude : List String) (p : Place) : Entry → List Place
  | .folder entries =>
    p :: ((branches exclude p entries).mergeSort fun a b => decide (a.1 ≤ b.1)).flatMap (·.2)
  | _ => []

/-- The names of folders in a folder at `p`, each with its own pre-order. -/
def branches (exclude : List String) (p : Place) :
    List (String × Entry) → List (String × List Place)
  | [] => []
  | (name, e) :: es =>
    if e.isFolder && !exclude.contains name then
      (name, preorder exclude (p.below name) e) :: branches exclude p es
    else branches exclude p es

end

/-- The folders in a folder in the order of their names, without the excluded ones. -/
def subfolders (exclude : List String) (entries : List (String × Entry)) : List (String × Entry) :=
  (entries.filter fun e => e.2.isFolder && !exclude.contains e.1).mergeSort
    fun a b => decide (a.1 ≤ b.1)

variable {exclude : List String} {p : Place} {entries : List (String × Entry)}

theorem branches_eq : branches exclude p entries =
    (entries.filter fun e => e.2.isFolder && !exclude.contains e.1).map fun e =>
      (e.1, preorder exclude (p.below e.1) e.2) := by
  induction entries with
  | nil => rw [branches]; rfl
  | cons e es ih =>
    rw [branches, List.filter_cons, ih]
    split_ifs <;> rfl

/-- A folder comes before what is below it, and one of its folders with all that is below it comes
before the next one. -/
theorem preorder_folder : preorder exclude p (.folder entries) =
    p :: (subfolders exclude entries).flatMap fun e => preorder exclude (p.below e.1) e.2 := by
  have hsorted := List.map_mergeSort (s := fun a b : String × List Place => decide (a.1 ≤ b.1))
    (f := fun e => (e.1, preorder exclude (p.below e.1) e.2))
    (l := entries.filter fun e => e.2.isFolder && !exclude.contains e.1) fun _ _ _ _ => rfl
  rw [preorder, branches_eq, subfolders, ← hsorted, List.flatMap_map]

theorem mem_subfolders {e : String × Entry} :
    e ∈ subfolders exclude entries ↔
      e ∈ entries ∧ e.2.isFolder = true ∧ exclude.contains e.1 = false := by
  simp [subfolders]

/-! ## Its length -/

theorem folderCount_le_of_mem {name : String} {e : Entry} (h : (name, e) ∈ entries) :
    folderCount e ≤ folderCounts entries := by
  induction entries with
  | nil => cases h
  | cons d es ih =>
    rw [folderCounts]
    rcases List.mem_cons.1 h with rfl | h
    · exact Nat.le_add_right _ _
    · exact Nat.le_trans (ih h) (Nat.le_add_left _ _)

theorem folderCount_at?_le {top e : Entry} {ns : List String} (h : top.at? ns = some e) :
    folderCount e ≤ folderCount top := by
  induction ns generalizing top with
  | nil =>
    obtain rfl := Option.some.inj h
    exact Nat.le_refl _
  | cons n ns ih =>
    obtain ⟨d, hd, hrest⟩ := Option.bind_eq_some_iff.1 h
    cases top with
    | file content => cases hd
    | link target => cases hd
    | folder entries =>
      have hmem := folderCount_le_of_mem (Keyed.mem_of_lookup hd)
      rw [folderCount]
      exact Nat.le_trans (ih hrest) (Nat.le_succ_of_le hmem)

mutual

theorem length_preorder_le : ∀ (p : Place) (e : Entry),
    (preorder exclude p e).length ≤ folderCount e
  | p, .file _ => by simp [preorder]
  | p, .link _ => by simp [preorder]
  | p, .folder entries => by
    have hperm := ((branches exclude p entries).mergeSort_perm
      fun a b => decide (a.1 ≤ b.1)).flatMap_right (·.2)
    rw [preorder, folderCount, List.length_cons, hperm.length_eq]
    exact Nat.succ_le_succ (length_branches_le p entries)

theorem length_branches_le : ∀ (p : Place) (entries : List (String × Entry)),
    ((branches exclude p entries).flatMap (·.2)).length ≤ folderCounts entries
  | p, [] => by simp [branches]
  | p, (name, e) :: es => by
    have he := length_preorder_le (p.below name) e
    have hes := length_branches_le p es
    rw [branches, folderCounts]
    split_ifs
    · rw [List.flatMap_cons, List.length_append]
      exact Nat.add_le_add he hes
    · exact Nat.le_trans hes (Nat.le_add_left _ _)

end

/-! ## Its members -/

theorem isFolder_of_at? {e : Entry} {names : List String} {es : List (String × Entry)}
    (h : e.at? names = some (.folder es)) : e.isFolder = true := by
  cases names with
  | nil =>
    obtain rfl := Option.some.inj h
    rfl
  | cons n ns =>
    cases e with
    | folder entries => rfl
    | _ => cases h

/-- The folders that are listed are those that lie below the first one at the end of names that are
not excluded. -/
theorem mem_preorder_iff {e : Entry} (he : e.Proper) {p q : Place} :
    q ∈ preorder exclude p e ↔ ∃ names es, q = { p with names := p.names ++ names } ∧
      (∀ n ∈ names, n ∉ exclude) ∧ e.at? names = some (.folder es) := by
  constructor
  · intro hq
    induction he generalizing p with
    | file content => simp [preorder] at hq
    | link target => simp [preorder] at hq
    | @folder entries distinct named proper ih =>
      rw [preorder_folder, List.mem_cons, List.mem_flatMap] at hq
      obtain rfl | ⟨e, he, hq⟩ := hq
      · exact ⟨[], entries, by simp, by simp, rfl⟩
      · obtain ⟨hmem, -, hexclude⟩ := mem_subfolders.1 he
        obtain ⟨names, es, rfl, hnames, hat⟩ := ih e hmem hq
        refine ⟨e.1 :: names, es, by simp [Place.below], ?_, ?_⟩
        · exact List.forall_mem_cons.2 ⟨by simpa using hexclude, hnames⟩
        · have hlookup : entries.lookup e.1 = some e.2 := Keyed.lookup_of_mem distinct hmem
          rw [Entry.at?, Entry.get?, hlookup]
          exact hat
  · rintro ⟨names, es, rfl, hnames, hat⟩
    induction names generalizing p e with
    | nil =>
      obtain rfl := Option.some.inj hat
      rw [preorder_folder, List.append_nil]
      exact List.mem_cons_self
    | cons n ns ih =>
      cases he with
      | file content => cases hat
      | link target => cases hat
      | @folder entries distinct named proper =>
        obtain ⟨d, hd, hrest⟩ := Option.bind_eq_some_iff.1 hat
        have hmem : (n, d) ∈ entries := Keyed.mem_of_lookup hd
        rw [List.forall_mem_cons] at hnames
        have hq := ih (p := p.below n) (proper _ hmem) hnames.2 hrest
        rw [preorder_folder, List.mem_cons, List.mem_flatMap]
        refine .inr ⟨(n, d), mem_subfolders.2 ⟨hmem, isFolder_of_at? hrest, ?_⟩, ?_⟩
        · simpa using hnames.1
        · simpa [Place.below] using hq

theorem nodup_subfolders (distinct : (entries.map (·.1)).Nodup) :
    ((subfolders exclude entries).map (·.1)).Nodup := by
  have hperm := (entries.filter fun e => e.2.isFolder && !exclude.contains e.1).mergeSort_perm
    fun a b => decide (a.1 ≤ b.1)
  exact (hperm.map (·.1)).nodup_iff.2 (distinct.sublist (List.filter_sublist.map _))

/-- No folder is listed twice. -/
theorem nodup_preorder {e : Entry} (he : e.Proper) (exclude : List String) (p : Place) :
    (preorder exclude p e).Nodup := by
  induction he generalizing p with
  | file content => simp [preorder]
  | link target => simp [preorder]
  | @folder entries distinct named proper ih =>
    -- The names that lead to a folder begin with those of `p` and the name of its branch.
    have hnames {f : String × Entry} (hf : f ∈ subfolders exclude entries) {q : Place}
        (hq : q ∈ preorder exclude (p.below f.1) f.2) :
        ∃ names, q.names = p.names ++ f.1 :: names := by
      obtain ⟨hmem, -⟩ := mem_subfolders.1 hf
      obtain ⟨names, es, rfl, -⟩ := (mem_preorder_iff (proper f hmem)).1 hq
      exact ⟨names, by simp [Place.below]⟩
    rw [preorder_folder, List.nodup_cons, List.nodup_flatMap]
    refine ⟨fun hp => ?_, fun f hf => ih f (mem_subfolders.1 hf).1 _, ?_⟩
    · obtain ⟨f, hf, hp⟩ := List.mem_flatMap.1 hp
      obtain ⟨names, hlonger⟩ := hnames hf hp
      simpa using congrArg List.length hlonger
    · have hnodup : ((subfolders exclude entries).map (·.1)).Nodup := nodup_subfolders distinct
      have hdistinct := List.pairwise_map.1 hnodup
      refine hdistinct.imp_of_mem fun {f g} hf hg hne q hqf hqg => ?_
      obtain ⟨ns, hns⟩ := hnames hf hqf
      obtain ⟨ms, hms⟩ := hnames hg hqg
      exact hne (List.cons.inj (List.append_cancel_left (hns.symm.trans hms))).1

/-- A folder at the end of names stands at the place that they lead to. -/
theorem stands_at {disk : Disk} (hproper : (Entry.folder entries).Proper)
    (h : Stands disk p entries) {names : List String} {es : List (String × Entry)}
    (hat : (Entry.folder entries).at? names = some (.folder es)) :
    Stands disk { p with names := p.names ++ names } es := by
  induction names generalizing p entries with
  | nil =>
    obtain rfl := Entry.folder.inj (Option.some.inj hat)
    rwa [List.append_nil]
  | cons n ns ih =>
    obtain ⟨d, hd, hrest⟩ := Option.bind_eq_some_iff.1 hat
    cases hproper with
    | folder distinct named proper =>
      have hmem : (n, d) ∈ entries := Keyed.mem_of_lookup hd
      cases d with
      | folder ds =>
        simpa [Place.below] using ih (proper _ hmem) (h.below (named _ hmem) hd) hrest
      | _ => cases isFolder_of_at? hrest

/-! ## What is still to come -/

variable {disk : Disk}

/-- What a folder that stands at a place names as its folders, unless it cannot be listed. -/
theorem folderNames_eq (h : Stands disk p entries) {es : List (String × Entry)}
    (hlist : disk.list p = .ok es) :
    folderNames disk exclude p = .ok ((subfolders exclude entries).map (·.1)) := by
  have hes : es = entries := by
    rw [h.list] at hlist
    split_ifs at hlist
    exact (Except.ok.inj hlist).symm
  have hsorted := List.map_mergeSort (s := fun a b : String => decide (a ≤ b)) (f := Prod.fst)
    (l := entries.filter fun e => e.2.isFolder && !exclude.contains e.1) fun _ _ _ _ => rfl
  rw [folderNames, hlist, hes, subfolders, hsorted]
  rfl

/-- From the folders `places` on, which have been found and not visited, `ds` are to come. -/
inductive Coming (disk : Disk) (exclude : List String) : List Place → List Place → Prop
  | nil : Coming disk exclude [] []
  | cons {p : Place} {entries : List (String × Entry)} {places ds : List Place}
      (stands : Stands disk p entries) (rest : Coming disk exclude places ds) :
      Coming disk exclude (p :: places) (preorder exclude p (.folder entries) ++ ds)

theorem coming_map {l : List (String × Entry)} {places ds : List Place}
    (hl : ∀ e ∈ l, ∃ es, e.2 = .folder es ∧ Stands disk (p.below e.1) es)
    (hrest : Coming disk exclude places ds) :
    Coming disk exclude (l.map (fun e => p.below e.1) ++ places)
      (l.flatMap (fun e => preorder exclude (p.below e.1) e.2) ++ ds) := by
  induction l with
  | nil => exact hrest
  | cons e l ih =>
    rw [List.forall_mem_cons] at hl
    obtain ⟨⟨es, hes, hstands⟩, hl⟩ := hl
    rw [List.map_cons, List.cons_append, List.flatMap_cons, List.append_assoc, hes]
    exact .cons hstands (ih hl)

/-- Behind a folder, its own folders come before the ones that were to come. -/
theorem coming_subfolders (htop : disk.top.Proper) (h : Stands disk p entries)
    {places ds : List Place} (hrest : Coming disk exclude places ds) :
    Coming disk exclude ((subfolders exclude entries).map (fun e => p.below e.1) ++ places)
      ((subfolders exclude entries).flatMap (fun e => preorder exclude (p.below e.1) e.2) ++
        ds) := by
  refine coming_map (fun e he => ?_) hrest
  obtain ⟨hmem, hfolder, -⟩ := mem_subfolders.1 he
  cases h.proper htop with
  | folder distinct named proper =>
    obtain ⟨name, e⟩ := e
    cases e with
    | file content => cases hfolder
    | link target => cases hfolder
    | folder es => exact ⟨es, rfl, h.below (named _ hmem) (Keyed.lookup_of_mem distinct hmem)⟩

end DocSearch.Doc
