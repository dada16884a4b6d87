import DocSearch.Proofs.Files.Follow
import DocSearch.Proofs.Store.Below
import Mathlib.Data.List.TakeWhile

/-!
# Paths of places

Where no name has a slash in it, the path of a place tells the names that lead there
(`names_of_path`), and a file at a place lies below its base (`below_path`).
-/

namespace DocSearch.Files

open Store Text

/-- A name without a slash in it. -/
def SlashFree (name : String) : Prop := '/' ∉ name.toList

/-- No name in the folders of a tree has a slash in it. -/
def Entry.SlashFree (e : Entry) : Prop :=
  ∀ names es, e.at? names = some (.folder es) → ∀ n ∈ es.map (·.1), Files.SlashFree n

theorem Entry.SlashFree.file (content : Bytes) : (Entry.file content).SlashFree := by
  rintro (_ | ⟨n, ns⟩) es hat
  · cases hat
  · cases hat

theorem Entry.SlashFree.folder {entries : List (String × Entry)}
    (hnames : ∀ n ∈ entries.map (·.1), Files.SlashFree n)
    (hbelow : ∀ e ∈ entries, e.2.SlashFree) : (Entry.folder entries).SlashFree := by
  rintro (_ | ⟨n, ns⟩) es hat
  · obtain rfl := Entry.folder.inj (Option.some.inj hat)
    exact hnames
  · obtain ⟨d, hd, hrest⟩ := Option.bind_eq_some_iff.1 hat
    exact hbelow (n, d) (Keyed.mem_of_lookup hd) ns es hrest

theorem Entry.SlashFree.of_lookup {entries : List (String × Entry)} {n : String} {d : Entry}
    (h : (Entry.folder entries).SlashFree) (hd : entries.lookup n = some d) : d.SlashFree := by
  intro names es hat
  refine h (n :: names) es ?_
  rw [Entry.at?, Entry.get?, hd]
  exact hat

/-- The path of a folder as it stands in front of a name. -/
def slashed (folder : String) : List Char :=
  if folder.toList.getLast? == some '/' then folder.toList else folder.toList ++ ['/']

theorem child_eq (folder name : String) :
    (child folder name).toList = slashed folder ++ name.toList := by
  unfold child slashed
  split_ifs <;> simp

theorem slashed_eq_concat (folder : String) : ∃ cs, slashed folder = cs ++ ['/'] := by
  unfold slashed
  split_ifs with h
  · exact List.getLast?_eq_some_iff.1 (beq_iff_eq.1 h)
  · exact ⟨_, rfl⟩

/-- Behind its last slash, a text is told by what stands there. -/
theorem append_slash_inj {cs ds ns ms : List Char} (hn : '/' ∉ ns) (hm : '/' ∉ ms)
    (h : cs ++ ['/'] ++ ns = ds ++ ['/'] ++ ms) : cs ++ ['/'] = ds ++ ['/'] ∧ ns = ms := by
  have hlast {ks : List Char} (hk : '/' ∉ ks) (bs : List Char) :
      (bs ++ ['/'] ++ ks).reverse.takeWhile (· != '/') = ks.reverse := by
    have hpos : ∀ c ∈ ks.reverse, (c != '/') = true := fun c hc =>
      bne_iff_ne.2 fun hslash => hk (hslash ▸ List.mem_reverse.1 hc)
    rw [List.reverse_append, List.takeWhile_append_of_pos hpos, List.reverse_append]
    simp
  have hnames := congrArg (fun cs => cs.reverse.takeWhile (· != '/')) h
  simp only [hlast hn, hlast hm] at hnames
  obtain rfl := List.reverse_injective hnames
  exact ⟨List.append_cancel_right h, rfl⟩

theorem child_inj {folder folder' name name' : String} (hn : SlashFree name)
    (hm : SlashFree name') (h : child folder name = child folder' name') :
    slashed folder = slashed folder' ∧ name = name' := by
  obtain ⟨cs, hcs⟩ := slashed_eq_concat folder
  obtain ⟨ds, hds⟩ := slashed_eq_concat folder'
  have hchars := congrArg String.toList h
  rw [child_eq, child_eq, hcs, hds] at hchars
  obtain ⟨hfolder, hname⟩ := append_slash_inj hn hm hchars
  exact ⟨by rw [hcs, hfolder, hds], String.toList_injective hname⟩

/-! ## Places -/

theorem path_below (p : Place) (name : String) : (p.below name).path = child p.path name := by
  simp [Place.path, Place.below, List.foldl_append]

/-- A path that ends in a name does not end in a slash. -/
theorem slashed_path_below (p : Place) {n : String} (hn : n ≠ "") (hfree : SlashFree n) :
    slashed (p.below n).path = slashed p.path ++ n.toList ++ ['/'] := by
  have hlast : ¬ ((p.below n).path.toList.getLast? == some '/') = true := by
    rw [path_below, child_eq, beq_iff_eq, List.getLast?_append_of_ne_nil]
    · intro hslash
      exact hfree (List.mem_of_getLast? hslash)
    · simpa using hn
  rw [slashed, if_neg hlast, path_below, child_eq]

theorem exists_slashed_path (base : String) (ns : List String) :
    ∃ rest, slashed (Place.mk base ns).path = slashed base ++ rest := by
  induction ns using List.reverseRecOn with
  | nil => exact ⟨[], (List.append_nil _).symm⟩
  | append_singleton ns n ih =>
    obtain ⟨rest, hrest⟩ := ih
    have hchars : (Place.mk base (ns ++ [n])).path.toList = slashed base ++ rest ++ n.toList := by
      rw [← hrest, ← child_eq, ← path_below]
      rfl
    rw [slashed, hchars]
    split_ifs
    · exact ⟨_, List.append_assoc _ _ _⟩
    · exact ⟨rest ++ n.toList ++ ['/'], by simp⟩

/-- Names that lead down from one base are told by the path. -/
theorem slashed_path_inj {base : String} {ns ms : List String}
    (hns : ∀ n ∈ ns, n ≠ "" ∧ SlashFree n) (hms : ∀ m ∈ ms, m ≠ "" ∧ SlashFree m)
    (h : slashed (Place.mk base ns).path = slashed (Place.mk base ms).path) : ns = ms := by
  -- A path with names in it is longer than its base.
  have hlonger (ks : List String) (k : String) (hk : k ≠ "" ∧ SlashFree k) :
      slashed ((Place.mk base ks).below k).path ≠ slashed base := by
    obtain ⟨rest, hrest⟩ := exists_slashed_path base ks
    rw [slashed_path_below _ hk.1 hk.2, hrest]
    intro heq
    have hlength := congrArg List.length heq
    simp only [List.length_append, List.length_singleton] at hlength
    omega
  induction ns using List.reverseRecOn generalizing ms with
  | nil =>
    rcases List.eq_nil_or_concat' ms with rfl | ⟨ms, m, rfl⟩
    · rfl
    · exact absurd h.symm (hlonger ms m (hms m (by simp)))
  | append_singleton ns n ih =>
    have hn := hns n (by simp)
    rcases List.eq_nil_or_concat' ms with rfl | ⟨ms, m, rfl⟩
    · exact absurd h (hlonger ns n hn)
    · have hm := hms m (by simp)
      have hbelow : slashed ((Place.mk base ns).below n).path =
          slashed ((Place.mk base ms).below m).path := h
      rw [slashed_path_below _ hn.1 hn.2, slashed_path_below _ hm.1 hm.2,
        List.append_cancel_right_eq] at hbelow
      obtain ⟨hfolder, rfl⟩ := child_inj hn.2 hm.2
        (String.toList_injective (by rw [child_eq, child_eq, hbelow]))
      rw [ih (fun k hk => hns k (by simp [hk])) (fun k hk => hms k (by simp [hk])) hfolder]

/-- Files of one path stand in one folder under one name. -/
theorem below_inj {base : String} {ns ms : List String} {n m : String}
    (hns : ∀ n ∈ ns, n ≠ "" ∧ SlashFree n) (hms : ∀ m ∈ ms, m ≠ "" ∧ SlashFree m)
    (hn : SlashFree n) (hm : SlashFree m)
    (h : ((Place.mk base ns).below n).path = ((Place.mk base ms).below m).path) :
    ns = ms ∧ n = m := by
  rw [path_below, path_below] at h
  obtain ⟨hfolder, hname⟩ := child_inj hn hm h
  exact ⟨slashed_path_inj hns hms hfolder, hname⟩

/-! ## Below a base -/

/-- What goes with the slashes at the end is slashes. -/
theorem exists_dropEnd (cs : List Char) :
    ∃ tail, cs = dropEnd (· == '/') cs ++ tail ∧ ∀ c ∈ tail, c = '/' := by
  refine ⟨(cs.reverse.takeWhile (· == '/')).reverse, ?_, fun c hc => ?_⟩
  · rw [dropEnd, ← List.reverse_append, List.takeWhile_append_dropWhile, List.reverse_reverse]
  · have hslash : (c == '/') = true :=
      List.mem_takeWhile_imp (p := (· == '/')) (List.mem_reverse.1 hc)
    exact beq_iff_eq.1 hslash

theorem exists_slashed (base : String) :
    ∃ rest, slashed base = dropEnd (· == '/') base.toList ++ '/' :: rest := by
  obtain ⟨tail, htail, hslashes⟩ := exists_dropEnd base.toList
  cases tail with
  | cons c tail =>
    obtain rfl := hslashes c List.mem_cons_self
    unfold slashed
    split_ifs
    · exact ⟨tail, htail⟩
    · exact ⟨tail ++ ['/'], by rw [← List.cons_append, ← List.append_assoc, ← htail]⟩
  | nil =>
    rw [List.append_nil] at htail
    rw [← htail]
    unfold slashed
    split_ifs with hlast
    · obtain ⟨cs, hcs⟩ := List.getLast?_eq_some_iff.1 (beq_iff_eq.1 hlast)
      rw [hcs, dropEnd_append_singleton] at htail
      have hlength := congrArg List.length htail
      obtain ⟨tail, hcs', -⟩ := exists_dropEnd cs
      have hlength' := congrArg List.length hcs'
      simp at hlength hlength'
      omega
    · exact ⟨[], rfl⟩

/-- A file at a place lies below the base of the place. -/
theorem below_path (p : Place) (name : String) : Below p.base (p.below name).path := by
  obtain ⟨rest, hrest⟩ := exists_slashed_path p.base p.names
  obtain ⟨rest', hrest'⟩ := exists_slashed p.base
  refine ⟨rest' ++ (rest ++ name.toList), ?_⟩
  rw [path_below, child_eq, hrest, hrest']
  simp

end DocSearch.Files
