import DocSearch.Files.Disk
import DocSearch.Proofs.Keyed

/-!
# Following a path further

A path that leads to a folder leads on to what the folder holds: the names behind it are followed
from there (`follow_append`), whatever links the path has gone through. So a folder that stands at a
place (`Stands`) is listed there, and its own folders stand below it.
-/

namespace DocSearch.Files

/-! ## Proper trees -/

/-- A name that an entry of a folder may have. -/
def IsName (name : String) : Prop := name ≠ "" ∧ name ≠ "." ∧ name ≠ ".."

theorem isName_of {name : String} (hdot : ¬ (name == "" || name == ".") = true)
    (hup : ¬ (name == "..") = true) : IsName name := by
  simp only [Bool.or_eq_true, beq_iff_eq, not_or] at hdot hup
  exact ⟨hdot.1, hdot.2, hup⟩

/-- A tree in which the entries of a folder have names, and different ones. -/
inductive Entry.Proper : Entry → Prop
  | file (content : Text.Bytes) : Proper (.file content)
  | link (target : String) : Proper (.link target)
  | folder {entries : List (String × Entry)} (distinct : (entries.map (·.1)).Nodup)
      (named : ∀ e ∈ entries, IsName e.1) (proper : ∀ e ∈ entries, e.2.Proper) :
      Proper (.folder entries)

namespace Entry

theorem at?_append (ns ms : List String) (e : Entry) :
    e.at? (ns ++ ms) = (e.at? ns).bind (at? ms) := by
  induction ns generalizing e with
  | nil => rfl
  | cons n ns ih =>
    rw [List.cons_append, at?, at?]
    cases e.get? n with
    | none => rfl
    | some e' => exact ih e'

theorem Proper.at? {e e' : Entry} (he : e.Proper) {ns : List String} (h : e.at? ns = some e') :
    e'.Proper := by
  induction ns generalizing e with
  | nil =>
    obtain rfl := Option.some.inj h
    exact he
  | cons n ns ih =>
    cases he with
    | file content => cases h
    | link target => cases h
    | @folder entries distinct named proper =>
      obtain ⟨d, hd, h⟩ := Option.bind_eq_some_iff.1 h
      exact ih (proper (n, d) (Keyed.mem_of_lookup hd)) h

end Entry

/-! ## Single names -/

section

variable {top : Entry} {last : Bool} {links : Nat} {here rest : List String} {name : String}

theorem follow_nil :
    follow top last links here [] =
      ((top.at? here.reverse).map .ok).getD (.error .missing) := by
  rw [follow]

theorem follow_of_not_folder (last : Bool) (links : Nat) (rest : List String)
    (hhere : ∀ entries, top.at? here.reverse ≠ some (.folder entries)) :
    ∃ fault, follow top last links here (name :: rest) = .error fault := by
  rw [follow]
  cases hat : top.at? here.reverse with
  | none => exact ⟨_, rfl⟩
  | some e =>
    cases e with
    | folder entries => exact absurd hat (hhere entries)
    | _ => exact ⟨_, rfl⟩

variable {entries : List (String × Entry)} (hhere : top.at? here.reverse = some (.folder entries))

include hhere

theorem follow_dot (hname : name = "" ∨ name = ".") :
    follow top last links here (name :: rest) = follow top last links here rest := by
  rw [follow, hhere]
  simp [hname]

theorem follow_up :
    follow top last links here (".." :: rest) = follow top last links here.tail rest := by
  rw [follow, hhere]
  simp

variable (hname : IsName name)

include hname

theorem follow_unknown (hlookup : entries.lookup name = none) :
    follow top last links here (name :: rest) = .error .missing := by
  obtain ⟨hempty, hdot, hup⟩ := hname
  rw [follow, hhere]
  simp [hempty, hdot, hup, hlookup]

theorem follow_link {target : String} (hlookup : entries.lookup name = some (.link target)) :
    follow top last links here (name :: rest) =
      if rest.isEmpty && !last then .ok (.link target)
      else
        match links with
        | 0 => .error .tooManyLinks
        | links + 1 =>
          follow top last links (startOf target here)
            ((Text.splitAt '/' target.toList).map String.ofList ++ rest) := by
  obtain ⟨hempty, hdot, hup⟩ := hname
  rw [follow, hhere]
  cases links <;> simp [hempty, hdot, hup, hlookup]

theorem follow_entry {e : Entry} (hlookup : entries.lookup name = some e)
    (hlink : ∀ target, e ≠ .link target) :
    follow top last links here (name :: rest) = follow top last links (name :: here) rest := by
  obtain ⟨hempty, hdot, hup⟩ := hname
  rw [follow, hhere]
  cases e with
  | link target => exact absurd rfl (hlink target)
  | _ => simp [hempty, hdot, hup, hlookup]

end

/-! ## Following -/

/-- A path to a folder can be followed further: the names behind it are followed from `here'`, where
the folder is. -/
theorem follow_append {top : Entry} {links : Nat} {here todo : List String}
    {entries : List (String × Entry)}
    (h : follow top false links here todo = .ok (.folder entries)) :
    ∃ links' here', top.at? here'.reverse = some (.folder entries) ∧
      ∀ last rest,
        follow top last links here (todo ++ rest) = follow top last links' here' rest := by
  -- The cases of `follow` know `here` as a list with proofs attached.
  induction links, here, todo using follow.induct top false with
    try simp only [List.unattach_reverse, List.unattach_attach] at *
  | case1 links here =>
    refine ⟨links, here, ?_, fun _ _ => rfl⟩
    rw [follow_nil] at h
    cases hat : top.at? here.reverse with
    | none => simp [hat] at h
    | some e => simpa [hat] using h
  | case2 links here n ns es hat hdot ih =>
    have hname : n = "" ∨ n = "." := by simpa using hdot
    rw [follow_dot hat hname] at h
    obtain ⟨links', here', hat', hfollow⟩ := ih h
    exact ⟨links', here', hat', fun last rest => (follow_dot hat hname).trans (hfollow last rest)⟩
  | case3 links here n ns es hat hdot hup ih =>
    obtain rfl : n = ".." := by simpa using hup
    rw [follow_up hat] at h
    obtain ⟨links', here', hat', hfollow⟩ := ih h
    exact ⟨links', here', hat', fun last rest => (follow_up hat).trans (hfollow last rest)⟩
  | case4 links here n ns es hat hdot hup hlookup =>
    rw [follow_unknown hat (isName_of hdot hup) hlookup] at h
    cases h
  | case5 links here n ns es hat hdot hup target hlookup hlast =>
    rw [follow_link hat (isName_of hdot hup) hlookup, if_pos hlast] at h
    cases h
  | case6 here n ns es hat hdot hup target hlookup hlast =>
    rw [follow_link hat (isName_of hdot hup) hlookup, if_neg hlast] at h
    cases h
  | case7 here n ns es hat hdot hup target hlookup hlast links ih =>
    have hns : ns.isEmpty = false := by simpa using hlast
    rw [follow_link hat (isName_of hdot hup) hlookup, if_neg hlast] at h
    obtain ⟨links', here', hat', hfollow⟩ := ih h
    refine ⟨links', here', hat', fun last rest => ?_⟩
    have hrest : ¬ ((ns ++ rest).isEmpty && !last) = true := by
      cases ns with
      | nil => cases hns
      | cons m ns => simp
    rw [List.cons_append, follow_link hat (isName_of hdot hup) hlookup, if_neg hrest]
    dsimp only
    rw [← List.append_assoc]
    exact hfollow last rest
  | case8 links here n ns es hat hdot hup e hlink hlookup ih =>
    have hlink' : ∀ target, e ≠ .link target := fun target he => hlink target he
    rw [follow_entry hat (isName_of hdot hup) hlookup hlink'] at h
    obtain ⟨links', here', hat', hfollow⟩ := ih h
    refine ⟨links', here', hat', fun last rest => ?_⟩
    rw [List.cons_append, follow_entry hat (isName_of hdot hup) hlookup hlink', hfollow]
  | case9 links here n ns e hfolder hat =>
    have hhere : ∀ entries, top.at? here.reverse ≠ some (.folder entries) := fun entries hentries =>
      hfolder entries (Option.some.inj (hat.symm.trans hentries))
    obtain ⟨fault, hfault⟩ := follow_of_not_folder false links ns hhere
    rw [hfault] at h
    cases h
  | case10 links here n ns hat =>
    have hhere : ∀ entries, top.at? here.reverse ≠ some (.folder entries) := by simp [hat]
    obtain ⟨fault, hfault⟩ := follow_of_not_folder false links ns hhere
    rw [hfault] at h
    cases h

/-! ## Standing at a place -/

theorem splitAt_of_not_mem {sep : Char} {cs : List Char} (h : sep ∉ cs) :
    Text.splitAt sep cs = [cs] := by
  induction cs with
  | nil => rfl
  | cons c cs ih =>
    obtain ⟨hc, hcs⟩ := not_or.1 (mt List.mem_cons.2 h)
    simp [Text.splitAt, ih hcs, Ne.symm hc]

/-- A folder with the entries `entries` stands at the place `p`: its path leads there, and
further. -/
structure Stands (disk : Disk) (p : Place) (entries : List (String × Entry)) : Prop where
  spoken : ¬ p.base.isEmpty = true
  onward : ∃ links here, disk.top.at? here.reverse = some (.folder entries) ∧
    ∀ last rest, follow disk.top last maxLinks (disk.start p) (p.parts ++ rest) =
      follow disk.top last links here rest

variable {disk : Disk} {p : Place} {entries : List (String × Entry)}

theorem stands_of_entry (h : disk.entry p false = .ok (.folder entries)) :
    Stands disk p entries := by
  rw [Disk.entry] at h
  split_ifs at h with hempty
  · cases h
  · cases hfollow : follow disk.top false maxLinks (disk.start p) p.parts with
    | error fault =>
      rw [hfollow] at h
      cases h
    | ok e =>
      rw [hfollow] at h
      obtain rfl := Except.ok.inj h
      obtain ⟨links, here, hat, honward⟩ := follow_append hfollow
      exact ⟨hempty, links, here, hat, honward⟩

theorem Stands.entry (h : Stands disk p entries) (last : Bool) :
    disk.entry p last = .ok (.folder entries) := by
  obtain ⟨links, here, hat, honward⟩ := h.onward
  have hfollow := honward last []
  rw [List.append_nil, follow_nil, hat] at hfollow
  rw [Disk.entry, if_neg h.spoken, hfollow]
  rfl

/-- An absolute path leads to the same entry from any working folder. -/
theorem entry_absolute (habsolute : p.base.toList.head? = some '/') (home : Home) (last : Bool) :
    Disk.entry { disk with home } p last = disk.entry p last := by
  have hstart (d : Disk) : d.start p = [] := if_pos (beq_iff_eq.2 habsolute)
  rw [Disk.entry, Disk.entry, hstart, hstart]

section

variable (hhome : disk.top.at? disk.home.names = some (.folder entries))

include hhome

theorem at?_home : disk.top.at? disk.home.names.reverse.reverse = some (.folder entries) := by
  rwa [List.reverse_reverse]

/-- The working folder stands at a dot. -/
theorem stands_dot : Stands disk ⟨".", []⟩ entries := by
  have hparts : Place.parts ⟨".", []⟩ = ["."] := by decide +kernel
  refine ⟨by decide +kernel, maxLinks, _, at?_home hhome, fun last rest => ?_⟩
  rw [hparts]
  exact follow_dot (at?_home hhome) (.inr rfl)

omit hhome in
theorem start_name {name : String} (hfree : '/' ∉ name.toList) :
    disk.start ⟨name, []⟩ = disk.home.names.reverse := by
  refine if_neg fun hslash => hfree ?_
  exact List.mem_of_head? (beq_iff_eq.1 hslash)

omit hhome in
theorem parts_name {name : String} (hfree : '/' ∉ name.toList) :
    Place.parts ⟨name, []⟩ = [name] := by
  simp [Place.parts, splitAt_of_not_mem hfree]

variable {name : String} (hname : IsName name) (hfree : '/' ∉ name.toList)

include hname hfree

/-- A folder in the working folder stands at its name. -/
theorem stands_name {es : List (String × Entry)} (hlookup : entries.lookup name = some (.folder es)) :
    Stands disk ⟨name, []⟩ es := by
  refine ⟨mt String.isEmpty_iff.1 hname.1, maxLinks, name :: disk.home.names.reverse, ?_,
    fun last rest => ?_⟩
  · rw [List.reverse_cons, Entry.at?_append, at?_home hhome]
    simp [Entry.at?, Entry.get?, hlookup]
  · rw [parts_name hfree, start_name hfree]
    exact follow_entry (at?_home hhome) hname hlookup fun _ => Entry.noConfusion

/-- A file in the working folder is read under its name unless this is denied. -/
theorem read_name {content : Text.Bytes} (hlookup : entries.lookup name = some (.file content)) :
    disk.read ⟨name, []⟩ =
      if disk.unreadable.contains name then .error ⟨.denied, name⟩ else .ok content := by
  have hat : disk.top.at? (name :: disk.home.names.reverse).reverse = some (.file content) := by
    rw [List.reverse_cons, Entry.at?_append, at?_home hhome]
    simp [Entry.at?, Entry.get?, hlookup]
  have hfollow : follow disk.top true maxLinks disk.home.names.reverse [name] =
      .ok (.file content) := by
    rw [follow_entry (at?_home hhome) hname hlookup fun _ => Entry.noConfusion, follow_nil, hat]
    rfl
  have hentry : disk.entry ⟨name, []⟩ true = .ok (.file content) := by
    rw [Disk.entry, if_neg (mt String.isEmpty_iff.1 hname.1), parts_name hfree, start_name hfree,
      hfollow]
    rfl
  rw [Disk.read, hentry]
  rfl

end

theorem start_below (p : Place) (name : String) : disk.start (p.below name) = disk.start p := rfl

/-- A folder of a folder stands below it. -/
theorem Stands.below (h : Stands disk p entries) {name : String} {es : List (String × Entry)}
    (hname : IsName name) (hlookup : entries.lookup name = some (.folder es)) :
    Stands disk (p.below name) es := by
  obtain ⟨links, here, hat, honward⟩ := h.onward
  refine ⟨h.spoken, links, name :: here, ?_, fun last rest => ?_⟩
  · rw [List.reverse_cons, Entry.at?_append, hat]
    simp [Entry.at?, Entry.get?, hlookup]
  · have hparts : (p.below name).parts = p.parts ++ [name] := by
      simp [Place.parts, Place.below, List.append_assoc]
    rw [hparts, List.append_assoc, start_below, honward]
    exact follow_entry hat hname hlookup fun _ => Entry.noConfusion

theorem Stands.proper (htop : disk.top.Proper) (h : Stands disk p entries) :
    (Entry.folder entries).Proper := by
  obtain ⟨links, here, hat, -⟩ := h.onward
  exact htop.at? hat

/-- A folder that stands at a place is listed unless this is denied. -/
theorem Stands.list (h : Stands disk p entries) :
    disk.list p =
      if disk.unlistable.contains p.path then .error ⟨.denied, p.path⟩ else .ok entries := by
  rw [Disk.list, h.entry]
  split_ifs <;> rfl

end DocSearch.Files
