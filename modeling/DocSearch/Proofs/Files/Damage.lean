import DocSearch.Proofs.Files.Follow

/-!
# Damaged files

A disk is **`Damaged`** when some of its files have come to hold bad content and some paths are
withheld; names, folders and links are what they were. Any path leads to the same entry as before,
up to the damage (`entry_damaged`).
-/

namespace DocSearch.Files

open Text

variable {bad : Bytes → Prop}

/-! ## Entries -/

/-- An entry, and the same one where some files have come to hold `bad` content. -/
inductive Entry.Damaged (bad : Bytes → Prop) : Entry → Entry → Prop
  | link (target : String) : Damaged bad (.link target) (.link target)
  | file (content : Bytes) : Damaged bad (.file content) (.file content)
  | spoiled (content : Bytes) {content' : Bytes} (h : bad content') :
      Damaged bad (.file content) (.file content')
  | folder {entries entries' : List (String × Entry)}
      (names : entries'.map (·.1) = entries.map (·.1))
      (below : ∀ n e e', entries.lookup n = some e → entries'.lookup n = some e' →
        Damaged bad e e') :
      Damaged bad (.folder entries) (.folder entries')

/-- What is found before and behind the damage: nothing, or the same entry up to damage. -/
def Entry.Found (bad : Bytes → Prop) (found found' : Option Entry) : Prop :=
  (found = none ∧ found' = none) ∨
    ∃ e e', found = some e ∧ found' = some e' ∧ e.Damaged bad e'

namespace Entry.Damaged

theorem refl {e : Entry} (he : e.Proper) : e.Damaged bad e := by
  induction he with
  | file content => exact .file content
  | link target => exact .link target
  | folder distinct named proper ih =>
    refine .folder rfl fun n e e' h h' => ?_
    obtain rfl := Option.some.inj (h.symm.trans h')
    exact ih _ (Keyed.mem_of_lookup h)

theorem names {es es' : List (String × Entry)}
    (h : (Entry.folder es).Damaged bad (Entry.folder es')) : es'.map (·.1) = es.map (·.1) := by
  cases h with
  | folder names below => exact names

theorem lookup {es es' : List (String × Entry)}
    (h : (Entry.folder es).Damaged bad (Entry.folder es')) (n : String) :
    Found bad (es.lookup n) (es'.lookup n) := by
  cases h with
  | folder names below =>
    have hsame : (es.lookup n).isSome = true ↔ (es'.lookup n).isSome = true := by
      rw [Keyed.isSome_lookup_iff, Keyed.isSome_lookup_iff, names]
    cases he : es.lookup n <;> cases he' : es'.lookup n <;> simp [he, he'] at hsame
    · exact .inl ⟨rfl, rfl⟩
    · exact .inr ⟨_, _, rfl, rfl, below n _ _ he he'⟩

theorem at? {e e' : Entry} (h : e.Damaged bad e') (ns : List String) :
    Found bad (e.at? ns) (e'.at? ns) := by
  induction ns generalizing e e' with
  | nil => exact .inr ⟨e, e', rfl, rfl, h⟩
  | cons n ns ih =>
    cases h with
    | @folder es es' names below =>
      show Found bad ((es.lookup n).bind (Entry.at? ns)) ((es'.lookup n).bind (Entry.at? ns))
      rcases lookup (.folder names below) n with ⟨he, he'⟩ | ⟨d, d', he, he', hd⟩
      · rw [he, he']
        exact .inl ⟨rfl, rfl⟩
      · rw [he, he']
        exact ih hd
    | _ => exact .inl ⟨rfl, rfl⟩

/-- A folder stands where one stood. -/
theorem folder_at? {top top' : Entry} (h : top.Damaged bad top') {ns : List String}
    {es : List (String × Entry)} (hat : top.at? ns = some (.folder es)) :
    ∃ es', top'.at? ns = some (.folder es') ∧ (Entry.folder es).Damaged bad (.folder es') := by
  rcases h.at? ns with ⟨hnone, -⟩ | ⟨e, e', he, he', hd⟩
  · cases hat.symm.trans hnone
  · obtain rfl := Option.some.inj (hat.symm.trans he)
    cases hd with
    | folder names below => exact ⟨_, he', .folder names below⟩

theorem of_folder_at? {top top' : Entry} (h : top.Damaged bad top') {ns : List String}
    {es' : List (String × Entry)} (hat' : top'.at? ns = some (.folder es')) :
    ∃ es, top.at? ns = some (.folder es) ∧ (Entry.folder es).Damaged bad (.folder es') := by
  rcases h.at? ns with ⟨-, hnone⟩ | ⟨e, e', he, he', hd⟩
  · cases hat'.symm.trans hnone
  · obtain rfl := Option.some.inj (hat'.symm.trans he')
    cases hd with
    | folder names below => exact ⟨_, he, .folder names below⟩

theorem link_lookup {es es' : List (String × Entry)}
    (h : (Entry.folder es).Damaged bad (Entry.folder es')) {n target : String}
    (hlookup : es.lookup n = some (.link target)) : es'.lookup n = some (.link target) := by
  rcases h.lookup n with ⟨hnone, -⟩ | ⟨d, d', hd, hd', hdamaged⟩
  · cases hlookup.symm.trans hnone
  · obtain rfl := Option.some.inj (hlookup.symm.trans hd)
    cases hdamaged
    exact hd'

theorem other_lookup {es es' : List (String × Entry)}
    (h : (Entry.folder es).Damaged bad (Entry.folder es')) {n : String} {d : Entry}
    (hlookup : es.lookup n = some d) (hlink : ∀ target, d ≠ .link target) :
    ∃ d', es'.lookup n = some d' ∧ ∀ target, d' ≠ .link target := by
  rcases h.lookup n with ⟨hnone, -⟩ | ⟨e, d', he, hd', hdamaged⟩
  · cases hlookup.symm.trans hnone
  · obtain rfl := Option.some.inj (hlookup.symm.trans he)
    refine ⟨d', hd', fun target htarget => ?_⟩
    subst htarget
    cases hdamaged
    exact hlink target rfl

theorem proper {e e' : Entry} (h : e.Damaged bad e') (he : e.Proper) : e'.Proper := by
  induction he generalizing e' with
  | file content => cases h <;> exact .file _
  | link target =>
    cases h
    exact .link target
  | @folder es distinct named proper ih =>
    cases h with
    | @folder _ es' names below =>
      have hmem : ∀ d ∈ es', ∃ d', (d.1, d') ∈ es ∧ d'.Damaged bad d.2 := by
        intro d hd
        have hd' := Keyed.lookup_of_mem (names ▸ distinct) hd
        rcases lookup (.folder names below) d.1 with ⟨-, hnone⟩ | ⟨e, e', he, he', hdamaged⟩
        · cases hd'.symm.trans hnone
        · obtain rfl := Option.some.inj (hd'.symm.trans he')
          exact ⟨e, Keyed.mem_of_lookup he, hdamaged⟩
      refine .folder (names ▸ distinct) (fun d hd => ?_) fun d hd => ?_
      · obtain ⟨d', hd', -⟩ := hmem d hd
        exact named (d.1, d') hd'
      · obtain ⟨d', hd', hdamaged⟩ := hmem d hd
        exact ih _ hd' hdamaged

end Entry.Damaged

/-! ## Following paths -/

/-- Where a path leads before and behind the damage: to nothing for the same reason, or to the same
entry up to damage. -/
def LeadsAlike (bad : Bytes → Prop) {ε : Type} (r r' : Except ε Entry) : Prop :=
  (∃ fault, r = .error fault ∧ r' = .error fault) ∨
    ∃ e e', r = .ok e ∧ r' = .ok e' ∧ e.Damaged bad e'

theorem follow_damaged {top top' : Entry} (h : top.Damaged bad top') (last : Bool) (links : Nat)
    (here todo : List String) :
    LeadsAlike bad (follow top last links here todo) (follow top' last links here todo) := by
  induction links, here, todo using follow.induct top last with
    try simp only [List.unattach_reverse, List.unattach_attach] at *
  | case1 links here =>
    rw [follow_nil, follow_nil]
    rcases h.at? here.reverse with ⟨hat, hat'⟩ | ⟨e, e', hat, hat', hd⟩
    · rw [hat, hat']
      exact .inl ⟨_, rfl, rfl⟩
    · rw [hat, hat']
      exact .inr ⟨e, e', rfl, rfl, hd⟩
  | case2 links here n ns es hat hdot ih =>
    obtain ⟨es', hat', -⟩ := h.folder_at? hat
    have hname : n = "" ∨ n = "." := by simpa using hdot
    rw [follow_dot hat hname, follow_dot hat' hname]
    exact ih
  | case3 links here n ns es hat hdot hup ih =>
    obtain ⟨es', hat', -⟩ := h.folder_at? hat
    obtain rfl : n = ".." := by simpa using hup
    rw [follow_up hat, follow_up hat']
    exact ih
  | case4 links here n ns es hat hdot hup hlookup =>
    obtain ⟨es', hat', hes⟩ := h.folder_at? hat
    have hlookup' : es'.lookup n = none := by
      rcases hes.lookup n with ⟨-, hnone⟩ | ⟨e, e', he, -⟩
      · exact hnone
      · cases hlookup.symm.trans he
    rw [follow_unknown hat (isName_of hdot hup) hlookup,
      follow_unknown hat' (isName_of hdot hup) hlookup']
    exact .inl ⟨_, rfl, rfl⟩
  | case5 links here n ns es hat hdot hup target hlookup hlast =>
    obtain ⟨es', hat', hes⟩ := h.folder_at? hat
    have hlookup' := hes.link_lookup hlookup
    rw [follow_link hat (isName_of hdot hup) hlookup, if_pos hlast,
      follow_link hat' (isName_of hdot hup) hlookup', if_pos hlast]
    exact .inr ⟨_, _, rfl, rfl, .link target⟩
  | case6 here n ns es hat hdot hup target hlookup hlast =>
    obtain ⟨es', hat', hes⟩ := h.folder_at? hat
    have hlookup' := hes.link_lookup hlookup
    rw [follow_link hat (isName_of hdot hup) hlookup, if_neg hlast,
      follow_link hat' (isName_of hdot hup) hlookup', if_neg hlast]
    exact .inl ⟨_, rfl, rfl⟩
  | case7 here n ns es hat hdot hup target hlookup hlast links ih =>
    obtain ⟨es', hat', hes⟩ := h.folder_at? hat
    have hlookup' := hes.link_lookup hlookup
    rw [follow_link hat (isName_of hdot hup) hlookup, if_neg hlast,
      follow_link hat' (isName_of hdot hup) hlookup', if_neg hlast]
    exact ih
  | case8 links here n ns es hat hdot hup e hlink hlookup ih =>
    obtain ⟨es', hat', hes⟩ := h.folder_at? hat
    have hlink' : ∀ target, e ≠ .link target := fun target he => hlink target he
    obtain ⟨e', hlookup', hother⟩ := hes.other_lookup hlookup hlink'
    rw [follow_entry hat (isName_of hdot hup) hlookup hlink',
      follow_entry hat' (isName_of hdot hup) hlookup' hother]
    exact ih
  | case9 links here n ns e hfolder hat =>
    rcases h.at? here.reverse with ⟨hnone, -⟩ | ⟨d, d', hd, hat', hdamaged⟩
    · cases hat.symm.trans hnone
    · obtain rfl := Option.some.inj (hat.symm.trans hd)
      rw [follow, follow, hat, hat']
      cases hdamaged with
      | folder => exact absurd rfl (hfolder _)
      | _ => exact .inl ⟨_, rfl, rfl⟩
  | case10 links here n ns hat =>
    rcases h.at? here.reverse with ⟨-, hat'⟩ | ⟨d, d', hd, -⟩
    · rw [follow, follow, hat, hat']
      exact .inl ⟨_, rfl, rfl⟩
    · cases hat.symm.trans hd

/-! ## Disks -/

/-- A disk, and the same one where some files have come to hold `bad` content and some paths are
withheld. -/
structure Disk.Damaged (bad : Bytes → Prop) (disk disk' : Disk) : Prop where
  top : disk.top.Damaged bad disk'.top
  unlistable : disk'.unlistable = disk.unlistable
  unreadable : ∀ path ∈ disk.unreadable, path ∈ disk'.unreadable
  home : disk'.home = disk.home

variable {disk disk' : Disk}

/-- **Any path leads to the same entry as before, up to the damage.** -/
theorem entry_damaged (h : disk.Damaged bad disk') (p : Place) (last : Bool) :
    LeadsAlike bad (disk.entry p last) (disk'.entry p last) := by
  have hstart : disk'.start p = disk.start p := by rw [Disk.start, h.home, Disk.start]
  unfold Disk.entry
  rw [hstart]
  split_ifs
  · exact .inl ⟨_, rfl, rfl⟩
  · rcases follow_damaged h.top last maxLinks (disk.start p) p.parts with
      ⟨fault, hfault, hfault'⟩ | ⟨e, e', he, he', hd⟩
    · rw [hfault, hfault']
      exact .inl ⟨_, rfl, rfl⟩
    · rw [he, he']
      exact .inr ⟨e, e', rfl, rfl, hd⟩

theorem folder_damaged (h : disk.Damaged bad disk') {p : Place} {last : Bool}
    {es : List (String × Entry)} (hentry : disk.entry p last = .ok (.folder es)) :
    ∃ es', disk'.entry p last = .ok (.folder es') ∧
      (Entry.folder es).Damaged bad (.folder es') := by
  rcases entry_damaged h p last with ⟨fault, hfault, -⟩ | ⟨e, e', he, he', hd⟩
  · cases hentry.symm.trans hfault
  · obtain rfl := Except.ok.inj (hentry.symm.trans he)
    cases hd with
    | folder names below => exact ⟨_, he', .folder names below⟩

end DocSearch.Files
