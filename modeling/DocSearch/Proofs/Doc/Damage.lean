import DocSearch.Proofs.Doc.Filename
import DocSearch.Proofs.Files.Damage
import Mathlib.Data.List.Sort

/-!
# Damaged sources

Files may come to hold what is no Go source, or may be withheld. One such source file spoils its
folder, which has no chunks then (`own_of_spoils`); any other folder has the chunks that it had
(`own_damaged`).
-/

namespace DocSearch.Doc

open Files Text

/-! ## Folders with damaged files -/

/-- Content that is no Go source under any name. -/
def Unparsable (content : Bytes) : Prop := ∀ path, ∃ e, parseSource content path = .error e

instance : Std.Irrefl ParsedFile.Before where
  irrefl f h := by
    obtain h | ⟨-, h⟩ := h
    · exact String.lt_irrefl _ h
    · exact String.lt_irrefl _ h

instance : Std.Antisymm ParsedFile.Before where
  antisymm f g hfg hgf := by
    obtain hfg | ⟨heq, hfg⟩ := hfg
    · obtain hgf | ⟨heq, -⟩ := hgf
      · exact absurd hgf (String.lt_asymm hfg)
      · exact absurd (heq ▸ hfg) (String.lt_irrefl _)
    · obtain hgf | ⟨-, hgf⟩ := hgf
      · exact absurd (heq ▸ hgf) (String.lt_irrefl _)
      · exact absurd hgf (String.lt_asymm hfg)

variable {disk disk' : Disk} {p : Place} {entries entries' : List (String × Entry)}

theorem holds_damaged (h : disk.Damaged Unparsable disk') {name : String} {content : Bytes}
    (hholds : Holds disk p name content) :
    ∃ content', Holds disk' p name content' ∧ (content' = content ∨ Unparsable content') := by
  rcases entry_damaged h (p.below name) true with ⟨fault, hfault, -⟩ | ⟨e, e', he, he', hd⟩
  · cases hholds.symm.trans hfault
  · obtain rfl := Except.ok.inj (hholds.symm.trans he)
    cases hd with
    | file => exact ⟨content, he', .inl rfl⟩
    | spoiled _ hbad => exact ⟨_, he', .inr hbad⟩

/-- What spoils a folder before the damage does so behind it. -/
theorem spoils_damaged (h : disk.Damaged Unparsable disk') {name : String}
    (hspoils : Spoils disk p name) : Spoils disk' p name := by
  cases hspoils with
  | lost hlost hfault =>
    rcases entry_damaged h (p.below name) true with ⟨cause, hcause, hcause'⟩ | ⟨e, e', he, -⟩
    · obtain rfl := Except.error.inj (hlost.symm.trans hcause)
      exact .lost hcause' hfault
    · cases hlost.symm.trans he
  | withheld hholds hpath =>
    obtain ⟨content', hholds', -⟩ := holds_damaged h hholds
    exact .withheld hholds' (h.unreadable _ hpath)
  | unparsed hholds he =>
    obtain ⟨content', hholds', rfl | hbad⟩ := holds_damaged h hholds
    · exact .unparsed hholds' he
    · obtain ⟨e', he'⟩ := hbad (p.below name).path
      exact .unparsed hholds' he'

/-- A file that parses behind the damage has not been damaged. -/
theorem parsed_of_damaged (h : disk.Damaged Unparsable disk') {name : String} {f : ParsedFile}
    (hf : Parsed disk' p name f) : Parsed disk p name f := by
  obtain ⟨hpath, content, hholds, hparse⟩ := hf
  refine ⟨hpath, content, ?_, hparse⟩
  rcases entry_damaged h (p.below name) true with ⟨fault, -, hfault⟩ | ⟨e, e', he, he', hd⟩
  · cases hholds.symm.trans hfault
  · obtain rfl := Except.ok.inj (hholds.symm.trans he')
    cases hd with
    | file => exact he
    | spoiled c hbad =>
      obtain ⟨e, herror⟩ := hbad f.path
      cases hparse.symm.trans herror

/-- A file that parses before the damage does so behind it, unless it spoils its folder. -/
theorem parsed_of_not_spoils (h : disk.Damaged Unparsable disk') {name : String} {f : ParsedFile}
    (hgood : ¬ Spoils disk' p name) (hf : Parsed disk p name f) : Parsed disk' p name f := by
  obtain ⟨hpath, content, hholds, hparse⟩ := hf
  obtain ⟨content', hholds', rfl | hbad⟩ := holds_damaged h hholds
  · exact ⟨hpath, _, hholds', hparse⟩
  · obtain ⟨e, he⟩ := hbad (p.below name).path
    exact absurd (.unparsed hholds' he) hgood

/-- **A folder without a damaged source file has the chunks that it had.** -/
theorem own_damaged (h : disk.Damaged Unparsable disk') (hstands : Stands disk p entries)
    (hproper : (Entry.folder entries).Proper) (hlist : disk.list p = .ok entries)
    (hstands' : Stands disk' p entries') (hlist' : disk'.list p = .ok entries')
    (hdamaged : (Entry.folder entries).Damaged Unparsable (.folder entries'))
    (hgood : ∀ name ∈ entries.map (·.1), isSourceName name = true → ¬ Spoils disk' p name) :
    own disk' p = own disk p := by
  have hproper' := hdamaged.proper hproper
  have hnames := hdamaged.names
  obtain ⟨files, hfiles, hsorted, hmem⟩ := parseFolder_of_good hstands hproper hlist
    fun name hname hsource hspoils => hgood name hname hsource (spoils_damaged h hspoils)
  obtain ⟨files', hfiles', hsorted', hmem'⟩ := parseFolder_of_good hstands' hproper' hlist'
    (hnames ▸ hgood)
  rw [hnames] at hmem'
  have hsame : files' = files := by
    refine hsorted'.eq_of_mem_iff hsorted fun f => ?_
    rw [hmem, hmem']
    constructor
    · rintro ⟨name, hname, hsource, hf⟩
      exact ⟨name, hname, hsource, parsed_of_damaged h hf⟩
    · rintro ⟨name, hname, hsource, hf⟩
      exact ⟨name, hname, hsource, parsed_of_not_spoils h (hgood name hname hsource) hf⟩
  rw [own, own, hfiles, hfiles', hsame]

/-- The root of a walk is still the root of one. -/
theorem Rooted.damaged {root : String} (hrooted : Rooted disk root entries)
    (h : disk.Damaged Unparsable disk') :
    ∃ entries', Rooted disk' root entries' ∧
      (Entry.folder entries).Damaged Unparsable (.folder entries') := by
  obtain ⟨entries', hentry, hdamaged⟩ := folder_damaged h hrooted.entry
  refine ⟨entries', ⟨h.top.proper hrooted.top, hentry, fun names es' hat' => ?_⟩, hdamaged⟩
  obtain ⟨es, hat, hes⟩ := hdamaged.of_folder_at? hat'
  rw [hes.names]
  exact hrooted.slashFree names es hat

end DocSearch.Doc
