import DocSearch.Proofs.Store.Below
import DocSearch.Proofs.Store.Indexed

/-!
# Tables that differ in nothing but ids

A database gives new rows ids as it likes, so tables that hold the same may have other ids. They are
**`Tables.Alike`** if renumbering ids, but for those from before, turns the rows and vectors of the
one into those of the other.

Histories whose last writes have the same texts lead to tables that agree on what stands under each
identity (`Written.agree`); so do histories that store the same chunks, and no identity twice
(`agree_whole`). Such tables are alike (`Agree.alike`), also when the rows that were not touched have
been pruned (`alike_prune`).
-/

namespace DocSearch.Store

namespace Tables

/-- Tables that are the same up to ids that are not `known`. -/
def Alike (known : Int → Prop) (t u : Tables) : Prop :=
  ∃ f : Int → Int, (∀ id, known id → f id = id) ∧
    (t.chunks.map fun c => (f c.1, c.2)).Perm u.chunks ∧
    (t.vectors.map fun v => (f v.1, v.2)).Perm u.vectors ∧ t.dimension = u.dimension

/-- An id is that of a row. -/
def Known (t : Tables) (id : Int) : Prop := ∃ c ∈ t.chunks, c.1 = id

/-- Tables that hold the same texts and vectors under the same identities. -/
structure Agree (t u : Tables) : Prop where
  text : ∀ i, t.text? i = u.text? i
  literal : ∀ i, t.literal? i = u.literal? i

variable {t u : Tables}

/-! ## Rows and vectors by identity -/

theorem mem_chunks_iff (hs : t.Sound) {id : Int} {r : Record} :
    (id, r) ∈ t.chunks ↔ t.text? r.identity = some r.data ∧ t.idFor r.identity = id := by
  constructor
  · intro hc
    have hrow : t.row? r.identity = some (id, r) := (row?_eq_some_iff hs).2 ⟨hc, rfl⟩
    rw [text?, holding?, hrow]
    exact ⟨rfl, idFor_of_row? hrow⟩
  · rintro ⟨htext, rfl⟩
    obtain ⟨h, hh, hdata⟩ := Option.map_eq_some_iff.1 htext
    obtain ⟨r', hrow, hdata', -⟩ := holding?_eq_some_iff.1 hh
    obtain ⟨hmem, hi⟩ := (row?_eq_some_iff hs).1 hrow
    have hr : r' = r := by
      cases r
      cases r'
      simp_all [Record.identity]
    rwa [idFor_of_holding? hh, ← hr]

theorem mem_vectors_iff (hs : t.Sound) {id : Int} {l : String} :
    (id, l) ∈ t.vectors ↔ ∃ i, t.literal? i = some l ∧ t.idFor i = id := by
  constructor
  · intro hv
    obtain ⟨c, hc, rfl⟩ := hs.owned _ hv
    have hrow : t.row? c.2.identity = some c := (row?_eq_some_iff hs).2 ⟨hc, rfl⟩
    refine ⟨c.2.identity, ?_, idFor_of_row? hrow⟩
    rw [literal?_of_mem hs hc]
    exact (vector?_eq_some_iff hs).2 hv
  · rintro ⟨i, hl, rfl⟩
    obtain ⟨d, hd, hv⟩ := Option.bind_eq_some_iff.1 hl
    obtain ⟨r, -, -, hr⟩ := holding?_eq_some_iff.1 hd
    rw [idFor_of_holding? hd, ← vector?_eq_some_iff hs, hr, hv]

/-- A vector stands where a text stands. -/
theorem exists_text_of_literal {i : Identity} {l : String} (h : t.literal? i = some l) :
    ∃ d, t.text? i = some d := by
  obtain ⟨d, hd, -⟩ := Option.bind_eq_some_iff.1 h
  exact ⟨d.data, by rw [text?, hd]; rfl⟩

theorem idFor_inj (hs : t.Sound) {i j : Identity} {d e : String} (hi : t.text? i = some d)
    (hj : t.text? j = some e) (h : t.idFor i = t.idFor j) : i = j := by
  obtain ⟨c, hc, -⟩ := Option.map_eq_some_iff.1 hi
  obtain ⟨c', hc', -⟩ := Option.map_eq_some_iff.1 hj
  obtain ⟨r, hr, -⟩ := holding?_eq_some_iff.1 hc
  obtain ⟨r', hr', -⟩ := holding?_eq_some_iff.1 hc'
  by_contra hne
  exact id_ne hs hne hr hr' (by rw [← idFor_of_row? hr, ← idFor_of_row? hr', h])

/-- The ids of chunks that have rows are those of their identities. -/
theorem mem_ids_iff (hs : t.Sound) {cs : List Chunk} {ids : List Int}
    (hids : ids.Perm (t.idsOf cs))
    (hcs : ∀ c ∈ cs, ∃ d, t.holding? c.identity = some d) :
    ∀ r ∈ t.chunks, r.1 ∈ ids ↔ ∃ c ∈ cs, c.identity = r.2.identity := by
  intro r hr
  obtain ⟨htext, hid⟩ := (mem_chunks_iff hs).1 hr
  rw [hids.mem_iff, idsOf, List.mem_map]
  constructor
  · rintro ⟨c, hc, hcr⟩
    obtain ⟨d, hd⟩ := hcs c hc
    have htext' : t.text? c.identity = some d.data := by rw [text?, hd]; rfl
    exact ⟨c, hc, idFor_inj hs htext' htext (hcr.trans hid.symm)⟩
  · rintro ⟨c, hc, hcr⟩
    exact ⟨c, hc, by rw [hcr, hid]⟩

/-! ## Renumbering -/

/-- The id in `u` of what has an id in `t`. -/
def renumber (t u : Tables) (id : Int) : Int :=
  ((t.chunks.find? fun c => c.1 = id).map fun c => u.idFor c.2.identity).getD id

theorem renumber_of_mem (hs : t.Sound) {c : Int × Record} (hc : c ∈ t.chunks) :
    t.renumber u c.1 = u.idFor c.2.identity := by
  obtain ⟨d, hd⟩ : ∃ d, (t.chunks.find? fun d => d.1 = c.1) = some d :=
    Option.isSome_iff_exists.1 (List.find?_isSome.2 ⟨c, hc, by simp⟩)
  have hid : d.1 = c.1 := by simpa using List.find?_some hd
  rw [renumber, hd, List.inj_on_of_nodup_map hs.ids (List.mem_of_find?_eq_some hd) hc hid]
  rfl

theorem renumber_of_literal (hs : t.Sound) {i : Identity} {l : String} (h : t.literal? i = some l) :
    t.renumber u (t.idFor i) = u.idFor i := by
  obtain ⟨d, hd, -⟩ := Option.bind_eq_some_iff.1 h
  obtain ⟨r, hr, -⟩ := holding?_eq_some_iff.1 hd
  obtain ⟨hc, rfl⟩ := (row?_eq_some_iff hs).1 hr
  rw [idFor_of_row? hr]
  exact renumber_of_mem hs hc

namespace Agree

variable (h : t.Agree u) (ht : t.Sound) (hu : u.Sound)

include h ht hu

theorem perm_chunks : (t.chunks.map fun c => (t.renumber u c.1, c.2)).Perm u.chunks := by
  have hnodup : (t.chunks.map fun c => (t.renumber u c.1, c.2)).Nodup := by
    refine List.Nodup.of_map (fun c => c.2.identity) ?_
    rw [List.map_map]
    exact ht.identities
  refine (List.perm_ext_iff_of_nodup hnodup (.of_map _ hu.ids)).2 fun ⟨id, r⟩ => ?_
  rw [mem_chunks_iff hu, ← h.text]
  constructor
  · intro hmem
    obtain ⟨c, hc, hcr⟩ := List.mem_map.1 hmem
    obtain ⟨rfl, rfl⟩ := Prod.mk.inj hcr
    exact ⟨((mem_chunks_iff ht).1 hc).1, (renumber_of_mem ht hc).symm⟩
  · rintro ⟨htext, rfl⟩
    have hc : (t.idFor r.identity, r) ∈ t.chunks := (mem_chunks_iff ht).2 ⟨htext, rfl⟩
    exact List.mem_map.2 ⟨_, hc, Prod.ext (renumber_of_mem ht hc) rfl⟩

theorem perm_vectors : (t.vectors.map fun v => (t.renumber u v.1, v.2)).Perm u.vectors := by
  have hnodup : (t.vectors.map fun v => (t.renumber u v.1, v.2)).Nodup := by
    refine List.Nodup.map_on ?_ (.of_map _ ht.keyed)
    rintro ⟨id, l⟩ hv ⟨id', l'⟩ hw hvw
    obtain ⟨i, hi, rfl⟩ := (mem_vectors_iff ht).1 hv
    obtain ⟨j, hj, rfl⟩ := (mem_vectors_iff ht).1 hw
    obtain ⟨d, hd⟩ := exists_text_of_literal hi
    obtain ⟨e, he⟩ := exists_text_of_literal hj
    obtain ⟨hnumber, rfl⟩ := Prod.mk.inj hvw
    rw [renumber_of_literal ht hi, renumber_of_literal ht hj] at hnumber
    rw [idFor_inj hu ((h.text i).symm.trans hd) ((h.text j).symm.trans he) hnumber]
  refine (List.perm_ext_iff_of_nodup hnodup (.of_map _ hu.keyed)).2 fun ⟨id, l⟩ => ?_
  rw [mem_vectors_iff hu, List.mem_map]
  constructor
  · rintro ⟨⟨id', l'⟩, hv, hvl⟩
    obtain ⟨i, hi, rfl⟩ := (mem_vectors_iff ht).1 hv
    obtain ⟨rfl, rfl⟩ := Prod.mk.inj hvl
    exact ⟨i, (h.literal i).symm.trans hi, (renumber_of_literal ht hi).symm⟩
  · rintro ⟨i, hi, rfl⟩
    rw [← h.literal] at hi
    have hv : (t.idFor i, l) ∈ t.vectors := (mem_vectors_iff ht).2 ⟨i, hi, rfl⟩
    exact ⟨_, hv, Prod.ext (renumber_of_literal ht hi) rfl⟩

/-- Tables that agree are alike, if those ids stay that are to stay. -/
theorem alike {known : Int → Prop}
    (hknown : ∀ c ∈ t.chunks, known c.1 → u.idFor c.2.identity = c.1)
    (hdim : t.dimension = u.dimension) : Alike known t u := by
  refine ⟨t.renumber u, fun id hid => ?_, h.perm_chunks ht hu, h.perm_vectors ht hu, hdim⟩
  cases hfound : t.chunks.find? fun c => c.1 = id with
  | none => rw [renumber, hfound]; rfl
  | some c =>
    have hc : c ∈ t.chunks := List.mem_of_find?_eq_some hfound
    obtain rfl : c.1 = id := by simpa using List.find?_some hfound
    rw [renumber_of_mem ht hc, hknown c hc hid]

end Agree

/-! ## Histories of the same chunks -/

section

variable {literal : String → String} {cs : List Chunk} {ws us : List Write} {t₀ : Tables}
  (hs : t₀.Sound) (ht : Written literal t₀ ws t) (hu : Written literal t₀ us u)

include hs ht hu

/-- Histories in which the same chunks are stored last lead to tables that agree. -/
theorem Written.agree (hrows : ∀ i, lastOf (Write.rows ws) i = lastOf (Write.rows us) i)
    (hvectors : ∀ i, lastOf (Write.vectors ws) i = lastOf (Write.vectors us) i) : t.Agree u := by
  constructor <;> intro i
  · rw [ht.text?_eq hs, hu.text?_eq hs, hrows]
  · rw [ht.literal?_eq hs, hu.literal?_eq hs, hvectors]

/-- Ids from before stay with their identities in any history. -/
theorem Written.idFor_known {c : Int × Record} (hc : c ∈ t.chunks) (hknown : t₀.Known c.1) :
    u.idFor c.2.identity = c.1 := by
  obtain ⟨d, hd, hid⟩ := hknown
  have hst := ht.sound hs
  obtain ⟨e, he, hide⟩ := ht.exists_holding?_of_holding? hs (holding?_of_mem hs hd)
  obtain ⟨r, hr, -⟩ := holding?_eq_some_iff.1 he
  obtain ⟨hmem, hi⟩ := (row?_eq_some_iff hst).1 hr
  -- The row that has the id now is the one that had it before.
  obtain rfl := List.inj_on_of_nodup_map hst.ids hmem hc (hide.trans hid)
  rw [hi, hu.idFor_of_mem hs hd, hid]

omit hs hu in
theorem Written.lastOf_whole (hcs : (cs.map Chunk.identity).Nodup) (hws : Write.Whole cs ws)
    (i : Identity) :
    lastOf (Write.rows ws) i = lastOf cs i ∧ lastOf (Write.vectors ws) i = lastOf cs i := by
  constructor
  · refine lastOf_eq_of_mem_iff hcs (fun c => ⟨fun hc => ?_, fun hc => ?_⟩) i
    · exact hws.known _ (Write.mem_rows.1 hc)
    · exact Write.mem_rows.2 (ht.row_mem (hws.stored c hc))
  · refine lastOf_eq_of_mem_iff hcs (fun c => ⟨fun hc => ?_, fun hc => ?_⟩) i
    · exact hws.known _ (Write.mem_vectors.1 hc)
    · exact Write.mem_vectors.2 (hws.stored c hc)

/-- Where no identity occurs twice, the order of the writes does not show. -/
theorem agree_whole (hcs : (cs.map Chunk.identity).Nodup) (hws : Write.Whole cs ws)
    (hus : Write.Whole cs us) : t.Agree u := by
  refine ht.agree hs hu (fun i => ?_) fun i => ?_
  · rw [(ht.lastOf_whole hcs hws i).1, (hu.lastOf_whole hcs hus i).1]
  · rw [(ht.lastOf_whole hcs hws i).2, (hu.lastOf_whole hcs hus i).2]

end

/-! ## Pruning -/

section

variable {root pattern : String} {keep ids ids' : List Int}

theorem length_prune (t : Tables) :
    (t.prune root pattern keep).1 + (t.prune root pattern keep).2.chunks.length =
      t.chunks.length := by
  exact (List.length_eq_length_filter_add (isStale root pattern keep)).symm

theorem idFor_prune (hs : t.Sound) {i : Identity} {d : String}
    (h : (t.prune root pattern keep).2.text? i = some d) :
    (t.prune root pattern keep).2.idFor i = t.idFor i := by
  obtain ⟨h', hh', -⟩ := Option.map_eq_some_iff.1 h
  rw [idFor_of_holding? hh']
  rw [holding?_prune root pattern keep hs] at hh'
  split_ifs at hh'
  exact (idFor_of_holding? hh').symm

variable (kept : Identity → Prop) (h : t.Agree u) (ht : t.Sound) (hu : u.Sound)
  (hids : ∀ c ∈ t.chunks, c.1 ∈ ids ↔ kept c.2.identity)
  (hids' : ∀ c ∈ u.chunks, c.1 ∈ ids' ↔ kept c.2.identity)

include h ht hu hids hids'

/-- Tables that agree still do so when both have been pruned and the same identities are kept. -/
theorem Agree.prune :
    (t.prune root (patternBelow root) (sortedIds ids)).2.Agree
      (u.prune root (patternBelow root) (sortedIds ids')).2 := by
  have hview (i : Identity) :
      ((t.prune root (patternBelow root) (sortedIds ids)).2.holding? i = none ∧
        (u.prune root (patternBelow root) (sortedIds ids')).2.holding? i = none) ∨
      ((t.prune root (patternBelow root) (sortedIds ids)).2.holding? i = t.holding? i ∧
        (u.prune root (patternBelow root) (sortedIds ids')).2.holding? i = u.holding? i) := by
    by_cases hgone : AtOrBelow root i.filename ∧ ¬ kept i
    · exact .inl ⟨holding?_prune_gone kept root ht hids hgone.1 hgone.2,
        holding?_prune_gone kept root hu hids' hgone.1 hgone.2⟩
    · have hkept : AtOrBelow root i.filename → kept i := fun hi => by
        by_contra hnot
        exact hgone ⟨hi, hnot⟩
      exact .inr ⟨holding?_prune_kept kept root ht hids hkept,
        holding?_prune_kept kept root hu hids' hkept⟩
  constructor <;> intro i
  · rcases hview i with ⟨hti, hui⟩ | ⟨hti, hui⟩
    · rw [text?, text?, hti, hui]
    · rw [text?, text?, hti, hui]
      exact h.text i
  · rcases hview i with ⟨hti, hui⟩ | ⟨hti, hui⟩
    · rw [literal?, literal?, hti, hui]
    · rw [literal?, literal?, hti, hui]
      exact h.literal i

/-- As many rows have gone, and what is left is alike. -/
theorem alike_prune (root : String) {known : Int → Prop}
    (hknown : ∀ c ∈ t.chunks, known c.1 → u.idFor c.2.identity = c.1)
    (hdim : t.dimension = u.dimension) :
    (t.prune root (patternBelow root) (sortedIds ids)).1 =
        (u.prune root (patternBelow root) (sortedIds ids')).1 ∧
      Alike known (t.prune root (patternBelow root) (sortedIds ids)).2
        (u.prune root (patternBelow root) (sortedIds ids')).2 := by
  have hpruned : (t.prune root (patternBelow root) (sortedIds ids)).2.Agree
      (u.prune root (patternBelow root) (sortedIds ids')).2 := h.prune kept ht hu hids hids'
  have hst := sound_prune root (patternBelow root) (sortedIds ids) ht
  have hsu := sound_prune root (patternBelow root) (sortedIds ids') hu
  constructor
  · have hbefore := (h.perm_chunks ht hu).length_eq
    have hbehind := (hpruned.perm_chunks hst hsu).length_eq
    have hlt : (t.prune root (patternBelow root) (sortedIds ids)).1 + _ = t.chunks.length :=
      length_prune t
    have hlu : (u.prune root (patternBelow root) (sortedIds ids')).1 + _ = u.chunks.length :=
      length_prune u
    simp only [List.length_map] at hbefore hbehind
    omega
  · refine hpruned.alike hst hsu (fun c hc hlt => ?_) hdim
    have htext := (mem_chunks_iff hst).1 hc
    rw [idFor_prune hu ((hpruned.text _).symm.trans htext.1)]
    exact hknown c ((mem_chunks_prune root _ _).1 hc).1 hlt

end

end Tables

end DocSearch.Store
