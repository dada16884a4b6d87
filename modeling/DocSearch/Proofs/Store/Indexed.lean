import DocSearch.Proofs.Store.Written

/-!
# Tables behind indexed chunks

Indexing a chunk stores its row and then the vector of its text, so indexing one chunk after the
other is one history of writes.

**The last chunk counts.** Under an identity that occurs, the text of its last chunk and its vector
are held (`Written.holding?_last`); under any other one nothing changes (`Written.holding?_other`).
Ids that are there stay, so indexing the same chunks again changes nothing (`Written.again`).
-/

namespace DocSearch.Store.Tables

/-- A chunk whose identity has a row with a vector. -/
def Covers (t : Tables) (c : Chunk) : Prop :=
  ∃ h l, t.holding? c.identity = some h ∧ h.vector = some l

namespace Written

variable {literal : String → String} {t u v : Tables} {cs : List Chunk} {ws : List Write}

/-- Indexing a chunk stores its row and then its vector, under the id that the row has got. -/
theorem of_stores (literal : String → String) (hs : t.Sound) {c : Chunk} {id : Int}
    (h : t.Stores (chunkRow c) id u) :
    Written literal t (Write.inOrder [c]) (u.setVector id (literal c.text)) ∧
      (u.setVector id (literal c.text)).idFor c.identity = id := by
  have hid : u.idFor c.identity = id := h.idFor_eq hs
  have hheld : u.holding? c.identity = some ⟨id, c.text, t.literal? c.identity⟩ :=
    (h.holding?_eq hs _).trans (if_pos rfl)
  constructor
  · have hrow : Written literal t [.row c] u := Written.nil.row h
    have hwritten := hrow.vector (c := c) (by simp)
    rwa [hid] at hwritten
  · exact idFor_of_holding? ((holding?_setVector (h.sound hs) hheld _ _).trans (if_pos rfl))

/-- The ids of chunks that have been indexed do not change with further ones. -/
theorem idsOf_cons (hs : t.Sound) {c : Chunk} (h : Written literal t (Write.inOrder [c]) u)
    (h' : Written literal u ws v) : v.idsOf (c :: cs) = u.idFor c.identity :: v.idsOf cs := by
  have hrow : Write.row c ∈ Write.inOrder [c] := Write.mem_inOrder.2 (List.mem_singleton_self c)
  rw [idsOf, List.map_cons, h.idFor_append hs h' hrow, idsOf]

section

variable (hs : t.Sound) (h : Written literal t (Write.inOrder cs) u)

include hs h

theorem holding?_last {i : Identity} {c : Chunk} (hc : lastOf cs i = some c) :
    u.holding? i = some ⟨u.idFor i, c.text, some (literal c.text)⟩ :=
  h.holding?_some hs (by rwa [Write.rows_inOrder]) (by rwa [Write.vectors_inOrder])

theorem holding?_other {i : Identity} (hi : lastOf cs i = none) : u.holding? i = t.holding? i :=
  h.holding?_none hs fun _ hw => lastOf_eq_none_iff.1 hi _ (Write.mem_inOrder.1 hw)

theorem covers {c : Chunk} (hc : c ∈ cs) : u.Covers c := by
  obtain ⟨d, hd⟩ := exists_lastOf hc
  exact ⟨_, _, h.holding?_last hs hd, rfl⟩

end

/-! ## Once more -/

/-- Writes for chunks that are there with their vectors change no key. -/
theorem keys_eq (hs : t.Sound) (h : Written literal t ws u) (hws : ∀ w ∈ ws, t.Covers w.chunk) :
    u.rowKeys = t.rowKeys ∧ u.vectors.map (·.1) = t.vectors.map (·.1) := by
  induction h with
  | nil => exact ⟨rfl, rfl⟩
  | @row _ _ _ h c _ hc ih =>
    rw [List.forall_mem_append, List.forall_mem_singleton] at hws
    obtain ⟨hrows, hvectors⟩ := ih hws.1
    refine ⟨?_, by rw [hc.vectors, hvectors]⟩
    rcases hc.rowKeys_eq with ⟨-, hsame⟩ | ⟨hnone, -⟩
    · exact hsame.trans hrows
    · obtain ⟨d, -, hd, -⟩ := hws.2
      obtain ⟨d', hd', -⟩ := h.exists_holding?_of_holding? hs hd
      cases (holding?_eq_none_iff.2 hnone).symm.trans hd'
  | @vector _ _ h c _ ih =>
    rw [List.forall_mem_append, List.forall_mem_singleton] at hws
    obtain ⟨hrows, hvectors⟩ := ih hws.1
    refine ⟨hrows, ?_⟩
    obtain ⟨d, l, hd, hl⟩ := hws.2
    obtain ⟨r, -, -, hv⟩ := holding?_eq_some_iff.1 hd
    have hkey : d.id ∈ t.vectors.map (·.1) :=
      List.mem_map.2 ⟨_, (vector?_eq_some_iff hs).1 (hv.trans hl), rfl⟩
    have hid : _ = d.id := h.idFor_eq hs hd
    rw [← hvectors, ← hid] at hkey
    rw [← hvectors]
    exact (map_fst_putVector _ _ _).trans (if_pos hkey)

/-- **Indexing the same chunks again changes nothing.** -/
theorem again (hs : t.Sound) (h : Written literal t (Write.inOrder cs) u)
    (h' : Written literal u (Write.inOrder cs) v) : v = u := by
  have hu := h.sound hs
  obtain ⟨hrows, hkeys⟩ := h'.keys_eq hu fun w hw => h.covers hs (Write.mem_inOrder.1 hw)
  have hview (i : Identity) : v.holding? i = u.holding? i := by
    cases hlast : lastOf cs i with
    | none => exact h'.holding?_other hu hlast
    | some c =>
      have hheld := h.holding?_last hs hlast
      rw [h'.holding?_last hu hlast, h'.idFor_eq hu hheld, hheld]
  obtain ⟨hchunks, hvectors⟩ := eq_of_holding? (h'.sound hu) hu hrows hkeys hview
  have hdim := h'.dimension
  cases u
  cases v
  simp_all

end Written

end DocSearch.Store.Tables
