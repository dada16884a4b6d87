import DocSearch.Proofs.Keyed
import DocSearch.Store.Access
import DocSearch.Store.Tables

/-!
# Tables and their keys

Rows of chunks have two keys, the id and the identity, and a vector has the id of its chunk for a
key. `Tables.Sound` says so.

Sound tables are read through **`Tables.holding?`**: the id, the data and the vector that stand
under an identity. `rowsOf_of_holding?` says what this means for the rows, and `eq_of_holding?` that
nothing but the order of keys is lost in it.
-/

namespace DocSearch.Store.Tables

/-! ## Soundness -/

/-- Ids and identities are keys of the chunks, and every vector is the only one of a chunk that is
there. -/
structure Sound (t : Tables) : Prop where
  ids : (t.chunks.map (·.1)).Nodup
  identities : (t.chunks.map (·.2.identity)).Nodup
  keyed : (t.vectors.map (·.1)).Nodup
  owned : ∀ v ∈ t.vectors, ∃ c ∈ t.chunks, c.1 = v.1

theorem sound_empty : empty.Sound := by
  constructor <;> simp [empty]

/-! ## Views -/

/-- The row of an identity, with its id. -/
def row? (t : Tables) (i : Identity) : Option (Int × Record) :=
  t.chunks.find? fun c => c.2.identity = i

/-- The vector of an id. -/
def vector? (t : Tables) (id : Int) : Option String := t.vectors.lookup id

/-- What stands under an identity. -/
structure Holding where
  id : Int
  data : String
  vector : Option String
deriving DecidableEq

/-- What the tables hold under an identity. -/
def holding? (t : Tables) (i : Identity) : Option Holding :=
  (t.row? i).map fun c => ⟨c.1, c.2.data, t.vector? c.1⟩

/-- The text that is held under an identity. -/
def text? (t : Tables) (i : Identity) : Option String := (t.holding? i).map (·.data)

/-- The literal of the vector that is held under an identity. -/
def literal? (t : Tables) (i : Identity) : Option String := (t.holding? i).bind (·.vector)

/-- The id that an identity has, if it has a row; without one, it is any number. -/
def idFor (t : Tables) (i : Identity) : Int := (t.idOf? i).getD 0

theorem row?_eq_some_iff {t : Tables} (hs : t.Sound) {i : Identity} {c : Int × Record} :
    t.row? i = some c ↔ c ∈ t.chunks ∧ c.2.identity = i := by
  have hfound {d} (h : t.row? i = some d) : d ∈ t.chunks ∧ d.2.identity = i :=
    ⟨List.mem_of_find?_eq_some h, by simpa [row?] using List.find?_some h⟩
  refine ⟨hfound, fun ⟨hc, hci⟩ => ?_⟩
  cases h : t.row? i with
  | none => exact absurd hci (by simpa using List.find?_eq_none.1 h c hc)
  | some d =>
    obtain ⟨hd, hdi⟩ := hfound h
    rw [List.inj_on_of_nodup_map hs.identities hd hc (hdi.trans hci.symm)]

theorem row?_eq_none_iff {t : Tables} {i : Identity} :
    t.row? i = none ↔ ∀ c ∈ t.chunks, c.2.identity ≠ i := by
  simp [row?, List.find?_eq_none]

theorem vector?_eq_some_iff {t : Tables} (hs : t.Sound) {id : Int} {l : String} :
    t.vector? id = some l ↔ (id, l) ∈ t.vectors :=
  Keyed.lookup_eq_some_iff hs.keyed

theorem holding?_eq_none_iff {t : Tables} {i : Identity} :
    t.holding? i = none ↔ t.row? i = none := by
  simp [holding?]

theorem holding?_eq_some_iff {t : Tables} {i : Identity} {h : Holding} :
    t.holding? i = some h ↔
      ∃ r : Record, t.row? i = some (h.id, r) ∧ r.data = h.data ∧ t.vector? h.id = h.vector := by
  constructor
  · intro hh
    obtain ⟨c, hc, rfl⟩ := Option.map_eq_some_iff.1 hh
    exact ⟨c.2, hc, rfl, rfl⟩
  · rintro ⟨r, hr, hd, hv⟩
    rw [holding?, hr, Option.map_some, hd, hv]

theorem holding?_of_mem {t : Tables} (hs : t.Sound) {c : Int × Record} (hc : c ∈ t.chunks) :
    t.holding? c.2.identity = some ⟨c.1, c.2.data, t.vector? c.1⟩ := by
  rw [holding?, (row?_eq_some_iff hs).2 ⟨hc, rfl⟩]
  rfl

theorem idFor_of_row? {t : Tables} {i : Identity} {c : Int × Record} (h : t.row? i = some c) :
    t.idFor i = c.1 := by
  rw [idFor, show t.idOf? i = (t.row? i).map (·.1) from rfl, h]
  rfl

theorem idFor_of_holding? {t : Tables} {i : Identity} {h : Holding} (hh : t.holding? i = some h) :
    t.idFor i = h.id := by
  obtain ⟨r, hr, -⟩ := holding?_eq_some_iff.1 hh
  exact idFor_of_row? hr

/-- Different identities have different ids. -/
theorem id_ne {t : Tables} (hs : t.Sound) {i j : Identity} {c d : Int × Record} (hij : i ≠ j)
    (hc : t.row? i = some c) (hd : t.row? j = some d) : d.1 ≠ c.1 := by
  obtain ⟨hcm, hci⟩ := (row?_eq_some_iff hs).1 hc
  obtain ⟨hdm, hdj⟩ := (row?_eq_some_iff hs).1 hd
  intro h
  exact hij (by rw [← hci, ← hdj, List.inj_on_of_nodup_map hs.ids hdm hcm h])

theorem holding?_of_views {t : Tables} {i : Identity} {d : String} {l : Option String}
    (hd : t.text? i = some d) (hl : t.literal? i = l) :
    t.holding? i = some ⟨t.idFor i, d, l⟩ := by
  obtain ⟨h, hh, rfl⟩ := Option.map_eq_some_iff.1 hd
  obtain rfl : h.vector = l := by rw [← hl, literal?, hh]; rfl
  rw [hh, idFor_of_holding? hh]

theorem text?_eq_none_iff {t : Tables} {i : Identity} : t.text? i = none ↔ t.holding? i = none := by
  simp [text?]

/-! ## Rows and vectors by key -/

/-- All rows of an identity. -/
def rowsOf (t : Tables) (i : Identity) : List (Int × Record) :=
  t.chunks.filter fun c => c.2.identity = i

/-- All vectors of an id. -/
def vectorsOf (t : Tables) (id : Int) : List (Int × String) :=
  t.vectors.filter fun v => v.1 = id

theorem mem_rowsOf {t : Tables} {i : Identity} {c : Int × Record} :
    c ∈ t.rowsOf i ↔ c ∈ t.chunks ∧ c.2.identity = i := by
  simp [rowsOf]

theorem rowsOf_eq {t : Tables} (hs : t.Sound) (i : Identity) : t.rowsOf i = (t.row? i).toList :=
  Keyed.filter_eq_toList_find? (fun c : Int × Record => c.2.identity) hs.identities i

theorem vectorsOf_eq {t : Tables} (hs : t.Sound) (id : Int) :
    t.vectorsOf id = ((t.vector? id).map (id, ·)).toList := by
  have hfound : t.vectorsOf id = (t.vectors.find? fun v => v.1 = id).toList :=
    Keyed.filter_eq_toList_find? (fun v : Int × String => v.1) hs.keyed id
  rw [hfound]
  congr 1
  ext v
  rw [← Option.mem_toList, ← hfound, vectorsOf, List.mem_filter, decide_eq_true_iff,
    Option.map_eq_some_iff]
  constructor
  · rintro ⟨hv, rfl⟩
    exact ⟨v.2, (vector?_eq_some_iff hs).2 hv, rfl⟩
  · rintro ⟨l, hl, rfl⟩
    exact ⟨(vector?_eq_some_iff hs).1 hl, rfl⟩

/-- What is held under an identity is its only row, and the only vector of that row. -/
theorem rowsOf_of_holding? {t : Tables} (hs : t.Sound) {i : Identity} {h : Holding}
    (hh : t.holding? i = some h) :
    t.rowsOf i = [(h.id, ⟨h.data, i.package, i.filename, i.symbol, i.kind⟩)] ∧
      t.vectorsOf h.id = (h.vector.map (h.id, ·)).toList := by
  obtain ⟨r, hr, hd, hv⟩ := holding?_eq_some_iff.1 hh
  obtain ⟨-, hi⟩ := (row?_eq_some_iff hs).1 hr
  subst hi
  rw [rowsOf_eq hs, hr, vectorsOf_eq hs, hv, ← hd]
  exact ⟨rfl, rfl⟩

theorem rowsOf_of_holding?_none {t : Tables} (hs : t.Sound) {i : Identity}
    (hh : t.holding? i = none) : t.rowsOf i = [] := by
  rw [rowsOf_eq hs, holding?_eq_none_iff.1 hh]
  rfl

/-- Tables that hold the same under an identity have the same row and the same vector there. -/
theorem rowsOf_congr {t u : Tables} (ht : t.Sound) (hu : u.Sound) {i : Identity}
    (hh : u.holding? i = t.holding? i) :
    u.rowsOf i = t.rowsOf i ∧ ∀ c ∈ t.rowsOf i, u.vectorsOf c.1 = t.vectorsOf c.1 := by
  cases h : t.holding? i with
  | none =>
    rw [rowsOf_of_holding?_none ht h, rowsOf_of_holding?_none hu (hh.trans h)]
    simp
  | some d =>
    obtain ⟨hrt, hvt⟩ := rowsOf_of_holding? ht h
    obtain ⟨hru, hvu⟩ := rowsOf_of_holding? hu (hh.trans h)
    rw [hrt, hru]
    refine ⟨rfl, fun c hc => ?_⟩
    obtain rfl := List.mem_singleton.1 hc
    rw [hvt, hvu]

/-! ## What the view keeps -/

/-- The keys of the rows, in order. -/
def rowKeys (t : Tables) : List (Int × Identity) := t.chunks.map fun c => (c.1, c.2.identity)

/-- The row that a holding stands for. -/
def Holding.row (h : Holding) (i : Identity) : Int × Record :=
  (h.id, ⟨h.data, i.package, i.filename, i.symbol, i.kind⟩)

theorem row_of_mem {t : Tables} (hs : t.Sound) {c : Int × Record} (hc : c ∈ t.chunks) :
    (t.holding? c.2.identity).map (·.row c.2.identity) = some c := by
  rw [holding?_of_mem hs hc]
  rfl

theorem literal?_of_mem {t : Tables} (hs : t.Sound) {c : Int × Record} (hc : c ∈ t.chunks) :
    t.literal? c.2.identity = t.vector? c.1 := by
  rw [literal?, holding?_of_mem hs hc]
  rfl

/-- Tables that agree on the keys of their rows, on the keys of their vectors and on what stands
under each identity have the same rows and the same vectors. -/
theorem eq_of_holding? {t u : Tables} (ht : t.Sound) (hu : u.Sound) (hrows : t.rowKeys = u.rowKeys)
    (hkeys : t.vectors.map (·.1) = u.vectors.map (·.1))
    (hh : ∀ i, t.holding? i = u.holding? i) :
    t.chunks = u.chunks ∧ t.vectors = u.vectors := by
  have hchunks : t.chunks = u.chunks := by
    refine Keyed.eq_of_map_eq _ hrows fun c hc d hd hcd => ?_
    have h := row_of_mem ht hc
    rw [(Prod.mk.inj hcd).2, hh, row_of_mem hu hd] at h
    exact (Option.some.inj h).symm
  refine ⟨hchunks, Keyed.eq_of_map_eq _ hkeys fun v hv w hw hvw => ?_⟩
  obtain ⟨c, hc, hcv⟩ := ht.owned v hv
  have hlook : t.vector? c.1 = u.vector? c.1 := by
    rw [← literal?_of_mem ht hc, literal?, hh, ← literal?_of_mem hu (hchunks ▸ hc), literal?]
  rw [hcv, (vector?_eq_some_iff ht (l := v.2)).2 hv, hvw,
    (vector?_eq_some_iff hu (l := w.2)).2 hw] at hlook
  exact Prod.ext hvw (Option.some.inj hlook)

end DocSearch.Store.Tables
