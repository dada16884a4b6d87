import DocSearch.Proofs.Store.Keys

/-!
# What the writing statements do

Storing a row, storing a vector and pruning keep tables sound, and each has one lemma that says what
it does to the views of `DocSearch.Proofs.Store.Keys`. A new row may get any id that no row has.
-/

namespace DocSearch.Store.Tables

/-! ## Storing a row -/

/-- Puts the data of `r` into the row with the id `id`. -/
def overwrite (id : Int) (r : Record) (c : Int × Record) : Int × Record :=
  if c.1 = id then (id, { c.2 with data := r.data }) else c

theorem overwrite_fst (id : Int) (r : Record) (c : Int × Record) : (overwrite id r c).1 = c.1 := by
  unfold overwrite
  split_ifs with h
  · exact h.symm
  · rfl

theorem overwrite_identity (id : Int) (r : Record) (c : Int × Record) :
    (overwrite id r c).2.identity = c.2.identity := by
  unfold overwrite
  split_ifs <;> rfl

/-- No row has the id `id`. -/
def Unused (t : Tables) (id : Int) : Prop := ∀ c ∈ t.chunks, c.1 ≠ id

/-- Storing the row `r` may lead from the tables `t` to `u` and tell `id`. A new row gets any id that
no row has. -/
def Stores (t : Tables) (r : Record) (id : Int) (u : Tables) : Prop :=
  ∃ new, t.Unused new ∧ t.upsertChunk new r = (id, u)

namespace Stores

variable {t u : Tables} {r : Record} {id : Int}

/-- The data of the row that is there is replaced, or a row is added. -/
theorem cases (h : t.Stores r id u) :
    (∃ c, t.row? r.identity = some c ∧ id = c.1 ∧
        u = { t with chunks := t.chunks.map (overwrite c.1 r) }) ∨
      t.row? r.identity = none ∧ t.Unused id ∧ u = { t with chunks := t.chunks ++ [(id, r)] } := by
  obtain ⟨new, hnew, hstore⟩ := h
  rw [upsertChunk, show t.idOf? r.identity = (t.row? r.identity).map (·.1) from rfl] at hstore
  cases hrow : t.row? r.identity with
  | some c =>
    rw [hrow] at hstore
    obtain ⟨rfl, rfl⟩ := Prod.mk.inj hstore
    exact .inl ⟨c, rfl, rfl, rfl⟩
  | none =>
    rw [hrow] at hstore
    obtain ⟨rfl, rfl⟩ := Prod.mk.inj hstore
    exact .inr ⟨rfl, hnew, rfl⟩

theorem vectors (h : t.Stores r id u) : u.vectors = t.vectors := by
  rcases h.cases with ⟨c, -, -, rfl⟩ | ⟨-, -, rfl⟩ <;> rfl

theorem dimension (h : t.Stores r id u) : u.dimension = t.dimension := by
  rcases h.cases with ⟨c, -, -, rfl⟩ | ⟨-, -, rfl⟩ <;> rfl

/-- Rows keep their keys and their places; a new one comes behind them. -/
theorem rowKeys_eq (h : t.Stores r id u) :
    (∃ c, t.row? r.identity = some c) ∧ u.rowKeys = t.rowKeys ∨
      t.row? r.identity = none ∧ u.rowKeys = t.rowKeys ++ [(id, r.identity)] := by
  rcases h.cases with ⟨c, hc, -, rfl⟩ | ⟨hnone, -, rfl⟩
  · refine .inl ⟨⟨c, hc⟩, ?_⟩
    rw [rowKeys, rowKeys, List.map_map]
    simp only [Function.comp_def, overwrite_fst, overwrite_identity]
  · refine .inr ⟨hnone, ?_⟩
    rw [rowKeys, rowKeys, List.map_append]
    rfl

/-- An identity keeps its id. -/
theorem id_eq (h : t.Stores r id u) {d : Holding} (hd : t.holding? r.identity = some d) :
    id = d.id := by
  obtain ⟨r', hr', -⟩ := holding?_eq_some_iff.1 hd
  rcases h.cases with ⟨c, hc, rfl, -⟩ | ⟨hnone, -⟩
  · obtain rfl := Option.some.inj (hc.symm.trans hr')
    rfl
  · cases hnone.symm.trans hr'

variable (hs : t.Sound) (h : t.Stores r id u)

include hs h

/-- A stored row stands under its identity; other rows stay as they are. -/
theorem row?_eq (i : Identity) :
    u.row? i = if r.identity = i then some (id, r) else t.row? i := by
  rcases h.cases with ⟨c, hc, rfl, rfl⟩ | ⟨hnone, -, rfl⟩
  · have hupd : Tables.row? { t with chunks := t.chunks.map (overwrite c.1 r) } i =
        (t.row? i).map (overwrite c.1 r) := by
      show (t.chunks.map (overwrite c.1 r)).find? _ = _
      rw [List.find?_map]
      congr 2
      funext d
      simp [overwrite_identity]
    rw [hupd]
    by_cases hi : r.identity = i
    · subst hi
      obtain ⟨-, hci⟩ := (row?_eq_some_iff hs).1 hc
      rw [if_pos rfl, hc, Option.map_some, overwrite, if_pos rfl]
      cases hr : c.2
      cases r
      simp_all [Record.identity]
    · rw [if_neg hi]
      cases hd : t.row? i with
      | none => rfl
      | some d => rw [Option.map_some, overwrite, if_neg (id_ne hs hi hc hd)]
  · show (t.chunks ++ [(id, r)]).find? _ = _
    by_cases hi : r.identity = i
    · subst hi
      rw [List.find?_append, show t.chunks.find? _ = none from hnone]
      simp
    · simp [List.find?_append, hi, row?]

/-- The vector that stands there is found under the id that the row has. -/
theorem vector?_id : t.vector? id = t.literal? r.identity := by
  rcases h.cases with ⟨c, hc, rfl, -⟩ | ⟨hnone, hunused, -⟩
  · rw [literal?, holding?, hc]
    rfl
  · rw [literal?, holding?_eq_none_iff.2 hnone, Option.bind_none]
    cases hv : t.vector? id with
    | none => rfl
    | some l =>
      obtain ⟨c, hc, hid⟩ := hs.owned _ ((vector?_eq_some_iff hs).1 hv)
      exact absurd hid (hunused c hc)

/-- Storing a row keeps the vector that stands there. -/
theorem holding?_eq (i : Identity) :
    u.holding? i =
      if r.identity = i then some ⟨id, r.data, t.literal? i⟩ else t.holding? i := by
  have hv (j : Int) : u.vector? j = t.vector? j := by rw [vector?, h.vectors, vector?]
  rw [holding?, h.row?_eq hs]
  split_ifs with hi
  · subst hi
    rw [Option.map_some, hv, h.vector?_id hs]
  · simp only [hv]
    rfl

theorem idFor_eq : u.idFor r.identity = id :=
  idFor_of_holding? ((h.holding?_eq hs _).trans (if_pos rfl))

/-- An identity that holds something goes on to do so, under its id. -/
theorem exists_holding? {i : Identity} {d : Holding} (hd : t.holding? i = some d) :
    ∃ d', u.holding? i = some d' ∧ d'.id = d.id := by
  rw [h.holding?_eq hs]
  split_ifs with hi
  · subst hi
    exact ⟨_, rfl, h.id_eq hd⟩
  · exact ⟨d, hd, rfl⟩

theorem sound : u.Sound := by
  rcases h.cases with ⟨c, -, -, rfl⟩ | ⟨hnone, hunused, rfl⟩
  · have hfst : (t.chunks.map (overwrite c.1 r)).map (·.1) = t.chunks.map (·.1) := by
      simp [Function.comp_def, overwrite_fst]
    have hidentity :
        (t.chunks.map (overwrite c.1 r)).map (·.2.identity) = t.chunks.map (·.2.identity) := by
      simp [Function.comp_def, overwrite_identity]
    refine ⟨hfst ▸ hs.ids, hidentity ▸ hs.identities, hs.keyed, fun v hv => ?_⟩
    obtain ⟨d, hd, hdv⟩ := hs.owned v hv
    exact ⟨overwrite c.1 r d, List.mem_map_of_mem hd, by rw [overwrite_fst, hdv]⟩
  · rw [row?_eq_none_iff] at hnone
    refine ⟨?_, ?_, hs.keyed, fun v hv => ?_⟩
    · rw [List.map_append, List.nodup_append]
      refine ⟨hs.ids, by simp, ?_⟩
      intro a ha b hb
      obtain ⟨c, hc, rfl⟩ := List.mem_map.1 ha
      obtain rfl : b = id := by simpa using hb
      exact hunused c hc
    · rw [List.map_append, List.nodup_append]
      refine ⟨hs.identities, by simp, ?_⟩
      intro a ha b hb
      obtain ⟨c, hc, rfl⟩ := List.mem_map.1 ha
      obtain rfl : b = r.identity := by simpa using hb
      exact hnone c hc
    · obtain ⟨c, hc, hcv⟩ := hs.owned v hv
      exact ⟨c, List.mem_append_left _ hc, hcv⟩

end Stores

/-- A counter that passes over ids that are in use gives a new row an id that no row has. -/
theorem stores_serial (t : SerialTables) (r : Record) :
    t.Stores r (t.upsertChunk r).1 (t.upsertChunk r).2.toTables := by
  refine ⟨t.newId, fun c hc => ?_, rfl⟩
  have hle (cs : List (Int × Record)) (n : Int) :
      n ≤ cs.foldl (fun n c => max n (c.1 + 1)) n ∧
        ∀ c ∈ cs, c.1 < cs.foldl (fun n c => max n (c.1 + 1)) n := by
    induction cs generalizing n with
    | nil => simp
    | cons d cs ih =>
      obtain ⟨hn, hcs⟩ := ih (max n (d.1 + 1))
      rw [List.foldl_cons, List.forall_mem_cons]
      exact ⟨by omega, by omega, hcs⟩
  exact Int.ne_of_lt ((hle t.chunks t.nextId).2 c hc)

/-! ## Storing a vector -/

/-- Puts a vector under the key `id`. -/
def putVector (id : Int) (literal : String) (l : List (Int × String)) : List (Int × String) :=
  if l.any fun v => v.1 = id then l.map fun v => if v.1 = id then (id, literal) else v
  else l ++ [(id, literal)]

/-- A vector that is put in the place of another one is found. -/
theorem lookup_replace_self {id : Int} {l : List (Int × String)} (literal : String)
    (hany : (l.any fun v => v.1 = id) = true) :
    (l.map fun v => if v.1 = id then (id, literal) else v).lookup id = some literal := by
  induction l with
  | nil => simp at hany
  | cons v l ih =>
    by_cases hv : v.1 = id
    · rw [List.map_cons, if_pos hv, Keyed.lookup_cons_self]
    · have hrest : (l.any fun v => v.1 = id) = true := by simpa [hv] using hany
      rw [List.map_cons, if_neg hv, Keyed.lookup_cons_of_ne (Ne.symm hv), ih hrest]

theorem lookup_replace_of_ne {id j : Int} (hj : j ≠ id) (literal : String)
    (l : List (Int × String)) :
    (l.map fun v => if v.1 = id then (id, literal) else v).lookup j = l.lookup j := by
  induction l with
  | nil => rfl
  | cons v l ih =>
    rw [List.map_cons, List.lookup_cons, List.lookup_cons, ih]
    by_cases hv : v.1 = id
    · rw [if_pos hv, hv, beq_false_of_ne hj]
    · rw [if_neg hv]

theorem lookup_putVector (id : Int) (literal : String) (l : List (Int × String)) (j : Int) :
    (putVector id literal l).lookup j = if j = id then some literal else l.lookup j := by
  unfold putVector
  split_ifs with hany hj hj
  · subst hj
    exact lookup_replace_self literal hany
  · exact lookup_replace_of_ne hj literal l
  · subst hj
    have hnone : l.lookup j = none := by
      rw [List.lookup_eq_none_iff]
      intro v hv
      have hne : v.1 ≠ j := by
        intro h
        exact hany (List.any_eq_true.2 ⟨v, hv, by simpa using h⟩)
      simpa using Ne.symm hne
    simp [List.lookup_append, hnone]
  · rw [List.lookup_append, Keyed.lookup_cons_of_ne hj, List.lookup_nil, Option.or_none]

theorem map_fst_putVector (id : Int) (literal : String) (l : List (Int × String)) :
    (putVector id literal l).map (·.1) =
      if id ∈ l.map (·.1) then l.map (·.1) else l.map (·.1) ++ [id] := by
  unfold putVector
  have hany : (l.any fun v => v.1 = id) = true ↔ id ∈ l.map (·.1) := by
    simp [List.any_eq_true]
  by_cases h : id ∈ l.map (·.1)
  · rw [if_pos (hany.2 h), if_pos h, List.map_map]
    apply List.map_congr_left
    intro v _
    by_cases hv : v.1 = id <;> simp [hv]
  · rw [if_neg (mt hany.1 h), if_neg h, List.map_append]
    rfl

/-- The tables when a literal is stored for the chunk with an id. -/
def setVector (t : Tables) (id : Int) (literal : String) : Tables :=
  { t with vectors := putVector id literal t.vectors }

theorem upsertVector_eq_some_iff {t u : Tables} {id : Int} {literal : String} :
    t.upsertVector id literal = some u ↔ (∃ c ∈ t.chunks, c.1 = id) ∧ u = t.setVector id literal := by
  have hany : (t.chunks.any fun c => c.1 = id) = true ↔ ∃ c ∈ t.chunks, c.1 = id := by
    simp [List.any_eq_true]
  by_cases h : ∃ c ∈ t.chunks, c.1 = id
  · rw [upsertVector, if_pos (hany.2 h), Option.some.injEq, and_iff_right h]
    exact eq_comm
  · rw [upsertVector, if_neg (mt hany.1 h)]
    simp [h]

theorem exists_row_of_holding? {t : Tables} (hs : t.Sound) {i : Identity} {h : Holding}
    (hh : t.holding? i = some h) : ∃ c ∈ t.chunks, c.1 = h.id := by
  obtain ⟨r, hr, -⟩ := holding?_eq_some_iff.1 hh
  exact ⟨_, ((row?_eq_some_iff hs).1 hr).1, rfl⟩

theorem sound_setVector {t : Tables} (hs : t.Sound) {id : Int} (h : ∃ c ∈ t.chunks, c.1 = id)
    (literal : String) : (t.setVector id literal).Sound := by
  have hkeys := map_fst_putVector id literal t.vectors
  refine ⟨hs.ids, hs.identities, ?_, fun v hv => ?_⟩
  · show ((putVector id literal t.vectors).map (·.1)).Nodup
    rw [hkeys]
    split_ifs with hid
    · exact hs.keyed
    · rw [List.nodup_append]
      refine ⟨hs.keyed, by simp, ?_⟩
      intro a ha b hb
      obtain rfl : b = id := by simpa using hb
      exact fun hab => hid (hab ▸ ha)
  · have hv' : v.1 ∈ (putVector id literal t.vectors).map (·.1) := List.mem_map.2 ⟨v, hv, rfl⟩
    rw [hkeys] at hv'
    have hcase : v.1 ∈ t.vectors.map (·.1) ∨ v.1 = id := by
      split_ifs at hv' with hid
      · exact .inl hv'
      · simpa [or_comm] using hv'
    rcases hcase with hold | hnew
    · obtain ⟨u, hu, huv⟩ := List.mem_map.1 hold
      obtain ⟨c, hc, hcu⟩ := hs.owned u hu
      exact ⟨c, hc, hcu.trans huv⟩
    · obtain ⟨c, hc, hci⟩ := h
      exact ⟨c, hc, hci.trans hnew.symm⟩

/-- Storing a vector keeps the rows, and the vectors of other identities. -/
theorem holding?_setVector {t : Tables} (hs : t.Sound) {i : Identity} {h : Holding}
    (hh : t.holding? i = some h) (literal : String) (j : Identity) :
    (t.setVector h.id literal).holding? j =
      if i = j then some { h with vector := some literal } else t.holding? j := by
  have hv (id : Int) : (t.setVector h.id literal).vector? id =
      if id = h.id then some literal else t.vector? id := lookup_putVector _ _ _ _
  obtain ⟨r, hr, hd, -⟩ := holding?_eq_some_iff.1 hh
  rw [holding?, show (t.setVector h.id literal).row? j = t.row? j from rfl]
  split_ifs with hi
  · subst hi
    rw [hr, Option.map_some, hv, if_pos rfl, hd]
  · rw [holding?]
    cases hd : t.row? j with
    | none => rfl
    | some d => rw [Option.map_some, Option.map_some, hv, if_neg (id_ne hs hi hr hd)]

/-! ## Pruning -/

section Pruning

variable {t : Tables} (root pattern : String) (keep : List Int)

theorem mem_chunks_prune {c : Int × Record} :
    c ∈ (t.prune root pattern keep).2.chunks ↔
      c ∈ t.chunks ∧ isStale root pattern keep c = false := by
  simp [prune]

/-- A vector goes exactly when the row with its id goes. -/
theorem mem_vectors_prune (hs : t.Sound) {c : Int × Record} (hc : c ∈ t.chunks) (l : String) :
    (c.1, l) ∈ (t.prune root pattern keep).2.vectors ↔
      (c.1, l) ∈ t.vectors ∧ isStale root pattern keep c = false := by
  have hsame : (∀ d ∈ t.chunks, isStale root pattern keep d = true → d.1 ≠ c.1) ↔
      isStale root pattern keep c = false := by
    constructor
    · intro h
      by_contra hstale
      exact h c hc (by simpa using hstale) rfl
    · intro hkept d hd hstale hdc
      rw [List.inj_on_of_nodup_map hs.ids hd hc hdc, hkept] at hstale
      exact Bool.false_ne_true hstale
  simp [prune, ← hsame]

theorem sound_prune (hs : t.Sound) : (t.prune root pattern keep).2.Sound := by
  refine ⟨?_, ?_, ?_, fun v hv => ?_⟩
  · exact hs.ids.sublist (List.Sublist.map _ List.filter_sublist)
  · exact hs.identities.sublist (List.Sublist.map _ List.filter_sublist)
  · exact hs.keyed.sublist (List.Sublist.map _ List.filter_sublist)
  · obtain ⟨c, hc, hcv⟩ := hs.owned v (List.mem_of_mem_filter hv)
    obtain ⟨id, l⟩ := v
    obtain rfl : c.1 = id := hcv
    have hkept := ((mem_vectors_prune root pattern keep hs hc l).1 hv).2
    exact ⟨c, (mem_chunks_prune root pattern keep).2 ⟨hc, hkept⟩, rfl⟩

theorem row?_prune (hs : t.Sound) (i : Identity) :
    (t.prune root pattern keep).2.row? i =
      (t.row? i).filter fun c => !isStale root pattern keep c := by
  ext c
  rw [row?_eq_some_iff (sound_prune root pattern keep hs), mem_chunks_prune]
  simp only [Option.filter_eq_some_iff, row?_eq_some_iff hs, Bool.not_eq_true']
  tauto

/-- Pruning takes what stands under the identity of a stale row and leaves the rest. -/
theorem holding?_prune (hs : t.Sound) (i : Identity) :
    (t.prune root pattern keep).2.holding? i =
      if (t.row? i).any (isStale root pattern keep) then none else t.holding? i := by
  rw [holding?, row?_prune root pattern keep hs, holding?]
  cases h : t.row? i with
  | none => rfl
  | some c =>
    obtain ⟨hc, -⟩ := (row?_eq_some_iff hs).1 h
    cases hstale : isStale root pattern keep c with
    | true =>
      rw [Option.filter_some, if_neg (by simp [hstale]), Option.any_some, if_pos hstale]
      rfl
    | false =>
      have hv : (t.prune root pattern keep).2.vector? c.1 = t.vector? c.1 := by
        ext l
        rw [vector?_eq_some_iff (sound_prune root pattern keep hs), vector?_eq_some_iff hs,
          mem_vectors_prune root pattern keep hs hc]
        simp [hstale]
      rw [Option.filter_some, if_pos (by simp [hstale]), Option.any_some, if_neg (by simp [hstale]),
        Option.map_some, Option.map_some, hv]

end Pruning

end DocSearch.Store.Tables
