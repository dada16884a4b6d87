import DocSearch.Proofs.Index.Supply
import DocSearch.Proofs.Store.Below

/-!
# What a run leaves in an empty store

A run that succeeds has stored the last chunk of every identity, each with a vector, and nothing
else (`Filled`). The embedder may give a text another vector each time: whichever it gave last is
there.

Where a run begins with an empty store, its deletion finds nothing: every row was told to it
(`swept_filled`).
-/

namespace DocSearch.Index

open DocSearch.Action Files Store

variable {σ : Type} {o : Outside σ} {embed : Embedder σ} {tables : σ → Tables} {disk : Disk}
  {p q : Program σ}

/-- An embedder that leaves the tables alone. -/
def Aloof (embed : Embedder σ) (tables : σ → Tables) : Prop :=
  ∀ trip text p, tables ((embed trip text).perform p).2.outside = tables p.outside

/-! ## Filled tables -/

/-- Tables that hold the last one of some chunks under each identity, with a vector and under one of
some ids, and nothing else. -/
structure Filled (cs : List Chunk) (ids : List Int) (t : Tables) : Prop where
  sound : t.Sound
  absent : ∀ i, lastOf cs i = none → t.holding? i = none
  held : ∀ i c, lastOf cs i = some c → ∃ id ∈ ids, ∃ l, t.holding? i = some ⟨id, c.text, some l⟩

theorem filled_empty {t : Tables} (hchunks : t.chunks = []) (hvectors : t.vectors = []) :
    Filled [] [] t := by
  refine ⟨by constructor <;> simp [hchunks, hvectors], fun i _ => ?_, nofun⟩
  rw [Tables.holding?_eq_none_iff, Tables.row?_eq_none_iff, hchunks]
  simp

theorem Filled.index {cs : List Chunk} {ids : List Int} {t u : Tables} (h : Filled cs ids t)
    {literal : String → String} {c : Chunk} (hu : t.Written literal (Write.inOrder [c]) u) :
    Filled (cs ++ [c]) (ids ++ [u.idFor c.identity]) u := by
  have hlast (i : Identity) : lastOf [c] i = if c.identity = i then some c else none :=
    lastOf_concat [] c i
  refine ⟨hu.sound h.sound, fun i hi => ?_, fun i d hi => ?_⟩
  · rw [lastOf_concat] at hi
    split_ifs at hi with hci
    rw [hu.holding?_other h.sound ((hlast i).trans (if_neg hci))]
    exact h.absent i hi
  · rw [lastOf_concat] at hi
    split_ifs at hi with hci
    · obtain rfl := Option.some.inj hi
      exact ⟨u.idFor i, by simp [hci], _, hu.holding?_last h.sound ((hlast i).trans (if_pos hci))⟩
    · rw [hu.holding?_other h.sound ((hlast i).trans (if_neg hci))]
      obtain ⟨id, hid, l, hl⟩ := h.held i d hi
      exact ⟨id, List.mem_append_left _ hid, l, hl⟩

/-- Every row of filled tables was told. -/
theorem Filled.mem_ids {cs : List Chunk} {ids : List Int} {t : Tables} (h : Filled cs ids t)
    {c : Int × Record} (hc : c ∈ t.chunks) : c.1 ∈ ids := by
  have hrow : t.row? c.2.identity = some c := (Tables.row?_eq_some_iff h.sound).2 ⟨hc, rfl⟩
  cases hlast : lastOf cs c.2.identity with
  | none =>
    have hnone := Tables.holding?_eq_none_iff.1 (h.absent _ hlast)
    rw [hrow] at hnone
    cases hnone
  | some d =>
    obtain ⟨id, hid, l, hl⟩ := h.held _ d hlast
    rw [← Tables.idFor_of_row? hrow, Tables.idFor_of_holding? hl]
    exact hid

/-- Nothing of filled tables is deleted. -/
theorem swept_filled {cs : List Chunk} {ids : List Int} {t : Tables} (h : Filled cs ids t)
    (pruneRoot : Option String) : (swept t pruneRoot ids).2 = t := by
  cases pruneRoot with
  | none => rfl
  | some root => exact Tables.prune_of_told root _ fun c hc => h.mem_ids hc

/-! ## Runs that succeed -/

/-- Where a vector was stored, it is there. -/
theorem of_settle (ho : Backed o tables) {c : Chunk} {id : Int} {v : List Float} {u : Unit}
    (h : (settle o c id v).perform p = (.ok u, q)) :
    tables q.outside = (tables p.outside).setVector id (vectorLiteral v) := by
  rcases settle_ends ho c id v (p := p) with ⟨-, q', hsettle, -, ht⟩ | ⟨e, q', hfail, -⟩
  · obtain ⟨-, rfl⟩ := Prod.mk.inj (h.symm.trans hsettle)
    exact ht
  · cases (Prod.mk.inj (h.symm.trans hfail)).1

/-- A chunk that was indexed has its row and a vector. -/
theorem of_indexChunk (ho : Backed o tables) (he : Aloof embed tables)
    (hs : (tables p.outside).Sound) {c : Chunk} {id : Int}
    (h : (indexChunk o embed c).perform p = (.ok id, q)) :
    id = (tables q.outside).idFor c.identity ∧ ∃ literal,
      (tables p.outside).Written literal (Write.inOrder [c]) (tables q.outside) := by
  obtain ⟨id', p₁, hstore, hrest⟩ := perform_bind_eq_ok h
  obtain ⟨v, p₂, hembed, hrest⟩ := perform_bind_eq_ok hrest
  obtain ⟨_, p₃, hsettle, hend⟩ := perform_bind_eq_ok hrest
  obtain ⟨hid, rfl⟩ := Prod.mk.inj hend
  obtain rfl := Except.ok.inj hid
  rcases upsertChunk_ends ho c (p := p) with ⟨-, _, u, hstored, p₁', hrow, -, rfl⟩ | ⟨e, _, hfail, -⟩
  · obtain ⟨hid, rfl⟩ := Prod.mk.inj (hstore.symm.trans hrow)
    obtain rfl := Except.ok.inj hid
    have hembedded := he none c.text p₁
    rw [hembed] at hembedded
    obtain ⟨hwritten, hid⟩ :=
      Tables.Written.of_stores (fun _ => vectorLiteral v) hs hstored
    rw [of_settle ho hsettle, hembedded]
    exact ⟨hid.symm, _, hwritten⟩
  · cases (Prod.mk.inj (hstore.symm.trans hfail)).1

theorem filled_indexAll (ho : Backed o tables) (he : Aloof embed tables) {cs done : List Chunk}
    {before ids : List Int} (hfilled : Filled done before (tables p.outside))
    (h : (indexAll o embed cs before).perform p = (.ok ids, q)) :
    Filled (done ++ cs) ids (tables q.outside) := by
  induction cs generalizing p done before with
  | nil =>
    obtain ⟨hids, rfl⟩ := Prod.mk.inj h
    obtain rfl := Except.ok.inj hids
    rwa [List.append_nil]
  | cons c cs ih =>
    obtain ⟨id, p', hchunk, hrest⟩ := perform_bind_eq_ok h
    obtain ⟨rfl, literal, hu⟩ := of_indexChunk ho he hfilled.sound hchunk
    have hall := ih (hfilled.index hu) hrest
    rwa [List.append_assoc] at hall

theorem filled_indexBatches (ho : Backed o tables) (he : Aloof embed tables) {source : Source}
    {bs : List (List Chunk)} {ending : Option RunError} (hgives : source.Gives disk bs ending)
    {fuel : Nat} (hfuel : bs.length < fuel) {done : List Chunk} {before ids : List Int}
    (hfilled : Filled done before (tables p.outside))
    (h : (indexBatches o embed disk fuel source before).perform p = (.ok ids, q)) :
    Filled (done ++ bs.flatten) ids (tables q.outside) := by
  induction fuel generalizing source bs p done before with
  | zero => exact absurd hfuel (Nat.not_lt_zero _)
  | succ fuel ih =>
    obtain ⟨source', batch, ls, p', hnext, hpull, -, hlook⟩ := exists_pull o disk source p
    have htables : tables p'.outside = tables p.outside := by rw [hlook]; exact ho.look _
    rw [← htables] at hfilled
    rw [indexBatches, perform_bind_ok hpull] at h
    rcases hgives.next_cases hnext with ⟨e, rfl⟩ | ⟨rfl, rfl, rfl⟩ | ⟨cs, bs', rfl, rfl, hrest⟩
    · cases (Prod.mk.inj h).1
    · obtain ⟨hids, rfl⟩ := Prod.mk.inj h
      obtain rfl := Except.ok.inj hids
      simpa using hfilled
    · obtain ⟨ids', p'', hcs, hrun⟩ := perform_bind_eq_ok h
      have := ih hrest (by simpa using hfuel) (filled_indexAll ho he hfilled hcs) hrun
      rwa [List.append_assoc] at this

/-- A run with one worker that began with an empty store and succeeded has filled it. -/
theorem filled_run (ho : Backed o tables) (he : Aloof embed tables) {source : Source}
    {bs : List (List Chunk)} {ending : Option RunError} (hgives : source.Gives disk bs ending)
    (hbound : bs.length < source.bound disk) {workers : Nat} (hw : workers ≤ 1)
    {pruneRoot : Option String} (hchunks : (tables p.outside).chunks = [])
    (hvectors : (tables p.outside).vectors = []) {stats : Stats}
    (h : (run o embed disk workers source pruneRoot).perform p = (.ok stats, q)) :
    ∃ ids, Filled bs.flatten ids (tables q.outside) := by
  have htables : tables (clocked o p).outside = tables p.outside := ho.clock _
  rw [run_eq, perform_bind_ok (perform_outside _ _)] at h
  obtain ⟨ids, p₁, hsource, hrest⟩ := perform_bind_eq_ok h
  rw [indexSource, if_pos hw] at hsource
  rcases hbatches : (indexBatches o embed disk (source.bound disk) source []).perform
    (clocked o p) with ⟨r, p₂⟩
  obtain ⟨rfl, rfl⟩ := Prod.mk.inj
    ((perform_always hbatches (perform_leave _ p₂)).symm.trans hsource)
  have hempty : Filled [] [] (tables (clocked o p).outside) := by
    rw [htables]
    exact filled_empty hchunks hvectors
  have hfilled := filled_indexBatches ho he hgives hbound hempty hbatches
  obtain ⟨-, -, hq⟩ := of_sweep_report ho hrest
  refine ⟨ids, ?_⟩
  rw [hq, swept_filled hfilled]
  exact hfilled

end DocSearch.Index
