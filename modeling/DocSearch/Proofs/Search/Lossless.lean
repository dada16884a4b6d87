import Mathlib.Data.List.Dedup
import DocSearch.Proofs.Index.Filling
import DocSearch.Proofs.Search.Retrieval
import DocSearch.Proofs.Store.Ranking

/-!
# What was indexed is found

A run that fills an empty store, and a search in which nothing fails, fit together: the hits are the
last chunks of as many identities as the limit lets through, nearest first
(`search_finds_indexed`).

The join loses nothing, because every row of a filled store has a vector (`joined_identities`), and
a row comes back as the record that was stored (`recordOfRow_rowOf`).
-/

namespace DocSearch.Search

open DocSearch.Action Files Index Store

variable {σ : Type} {o : Outside σ} {embed : Embedder σ} {tables : σ → Tables} {disk : Disk}
  {nearer : String → String → String → Prop} {p q p' : Program σ}

/-! ## Filled tables joined -/

theorem eq_chunkRow {r : Record} {c : Chunk} (hdata : r.data = c.text)
    (hidentity : r.identity = c.identity) : r = chunkRow c := by
  obtain ⟨data, package, filename, symbol, kind⟩ := r
  obtain ⟨rfl, rfl, rfl, rfl⟩ := Identity.mk.inj hidentity
  rw [chunkRow, ← hdata]

section

variable {cs : List Chunk} {ids : List Int} {t : Tables} (h : Filled cs ids t)

include h

/-- What is joined: the last chunk of an identity, and its vector. -/
theorem mem_joined_filled {x : Record × String} (hx : x ∈ t.joined) :
    (∃ c, lastOf cs x.1.identity = some c ∧ x.1 = chunkRow c) ∧
      ∃ id data, t.holding? x.1.identity = some ⟨id, data, some x.2⟩ := by
  obtain ⟨id, hrow, hvector⟩ := Tables.mem_joined.1 hx
  have hrow' := (Tables.row?_eq_some_iff h.sound).2 ⟨hrow, rfl⟩
  have hvector' := (Tables.vector?_eq_some_iff h.sound).2 hvector
  have hheld : t.holding? x.1.identity = some ⟨id, x.1.data, some x.2⟩ :=
    Tables.holding?_eq_some_iff.2 ⟨x.1, hrow', rfl, hvector'⟩
  refine ⟨?_, id, x.1.data, hheld⟩
  cases hlast : lastOf cs x.1.identity with
  | none =>
    rw [h.absent _ hlast] at hheld
    cases hheld
  | some c =>
    obtain ⟨id', -, l, hl⟩ := h.held _ c hlast
    have hdata : x.1.data = c.text :=
      congrArg Tables.Holding.data (Option.some.inj (hheld.symm.trans hl))
    exact ⟨c, rfl, eq_chunkRow hdata (lastOf_mem hlast).2.symm⟩

/-- Each identity among the chunks is joined once, and no other one. -/
theorem joined_identities :
    (t.joined.map (·.1.identity)).Perm (cs.map Chunk.identity).dedup := by
  have hnodup : (t.joined.map (·.1.identity)).Nodup := by
    rw [Tables.joined_eq h.sound, List.map_filterMap, List.nodup_iff_pairwise_ne,
      List.pairwise_filterMap]
    refine (List.pairwise_map.1 h.sound.identities).imp fun hne i hi j hj => ?_
    simp only [Option.map_map, Option.map_eq_some_iff, Function.comp_apply] at hi hj
    obtain ⟨-, -, rfl⟩ := hi
    obtain ⟨-, -, rfl⟩ := hj
    exact hne
  refine (List.perm_ext_iff_of_nodup hnodup (List.nodup_dedup _)).2 fun i => ?_
  rw [List.mem_dedup, List.mem_map, List.mem_map]
  constructor
  · rintro ⟨x, hx, rfl⟩
    obtain ⟨⟨c, hlast, -⟩, -⟩ := mem_joined_filled h hx
    exact ⟨c, lastOf_mem hlast⟩
  · rintro ⟨c, hc, rfl⟩
    cases hlast : lastOf cs c.identity with
    | none => exact absurd rfl (lastOf_eq_none_iff.1 hlast c hc)
    | some d =>
      obtain ⟨id, -, l, hl⟩ := h.held _ d hlast
      obtain ⟨r, hrow, -, hvector⟩ := Tables.holding?_eq_some_iff.1 hl
      obtain ⟨hmem, hidentity⟩ := (Tables.row?_eq_some_iff h.sound).1 hrow
      refine ⟨(r, l), Tables.mem_joined.2 ⟨id, hmem, ?_⟩, hidentity⟩
      exact (Tables.vector?_eq_some_iff h.sound).1 hvector

end

/-! ## Answers over filled tables -/

/-- The hit that shows a chunk. -/
def hitOfChunk (c : Chunk) : Value :=
  .object [("kind", .text c.kind), ("symbol", .text c.symbol), ("data", .text c.text),
    ("package", .text c.package), ("filename", .text c.filename)]

/-- What a search finds of chunks that were indexed into `t`: the last chunks of as many identities
as the limit lets through, in an order in which no vector is nearer than one before it. -/
structure Finds (cs : List Chunk) (t : Tables) (nearer : String → String → Prop) (limit : Nat)
    (records : List Record) : Prop where
  count : records.length = min limit (cs.map Chunk.identity).dedup.length
  apart : (records.map Record.identity).Nodup
  last : ∀ r ∈ records, ∃ c, lastOf cs r.identity = some c ∧ r = chunkRow c ∧
    Tool.hitValue r = hitOfChunk c
  all : (cs.map Chunk.identity).dedup.length ≤ limit →
    ∀ c ∈ cs, c.identity ∈ records.map Record.identity
  sorted : ∃ literals : List String, literals.Pairwise nearer ∧
    List.Forall₂ (fun r l => ∃ id data, t.holding? r.identity = some ⟨id, data, some l⟩)
      records literals

theorem recordOfRow_rowOf (r : Record) : recordOfRow (Tables.rowOf r) = .ok r := rfl

/-- **A lawful answer over filled tables** holds what there is to be found. -/
theorem finds_of_ranked {cs : List Chunk} {ids : List Int} {t : Tables} (h : Filled cs ids t)
    {near : String → String → Prop} {limit : Nat} {rows : List Row}
    (hrows : t.Ranked near limit rows) :
    ∃ records, rows.map recordOfRow = records.map .ok ∧ Finds cs t near limit records := by
  obtain ⟨order, hperm, hsorted, rfl⟩ := hrows
  have hidentities : (order.map (·.1.identity)).Perm (cs.map Chunk.identity).dedup :=
    (hperm.map _).trans (joined_identities h)
  have hlength : order.length = (cs.map Chunk.identity).dedup.length := by
    rw [← hidentities.length_eq, List.length_map]
  have hjoined : ∀ x ∈ order.take limit, x ∈ t.joined :=
    fun x hx => hperm.subset (List.mem_of_mem_take hx)
  refine ⟨(order.take limit).map (·.1), ?_, ?_, ?_, ?_, ?_, ?_⟩
  · rw [List.map_map, List.map_map]
    exact List.map_congr_left fun x _ => recordOfRow_rowOf x.1
  · rw [List.length_map, List.length_take, hlength]
  · rw [List.map_map]
    have hnodup : (order.map (·.1.identity)).Nodup :=
      hidentities.nodup_iff.2 (List.nodup_dedup _)
    exact hnodup.sublist ((List.take_sublist _ _).map _)
  · intro r hr
    obtain ⟨x, hx, rfl⟩ := List.mem_map.1 hr
    obtain ⟨⟨c, hlast, hrow⟩, -⟩ := mem_joined_filled h (hjoined x hx)
    refine ⟨c, hlast, hrow, ?_⟩
    rw [hrow]
    rfl
  · intro hlimit c hc
    rw [List.take_of_length_le (hlength ▸ hlimit), List.map_map]
    exact hidentities.symm.subset (List.mem_dedup.2 (List.mem_map_of_mem hc))
  · refine ⟨(order.take limit).map (·.2), ?_, ?_⟩
    · exact List.pairwise_map.2 (hsorted.sublist (List.take_sublist _ _))
    · refine List.forall₂_map_left_iff.2 (List.forall₂_map_right_iff.2 ?_)
      exact List.forall₂_same.2 fun x hx => (mem_joined_filled h (hjoined x hx)).2

/-! ## Searching what was indexed -/

/-- A search in which nothing fails: the query gets the vector `v`, the database brings `script`,
which ends without a failure, and no look finds the token tripped. -/
def Undisturbed (o : Outside σ) (c : Client σ) (query : String) (limit : Value) (p : Program σ)
    (v : List Float) (script : Rows) : Prop :=
  ∃ q s, (c.embed query).perform p = (.ok v, q) ∧ Started o v limit q script s ∧
    script.failure = none ∧ ∀ trip ∈ looks o (script.rows.length + 1) s, trip = none

/-- **What was indexed is found.** Behind a sequential run that filled an empty store, a search in
which nothing fails brings the last chunks of as many identities as its limit lets through, and of
all of them if it lets all through. -/
theorem search_finds_indexed (ho : Serves o tables nearer) (he : Aloof embed tables)
    {source : Source} {bs : List (List Chunk)} {ending : Option RunError}
    (hgives : source.Gives disk bs ending) (hbound : bs.length < source.bound disk)
    {workers : Nat} (hw : workers ≤ 1) {pruneRoot : Option String}
    (hchunks : (tables p.outside).chunks = []) (hvectors : (tables p.outside).vectors = [])
    {stats : Stats}
    (hrun : (run o embed disk workers source pruneRoot).perform p = (.ok stats, q))
    (hp' : tables p'.outside = tables q.outside) {c : Client σ}
    (hc : ∀ text p, tables ((c.embed text).perform p).2.outside = tables p.outside)
    {query : String} {limit : Int} {v : List Float} {script : Rows}
    (hsearch : Undisturbed o c query (.int limit) p' v script) :
    ∃ records, ((c.retrieve o query (.int limit)).perform p').1 = .ok records ∧
      ((Tool.searchFor o c query (.int limit)).perform p').1 = .ok records ∧
      Finds bs.flatten (tables p'.outside) (nearer (vectorLiteral v)) limit.toNat records := by
  obtain ⟨ids, hfilled⟩ := filled_run ho.toBacked he hgives hbound hw hchunks hvectors hrun
  rw [← hp'] at hfilled
  obtain ⟨q', s, hembed, ⟨hopen, s₁, hlend, hexecute⟩, hfailure, hlooks⟩ := hsearch
  have htables : tables s₁ = tables p'.outside := by
    have hafter := hc query p'
    have hlent := ho.lend q'.outside
    rw [hembed] at hafter
    rw [hlend] at hlent
    exact hlent.trans hafter
  rw [← htables] at hfilled ⊢
  have hranked := ho.nearest (vectorLiteral v) limit s₁ script hfilled.sound
    (by rw [hexecute]) hfailure
  obtain ⟨records, hrecords, hfinds⟩ := finds_of_ranked hfilled hranked
  have hcomplete : Complete o c query (.int limit) p' records :=
    ⟨v, q', script, s, hembed, ⟨hopen, s₁, hlend, hexecute⟩, hrecords, hfailure, hlooks⟩
  exact ⟨records, hcomplete.retrieve, (searchFor_outcome o c _ _ _).trans hcomplete.retrieve,
    hfinds⟩

/-- Three chunks, of which the last one has the identity of the first. -/
def threeChunks : List Chunk :=
  [openChunk "Open opens.\n", closeChunk, openChunk "Open opens a store.\n"]

/-- The program with an empty store. -/
def emptyStore : Program SerialTables := ⟨.empty, true, []⟩

/-- Of three chunks with two identities, two are found. -/
theorem two_identities_found :
    ∃ stats q records,
      (run tablesWorld (fun _ _ => pure [1]) ⟨.folder [], [], []⟩ 1 (.listed threeChunks none)
        none).perform emptyStore = (.ok stats, q) ∧
      ((Tool.searchFor tablesWorld ⟨fun _ => pure [1], fun _ _ => throw (.cancelled ""), .null⟩
        "open" (.int 5)).perform q).1 = .ok records ∧
      records.length = 2 ∧ ∀ c ∈ threeChunks, c.identity ∈ records.map Record.identity := by
  obtain ⟨stats, t, -, q, hrun, hopen, -⟩ := run_ok ⟨.folder [], [], []⟩ reliable_tablesWorld
    (answers_pure stored [1]) Tables.sound_empty (p := emptyStore) rfl (Nat.le_refl 1) threeChunks
    none
  obtain ⟨bs, hgives, hflatten, hbound⟩ := Source.gives_listed ⟨.folder [], [], []⟩ threeChunks none
  have hundisturbed : Undisturbed tablesWorld
      ⟨fun _ => pure [1], fun _ _ => throw (.cancelled ""), .null⟩ "open" (.int 5) q [1] _ :=
    ⟨q, _, rfl, ⟨hopen, _, rfl, rfl⟩, rfl, looks_eq_none (fun _ => rfl) _ _⟩
  obtain ⟨records, -, hsearch, hfinds⟩ := search_finds_indexed serves_tablesWorld
    (fun _ _ _ => rfl) hgives hbound (Nat.le_refl 1) rfl rfl hrun rfl
    (c := ⟨fun _ => pure [1], fun _ _ => throw (.cancelled ""), .null⟩) (fun _ _ => rfl)
    hundisturbed
  rw [hflatten] at hfinds
  have htwo : (threeChunks.map Chunk.identity).dedup.length = 2 := by decide
  refine ⟨stats, q, records, hrun, hsearch, ?_, hfinds.all ?_⟩
  · rw [hfinds.count, htwo]
    rfl
  · rw [htwo]
    decide

end DocSearch.Search
