import DocSearch.Proofs.Index.Race

/-!
# A pruned run and its source

A run with a root deletes the rows at or below it whose ids it was not told. Ids and identities go
together, so these are the rows whose identity does not occur among the chunks. Whatever stands
elsewhere stays (`Prunes`). This is so under any interleaving.

With one worker the run **`Mirrors`** its source: each identity has the last chunk of the source and
the vector of this chunk. With several workers the last chunk to be stored counts, which need not be
the last one of the source: `run_mirrors_source_iff` tells when it is, and
`overtaken_run_mirrors_nothing` is a run for which it is not.
-/

namespace DocSearch.Store.Tables

/-! ## Rows that go -/

/-- Whether pruning deletes a row, by its key. -/
def isStaleKey (root pattern : String) (keep : List Int) (k : Int × Identity) : Bool :=
  (k.2.filename == root || fits pattern.toList k.2.filename.toList) && !keep.contains k.1

theorem prune_fst_eq_countP (t : Tables) (root pattern : String) (keep : List Int) :
    (t.prune root pattern keep).1 = t.rowKeys.countP (isStaleKey root pattern keep) := by
  rw [rowKeys, List.countP_map, List.countP_eq_length_filter]
  rfl

theorem isEmpty_rowsOf {t : Tables} (hs : t.Sound) (i : Identity) :
    (t.rowsOf i).isEmpty = (t.holding? i).isNone := by
  rw [rowsOf_eq hs, holding?]
  cases t.row? i <;> rfl

/-- The rows that go are those whose identity holds nothing any more. -/
theorem isStaleKey_eq {t : Tables} (hs : t.Sound) (root pattern : String) (keep : List Int)
    {k : Int × Identity} (hk : k ∈ t.rowKeys) :
    isStaleKey root pattern keep k = ((t.prune root pattern keep).2.rowsOf k.2).isEmpty := by
  obtain ⟨c, hc, rfl⟩ := List.mem_map.1 hk
  have hrow : t.row? c.2.identity = some c := (row?_eq_some_iff hs).2 ⟨hc, rfl⟩
  rw [isEmpty_rowsOf (sound_prune root pattern keep hs), holding?_prune root pattern keep hs, hrow,
    Option.any_some, holding?_of_mem hs hc]
  show isStale root pattern keep c = _
  cases isStale root pattern keep c <;> rfl

end DocSearch.Store.Tables

namespace DocSearch.Index

open DocSearch.Action Files Store

/-- What a run with a root over the chunks `cs` makes of the tables `t`: each identity among the
chunks has one row of one of them and the vector of one of them. Any other identity at or below the
root has no row, and elsewhere each keeps its row and its vector. No vector is without its row, and
the number of rows that have gone is told. -/
structure Prunes (literal : String → String) (root : String) (cs : List Chunk) (t u : Tables)
    (pruned : Int) : Prop where
  emitted : ∀ c ∈ cs, ∃ r ∈ cs, ∃ v ∈ cs, ∃ id, r.identity = c.identity ∧
    v.identity = c.identity ∧ u.rowsOf c.identity = [(id, chunkRow r)] ∧
    u.vectorsOf id = [(id, literal v.text)]
  gone : ∀ i, AtOrBelow root i.filename → (∀ c ∈ cs, c.identity ≠ i) → u.rowsOf i = []
  others : ∀ i, ¬ AtOrBelow root i.filename → u.rowsOf i = t.rowsOf i ∧
    ∀ row ∈ t.rowsOf i, u.vectorsOf row.1 = t.vectorsOf row.1
  owned : ∀ v ∈ u.vectors, ∃ row ∈ u.chunks, row.1 = v.1
  counted : pruned = t.chunks.countP fun row => (u.rowsOf row.2.identity).isEmpty

/-- The tables mirror the source: besides, each identity has its last chunk, and the vector of this
chunk. -/
structure Mirrors (literal : String → String) (root : String) (cs : List Chunk) (t u : Tables)
    (pruned : Int) : Prop extends Prunes literal root cs t u pruned where
  last : ∀ i c, lastOf cs i = some c → ∃ id, u.rowsOf i = [(id, chunkRow c)] ∧
    u.vectorsOf id = [(id, literal c.text)]

/-- For each identity, the text that was stored last and the vector that was stored last are those
of the last chunk of the source. -/
def LastStored (literal : String → String) (cs : List Chunk) (ws : List Write) : Prop :=
  ∀ i c, lastOf cs i = some c → ∃ r v, lastOf (Write.rows ws) i = some r ∧
    lastOf (Write.vectors ws) i = some v ∧ r.text = c.text ∧ literal v.text = literal c.text

theorem lastStored_inOrder (literal : String → String) (cs : List Chunk) :
    LastStored literal cs (Write.inOrder cs) := by
  intro i c hc
  rw [Write.rows_inOrder, Write.vectors_inOrder]
  exact ⟨c, c, hc, hc, rfl, rfl⟩

theorem chunkRow_congr {c d : Chunk} (htext : c.text = d.text) (hi : c.identity = d.identity) :
    chunkRow c = chunkRow d := by
  obtain ⟨hpackage, hfilename, hsymbol, hkind⟩ := Identity.mk.inj hi
  rw [chunkRow, chunkRow, htext, hpackage, hfilename, hsymbol, hkind]

namespace Finished

variable {literal : String → String} {t t' : Tables} {cs : List Chunk} {root : String}
  {ws : List Write} {stats : Stats}
  (h : Finished literal t cs (some root) ws stats t') (hs : t.Sound)

include h hs

theorem counted :
    stats.pruned = t.chunks.countP fun row => (t'.rowsOf row.2.identity).isEmpty := by
  obtain ⟨elapsed, hwhole, hu, htold⟩ := h
  rename_i u ids
  have hsu := hu.sound hs
  obtain ⟨new, hkeys, hnew⟩ := hu.rowKeys_eq
  -- A new row is that of a chunk, and its id was told.
  have hkept : new.countP (Tables.isStaleKey root (patternBelow root) (sortedIds ids)) = 0 := by
    refine List.countP_eq_zero.2 fun k hk => ?_
    obtain ⟨w, hw, hi⟩ := hnew k hk
    have hmem : k ∈ u.rowKeys := hkeys ▸ List.mem_append_right _ hk
    obtain ⟨c, hc, rfl⟩ := List.mem_map.1 hmem
    have hid := (mem_told_iff hs hwhole hu htold c hc).2 ⟨w.chunk, hwhole.known w hw, hi⟩
    simp [Tables.isStaleKey, mem_sortedIds.2 hid]
  show ((u.prune root (patternBelow root) (sortedIds ids)).1 : Int) = _
  rw [Tables.prune_fst_eq_countP, hkeys, List.countP_append, hkept, Nat.add_zero, Tables.rowKeys,
    List.countP_map]
  refine congrArg Nat.cast (List.countP_congr fun row hrow => ?_)
  have hmem : (row.1, row.2.identity) ∈ u.rowKeys :=
    hkeys ▸ List.mem_append_left _ (List.mem_map_of_mem hrow)
  rw [Function.comp_apply, Tables.isStaleKey_eq hsu root _ _ hmem]
  rfl

/-- However it goes, a run that succeeds prunes what its source does not have. -/
theorem prunes (hcs : ∀ c ∈ cs, AtOrBelow root c.filename) :
    Prunes literal root cs t t' stats.pruned where
  emitted c hc := by
    obtain ⟨r, hr, v, hv, id, hri, hvi, -, -, hrow, hvector⟩ := h.last_writes hs hc
    exact ⟨r, hr, v, hv, id, hri, hvi, hrow, hvector⟩
  gone i hi hnone := Tables.rowsOf_of_holding?_none (h.sound hs) (h.holding?_gone hs rfl hi hnone)
  others i hi := by
    have hnone : ∀ c ∈ cs, c.identity ≠ i := fun c hc hci => hi (hci ▸ hcs c hc)
    exact Tables.rowsOf_congr hs (h.sound hs) (h.holding?_other hs rfl hi hnone)
  owned := (h.sound hs).owned
  counted := h.counted hs

/-- It mirrors its source exactly if the last chunks are stored last. -/
theorem mirrors_iff (hcs : ∀ c ∈ cs, AtOrBelow root c.filename) :
    Mirrors literal root cs t t' stats.pruned ↔ LastStored literal cs ws := by
  constructor
  · intro hmirrors i c hc
    obtain ⟨hmem, rfl⟩ := lastOf_mem hc
    obtain ⟨id, hrow, hvector⟩ := hmirrors.last _ c hc
    obtain ⟨r, -, v, -, id', -, -, hr, hv, hrow', hvector'⟩ := h.last_writes hs hmem
    obtain ⟨rfl, hsame⟩ := Prod.mk.inj (List.singleton_inj.1 (hrow'.symm.trans hrow))
    refine ⟨r, v, hr, hv, congrArg Record.data hsame, ?_⟩
    exact (Prod.mk.inj (List.singleton_inj.1 (hvector'.symm.trans hvector))).2
  · refine fun hlast => ⟨h.prunes hs hcs, fun i c hc => ?_⟩
    obtain ⟨hmem, rfl⟩ := lastOf_mem hc
    obtain ⟨r, -, v, -, id, hri, -, hr, hv, hrow, hvector⟩ := h.last_writes hs hmem
    obtain ⟨r', v', hr', hv', htext, hliteral⟩ := hlast _ c hc
    obtain rfl := Option.some.inj (hr.symm.trans hr')
    obtain rfl := Option.some.inj (hv.symm.trans hv')
    exact ⟨id, chunkRow_congr htext hri ▸ hrow, hliteral ▸ hvector⟩

/-- Where all chunks of an identity have one text, their order does not show. -/
theorem lastStored (hsame : ∀ c ∈ cs, ∀ d ∈ cs, c.identity = d.identity → c.text = d.text) :
    LastStored literal cs ws := by
  intro i c hc
  obtain ⟨hmem, rfl⟩ := lastOf_mem hc
  obtain ⟨r, hrcs, v, hvcs, -, hri, hvi, hr, hv, -⟩ := h.last_writes hs hmem
  exact ⟨r, v, hr, hv, hsame r hrcs c hmem hri, by rw [hsame v hvcs c hmem hvi]⟩

end Finished

/-- **When a pruned run mirrors its source.** However it goes, a successful run with a root prunes
what its source does not have and touches nothing elsewhere. With one worker it mirrors its source,
and with several workers it does so exactly if for each identity the text and the vector of its last
chunk were stored last; this is always so if all chunks of an identity have one text. -/
theorem run_mirrors_source_iff {σ : Type} {o : Outside σ} {tables : σ → Tables} {embed : Embedder σ}
    {vector : String → List Float} (ho : Backed o tables) (he : Embeds embed tables vector)
    (disk : Disk) (workers : Nat) (root : String) (cs : List Chunk)
    (hcs : ∀ c ∈ cs, AtOrBelow root c.filename) (p : Program σ) (hs : (tables p.outside).Sound) :
    (∀ stats q, Runs o embed disk workers (.listed cs none) (some root) p (.ok stats) q →
      Prunes (vectorLiteral ∘ vector) root cs (tables p.outside) (tables q.outside) stats.pruned ∧
      (workers ≤ 1 ∨ (∀ c ∈ cs, ∀ d ∈ cs, c.identity = d.identity → c.text = d.text) →
        Mirrors (vectorLiteral ∘ vector) root cs (tables p.outside) (tables q.outside)
          stats.pruned)) ∧
    ∀ ws stats q,
      Together o embed disk workers (.listed cs none) (some root) p ws (.ok stats) q →
      (Mirrors (vectorLiteral ∘ vector) root cs (tables p.outside) (tables q.outside)
        stats.pruned ↔ LastStored (vectorLiteral ∘ vector) cs ws) := by
  obtain ⟨bs, hgives, rfl, hbound⟩ := Source.gives_listed disk cs none
  refine ⟨fun stats q h => ?_, fun ws stats q h => ?_⟩
  · obtain ⟨-, ws, hone, hfinished⟩ := h.finished ho he hgives hs hbound
    refine ⟨hfinished.prunes hs hcs, fun horder => (hfinished.mirrors_iff hs hcs).2 ?_⟩
    rcases horder with hw | hsame
    · exact hone hw ▸ lastStored_inOrder _ _
    · exact hfinished.lastStored hs hsame
  · exact (h.ok ho he hgives hs).2.mirrors_iff hs hcs

theorem openChunk_below {text : String} : AtOrBelow "store/" (openChunk text).filename :=
  .inr ⟨"open.go".toList, show "store/open.go".toList = _ by decide⟩

/-- A function that is not in its folder any more goes, the other one stays. -/
theorem run_mirrors_source_iff_store :
    ∃ stats q, (run tablesWorld (fun _ _ => pure [1]) ⟨.folder [], [], []⟩ 1
        (.listed [openChunk "opens"] none) (some "store/")).perform
        ⟨⟨⟨[(7, chunkRow (openChunk "opened")), (8, chunkRow closeChunk)],
          [(7, "[0.0]"), (8, "[0.5]")], none⟩, 9⟩, true, []⟩ = (.ok stats, q) ∧
      (∃ id, q.outside.rowsOf (openChunk "").identity = [(id, chunkRow (openChunk "opens"))]) ∧
      q.outside.rowsOf closeChunk.identity = [] := by
  have hs : (⟨[(7, chunkRow (openChunk "opened")), (8, chunkRow closeChunk)],
      [(7, "[0.0]"), (8, "[0.5]")], none⟩ : Tables).Sound := by
    constructor <;> decide
  have he := answers_pure stored [1]
  obtain ⟨stats, t, -, q, hq, -⟩ := run_ok ⟨.folder [], [], []⟩ reliable_tablesWorld he hs
    (p := ⟨⟨_, 9⟩, true, []⟩) rfl (Nat.le_refl 1) [openChunk "opens"] (some "store/")
  obtain ⟨hprunes, hmirrors⟩ := (run_mirrors_source_iff reliable_tablesWorld.toBacked he.embeds
    ⟨.folder [], [], []⟩ 1 "store/" [openChunk "opens"]
    (List.forall_mem_singleton.2 openChunk_below) ⟨⟨_, 9⟩, true, []⟩ hs).1 stats q
      (.alone (Nat.le_refl 1) hq)
  obtain ⟨id, hrow, -⟩ :=
    (hmirrors (.inl (Nat.le_refl 1))).last (openChunk "").identity (openChunk "opens") rfl
  exact ⟨_, q, hq, ⟨id, hrow⟩, hprunes.gone _ (.inr ⟨"close.go".toList, by decide⟩)
    (by decide)⟩

/-- A run whose tasks overtake each other succeeds and does not mirror its source: the row is that of
its last chunk, and the vector is that of another one. -/
theorem overtaken_run_mirrors_nothing :
    Answers (telling (openChunk "opened").text) stored (tellingVector (openChunk "opened").text) ∧
    (∀ c ∈ [openChunk "opened", openChunk "opens"], AtOrBelow "store/" c.filename) ∧
    ∃ ws stats q, Together tablesWorld (telling (openChunk "opened").text) ⟨.folder [], [], []⟩ 2
        (.listed [openChunk "opened", openChunk "opens"] none) (some "store/")
        ⟨.empty, true, []⟩ ws (.ok stats) q ∧
      ¬ Mirrors (vectorLiteral ∘ tellingVector (openChunk "opened").text) "store/"
        [openChunk "opened", openChunk "opens"] .empty q.outside stats.pruned := by
  obtain ⟨ws, stats, q, h, hq⟩ := exists_overtaken (some "store/")
  refine ⟨telling_answers _, ?_, ws, stats, q, h, fun hmirrors => ?_⟩
  · exact List.forall_mem_cons.2 ⟨openChunk_below, List.forall_mem_singleton.2 openChunk_below⟩
  · obtain ⟨id, hrow, hvector⟩ := hmirrors.last (openChunk "opens").identity (openChunk "opens") rfl
    rw [show q.outside.toTables = _ from hq] at hrow hvector
    obtain ⟨rfl, -⟩ := Prod.mk.inj (List.singleton_inj.1
      (show [((1 : Int), chunkRow (openChunk "opens"))] = _ from hrow))
    exact overtaken_vector_ne (Prod.mk.inj (List.singleton_inj.1
      (show [((1 : Int), "[1.0,0.0,1.0]")] = _ from hvector))).2

end DocSearch.Index
