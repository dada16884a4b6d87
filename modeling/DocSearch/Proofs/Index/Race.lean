import DocSearch.Proofs.Index.Runs

/-!
# When tasks of one identity overtake each other

Two chunks of one identity may be in flight at once. Each task stores its row before its vector, but
a task that is slow to embed its text may store its vector behind everything that another task has
stored. The row is then that of the other chunk, and the vector is not.

Behind a run that succeeds, an identity has the row that was stored last and the vector that was
stored last, so they fit exactly if these two chunks have texts of one vector
(`together_keeps_last_writes`). They need not (`overtaken_task_leaves_old_vector`).
-/

namespace DocSearch.Store.Tables

/-- The only row of an identity has one vector, and it is that of its text. -/
def Fits (literal : String → String) (t : Tables) (i : Identity) : Prop :=
  ∃ c, t.rowsOf i = [c] ∧ t.vectorsOf c.1 = [(c.1, literal c.2.data)]

theorem fits_iff {literal : String → String} {t : Tables} {i : Identity} {id : Int} {c : Chunk}
    {l : String} (hrow : t.rowsOf i = [(id, chunkRow c)]) (hvector : t.vectorsOf id = [(id, l)]) :
    t.Fits literal i ↔ l = literal c.text := by
  constructor
  · rintro ⟨c', hrow', hvector'⟩
    obtain rfl := (List.singleton_inj.1 (hrow.symm.trans hrow'))
    exact (Prod.mk.inj (List.singleton_inj.1 (hvector.symm.trans hvector'))).2
  · rintro rfl
    exact ⟨_, hrow, hvector⟩

end DocSearch.Store.Tables

namespace DocSearch.Index

open DocSearch.Action Files Store

variable {σ : Type} {o : Outside σ} {embed : Embedder σ} {disk : Disk} {tables : σ → Tables}
  {vector : String → List Float}

/-- **When rows and vectors fit behind tasks that overtake each other**: under any interleaving, a
run that succeeds leaves each identity of its chunks with the row that was stored last and the
vector that was stored last, and they fit exactly if these two chunks have texts of one vector. So
they do if all chunks of an identity have one text. -/
theorem together_keeps_last_writes (ho : Backed o tables) (he : Embeds embed tables vector)
    (disk : Disk) (workers : Nat) (cs : List Chunk) (pruneRoot : Option String) (p : Program σ)
    (hs : (tables p.outside).Sound) {ws : List Write} {stats : Stats} {q : Program σ}
    (h : Together o embed disk workers (.listed cs none) pruneRoot p ws (.ok stats) q) :
    (∀ c ∈ cs, ∃ r ∈ cs, ∃ v ∈ cs, ∃ id,
      lastOf (Write.rows ws) c.identity = some r ∧ lastOf (Write.vectors ws) c.identity = some v ∧
      (tables q.outside).rowsOf c.identity = [(id, chunkRow r)] ∧
      (tables q.outside).vectorsOf id = [(id, vectorLiteral (vector v.text))] ∧
      ((tables q.outside).Fits (vectorLiteral ∘ vector) c.identity ↔
        vectorLiteral (vector v.text) = vectorLiteral (vector r.text))) ∧
    ((∀ c ∈ cs, ∀ d ∈ cs, c.identity = d.identity → c.text = d.text) →
      ∀ c ∈ cs, (tables q.outside).Fits (vectorLiteral ∘ vector) c.identity) := by
  obtain ⟨bs, hgives, hbs, -⟩ := Source.gives_listed disk cs none
  obtain ⟨-, hfinished⟩ := h.ok ho he hgives hs
  rw [hbs] at hfinished
  constructor
  · intro c hc
    obtain ⟨r, hrcs, v, hvcs, id, -, -, hr, hv, hrow, hvectors⟩ := hfinished.last_writes hs hc
    exact ⟨r, hrcs, v, hvcs, id, hr, hv, hrow, hvectors, Tables.fits_iff hrow hvectors⟩
  · intro hsame c hc
    obtain ⟨r, hrcs, v, hvcs, id, hri, hvi, -, -, hrow, hvectors⟩ := hfinished.last_writes hs hc
    rw [Tables.fits_iff hrow hvectors, hsame v hvcs r hrcs (hvi.trans hri.symm)]

/-! ## A task that is overtaken -/

/-- By these vectors, one text is told from all others. -/
def tellingVector (text t : String) : List Float := if t = text then [1, 0, 1] else [0, 1, 1]

/-- Embeds texts by `tellingVector`. -/
def telling (text : String) : Embedder SerialTables := fun _ t => pure (tellingVector text t)

theorem telling_answers (text : String) : Answers (telling text) stored (tellingVector text) :=
  fun _ _ _ => leads_pure rfl _

/-- Two workers behind two chunks of one identity, of which the first one is slow to embed. -/
def overtaken : Shift SerialTables :=
  Shift.go tablesWorld (telling (openChunk "opened").text) ⟨.folder [], [], []⟩
    (Shift.overtaking fun c => c.doc = "opened") 16
    ⟨.listed [openChunk "opened", openChunk "opens"] none, [],
      .start 2 (clocked tablesWorld ⟨.empty, true, []⟩)⟩

theorem overtaken_over : overtaken.crew.phase = .over none := over_of_matches (by decide +kernel)

/-- A run may go this way. With a root it deletes nothing, since the only row is its own. -/
theorem exists_overtaken (pruneRoot : Option String) :
    ∃ ws stats q, Together tablesWorld (telling (openChunk "opened").text) ⟨.folder [], [], []⟩ 2
      (.listed [openChunk "opened", openChunk "opens"] none) pruneRoot ⟨.empty, true, []⟩ ws
      (.ok stats) q ∧
      stored q.outside = ⟨[(1, chunkRow (openChunk "opens"))], [(1, "[1.0,0.0,1.0]")], none⟩ := by
  have htables : stored overtaken.crew.program.outside =
      ⟨[(1, chunkRow (openChunk "opens"))], [(1, "[1.0,0.0,1.0]")], none⟩ := by decide +kernel
  have hcollected : 1 ∈ overtaken.crew.collected := by decide +kernel
  obtain ⟨ws, stats, q, htogether, hq⟩ := exists_together reliable_tablesWorld
    overtaken.eq_1.symm overtaken_over (by decide +kernel) pruneRoot
  refine ⟨ws, stats, q, htogether, hq.trans ?_⟩
  rw [htables]
  cases pruneRoot with
  | none => rfl
  | some root => exact Tables.prune_of_told root _ (by simpa using hcollected)

/-- The vector is not that of the text that it stands with. -/
theorem overtaken_vector_ne : "[1.0,0.0,1.0]" ≠
    vectorLiteral (tellingVector (openChunk "opened").text (openChunk "opens").text) := by
  decide +kernel

/-- The identity of the two chunks has a row and a vector that were stored last. -/
theorem together_keeps_last_writes_overtaken :
    ∃ ws stats q, Together tablesWorld (telling (openChunk "opened").text) ⟨.folder [], [], []⟩ 2
        (.listed [openChunk "opened", openChunk "opens"] none) none ⟨.empty, true, []⟩ ws
        (.ok stats) q ∧
      ∃ r v id, lastOf (Write.rows ws) (openChunk "").identity = some r ∧
        lastOf (Write.vectors ws) (openChunk "").identity = some v ∧
        q.outside.rowsOf (openChunk "").identity = [(id, chunkRow r)] := by
  obtain ⟨ws, stats, q, h, -⟩ := exists_overtaken none
  obtain ⟨hlast, -⟩ := together_keeps_last_writes reliable_tablesWorld.toBacked
    (telling_answers (openChunk "opened").text).embeds ⟨.folder [], [], []⟩ 2
    [openChunk "opened", openChunk "opens"] none ⟨.empty, true, []⟩ Tables.sound_empty h
  obtain ⟨r, -, v, -, id, hr, hv, hrow, -⟩ := hlast (openChunk "opened") (by simp)
  exact ⟨ws, stats, q, h, r, v, id, hr, hv, hrow⟩

/-- The slow task stores its vector last, and it stays with the text of the other chunk. -/
theorem overtaken_task_leaves_old_vector :
    Answers (telling (openChunk "opened").text) stored (tellingVector (openChunk "opened").text) ∧
    ∃ ws stats q, Together tablesWorld (telling (openChunk "opened").text) ⟨.folder [], [], []⟩ 2
        (.listed [openChunk "opened", openChunk "opens"] none) none ⟨.empty, true, []⟩ ws
        (.ok stats) q ∧
      q.outside.chunks = [(1, chunkRow (openChunk "opens"))] ∧
      ¬ q.outside.Fits (vectorLiteral ∘ tellingVector (openChunk "opened").text)
        (openChunk "opens").identity := by
  obtain ⟨ws, stats, q, h, hq⟩ := exists_overtaken none
  have hrow : (stored q.outside).rowsOf (openChunk "opens").identity =
      [(1, chunkRow (openChunk "opens"))] := by rw [hq]; decide
  have hvector : (stored q.outside).vectorsOf 1 = [(1, "[1.0,0.0,1.0]")] := by rw [hq]; rfl
  exact ⟨telling_answers _, ws, stats, q, h, congrArg Tables.chunks hq, fun hfits =>
    overtaken_vector_ne ((Tables.fits_iff hrow hvector).1 hfits)⟩

end DocSearch.Index
