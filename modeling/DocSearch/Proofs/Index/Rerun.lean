import DocSearch.Proofs.Index.Progress

/-!
# What a sequential run stores

**The last chunk of an identity counts.** A run that nothing disturbs leaves one row for every
identity among its chunks, with the text of the last chunk of that identity and the vector of this
text. Ids stay, other identities keep their row and their vector, and the same run once more changes
nothing.
-/

namespace DocSearch.Index

open DocSearch.Action Files Store

/-- **A sequential run stores the last chunk of each identity**, and a second one changes
nothing. -/
theorem run_stores_last_chunks {σ : Type} {o : Outside σ} {tables : σ → Tables}
    {embed : Embedder σ} {vector : String → List Float} (ho : Reliable o tables)
    (he : Answers embed tables vector) (disk : Disk) {workers : Nat} (hw : workers ≤ 1)
    (cs : List Chunk) (p : Program σ) (hopen : p.isOpen = true) (hs : (tables p.outside).Sound) :
    ∃ stats q, (run o embed disk workers (.listed cs none) none).perform p = (.ok stats, q) ∧
      stats.chunks = cs.length ∧ stats.embedded = cs.length ∧
      (tables q.outside).Sound ∧
      (∀ i c, lastOf cs i = some c → ∃ id,
        (tables q.outside).rowsOf i = [(id, chunkRow c)] ∧
        (tables q.outside).vectorsOf id = [(id, vectorLiteral (vector c.text))] ∧
        ∀ row ∈ (tables p.outside).rowsOf i, row.1 = id) ∧
      (∀ i, (∀ c ∈ cs, c.identity ≠ i) →
        (tables q.outside).rowsOf i = (tables p.outside).rowsOf i ∧
        ∀ row ∈ (tables p.outside).rowsOf i,
          (tables q.outside).vectorsOf row.1 = (tables p.outside).vectorsOf row.1) ∧
      ∃ stats' q', (run o embed disk workers (.listed cs none) none).perform q = (.ok stats', q') ∧
        tables q'.outside = tables q.outside := by
  set literal := vectorLiteral ∘ vector with hliteral
  have htwice {p : Program σ} (hopen : p.isOpen = true) (hs : (tables p.outside).Sound) :
      ∃ elapsed q, (run o embed disk workers (.listed cs none) none).perform p =
          (.ok ⟨cs.length, cs.length, 0, elapsed⟩, q) ∧ q.isOpen = p.isOpen ∧
        (tables p.outside).Written literal (Write.inOrder cs) (tables q.outside) := by
    obtain ⟨_, _, ⟨elapsed, -, hu, -⟩, q, hq, hqopen, ht⟩ := run_ok disk ho he hs hopen hw cs none
    exact ⟨elapsed, q, hq, hqopen, ht ▸ hu⟩
  obtain ⟨elapsed, q, hq, hqopen, hu⟩ := htwice hopen hs
  have hsq : (tables q.outside).Sound := hu.sound hs
  refine ⟨_, q, hq, rfl, rfl, hsq, fun i c hc => ?_, fun i hi => ?_, ?_⟩
  · have hheld := hu.holding?_last hs hc
    obtain ⟨honly, hvector⟩ := Tables.rowsOf_of_holding? hsq hheld
    obtain ⟨-, rfl⟩ := lastOf_mem hc
    refine ⟨_, honly, hvector, fun row hrow => ?_⟩
    obtain ⟨hmem, hi⟩ := List.mem_filter.1 hrow
    rw [← of_decide_eq_true hi, hu.idFor_of_mem hs hmem]
  · exact Tables.rowsOf_congr hs hsq (hu.holding?_other hs (lastOf_eq_none_iff.2 hi))
  · obtain ⟨elapsed', q', hq', -, hv⟩ := htwice (hqopen.trans hopen) hsq
    exact ⟨_, q', hq', hu.again hs hv⟩

/-- Documentation that is given twice: the row keeps its id and has the later text. The sequence has
used up a number each time, so the next function gets the id 10. -/
theorem run_stores_last_chunks_open :
    ∃ stats q, (run sequenceWorld (fun _ _ => pure [1]) ⟨.folder [], [], []⟩ 1
        (.listed [openChunk "opens", openChunk "opens it", closeChunk] none) none).perform
        ⟨openTables "opened" "[0.0]", true, []⟩ = (.ok stats, q) ∧
      stats.chunks = 3 ∧
      q.outside.rowsOf (openChunk "").identity = [(7, chunkRow (openChunk "opens it"))] ∧
      q.outside.rowsOf closeChunk.identity = [(10, chunkRow closeChunk)] := by
  have he : Answers (fun _ _ => pure [1] : Embedder SerialTables) stored fun _ => [1] :=
    fun _ _ _ => leads_pure rfl _
  have hclose : ((run sequenceWorld (fun _ _ => pure [1]) ⟨.folder [], [], []⟩ 1
      (.listed [openChunk "opens", openChunk "opens it", closeChunk] none) none).perform
      ⟨openTables "opened" "[0.0]", true, []⟩).2.outside.rowsOf closeChunk.identity =
      [(10, chunkRow closeChunk)] := by decide +kernel
  obtain ⟨stats, q, hq, hchunks, -, -, hlast, -, -⟩ :=
    run_stores_last_chunks reliable_sequenceWorld he ⟨.folder [], [], []⟩ (Nat.le_refl 1)
      [openChunk "opens", openChunk "opens it", closeChunk]
      ⟨openTables "opened" "[0.0]", true, []⟩ rfl (sound_openTables _ _)
  obtain ⟨id, hrow, -, hid⟩ := hlast (openChunk "").identity (openChunk "opens it") rfl
  obtain rfl : 7 = id := hid (7, chunkRow (openChunk "opened")) (by decide)
  rw [hq] at hclose
  exact ⟨stats, q, hq, hchunks, hrow, hclose⟩

end DocSearch.Index
