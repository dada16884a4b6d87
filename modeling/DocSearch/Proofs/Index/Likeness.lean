import DocSearch.Proofs.Index.Runs

/-!
# Several workers do what one does

Where no identity occurs twice, each row and each vector is stored once, and it does not matter in
which order. Whatever the interleaving of the tasks and whatever the order in which their results
are collected, a run that succeeds leaves the tables of the sequential run, up to the numbering of
new ids, and it tells the same numbers (`together_matches_alone`).

Whether identities occur twice or not, no task comes to store a vector before there is a row for it
(`Shift.Grounded`).
-/

namespace DocSearch.Index

open DocSearch.Action Files Store

variable {σ : Type} {o : Outside σ} {embed : Embedder σ} {disk : Disk} {tables : σ → Tables}
  {vector : String → List Float}

/-! ## Rows of pending vectors -/

/-- There is a row for each vector that is about to be stored. -/
def Shift.Grounded (tables : σ → Tables) (s : Shift σ) : Prop :=
  ∀ k ∈ s.crew.tasks, ∀ id v, k.stage = .embedded id v →
    ∃ c ∈ (tables s.crew.program.outside).chunks, c.1 = id ∧ c.2.identity = k.chunk.identity

theorem Crew.Sane.grounded {s : Shift σ} {t₀ : Tables} (hs : t₀.Sound) {taken : List Chunk}
    {ws : List Write} (h : s.crew.Sane tables vector t₀ taken ws) : s.Grounded tables := by
  intro k hk id v hstage
  have htold := h.told k hk
  rw [Task.Told, hstage] at htold
  obtain ⟨hrow, rfl, -⟩ := htold
  obtain ⟨d, hd⟩ := h.behind.exists_holding? hs hrow
  obtain ⟨r, hr, -⟩ := Tables.holding?_eq_some_iff.1 hd
  obtain ⟨hmem, hi⟩ := (Tables.row?_eq_some_iff (h.behind.sound hs)).1 hr
  exact ⟨_, hmem, (Tables.idFor_of_holding? hd).symm, hi⟩

/-! ## Whole runs -/

/-- Runs over the same chunks tell the same numbers and leave the same, up to new ids. -/
theorem Finished.alike {literal : String → String} {t u v : Tables} (hs : t.Sound)
    {cs : List Chunk} (hcs : (cs.map Chunk.identity).Nodup) {pruneRoot : Option String}
    {ws us : List Write} {stats stats' : Stats} (h : Finished literal t cs pruneRoot ws stats u)
    (h' : Finished literal t cs pruneRoot us stats' v) :
    stats.pruned = stats'.pruned ∧ Tables.Alike t.Known u v := by
  obtain ⟨_, hws, hu, hids⟩ := h
  obtain ⟨_, hus, hv, hids'⟩ := h'
  rename_i u ids _ v ids' _
  have hagree : u.Agree v := Tables.agree_whole hs hu hv hcs hws hus
  have hknown : ∀ c ∈ u.chunks, t.Known c.1 → v.idFor c.2.identity = c.1 :=
    fun c hc => hu.idFor_known hs hv hc
  have hdim : u.dimension = v.dimension := hu.dimension.trans hv.dimension.symm
  cases pruneRoot with
  | none => exact ⟨rfl, hagree.alike (hu.sound hs) (hv.sound hs) hknown hdim⟩
  | some root =>
    obtain ⟨hcount, halike⟩ := Tables.alike_prune (fun i => ∃ c ∈ cs, c.identity = i) hagree
      (hu.sound hs) (hv.sound hs) (mem_told_iff hs hws hu hids) (mem_told_iff hs hus hv hids') root
      hknown hdim
    exact ⟨congrArg Int.ofNat hcount, halike⟩

/-- **Several workers leave what one leaves**, if no identity occurs twice: runs that succeed, under
any interleaving, end with the tables of the sequential run up to the numbering of new ids, and with
its numbers. The sequential run succeeds if nothing disturbs it. No task ever stores a vector for a
row that is missing. -/
theorem together_matches_alone (ho : Backed o tables) (he : Embeds embed tables vector)
    (disk : Disk) (workers : Nat) (cs : List Chunk) (hcs : (cs.map Chunk.identity).Nodup)
    (pruneRoot : Option String) (p : Program σ) (hs : (tables p.outside).Sound) :
    (∀ ws stats q alone q',
      Together o embed disk workers (.listed cs none) pruneRoot p ws (.ok stats) q →
      (run o embed disk 1 (.listed cs none) pruneRoot).perform p = (.ok alone, q') →
      stats.chunks = alone.chunks ∧ stats.embedded = alone.embedded ∧
        stats.pruned = alone.pruned ∧
        Tables.Alike (tables p.outside).Known (tables q.outside) (tables q'.outside)) ∧
    (Reliable o tables → Answers embed tables vector → p.isOpen = true →
      ∃ alone q', (run o embed disk 1 (.listed cs none) pruneRoot).perform p = (.ok alone, q')) ∧
    ∀ ws s, Shift.Course o embed disk ⟨.listed cs none, [], .start workers (clocked o p)⟩ ws s →
      s.Grounded tables := by
  obtain ⟨bs, hgives, rfl, hbound⟩ := Source.gives_listed disk cs none
  refine ⟨fun ws stats q alone q' htogether halone => ?_, fun hreliable hanswers hopen => ?_,
    fun ws s hcourse => ?_⟩
  · obtain ⟨-, hfinished⟩ := htogether.ok ho he hgives hs
    obtain ⟨-, hfinished'⟩ := of_run hgives hbound hs ho he (Nat.le_refl 1) halone
    obtain ⟨hchunks, hembedded⟩ := hfinished.counts
    obtain ⟨hchunks', hembedded'⟩ := hfinished'.counts
    exact ⟨hchunks.trans hchunks'.symm, hembedded.trans hembedded'.symm,
      hfinished.alike hs hcs hfinished'⟩
  · obtain ⟨alone, t, -, q', hq', -⟩ :=
      run_ok disk hreliable hanswers hs hopen (Nat.le_refl 1) bs.flatten pruneRoot
    exact ⟨alone, q', hq'⟩
  · have hclocked : (tables (clocked o p).outside).Sound := by
      rw [show tables (clocked o p).outside = tables p.outside from ho.clock _]
      exact hs
    obtain ⟨taken, hsane⟩ := hcourse.sane ho he hgives hclocked
    exact hsane.grounded hclocked

/-! ## Backwards -/

/-- Two workers behind two chunks, of which the second one makes its steps first. -/
def backwards : Shift SerialTables :=
  Shift.go tablesWorld (fun _ _ => pure [1]) ⟨.folder [], [], []⟩
    (fun s => [.submit, .pull] ++ (s.tasksAt fun _ => true).reverse.map .work ++
      [.collect (s.tasksAt fun _ => true)]) 16
    ⟨.listed [openChunk "opens", closeChunk] none, [],
      .start 2 (clocked tablesWorld ⟨.empty, true, []⟩)⟩

theorem backwards_over : backwards.crew.phase = .over none := over_of_matches (by decide +kernel)

/-- The ids have been given out the other way round, and nothing else differs. -/
theorem together_matches_alone_backwards :
    ∃ ws stats q alone q',
      Together tablesWorld (fun _ _ => pure [1]) ⟨.folder [], [], []⟩ 2
        (.listed [openChunk "opens", closeChunk] none) none ⟨.empty, true, []⟩ ws (.ok stats) q ∧
      (run tablesWorld (fun _ _ => pure [1]) ⟨.folder [], [], []⟩ 1
        (.listed [openChunk "opens", closeChunk] none) none).perform ⟨.empty, true, []⟩ =
        (.ok alone, q') ∧
      q.outside.chunks = [(1, chunkRow closeChunk), (2, chunkRow (openChunk "opens"))] ∧
      q'.outside.chunks = [(1, chunkRow (openChunk "opens")), (2, chunkRow closeChunk)] ∧
      stats.chunks = alone.chunks ∧
      Tables.Alike (stored .empty).Known (stored q.outside) (stored q'.outside) := by
  have he := answers_pure stored [1]
  have hchunks : backwards.crew.program.outside.chunks =
      [(1, chunkRow closeChunk), (2, chunkRow (openChunk "opens"))] := by decide +kernel
  have halone : ((run tablesWorld (fun _ _ => pure [1]) ⟨.folder [], [], []⟩ 1
      (.listed [openChunk "opens", closeChunk] none) none).perform
        ⟨.empty, true, []⟩).2.outside.chunks =
      [(1, chunkRow (openChunk "opens")), (2, chunkRow closeChunk)] := by decide +kernel
  obtain ⟨ws, stats, q, htogether, hq⟩ := exists_together reliable_tablesWorld
    backwards.eq_1.symm backwards_over (by decide +kernel) none
  obtain ⟨alone, t, -, q', hq', -, ht⟩ := run_ok ⟨.folder [], [], []⟩ reliable_tablesWorld he
    Tables.sound_empty (p := ⟨.empty, true, []⟩) rfl (Nat.le_refl 1)
    [openChunk "opens", closeChunk] none
  obtain ⟨hsame, -⟩ := together_matches_alone reliable_tablesWorld.toBacked he.embeds
    ⟨.folder [], [], []⟩ 2 [openChunk "opens", closeChunk] (by decide +kernel) none
    ⟨.empty, true, []⟩ Tables.sound_empty
  obtain ⟨hcount, -, -, halike⟩ := hsame ws stats q alone q' htogether hq'
  rw [hq'] at halone
  exact ⟨ws, stats, q, alone, q', htogether, hq', (congrArg Tables.chunks hq).trans hchunks, halone,
    hcount, halike⟩

end DocSearch.Index
