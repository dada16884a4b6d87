import DocSearch.Proofs.Index.Progress

/-!
# When rows and vectors drift apart

Rows and vectors are in step when every vector is that of the text of its row. The row of a chunk is
stored before its text is embedded, so a run that stops in between leaves the new text with whatever
vector stood there before.

**Nothing else sets them apart.** However a sequential run ends, rows and vectors are in step again
exactly if the run is not `Torn`.
-/

namespace DocSearch.Store.Tables

variable {literal : String → String}

/-- Every vector is that of the text of its row. -/
def InStep (literal : String → String) (t : Tables) : Prop :=
  ∀ c ∈ t.chunks, ∀ l, (c.1, l) ∈ t.vectors → l = literal c.2.data

/-- The identity `i` has a vector that is not `l`. -/
def Contradicts (t : Tables) (i : Identity) (l : String) : Prop :=
  ∃ h l', t.holding? i = some h ∧ h.vector = some l' ∧ l' ≠ l

theorem inStep_iff {t : Tables} (hs : t.Sound) :
    t.InStep literal ↔
      ∀ i h l, t.holding? i = some h → h.vector = some l → l = literal h.data := by
  constructor
  · intro hin i h l hh hl
    obtain ⟨r, hr, hd, hv⟩ := holding?_eq_some_iff.1 hh
    obtain ⟨hmem, -⟩ := (row?_eq_some_iff hs).1 hr
    rw [← hd]
    exact hin _ hmem l ((vector?_eq_some_iff hs).1 (hv.trans hl))
  · intro hin c hc l hl
    exact hin _ _ l (holding?_of_mem hs hc) ((vector?_eq_some_iff hs).2 hl)

theorem Written.inStep {t u : Tables} {cs : List Chunk} (hs : t.Sound)
    (h : t.Written literal (Write.inOrder cs) u) (hin : t.InStep literal) : u.InStep literal := by
  rw [inStep_iff (h.sound hs)]
  intro i d l hd hl
  cases hlast : lastOf cs i with
  | none => exact (inStep_iff hs).1 hin i d l ((h.holding?_other hs hlast).symm.trans hd) hl
  | some c =>
    obtain rfl := Option.some.inj ((h.holding?_last hs hlast).symm.trans hd)
    exact (Option.some.inj hl).symm

theorem inStep_prune {t : Tables} (hs : t.Sound) (hin : t.InStep literal) (root pattern : String)
    (keep : List Int) : (t.prune root pattern keep).2.InStep literal := by
  intro c hc l hl
  obtain ⟨hmem, -⟩ := (mem_chunks_prune root pattern keep).1 hc
  exact hin c hmem l ((mem_vectors_prune root pattern keep hs hmem l).1 hl).1

/-- Storing a row without its vector sets them apart exactly if another vector stands there. -/
theorem Stores.inStep_iff {t u : Tables} {c : Chunk} {id : Int} (hs : t.Sound)
    (h : t.Stores (chunkRow c) id u) (hin : t.InStep literal) :
    u.InStep literal ↔ ¬ t.Contradicts c.identity (literal c.text) := by
  have hview (i : Identity) : u.holding? i =
      if c.identity = i then some ⟨id, c.text, t.literal? i⟩ else t.holding? i :=
    h.holding?_eq hs i
  rw [Tables.inStep_iff (h.sound hs)]
  constructor
  · rintro hstep ⟨d, l, hd, hl, hne⟩
    have hold : t.literal? c.identity = some l := by rw [literal?, hd]; exact hl
    exact hne (hstep c.identity _ l ((hview _).trans (if_pos rfl)) hold)
  · intro hkept i d l hd hl
    rw [hview] at hd
    split_ifs at hd with hi
    · obtain rfl := Option.some.inj hd
      subst hi
      by_contra hne
      obtain ⟨d, hd, hdl⟩ := Option.bind_eq_some_iff.1 hl
      exact hkept ⟨d, l, hd, hdl, hne⟩
    · exact (Tables.inStep_iff hs).1 hin i d l hd hl

end DocSearch.Store.Tables

namespace DocSearch.Index

open DocSearch.Action Files Store

/-- A run that stopped behind the row of a chunk and before its vector, where the identity of the
chunk had the vector of another text. -/
def Torn (literal : String → String) (t : Tables) (cs : List Chunk) (r : Except RunError Stats)
    (t' : Tables) : Prop :=
  ∃ e done c rest u id, r = .error e ∧ cs = done ++ c :: rest ∧
    t.Written literal (Write.inOrder done) u ∧ u.Stores (chunkRow c) id t' ∧
    u.Contradicts c.identity (literal c.text)

/-- **Rows and vectors are in step behind a run exactly if it is not torn.** -/
theorem run_keeps_in_step_iff {σ : Type} {o : Outside σ} {tables : σ → Tables} {embed : Embedder σ}
    {vector : String → List Float} (ho : Backed o tables) (he : Embeds embed tables vector)
    (disk : Disk) {workers : Nat} (hw : workers ≤ 1) (cs : List Chunk) (failure : Option RunError)
    (pruneRoot : Option String) (p : Program σ) (hs : (tables p.outside).Sound)
    (hin : (tables p.outside).InStep (vectorLiteral ∘ vector)) :
    ∃ r q, (run o embed disk workers (.listed cs failure) pruneRoot).perform p = (r, q) ∧
      ((tables q.outside).InStep (vectorLiteral ∘ vector) ↔
        ¬ Torn (vectorLiteral ∘ vector) (tables p.outside) cs r (tables q.outside)) := by
  obtain ⟨r, t, ⟨q, hq, -, rfl⟩, hleft⟩ := run_left disk ho he hs hw cs failure pruneRoot
  refine ⟨r, q, hq, ?_⟩
  -- A torn run is not in step whichever way it has come to its tables.
  have htorn : Torn (vectorLiteral ∘ vector) (tables p.outside) cs r (tables q.outside) →
      ¬ (tables q.outside).InStep (vectorLiteral ∘ vector) := by
    rintro ⟨e, done, c, rest, u, id, -, -, hu, hstore, hother⟩ hstep
    exact (hstore.inStep_iff (hu.sound hs) (hu.inStep hs hin)).1 hstep hother
  refine ⟨fun hstep h => htorn h hstep, fun hnot => ?_⟩
  generalize tables q.outside = t at hleft hnot
  cases hleft with
  | finished hfinished =>
    obtain ⟨elapsed, -, hu, -⟩ := hfinished
    cases pruneRoot with
    | none => exact hu.inStep hs hin
    | some root => exact Tables.inStep_prune (hu.sound hs) (hu.inStep hs hin) root _ _
  | unswept e hu => exact hu.inStep hs hin
  | before e hcs hu => exact hu.inStep hs hin
  | @midway e done rest c id u v hcs hu hstore =>
    rw [hstore.inStep_iff (hu.sound hs) (hu.inStep hs hin)]
    exact fun hother => hnot ⟨e, done, c, rest, u, id, rfl, hcs, hu, hstore, hother⟩

/-- An embedder that the daemon refuses to serve. -/
def refusing : Embedder SerialTables :=
  fun _ _ => throw (.daemon (.refused "/api/embed" 500 "Internal Server Error"))

theorem refusing_embeds (vector : String → List Float) : Embeds refusing stored vector :=
  fun _ _ _ => .inr ⟨_, leads_throw rfl _⟩

/-- Nothing can be torn where no vector has been stored. -/
theorem run_keeps_in_step_empty :
    ∃ r q, (run tablesWorld refusing ⟨.folder [], [], []⟩ 1
        (.listed [openChunk "opens"] none) none).perform ⟨.empty, true, []⟩ = (r, q) ∧
      q.outside.InStep (vectorLiteral ∘ fun _ => [1]) := by
  obtain ⟨r, q, hq, hiff⟩ :=
    run_keeps_in_step_iff reliable_tablesWorld.toBacked (refusing_embeds fun _ => [1])
      ⟨.folder [], [], []⟩ (Nat.le_refl 1) [openChunk "opens"] none none ⟨.empty, true, []⟩
      Tables.sound_empty
      (by simp [Tables.InStep, SerialTables.empty, Tables.empty])
  refine ⟨r, q, hq, hiff.2 ?_⟩
  rintro ⟨e, done, c, rest, u, id, -, hcs, hu, -, h, l, hh, -⟩
  obtain ⟨rfl, -⟩ : done = [] ∧ c = openChunk "opens" := by
    cases done <;> simp_all
  obtain rfl := hu.eq_of_nil
  cases hh

/-- A text whose documentation has changed is stored, the daemon refuses to embed it, and the vector
of the old text stays. -/
theorem run_leaves_old_vector :
    let vector := fun text => if text = (openChunk "opened").text then [1, 0, 1] else [0, 1, 1]
    (openTables "opened" "[1.0,0.0,1.0]").InStep (vectorLiteral ∘ vector) ∧
      ∃ e q, (run tablesWorld refusing ⟨.folder [], [], []⟩ 1
          (.listed [openChunk "opens"] none) none).perform
          ⟨openTables "opened" "[1.0,0.0,1.0]", true, []⟩ = (.error e, q) ∧
        ¬ q.outside.InStep (vectorLiteral ∘ vector) := by
  intro vector
  have hold : vectorLiteral (vector (openChunk "opened").text) = "[1.0,0.0,1.0]" := by
    decide +kernel
  have hnew : "[1.0,0.0,1.0]" ≠ vectorLiteral (vector (openChunk "opens").text) := by
    decide +kernel
  refine ⟨?_, _, _, rfl, fun h => ?_⟩
  · simp only [Tables.InStep, openTables, List.mem_singleton, forall_eq, Prod.mk.injEq, true_and]
    exact hold.symm
  · exact hnew (h (7, chunkRow (openChunk "opens")) (by decide) "[1.0,0.0,1.0]" (by decide))

end DocSearch.Index
