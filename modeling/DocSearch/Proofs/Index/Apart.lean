import DocSearch.Proofs.Doc.Identity
import DocSearch.Proofs.Index.Runs

/-!
# The chunks of one file stay apart

A row is found by its identity, so a chunk takes the row of another one of its identity. Among the
chunks of a file that happens exactly where two methods of one name have receivers that are left out
of their symbols (`file_chunks_apart_iff`). Elsewhere each chunk of the file comes to have a row of
its own, whichever run stores it.
-/

namespace DocSearch.Index

open DocSearch.Action Doc Files Go Store Text

/-- Behind every run over the chunks that succeeds, whether tasks take turns or overtake each other,
each chunk has a row with its own text, and the row has the vector of this text. -/
def StayApart (cs : List Chunk) : Prop :=
  ∀ {σ : Type} {o : Outside σ} {tables : σ → Tables} {embed : Embedder σ}
    {vector : String → List Float} {disk : Disk} {workers : Nat} {pruneRoot : Option String}
    {p q : Program σ} {stats : Stats},
    Backed o tables → Embeds embed tables vector → (tables p.outside).Sound →
    ((run o embed disk workers (.listed cs none) pruneRoot).perform p = (.ok stats, q) ∨
      ∃ ws, Together o embed disk workers (.listed cs none) pruneRoot p ws (.ok stats) q) →
    ∀ c ∈ cs, ∃ id, (tables q.outside).rowsOf c.identity = [(id, chunkRow c)] ∧
      (tables q.outside).vectorsOf id = [(id, vectorLiteral (vector c.text))]

theorem stayApart_of_nodup {cs : List Chunk} (hcs : (cs.map Chunk.identity).Nodup) :
    StayApart cs := by
  intro σ o tables embed vector disk workers pruneRoot p q stats ho he hs hrun c hc
  obtain ⟨bs, hgives, rfl, hbound⟩ := Source.gives_listed disk cs none
  obtain ⟨ws, hfinished⟩ : ∃ ws, Finished (vectorLiteral ∘ vector) (tables p.outside) bs.flatten
      pruneRoot ws stats (tables q.outside) := by
    rcases hrun with halone | ⟨ws, htogether⟩
    · have hends := hgives.ends hbound
      obtain ⟨-, ws, -, hfinished⟩ := (runs_of_run hends halone).finished ho he hgives hs hbound
      exact ⟨ws, hfinished⟩
    · exact ⟨ws, (htogether.ok ho he hgives hs).2⟩
  obtain ⟨r, hr, v, hv, id, hri, hvi, -, -, hrow, hvector⟩ := hfinished.last_writes hs hc
  obtain rfl := List.inj_on_of_nodup_map hcs hr hc hri
  obtain rfl := List.inj_on_of_nodup_map hcs hv hc hvi
  exact ⟨id, hrow, hvector⟩

/-- **When the chunks of a file stay apart.** In a file whose types and functions have different
names, and so have the methods of each base type, no two chunks have one identity exactly if no two
methods of one name have receivers that are left out. Then no chunk takes the row of another. -/
theorem file_chunks_apart_iff {source : Bytes} {filename package : String} {chunks : List Chunk}
    {file : SourceFile} (hfile : SourceFile.ofText? (Utf8.decodeLossy source) = some file)
    (hparse : parseSource source filename = .ok (package, chunks))
    (hnames : (topNames file).Nodup) (hmethods : (topMethods file).Nodup) :
    ((chunks.map Chunk.identity).Nodup ↔ (bareMethods file).Nodup) ∧
      ((bareMethods file).Nodup → StayApart chunks) := by
  have hiff := nodup_identity_iff hfile hparse hnames hmethods
  exact ⟨hiff, fun hbare => stayApart_of_nodup (hiff.2 hbare)⟩

/-! ## Two files -/

/-- Two methods and a function of one name. -/
def pushSource : Bytes :=
  Utf8.encode ("package p\n\n// Push pushes.\nfunc (s *Stack) Push() {}\n\n" ++
    "// Push pushes.\nfunc (q Queue) Push() {}\n\n// Push pushes.\nfunc Push() {}\n")

/-- The type of each method tells its chunk from the others. -/
theorem file_chunks_apart_iff_push :
    ∃ file package chunks stats q,
      SourceFile.ofText? (Utf8.decodeLossy pushSource) = some file ∧
      parseSource pushSource "p.go" = .ok (package, chunks) ∧
      chunks.map Chunk.symbol = ["*Stack.Push", "Queue.Push", "Push"] ∧
      (chunks.map Chunk.identity).Nodup ∧
      (run tablesWorld (fun _ _ => pure [1]) ⟨.folder [], [], []⟩ 1 (.listed chunks none)
        none).perform ⟨.empty, true, []⟩ = (.ok stats, q) ∧
      ∀ c ∈ chunks, ∃ id, q.outside.rowsOf c.identity = [(id, chunkRow c)] := by
  obtain ⟨file, package, chunks, hfile, hparse, hall⟩ := exists_file pushSource "p.go"
    (fun file chunks => (topNames file).Nodup ∧ (topMethods file).Nodup ∧
      (bareMethods file).Nodup ∧ chunks.map Chunk.symbol = ["*Stack.Push", "Queue.Push", "Push"])
    (by decide +kernel)
  obtain ⟨hnames, hmethods, hbare, hsymbols⟩ := of_decide_eq_true hall
  obtain ⟨hiff, hapart⟩ := file_chunks_apart_iff hfile hparse hnames hmethods
  have he := answers_pure stored [1]
  obtain ⟨stats, t, -, q, hq, -⟩ := run_ok ⟨.folder [], [], []⟩ reliable_tablesWorld he
    Tables.sound_empty (p := ⟨.empty, true, []⟩) rfl (Nat.le_refl 1) chunks none
  refine ⟨file, package, chunks, stats, q, hfile, hparse, hsymbols, hiff.2 hbare, hq,
    fun c hc => ?_⟩
  obtain ⟨id, hrow, -⟩ := hapart hbare (p := ⟨.empty, true, []⟩) reliable_tablesWorld.toBacked
    he.embeds Tables.sound_empty (.inl hq) c hc
  exact ⟨id, hrow⟩

/-- Two methods of one name behind generic receivers. -/
def genericSource : Bytes :=
  Utf8.encode ("package p\n\n// Push pushes.\nfunc (s *Stack[T]) Push() {}\n\n" ++
    "// Push queues.\nfunc (q *Queue[T]) Push() {}\n")

/-- Their types are two, and all the same their chunks have one identity. -/
theorem generic_receivers_collide :
    ∃ file package chunks, SourceFile.ofText? (Utf8.decodeLossy genericSource) = some file ∧
      parseSource genericSource "p.go" = .ok (package, chunks) ∧ (topNames file).Nodup ∧
      (topMethods file).Nodup ∧ topMethods file = [("Stack", "Push"), ("Queue", "Push")] ∧
      chunks.map Chunk.symbol = [".Push", ".Push"] ∧ ¬ (chunks.map Chunk.identity).Nodup := by
  obtain ⟨file, package, chunks, hfile, hparse, hall⟩ := exists_file genericSource "p.go"
    (fun file chunks => (topNames file).Nodup ∧
      topMethods file = [("Stack", "Push"), ("Queue", "Push")] ∧
      chunks.map Chunk.symbol = [".Push", ".Push"] ∧ ¬ (chunks.map Chunk.identity).Nodup)
    (by decide +kernel)
  obtain ⟨hnames, hmethods, hsymbols, hsame⟩ := of_decide_eq_true hall
  refine ⟨file, package, chunks, hfile, hparse, hnames, ?_, hmethods, hsymbols, hsame⟩
  rw [hmethods]
  decide

end DocSearch.Index
