import DocSearch.Proofs.Index.Filling

/-!
# A run requests one chunk after the other

A source hands out its chunks in batches, but whoever iterates over it requests them one at a time,
the next one when the one before is indexed. Here the loop of a run with one worker is told like
this: `serve` says in any case, also when it fails, which chunks have been requested and what is
left of the source. It is the loop of the run (`perform_indexBatches`), so a run is this loop, then
the closing of the source and, unless the loop has failed, the deletion (`run_of_failed`,
`run_of_served`).

**`Led`** is the way without failure that the loop has come: chunks that were indexed, and batches
that were taken between them. Where the loop fails, it has been led along the chunks before, and
the next step from there raises the error (`exists_raised`).
-/

namespace DocSearch.Index

open DocSearch.Action Files Store

variable {σ : Type}

/-- What nobody has requested from a source: the chunks of the batch at hand, and the source behind
them. -/
structure Supply where
  held : List Chunk
  source : Source

/-- How the loop of a run has ended, the chunks that it has requested, what is left, and the
program behind it. -/
structure Served (σ : Type) where
  result : Except RunError (List Int)
  requested : List Chunk
  left : Supply
  program : Program σ

/-- Goes on where nothing has failed. -/
def Served.andThen (s : Served σ) (f : List Chunk → List Int → Program σ → Served σ) : Served σ :=
  match s.result with
  | .ok ids => f s.requested ids s.program
  | .error _ => s

section

variable (o : Outside σ) (embed : Embedder σ) (disk : Disk)

/-- Requests and indexes the chunks of the batch at hand. -/
def handOut (source : Source) :
    (held requested : List Chunk) → (ids : List Int) → Program σ → Served σ
  | [], requested, ids, p => ⟨.ok ids, requested, ⟨[], source⟩, p⟩
  | c :: held, requested, ids, p =>
    match (indexChunk o embed c).perform p with
    | (.ok id, q) => handOut source held (requested ++ [c]) (ids ++ [id]) q
    | (.error e, q) => ⟨.error e, requested ++ [c], ⟨held, source⟩, q⟩

/-- Requests and indexes the chunks of a source, `fuel` batches of them at most. -/
def serve : (fuel : Nat) → Source → (requested : List Chunk) → (ids : List Int) → Program σ →
    Served σ
  | 0, source, requested, ids, p => ⟨.ok ids, requested, ⟨[], source⟩, p⟩
  | fuel + 1, source, requested, ids, p =>
    match (pull o disk source).perform p with
    | (.ok (source, .chunks cs), q) =>
      (handOut o embed source cs requested ids q).andThen (serve fuel source)
    | (.ok (source, .finished), q) => ⟨.ok ids, requested, ⟨[], source⟩, q⟩
    | (.ok (source, .failed e), q) => ⟨.error e, requested, ⟨[], source⟩, q⟩
    | (.error e, q) => ⟨.error e, requested, ⟨[], source⟩, q⟩

/-- The loop of a whole run. -/
def served (source : Source) (p : Program σ) : Served σ :=
  serve o embed disk (source.bound disk) source [] [] (clocked o p)

/-- The way of a program from `start` along chunks that were indexed and batches that were taken. -/
inductive Led (start : Program σ) : List Chunk → Program σ → Prop
  | start : Led start [] start
  | indexed {cs : List Chunk} {c : Chunk} {id : Int} {p q : Program σ} (h : Led start cs p)
      (hc : (indexChunk o embed c).perform p = (.ok id, q)) : Led start (cs ++ [c]) q
  | pulled {cs : List Chunk} {source source' : Source} {batch : Batch} {p q : Program σ}
      (h : Led start cs p)
      (hpull : (pull o disk source).perform p = (.ok (source', batch), q)) : Led start cs q

/-- The steps of a run that may fail: the source raises, or the row of the next chunk is not
stored, or its text is not embedded, or its vector is not stored. The error and the program behind
it are those of the step. -/
inductive Raised : Program σ → Option Chunk → RunError → Program σ → Prop
  | source {source source' : Source} {p q : Program σ} {e : RunError}
      (h : (pull o disk source).perform p = (.ok (source', .failed e), q)) : Raised p none e q
  | row {c : Chunk} {p q : Program σ} {e : RunError}
      (h : (upsertChunk o c).perform p = (.error e, q)) : Raised p (some c) e q
  | text {c : Chunk} {id : Int} {p p' q : Program σ} {e : RunError}
      (hrow : (upsertChunk o c).perform p = (.ok id, p'))
      (h : (embed none c.text).perform p' = (.error e, q)) : Raised p (some c) e q
  | vector {c : Chunk} {id : Int} {v : List Float} {p p' p'' q : Program σ} {e : RunError}
      (hrow : (upsertChunk o c).perform p = (.ok id, p'))
      (htext : (embed none c.text).perform p' = (.ok v, p''))
      (h : (settle o c id v).perform p'' = (.error e, q)) : Raised p (some c) e q

end

/-- The program when a run has closed its source. -/
def closed (p : Program σ) : Program σ := { p with trace := p.trace ++ [.sourceClosed] }

variable {o : Outside σ} {embed : Embedder σ} {disk : Disk}

/-! ## The loop of the run -/

theorem perform_indexAll (o : Outside σ) (embed : Embedder σ) (source : Source)
    (held requested : List Chunk) (ids : List Int) (p : Program σ) :
    (indexAll o embed held ids).perform p =
      ((handOut o embed source held requested ids p).result,
        (handOut o embed source held requested ids p).program) := by
  induction held generalizing requested ids p with
  | nil => rfl
  | cons c held ih =>
    rw [indexAll, handOut, perform_bind]
    rcases (indexChunk o embed c).perform p with ⟨e | id, q⟩
    · rfl
    · exact ih _ _ _

/-- **The loop of a run requests one chunk after the other.** -/
theorem perform_indexBatches (fuel : Nat) (source : Source) (requested : List Chunk)
    (ids : List Int) (p : Program σ) :
    (indexBatches o embed disk fuel source ids).perform p =
      ((serve o embed disk fuel source requested ids p).result,
        (serve o embed disk fuel source requested ids p).program) := by
  induction fuel generalizing source requested ids p with
  | zero => rfl
  | succ fuel ih =>
    rw [indexBatches, serve, perform_bind]
    rcases (pull o disk source).perform p with ⟨e | ⟨source', batch⟩, q⟩
    · rfl
    · cases batch with
      | finished => rfl
      | failed e => rfl
      | chunks cs =>
        have hall := perform_indexAll o embed source' cs requested ids q
        show (indexAll o embed cs ids >>= indexBatches o embed disk fuel source').perform q = _
        dsimp only
        rcases hs : handOut o embed source' cs requested ids q with ⟨e | ids', requested', left, q'⟩
        · rw [hs] at hall
          exact perform_bind_error hall
        · rw [hs] at hall
          exact (perform_bind_ok hall).trans (ih _ _ _ _)

section

variable {workers : Nat} (hw : workers ≤ 1) (source : Source) (p : Program σ)

include hw

theorem perform_indexSource : (indexSource o embed disk workers source).perform (clocked o p) =
    ((served o embed disk source p).result, closed (served o embed disk source p).program) := by
  rw [indexSource, if_pos hw]
  exact perform_always (perform_indexBatches _ _ [] _ _) (perform_leave _ _)

/-- Where the loop fails, the run closes its source and fails with the same error, whatever it was
to delete. -/
theorem run_of_failed {e : RunError} (h : (served o embed disk source p).result = .error e)
    (pruneRoot : Option String) :
    (run o embed disk workers source pruneRoot).perform p =
      (.error e, closed (served o embed disk source p).program) := by
  have hsource : (indexSource o embed disk workers source).perform (clocked o p) =
      (.error e, closed (served o embed disk source p).program) := by
    rw [perform_indexSource hw, h]
  rw [run_eq, perform_bind_ok (perform_outside _ _)]
  exact perform_bind_error hsource

/-- Otherwise the run closes its source, deletes and reports. -/
theorem run_of_served {ids : List Int} (h : (served o embed disk source p).result = .ok ids)
    (pruneRoot : Option String) :
    (run o embed disk workers source pruneRoot).perform p =
      (sweep o pruneRoot ids >>= report o (o.clock p.outside).1 ids).perform
        (closed (served o embed disk source p).program) := by
  have hsource : (indexSource o embed disk workers source).perform (clocked o p) =
      (.ok ids, closed (served o embed disk source p).program) := by
    rw [perform_indexSource hw, h]
  rw [run_eq, perform_bind_ok (perform_outside _ _)]
  exact perform_bind_ok hsource

end

/-! ## Where the loop fails -/

/-- Indexing a chunk fails where one of its three steps does. -/
theorem raised_of_indexChunk {c : Chunk} {p q : Program σ} {e : RunError}
    (h : (indexChunk o embed c).perform p = (.error e, q)) :
    Raised o embed disk p (some c) e q := by
  rcases hrow : (upsertChunk o c).perform p with ⟨e' | id, p'⟩
  · obtain ⟨he, rfl⟩ := Prod.mk.inj ((perform_bind_error hrow).symm.trans h)
    obtain rfl := Except.error.inj he
    exact .row hrow
  rw [indexChunk, perform_bind_ok hrow] at h
  rcases htext : (embed none c.text).perform p' with ⟨e' | v, p''⟩
  · obtain ⟨he, rfl⟩ := Prod.mk.inj ((perform_bind_error htext).symm.trans h)
    obtain rfl := Except.error.inj he
    exact .text hrow htext
  rw [perform_bind_ok htext] at h
  rcases hvector : (settle o c id v).perform p'' with ⟨e' | u, q'⟩
  · obtain ⟨he, rfl⟩ := Prod.mk.inj ((perform_bind_error hvector).symm.trans h)
    obtain rfl := Except.error.inj he
    exact .vector hrow htext hvector
  · rw [perform_bind_ok hvector] at h
    cases (Prod.mk.inj h).1

/-- Chunks are all indexed, or one of them is the first that fails. -/
theorem indexAll_cases (o : Outside σ) (embed : Embedder σ) (cs : List Chunk) (ids : List Int)
    (p : Program σ) :
    (∃ ids' q, (indexAll o embed cs ids).perform p = (.ok ids', q)) ∨
      ∃ front c back ids' p' e q, cs = front ++ c :: back ∧
        (indexAll o embed front ids).perform p = (.ok ids', p') ∧
        (indexChunk o embed c).perform p' = (.error e, q) := by
  induction cs generalizing ids p with
  | nil => exact .inl ⟨ids, p, rfl⟩
  | cons c cs ih =>
    rcases hc : (indexChunk o embed c).perform p with ⟨e | id, q⟩
    · exact .inr ⟨[], c, cs, ids, p, e, q, rfl, rfl, hc⟩
    · rcases ih (ids ++ [id]) q with
        ⟨ids', q', hall⟩ | ⟨front, d, back, ids', p', e, q', rfl, hfront, hd⟩
      · exact .inl ⟨ids', q', (perform_bind_ok hc).trans hall⟩
      · exact .inr ⟨c :: front, d, back, ids', p', e, q', rfl,
          (perform_bind_ok hc).trans hfront, hd⟩

/-- Behind chunks that are indexed, the next ones are handed out. -/
theorem handOut_append {source : Source} {front : List Chunk} {requested : List Chunk}
    {ids ids' : List Int} {p q : Program σ}
    (h : (indexAll o embed front ids).perform p = (.ok ids', q)) (back : List Chunk) :
    handOut o embed source (front ++ back) requested ids p =
      handOut o embed source back (requested ++ front) ids' q := by
  induction front generalizing requested ids p with
  | nil =>
    obtain ⟨hids, rfl⟩ := Prod.mk.inj h
    obtain rfl := Except.ok.inj hids
    rw [List.append_nil]
    rfl
  | cons c front ih =>
    obtain ⟨id, p', hc, hfront⟩ := perform_bind_eq_ok h
    rw [List.cons_append, handOut, hc]
    dsimp only
    rw [ih hfront, List.append_assoc]
    rfl

theorem handOut_of_ok {source : Source} {held requested : List Chunk} {ids ids' : List Int}
    {p q : Program σ} (h : (indexAll o embed held ids).perform p = (.ok ids', q)) :
    handOut o embed source held requested ids p =
      ⟨.ok ids', requested ++ held, ⟨[], source⟩, q⟩ := by
  have happend : handOut o embed source (held ++ []) requested ids p = _ := handOut_append h []
  rwa [List.append_nil] at happend

theorem handOut_of_error {source : Source} {front back requested : List Chunk} {c : Chunk}
    {ids ids' : List Int} {p p' q : Program σ} {e : RunError}
    (hfront : (indexAll o embed front ids).perform p = (.ok ids', p'))
    (hc : (indexChunk o embed c).perform p' = (.error e, q)) :
    handOut o embed source (front ++ c :: back) requested ids p =
      ⟨.error e, requested ++ front ++ [c], ⟨back, source⟩, q⟩ := by
  rw [handOut_append hfront, handOut, hc]

theorem Led.indexAll {start p q : Program σ} {requested front : List Chunk}
    (hled : Led o embed disk start requested p) {ids ids' : List Int}
    (h : (indexAll o embed front ids).perform p = (.ok ids', q)) :
    Led o embed disk start (requested ++ front) q := by
  induction front generalizing requested ids p with
  | nil =>
    obtain ⟨-, rfl⟩ := Prod.mk.inj h
    rwa [List.append_nil]
  | cons c front ih =>
    obtain ⟨id, p', hc, hfront⟩ := perform_bind_eq_ok h
    have hall := ih (hled.indexed hc) hfront
    rwa [List.append_assoc] at hall

/-- **Where the loop fails**, it has been led along the chunks that were requested before, and the
next step raises its error. -/
theorem exists_raised {start p : Program σ} {requested : List Chunk}
    (hled : Led o embed disk start requested p) {fuel : Nat} {source : Source} {ids : List Int}
    {e : RunError} (he : (serve o embed disk fuel source requested ids p).result = .error e) :
    ∃ done c? p', (serve o embed disk fuel source requested ids p).requested = done ++ c?.toList ∧
      Led o embed disk start done p' ∧
      Raised o embed disk p' c? e (serve o embed disk fuel source requested ids p).program := by
  induction fuel generalizing source requested ids p with
  | zero => cases he
  | succ fuel ih =>
    obtain ⟨source', batch, ls, q, -, hpull, -, -⟩ := exists_pull o disk source p
    rw [serve, hpull] at he ⊢
    cases batch with
    | finished => cases he
    | failed e' =>
      obtain rfl := Except.error.inj he
      exact ⟨requested, none, p, (List.append_nil _).symm, hled, .source hpull⟩
    | chunks cs =>
      have hpulled := hled.pulled hpull
      rcases indexAll_cases o embed cs ids q with
        ⟨ids', q', hall⟩ | ⟨front, c, back, ids', p', e', q', rfl, hfront, hc⟩
      · simp only [handOut_of_ok hall, Served.andThen] at he ⊢
        exact ih (hpulled.indexAll hall) he
      · simp only [handOut_of_error hfront hc, Served.andThen] at he ⊢
        obtain rfl := Except.error.inj he
        exact ⟨requested ++ front, some c, p', rfl, hpulled.indexAll hfront,
          raised_of_indexChunk hc⟩

end DocSearch.Index
