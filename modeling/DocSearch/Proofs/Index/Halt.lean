import DocSearch.Proofs.Index.Failure
import DocSearch.Proofs.Index.Requests
import DocSearch.Proofs.Store.Alike

/-!
# What a run leaves when a step fails

A run with one worker that fails leaves the tables of a run without failure over the chunks before
the one at hand, but for the row of this chunk: it may have been inserted, or its data replaced
(`LeftBehind`). Nothing behind this chunk was requested, the source is closed, nothing is deleted,
and the error is that of the step that failed (`run_halts`).

**Before the step** the loop was led along chunks that were indexed (`Led`). Where the vector of a
text depends on nothing but the text, this tells what was written (`Led.written`), and any
undisturbed run over these chunks leaves the same, up to the numbering of new ids. Where the source
is a list, the run over the first part of the list goes the same way in the same world, so nothing
has to be known about the embedder there, and the ids are the same, too (`clean_run`).

**The step itself** is the source raising, or one of the three steps of a chunk. Only the first of
these has an effect on the tables, and a statement that is refused has none (`Raised.leftBehind`).
-/

namespace DocSearch.Index

open DocSearch.Action Files Store

variable {σ : Type} {o : Outside σ} {embed : Embedder σ} {disk : Disk} {tables : σ → Tables}

/-! ## What is left -/

/-- The tables `u` are `t` but for the row of a chunk. If this row is another one, it has been
inserted under an id that no row had, or it has the data of the chunk under the id that it had. -/
structure ButFor (c : Chunk) (t u : Tables) : Prop where
  vectors : u.vectors = t.vectors
  dimension : u.dimension = t.dimension
  others : u.chunks.filter (·.2.identity ≠ c.identity) =
    t.chunks.filter (·.2.identity ≠ c.identity)
  own : u.rowsOf c.identity = t.rowsOf c.identity ∨
    ∃ id, u.rowsOf c.identity = [(id, chunkRow c)] ∧
      (t.rowsOf c.identity = [] ∧ t.Unused id ∨ ∃ r, t.rowsOf c.identity = [(id, r)])

/-- What a step that fails leaves of the tables `t`: exactly these if the source raised, and these
but for the row of the chunk if it was at hand. -/
def LeftBehind : Option Chunk → (t u : Tables) → Prop
  | none, t, u => u = t
  | some c, t, u => ButFor c t u

theorem butFor_refl (c : Chunk) (t : Tables) : ButFor c t t := ⟨rfl, rfl, rfl, .inl rfl⟩

/-- Storing the row of a chunk changes nothing else. -/
theorem butFor_stores {t u : Tables} (hs : t.Sound) {c : Chunk} {id : Int}
    (h : t.Stores (chunkRow c) id u) : ButFor c t u := by
  have hidentity : (chunkRow c).identity = c.identity := rfl
  have hown : u.rowsOf c.identity = [(id, chunkRow c)] := by
    rw [Tables.rowsOf_eq (h.sound hs), h.row?_eq hs, if_pos hidentity]
    rfl
  have hbefore := Tables.rowsOf_eq hs c.identity
  rcases h.cases with ⟨r, hrow, rfl, rfl⟩ | ⟨hnone, hunused, rfl⟩
  · rw [hidentity] at hrow
    obtain ⟨hr, hri⟩ := (Tables.row?_eq_some_iff hs).1 hrow
    -- Only the row itself has the id that is written to.
    have hsame : ∀ d ∈ t.chunks.filter (·.2.identity ≠ c.identity),
        Tables.overwrite r.1 (chunkRow c) d = d := by
      intro d hd
      obtain ⟨hmem, hother⟩ := List.mem_filter.1 hd
      have hne : d.1 ≠ r.1 := by
        intro hid
        rw [List.inj_on_of_nodup_map hs.ids hmem hr hid] at hother
        exact of_decide_eq_true hother hri
      rw [Tables.overwrite, if_neg hne]
    have hcomp : (fun d : Int × Record => decide (d.2.identity ≠ c.identity)) ∘
        Tables.overwrite r.1 (chunkRow c) = fun d => decide (d.2.identity ≠ c.identity) := by
      funext d
      simp [Tables.overwrite_identity]
    refine ⟨rfl, rfl, ?_, .inr ⟨r.1, hown, .inr ⟨r.2, by rw [hbefore, hrow]; rfl⟩⟩⟩
    show (t.chunks.map (Tables.overwrite r.1 (chunkRow c))).filter _ = _
    rw [List.filter_map, hcomp]
    exact (List.map_congr_left hsame).trans (List.map_id' _)
  · rw [hidentity] at hnone
    refine ⟨rfl, rfl, ?_, .inr ⟨id, hown, .inl ⟨by rw [hbefore, hnone]; rfl, hunused⟩⟩⟩
    show (t.chunks ++ [(id, chunkRow c)]).filter _ = _
    rw [List.filter_append]
    simp [hidentity]

/-! ## The step that fails -/

theorem of_settle_error (ho : Backed o tables) {c : Chunk} {id : Int} {v : List Float}
    {p q : Program σ} {e : RunError} (h : (settle o c id v).perform p = (.error e, q)) :
    tables q.outside = tables p.outside := by
  rcases settle_ends ho c id v (p := p) with ⟨-, q', hsettle, -⟩ | ⟨e', q', hfail, -, ht⟩
  · cases (Prod.mk.inj (h.symm.trans hsettle)).1
  · obtain ⟨-, rfl⟩ := Prod.mk.inj (h.symm.trans hfail)
    exact ht

/-- **A step that fails** leaves the tables as they were, or has stored the row of the chunk. -/
theorem Raised.leftBehind (ho : Backed o tables) (he : Aloof embed tables) {p q : Program σ}
    {c? : Option Chunk} {e : RunError} (h : Raised o embed disk p c? e q)
    (hs : (tables p.outside).Sound) : LeftBehind c? (tables p.outside) (tables q.outside) := by
  have hstored {c : Chunk} {id : Int} {p' : Program σ}
      (hrow : (upsertChunk o c).perform p = (.ok id, p')) :
      ButFor c (tables p.outside) (tables p'.outside) := by
    rcases upsertChunk_ends ho c (p := p) with
      ⟨-, id', u, hstores, p'', hstore, -, rfl⟩ | ⟨e', p'', hfail, -⟩
    · obtain ⟨-, rfl⟩ := Prod.mk.inj (hrow.symm.trans hstore)
      exact butFor_stores hs hstores
    · cases (Prod.mk.inj (hrow.symm.trans hfail)).1
  cases h with
  | source h =>
    obtain ⟨-, hlook⟩ := next_of_pull h
    show tables q.outside = tables p.outside
    rw [hlook]
    exact ho.look _
  | row h =>
    rcases upsertChunk_ends ho _ (p := p) with ⟨-, _, _, -, p', hstore, -⟩ | ⟨e', p', hfail, -, ht⟩
    · cases (Prod.mk.inj (h.symm.trans hstore)).1
    · obtain ⟨-, rfl⟩ := Prod.mk.inj (h.symm.trans hfail)
      show ButFor _ _ _
      rw [ht]
      exact butFor_refl _ _
  | @text c id _ p' _ _ hrow h =>
    have hembed := he none c.text p'
    rw [h] at hembed
    show ButFor c _ (tables q.outside)
    rw [hembed]
    exact hstored hrow
  | @vector c id v _ p' p'' _ _ hrow htext h =>
    have hembed := he none c.text p'
    rw [htext] at hembed
    show ButFor c _ (tables q.outside)
    rw [of_settle_error ho h, hembed]
    exact hstored hrow

/-! ## The way to the step -/

theorem Led.sound (ho : Backed o tables) (he : Aloof embed tables) {start p : Program σ}
    {cs : List Chunk} (h : Led o embed disk start cs p) (hs : (tables start.outside).Sound) :
    (tables p.outside).Sound := by
  induction h with
  | start => exact hs
  | indexed h hc ih =>
    obtain ⟨-, literal, hwritten⟩ := of_indexChunk ho he ih hc
    exact hwritten.sound ih
  | pulled h hpull ih =>
    obtain ⟨-, hlook⟩ := next_of_pull hpull
    rw [hlook, ho.look]
    exact ih

/-- **What was written on the way**, if the vectors depend on nothing but the texts: the chunks that
were indexed. -/
theorem Led.written (ho : Backed o tables) {vector : String → List Float}
    (he : Embeds embed tables vector) {start p : Program σ} {cs : List Chunk}
    (h : Led o embed disk start cs p) (hs : (tables start.outside).Sound) :
    (tables start.outside).Written (vectorLiteral ∘ vector) (Write.inOrder cs)
      (tables p.outside) := by
  induction h with
  | start => exact .nil
  | @indexed cs c id p q h hc ih =>
    rw [Write.inOrder_append]
    rcases indexChunk_ends ho he (ih.sound hs) c with
      ⟨u, hwritten, q', hok, -, rfl⟩ | ⟨e, ⟨q', hfail, -⟩ | ⟨_, _, -, q', hfail, -⟩⟩
    · obtain ⟨-, rfl⟩ := Prod.mk.inj (hc.symm.trans hok)
      exact ih.append hwritten
    · cases (Prod.mk.inj (hc.symm.trans hfail)).1
    · cases (Prod.mk.inj (hc.symm.trans hfail)).1
  | pulled h hpull ih =>
    obtain ⟨-, hlook⟩ := next_of_pull hpull
    rw [hlook, ho.look]
    exact ih

/-! ## Lists of chunks -/

/-- The program when the token has been looked at. -/
def looked (o : Outside σ) (p : Program σ) : Program σ :=
  { p with outside := (o.look p.outside).2 }

theorem perform_pull_end (e : RunError) (p : Program σ) :
    (pull o disk (.listed [] (some e))).perform p = (.ok (.closed, .failed e), looked o p) :=
  perform_pull (fun _ => rfl) p

theorem perform_pull_over (p : Program σ) :
    (pull o disk (.listed [] none)).perform p = (.ok (.closed, .finished), looked o p) :=
  perform_pull (fun _ => rfl) p

theorem perform_pull_chunks (c : Chunk) (cs : List Chunk) (failure : Option RunError)
    (p : Program σ) :
    (pull o disk (.listed (c :: cs) failure)).perform p =
      (.ok (.listed [] failure, .chunks (c :: cs)), looked o p) :=
  perform_pull (fun _ => rfl) p

theorem serve_end (fuel : Nat) (failure : Option RunError) (requested : List Chunk)
    (ids : List Int) (p : Program σ) :
    serve o embed disk (fuel + 1) (.listed [] failure) requested ids p =
      ⟨atEnd failure ids, requested, ⟨[], .closed⟩, looked o p⟩ := by
  cases failure with
  | none =>
    rw [serve, perform_pull_over]
    rfl
  | some e =>
    rw [serve, perform_pull_end]
    rfl

theorem served_nil (failure : Option RunError) (p : Program σ) :
    served o embed disk (.listed [] failure) p =
      ⟨atEnd failure [], [], ⟨[], .closed⟩, looked o (clocked o p)⟩ := serve_end _ _ _ _ _

theorem served_of_ne_nil {cs : List Chunk} (hcs : cs ≠ []) (failure : Option RunError)
    (p : Program σ) :
    served o embed disk (.listed cs failure) p =
      (handOut o embed (.listed [] failure) cs [] [] (looked o (clocked o p))).andThen
        (serve o embed disk 1 (.listed [] failure)) := by
  obtain ⟨c, cs, rfl⟩ := List.exists_cons_of_ne_nil hcs
  rw [served, Source.bound, serve, perform_pull_chunks]

theorem served_of_ok {cs : List Chunk} (hcs : cs ≠ []) {ids : List Int} {p q : Program σ}
    (h : (indexAll o embed cs []).perform (looked o (clocked o p)) = (.ok ids, q))
    (failure : Option RunError) :
    served o embed disk (.listed cs failure) p =
      ⟨atEnd failure ids, cs, ⟨[], .closed⟩, looked o q⟩ := by
  rw [served_of_ne_nil hcs, handOut_of_ok h]
  exact serve_end _ _ _ _ _

theorem served_of_error {front back : List Chunk} {c : Chunk} {ids : List Int}
    {p p' q : Program σ} {e : RunError}
    (hfront : (indexAll o embed front []).perform (looked o (clocked o p)) = (.ok ids, p'))
    (hc : (indexChunk o embed c).perform p' = (.error e, q)) (failure : Option RunError) :
    served o embed disk (.listed (front ++ c :: back) failure) p =
      ⟨.error e, front ++ [c], ⟨back, .listed [] failure⟩, q⟩ := by
  rw [served_of_ne_nil (by simp), handOut_of_error hfront hc]
  rfl

/-- **A run without failure goes the same way.** Where the first chunks of a list are indexed, a run
over these chunks alone succeeds from the same program and leaves the same tables. -/
theorem clean_run (disk : Disk) (ho : Backed o tables) {workers : Nat} (hw : workers ≤ 1)
    {cs : List Chunk} {ids : List Int} {p q : Program σ}
    (h : (indexAll o embed cs []).perform (looked o (clocked o p)) = (.ok ids, q)) :
    ∃ stats q', (run o embed disk workers (.listed cs none) none).perform p = (.ok stats, q') ∧
      tables q'.outside = tables q.outside := by
  obtain ⟨s, hs, hids, ht⟩ : ∃ s, served o embed disk (.listed cs none) p = s ∧
      s.result = .ok ids ∧ tables s.program.outside = tables q.outside := by
    cases cs with
    | nil =>
      obtain ⟨hids, rfl⟩ := Prod.mk.inj h
      exact ⟨_, served_nil none p, hids, rfl⟩
    | cons c cs => exact ⟨_, served_of_ok (List.cons_ne_nil c cs) h none, rfl, ho.look _⟩
  have hrun := run_of_served hw (.listed cs none) p ((congrArg Served.result hs).trans hids) none
  rw [hs] at hrun
  obtain ⟨elapsed, q', hreport, -, ht'⟩ :=
    report_leads (p := closed s.program) ho (o.clock p.outside).1 ids 0
  have hsweep : (sweep o none ids >>= report o (o.clock p.outside).1 ids).perform
      (closed s.program) = (.ok ⟨ids.length, ids.length, 0, elapsed⟩, q') :=
    (perform_bind_ok rfl).trans hreport
  exact ⟨_, q', hrun.trans hsweep, ht'.trans ht⟩

/-! ## Runs that fail -/

/-- What is true of a run over `source` from `start` that ends as `s` when a step fails. The chunks
`done` were requested before and, if it was not the source that failed, one more. -/
structure Halted (o : Outside σ) (embed : Embedder σ) (disk : Disk) (tables : σ → Tables)
    (start : Program σ) (e : RunError) (s : Served σ) (done : List Chunk) (c? : Option Chunk) :
    Prop where
  /-- Nothing was requested behind the chunk at hand. -/
  requested : s.requested = done ++ c?.toList
  /-- The error is raised by the step behind the chunks that were indexed. -/
  raised : ∃ p, Led o embed disk (clocked o start) done p ∧ Raised o embed disk p c? e s.program
  /-- Any undisturbed run over the chunks before, from equal tables and with equal vectors, succeeds
  and leaves, up to the numbering of new ids, the tables that are left here, but for the row of the
  chunk at hand. -/
  undisturbed : ∀ vector, Embeds embed tables vector → ∀ {τ : Type} (o' : Outside τ)
    (tables' : τ → Tables) (embed' : Embedder τ) (p : Program τ), Reliable o' tables' →
    Answers embed' tables' vector → p.isOpen = true → tables' p.outside = tables start.outside →
    ∃ stats q t, (run o' embed' disk 1 (.listed done none) none).perform p = (.ok stats, q) ∧
      Tables.Alike (tables start.outside).Known (tables' q.outside) t ∧
      LeftBehind c? t (tables s.program.outside)

/-- What is true besides if the source is the list `cs`. -/
structure CutShort (o : Outside σ) (embed : Embedder σ) (disk : Disk) (tables : σ → Tables)
    (workers : Nat) (start : Program σ) (cs : List Chunk) (e : RunError) (s : Served σ)
    (done : List Chunk) (c? : Option Chunk) : Prop where
  /-- What was not requested is left. -/
  left : cs = s.requested ++ s.left.held
  /-- A run over the chunks before succeeds in the same world and leaves the tables that are left
  here, but for the row of the chunk at hand. -/
  clean : ∃ stats q, (run o embed disk workers (.listed done none) none).perform start =
    (.ok stats, q) ∧ LeftBehind c? (tables q.outside) (tables s.program.outside)
  /-- What comes behind the chunk at hand makes no difference. -/
  rest : ∀ c, c? = some c → ∀ rest failure pruneRoot,
    (run o embed disk workers (.listed (done ++ c :: rest) failure) pruneRoot).perform start =
      (.error e, closed s.program)

/-- Histories of the same chunks in order lead to the same tables, up to new ids. -/
theorem Finished.alike_written {literal : String → String} {t u v : Tables} {cs : List Chunk}
    {stats : Stats} (hs : t.Sound)
    (h : Finished literal t cs none (Write.inOrder cs) stats u)
    (hv : t.Written literal (Write.inOrder cs) v) : Tables.Alike t.Known u v := by
  obtain ⟨-, -, hu, -⟩ := h
  have hagree := hu.agree hs hv (fun _ => rfl) fun _ => rfl
  exact hagree.alike (hu.sound hs) (hv.sound hs) (fun c hc => hu.idFor_known hs hv hc)
    (hu.dimension.trans hv.dimension.symm)

theorem halted_of_raised (ho : Backed o tables) (he : Aloof embed tables) {start p : Program σ}
    (hs : (tables start.outside).Sound) {e : RunError} {s : Served σ} {done : List Chunk}
    {c? : Option Chunk} (hrequested : s.requested = done ++ c?.toList)
    (hled : Led o embed disk (clocked o start) done p)
    (hraised : Raised o embed disk p c? e s.program) :
    Halted o embed disk tables start e s done c? := by
  have hclock : tables (clocked o start).outside = tables start.outside := ho.clock _
  have hsound : (tables (clocked o start).outside).Sound := hclock ▸ hs
  refine ⟨hrequested, ⟨p, hled, hraised⟩, ?_⟩
  intro vector hembeds τ o' tables' embed' p' ho' he' hopen ht
  have hleft := hraised.leftBehind ho he (hled.sound ho he hsound)
  have hled' := hled.written ho hembeds hsound
  rw [hclock] at hled'
  obtain ⟨stats, t, hfinished, q, hq, -, rfl⟩ :=
    run_ok disk ho' he' (ht ▸ hs) hopen (Nat.le_refl 1) done none
  rw [ht] at hfinished
  exact ⟨stats, q, _, hq, hfinished.alike_written hs hled', hleft⟩

/-- Where the loop over a list fails, a step behind chunks that were indexed does. -/
theorem halted_listed (ho : Backed o tables) (he : Aloof embed tables) {workers : Nat}
    (hw : workers ≤ 1) (start : Program σ) (hs : (tables start.outside).Sound) (cs : List Chunk)
    (failure : Option RunError) {e : RunError}
    (h : (served o embed disk (.listed cs failure) start).result = .error e) :
    ∃ done c?, Halted o embed disk tables start e (served o embed disk (.listed cs failure) start)
        done c? ∧
      CutShort o embed disk tables workers start cs e
        (served o embed disk (.listed cs failure) start) done c? := by
  have hsound : (tables (clocked o start).outside).Sound := (ho.clock _).symm ▸ hs
  -- Behind its last chunk a list fails with its own failure, if it has one.
  have hend {ids : List Int} (h : atEnd failure ids = .error e) : failure = some e := by
    cases failure with
    | none => cases h
    | some e' => exact congrArg some (Except.error.inj h)
  by_cases hcs : cs = []
  · subst hcs
    rw [served_nil] at h ⊢
    obtain rfl := hend h
    have hnone : (indexAll o embed [] []).perform (looked o (clocked o start)) = (.ok [], _) := rfl
    obtain ⟨stats, q, hclean, ht⟩ := clean_run disk ho hw hnone
    exact ⟨[], none, halted_of_raised ho he hs rfl .start (.source (perform_pull_end e _)),
      rfl, ⟨stats, q, hclean, ht.symm⟩, nofun⟩
  obtain ⟨c, cs', rfl⟩ := List.exists_cons_of_ne_nil hcs
  have hpulled : Led o embed disk (clocked o start) [] (looked o (clocked o start)) :=
    Led.start.pulled (perform_pull_chunks c cs' failure _)
  rcases indexAll_cases o embed (c :: cs') [] (looked o (clocked o start)) with
    ⟨ids, q, hall⟩ | ⟨front, d, back, ids, p, e', q, hsplit, hfront, hd⟩
  · rw [served_of_ok hcs hall] at h ⊢
    obtain rfl := hend h
    obtain ⟨stats, q', hclean, ht⟩ := clean_run disk ho hw hall
    have hhalted : Halted o embed disk tables start e
        ⟨.error e, c :: cs', ⟨[], .closed⟩, looked o q⟩ (c :: cs') none :=
      halted_of_raised ho he hs (List.append_nil _).symm (hpulled.indexAll hall)
        (.source (perform_pull_end e q))
    have hsame : tables (looked o q).outside = tables q'.outside := (ho.look _).trans ht.symm
    exact ⟨_, none, hhalted, (List.append_nil _).symm, ⟨stats, q', hclean, hsame⟩, nofun⟩
  · rw [hsplit, served_of_error hfront hd] at h ⊢
    obtain rfl := Except.error.inj h
    have hled := hpulled.indexAll hfront
    have hraised : Raised o embed disk p (some d) e' q := raised_of_indexChunk hd
    obtain ⟨stats, q', hclean, ht⟩ := clean_run disk ho hw hfront
    have hleft : LeftBehind (some d) (tables q'.outside) (tables q.outside) :=
      ht.symm ▸ hraised.leftBehind ho he (hled.sound ho he hsound)
    refine ⟨front, some d, halted_of_raised ho he hs rfl hled hraised, ?_,
      ⟨stats, q', hclean, hleft⟩, ?_⟩
    · simp
    · intro d' hd' rest failure' pruneRoot
      obtain rfl := Option.some.inj hd'
      have hserved : served o embed disk (.listed (front ++ d :: rest) failure') start = _ :=
        served_of_error hfront hd failure'
      have hrun := run_of_failed hw (.listed (front ++ d :: rest) failure') start
        (congrArg Served.result hserved) pruneRoot
      rw [hserved] at hrun
      exact hrun

/-! ## Deeds -/

section

variable {P : Program σ → Prop} (h : Kept o embed P)

include h

theorem within_indexChunk (c : Chunk) : Within P (fun _ => True) (indexChunk o embed c) := by
  have hrow : Within P (fun _ => True) (upsertChunk o c) := fun p hp =>
    ⟨(h.within_upsertChunk c p hp).1, fun _ _ => trivial⟩
  have htext : Within P (fun _ => True) (embed none c.text) := fun p hp =>
    ⟨h.embed none c.text p hp, fun _ _ => trivial⟩
  have hvector (id : Int) (v : List Float) : Within P (fun _ => True) (settle o c id v) :=
    fun p hp => ⟨(h.within_settle c id v p hp).1, fun _ _ => trivial⟩
  exact hrow.bind fun id => htext.bind fun v => (hvector id v).bind fun _ => within_pure id

theorem within_indexAll (cs : List Chunk) (ids : List Int) :
    Within P (fun _ => True) (indexAll o embed cs ids) := by
  induction cs generalizing ids with
  | nil => exact within_pure ids
  | cons c cs ih => exact (within_indexChunk h c).bind fun id => ih (ids ++ [id])

/-- The loop of a run keeps what is kept by what it does. -/
theorem within_indexBatches (fuel : Nat) (source : Source) (ids : List Int) :
    Within P (fun _ => True) (indexBatches o embed disk fuel source ids) := by
  induction fuel generalizing source ids with
  | zero => exact within_pure ids
  | succ fuel ih =>
    have hpull : Within P (fun _ => True) (pull o disk source) := fun p hp =>
      ⟨h.pull disk source hp, fun _ _ => trivial⟩
    refine hpull.bind fun (source', batch) => ?_
    cases batch with
    | finished => exact within_pure ids
    | failed e => exact within_throw trivial
    | chunks cs => exact (within_indexAll h cs ids).bind fun ids' => ih source' ids'

theorem kept_served (source : Source) {p : Program σ} (hp : P (clocked o p)) :
    P (served o embed disk source p).program := by
  have hkept : P ((indexBatches o embed disk (source.bound disk) source []).perform
      (clocked o p)).2 := (within_indexBatches h _ source [] _ hp).1
  rwa [perform_indexBatches _ _ []] at hkept

end

/-- **A run stops at the first step that fails.** A run with one worker is its loop, the closing of
the source and, if the loop has not failed, the deletion. Where the loop fails, the run closes its
source, fails with the same error and deletes nothing, whatever it was to delete. It was led along
chunks that were indexed up to the step that raised the error, and has requested these chunks and
the one at hand, if there is one. The tables are those of a run without failure over the chunks
before, but for the row of the chunk at hand: of any undisturbed run with the same vectors, up to
the numbering of new ids, and, where the source is a list, of the run over the first part of the
list in the same world. What else is in the list is left and makes no difference. -/
theorem run_halts (disk : Disk) (ho : Backed o tables) (he : Aloof embed tables) {workers : Nat}
    (hw : workers ≤ 1) (source : Source) (start : Program σ) (hs : (tables start.outside).Sound) :
    (∀ e, (served o embed disk source start).result = .error e →
      (∀ pruneRoot, (run o embed disk workers source pruneRoot).perform start =
        (.error e, closed (served o embed disk source start).program)) ∧
      ((∀ stopped text p, Unpruned p ((embed stopped text).perform p).2) →
        Unpruned start (closed (served o embed disk source start).program)) ∧
      ∃ done c?, Halted o embed disk tables start e (served o embed disk source start) done c? ∧
        ∀ cs failure, source = .listed cs failure →
          CutShort o embed disk tables workers start cs e (served o embed disk source start)
            done c?) ∧
    ∀ ids, (served o embed disk source start).result = .ok ids → ∀ pruneRoot,
      (run o embed disk workers source pruneRoot).perform start =
        (sweep o pruneRoot ids >>= report o (o.clock start.outside).1 ids).perform
          (closed (served o embed disk source start).program) := by
  refine ⟨fun e h => ⟨run_of_failed hw source start h, fun hembed => ?_, ?_⟩, fun ids h =>
    run_of_served hw source start h⟩
  · have hserved : Unpruned start (served o embed disk source start).program :=
      kept_served (kept_unpruned hembed start) source (unpruned_of_trace rfl)
    exact hserved.trans (unpruned_leave rfl _)
  by_cases hlisted : ∃ cs failure, source = .listed cs failure
  · obtain ⟨cs, failure, rfl⟩ := hlisted
    obtain ⟨done, c?, hhalted, hcut⟩ := halted_listed ho he hw start hs cs failure h
    refine ⟨done, c?, hhalted, ?_⟩
    intro cs' failure' hsame
    obtain ⟨rfl, rfl⟩ := Source.listed.inj hsame
    exact hcut
  · obtain ⟨done, c?, p, hrequested, hled, hraised⟩ := exists_raised .start h
    refine ⟨done, c?, halted_of_raised ho he hs hrequested hled hraised, ?_⟩
    intro cs failure hsource
    exact absurd ⟨cs, failure, hsource⟩ hlisted

/-- An embedder that sees a tripped token when it comes to the text of one function. -/
def cancelling : Embedder SerialTables :=
  fun _ text =>
    if text = (openChunk "stops").text then throw (.cancelled "stop") else pure [1]

theorem perform_cancelling (trip : Trip) (text : String) (p : Program SerialTables) :
    (cancelling trip text).perform p =
      (if text = (openChunk "stops").text then .error (.cancelled "stop") else .ok [1], p) := by
  unfold cancelling
  split_ifs <;> rfl

/-- Another function of the small program. -/
def flushChunk : Chunk := .mk "function" "Flush" "flushes" "store" "store/flush.go" []

/-- A run over three chunks that is cancelled at the second, whose row is there with other data. -/
theorem run_halts_cancelled :
    ∃ q : Program SerialTables,
      (∀ pruneRoot, (run tablesWorld cancelling ⟨.folder [], [], []⟩ 1
        (.listed [flushChunk, openChunk "stops", flushChunk] none) pruneRoot).perform
          ⟨openTables "opens" "[1.0]", true, []⟩ = (.error (.cancelled "stop"), q)) ∧
      Unpruned ⟨openTables "opens" "[1.0]", true, []⟩ q ∧
      q.outside.chunks.map (fun c => (c.1, c.2.data)) =
        [(7, "function Open: stops"), (8, "function Flush: flushes")] ∧
      q.outside.vectors.map (·.1) = [7, 8] ∧
      ∃ done c?, [flushChunk, openChunk "stops"] = done ++ Option.toList c? ∧
        ∃ stats q', (run tablesWorld cancelling ⟨.folder [], [], []⟩ 1 (.listed done none)
          none).perform ⟨openTables "opens" "[1.0]", true, []⟩ = (.ok stats, q') ∧
            LeftBehind c? (stored q'.outside) (stored q.outside) := by
  have haloof : Aloof cancelling stored := by
    intro trip text p
    rw [perform_cancelling]
  have hunpruned : ∀ stopped text p, Unpruned p ((cancelling stopped text).perform p).2 := by
    intro stopped text p
    rw [perform_cancelling]
    exact unpruned_of_trace rfl
  obtain ⟨hrun, hdeeds, done, c?, hhalted, hcut⟩ := (run_halts ⟨.folder [], [], []⟩
    reliable_tablesWorld.toBacked haloof (Nat.le_refl 1)
    (.listed [flushChunk, openChunk "stops", flushChunk] none)
    ⟨openTables "opens" "[1.0]", true, []⟩ (sound_openTables _ _)).1 (.cancelled "stop") rfl
  exact ⟨_, hrun, hdeeds hunpruned, rfl, rfl, done, c?, hhalted.requested, (hcut _ _ rfl).clean⟩

end DocSearch.Index
