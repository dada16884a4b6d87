import DocSearch.Index.Run
import DocSearch.Proofs.Store.Backing
import DocSearch.Proofs.Store.Indexed

/-!
# How far a sequential run comes

A run with one worker takes a chunk through three steps: its row is stored, its text is embedded,
its vector is stored. Where every statement is carried out and every text is embedded, all chunks
are written in order (`indexAll_ok`, `run_ok`).

Where steps fail, the chunks before the one that failed are indexed, and of that one nothing is
stored or only its row (`indexAll_ends`); **`Left`** lists the tables that a whole run may leave,
and `run_left` says that there are no others.
-/

namespace DocSearch.Index

open DocSearch.Action Files Store

variable {σ : Type}

/-! ## Embedders -/

/-- An embedder whose vectors depend on nothing but the text; it may fail, and it leaves tables and
pool alone. -/
def Embeds (embed : Embedder σ) (tables : σ → Tables) (vector : String → List Float) : Prop :=
  ∀ trip text p, Leads tables (embed trip text) p (.ok (vector text)) (tables p.outside) ∨
    ∃ e, Leads tables (embed trip text) p (.error e) (tables p.outside)

/-- An embedder of this kind that never fails. -/
def Answers (embed : Embedder σ) (tables : σ → Tables) (vector : String → List Float) : Prop :=
  ∀ trip text p, Leads tables (embed trip text) p (.ok (vector text)) (tables p.outside)

theorem Answers.embeds {embed : Embedder σ} {tables : σ → Tables} {vector : String → List Float}
    (h : Answers embed tables vector) : Embeds embed tables vector :=
  fun trip text p => .inl (h trip text p)

theorem answers_pure (tables : σ → Tables) (v : List Float) :
    Answers (fun _ _ => pure v) tables fun _ => v := fun _ _ _ => leads_pure rfl v

section

variable {o : Outside σ} {embed : Embedder σ} {tables : σ → Tables} {vector : String → List Float}
  {p : Program σ}

/-! ## One chunk -/

theorem settle_ok (ho : Reliable o tables) (hopen : p.isOpen = true) {id : Int}
    (hid : ∃ c ∈ (tables p.outside).chunks, c.1 = id) (c : Chunk) (v : List Float) :
    Leads tables (settle o c id v) p (.ok ())
      ((tables p.outside).setVector id (vectorLiteral v)) := by
  obtain ⟨-, hstored⟩ := upsertVector_carried hopen (ho.vector hid (vectorLiteral v))
  exact hstored.bind fun q _ ht => leads_log ht _ _ _

/-- A vector is stored, or nothing happens. -/
theorem settle_ends (ho : Backed o tables) (c : Chunk) (id : Int) (v : List Float) :
    (∃ d ∈ (tables p.outside).chunks, d.1 = id) ∧ Leads tables (settle o c id v) p (.ok ())
        ((tables p.outside).setVector id (vectorLiteral v)) ∨
      ∃ e, Leads tables (settle o c id v) p (.error e) (tables p.outside) := by
  rcases upsertVector_ends ho id v (p := p) with ⟨hid, hstored⟩ | ⟨e, hfail⟩
  · exact .inl ⟨hid, hstored.bind fun _ _ ht => leads_log ht _ _ _⟩
  · exact .inr ⟨e, .bind_error hfail⟩

theorem indexChunk_ok (ho : Reliable o tables) (he : Answers embed tables vector)
    (hs : (tables p.outside).Sound) (hopen : p.isOpen = true) (c : Chunk) :
    ∃ u, (tables p.outside).Written (vectorLiteral ∘ vector) (Write.inOrder [c]) u ∧
      Leads tables (indexChunk o embed c) p (.ok (u.idFor c.identity)) u := by
  obtain ⟨id, u, hstore, hrow⟩ := upsertChunk_carried hopen (ho.row (chunkRow c) p.outside)
  obtain ⟨hwritten, hid⟩ := Tables.Written.of_stores (vectorLiteral ∘ vector) hs hstore
  refine ⟨_, hwritten, ?_⟩
  rw [hid]
  refine hrow.bind fun q hq ht => (he none c.text q).bind fun q' hq' ht' => ?_
  have hheld := (hstore.holding?_eq hs _).trans (if_pos rfl)
  have hrow := Tables.exists_row_of_holding? (hstore.sound hs) hheld
  obtain rfl : tables q'.outside = u := ht'.trans ht
  have hsettled := settle_ok ho (by rw [hq', hq, hopen]) hrow c (vector c.text)
  exact hsettled.bind fun _ _ ht => leads_pure ht id

/-- A chunk is indexed, or the failure comes before its row or between its row and its vector. -/
theorem indexChunk_ends (ho : Backed o tables) (he : Embeds embed tables vector)
    (hs : (tables p.outside).Sound) (c : Chunk) :
    (∃ u, (tables p.outside).Written (vectorLiteral ∘ vector) (Write.inOrder [c]) u ∧
        Leads tables (indexChunk o embed c) p (.ok (u.idFor c.identity)) u) ∨
      ∃ e, Leads tables (indexChunk o embed c) p (.error e) (tables p.outside) ∨
        ∃ id u, (tables p.outside).Stores (chunkRow c) id u ∧
          Leads tables (indexChunk o embed c) p (.error e) u := by
  rcases upsertChunk_ends ho c (p := p) with ⟨-, id, u, hstore, hrow⟩ | ⟨e, hfail⟩
  swap
  · exact .inr ⟨e, .inl (.bind_error hfail)⟩
  obtain ⟨q, hq, hqopen, rfl⟩ := hrow
  rcases he none c.text q with hembed | ⟨e, hembed⟩
  swap
  · exact .inr ⟨e, .inr ⟨id, _, hstore, leads_behind hq hqopen (.bind_error hembed)⟩⟩
  obtain ⟨q', hq', hqopen', hqt'⟩ := hembed
  have hends := settle_ends ho c id (vector c.text) (p := q')
  rw [hqt'] at hends
  rcases hends with ⟨-, hsettled⟩ | ⟨e, hfail⟩
  · obtain ⟨hwritten, hid⟩ :=
      Tables.Written.of_stores (vectorLiteral ∘ vector) hs hstore
    refine .inl ⟨_, hwritten, ?_⟩
    rw [hid]
    refine leads_behind hq hqopen (leads_behind hq' hqopen' ?_)
    exact hsettled.bind fun _ _ ht => leads_pure ht id
  · exact .inr ⟨e, .inr ⟨id, _, hstore,
      leads_behind hq hqopen (leads_behind hq' hqopen' (.bind_error hfail))⟩⟩

/-! ## One chunk after the other -/

theorem indexAll_ok (ho : Reliable o tables) (he : Answers embed tables vector)
    (hs : (tables p.outside).Sound) (hopen : p.isOpen = true) (cs : List Chunk) (done : List Int) :
    ∃ u, (tables p.outside).Written (vectorLiteral ∘ vector) (Write.inOrder cs) u ∧
      Leads tables (indexAll o embed cs done) p (.ok (done ++ u.idsOf cs)) u := by
  induction cs generalizing p done with
  | nil =>
    refine ⟨_, .nil, ?_⟩
    rw [Tables.idsOf, List.map_nil, List.append_nil]
    exact leads_pure rfl done
  | cons c cs ih =>
    obtain ⟨u, hfirst, q, hq, hqopen, rfl⟩ := indexChunk_ok ho he hs hopen c
    obtain ⟨v, hrest, hall⟩ := ih (hfirst.sound hs) (hqopen.trans hopen)
      (done ++ [(tables q.outside).idFor c.identity])
    refine ⟨v, hfirst.append hrest, ?_⟩
    rw [Tables.Written.idsOf_cons hs hfirst hrest, List.append_cons]
    exact leads_behind hq hqopen hall

/-- Either all chunks are indexed, or those before the one that failed; of that one nothing is
stored or only its row. -/
theorem indexAll_ends (ho : Backed o tables) (he : Embeds embed tables vector)
    (hs : (tables p.outside).Sound) (cs : List Chunk) (done : List Int) :
    (∃ u, (tables p.outside).Written (vectorLiteral ∘ vector) (Write.inOrder cs) u ∧
        Leads tables (indexAll o embed cs done) p (.ok (done ++ u.idsOf cs)) u) ∨
      ∃ e before c after u, cs = before ++ c :: after ∧
        (tables p.outside).Written (vectorLiteral ∘ vector) (Write.inOrder before) u ∧
        (Leads tables (indexAll o embed cs done) p (.error e) u ∨
          ∃ id v, u.Stores (chunkRow c) id v ∧
            Leads tables (indexAll o embed cs done) p (.error e) v) := by
  induction cs generalizing p done with
  | nil =>
    refine .inl ⟨_, .nil, ?_⟩
    rw [Tables.idsOf, List.map_nil, List.append_nil]
    exact leads_pure rfl done
  | cons c cs ih =>
    rcases indexChunk_ends ho he hs c with ⟨u, hfirst, hok⟩ | ⟨e, hfail | ⟨id, u, hstore, hfail⟩⟩
    · obtain ⟨q, hq, hqopen, rfl⟩ := hok
      rcases ih (hfirst.sound hs) (done ++ [(tables q.outside).idFor c.identity]) with
        ⟨v, hrest, hall⟩ | ⟨e, before, d, after, v, hcs, hbefore, hfail⟩
      · refine .inl ⟨v, hfirst.append hrest, ?_⟩
        rw [Tables.Written.idsOf_cons hs hfirst hrest, List.append_cons]
        exact leads_behind hq hqopen hall
      · refine .inr ⟨e, c :: before, d, after, v, by rw [hcs, List.cons_append],
          hfirst.append hbefore, ?_⟩
        rcases hfail with hfail | ⟨id, w, hstore, hfail⟩
        · exact .inl (leads_behind hq hqopen hfail)
        · exact .inr ⟨id, w, hstore, leads_behind hq hqopen hfail⟩
    · exact .inr ⟨e, [], c, cs, _, rfl, .nil, .inl (.bind_error hfail)⟩
    · exact .inr ⟨e, [], c, cs, _, rfl, .nil, .inr ⟨id, u, hstore, .bind_error hfail⟩⟩

/-! ## A list of chunks as a source -/

variable {disk : Disk}

/-- Taking a batch looks at the token once and leaves what the source has to say in the log. -/
theorem exists_pull (o : Outside σ) (disk : Disk) (source : Source) (p : Program σ) :
    ∃ source' batch ls q, source.next disk (o.look p.outside).1 = (source', batch, ls) ∧
      (pull o disk source).perform p = (.ok (source', batch), q) ∧
      q.isOpen = p.isOpen ∧ q.outside = (o.look p.outside).2 := by
  rcases h : source.next disk (o.look p.outside).1 with ⟨source', batch, ls⟩
  refine ⟨source', batch, ls, { p with
    outside := (o.look p.outside).2, trace := p.trace ++ ls.map .logged }, rfl, ?_, rfl, rfl⟩
  rw [pull, perform_bind_ok (perform_outside _ _), h]
  exact perform_bind_ok (perform_leaves .logged _ _)

/-- A batch that was taken is what the source has for the state of the token. -/
theorem next_of_pull {source source' : Source} {batch : Batch} {p q : Program σ}
    (h : (pull o disk source).perform p = (.ok (source', batch), q)) :
    (∃ ls, source.next disk (o.look p.outside).1 = (source', batch, ls)) ∧
      q.outside = (o.look p.outside).2 := by
  obtain ⟨source'', batch', ls, q', hnext, hpull, -, houtside⟩ := exists_pull o disk source p
  obtain ⟨hsame, rfl⟩ := Prod.mk.inj (hpull.symm.trans h)
  obtain ⟨rfl, rfl⟩ := Prod.mk.inj (Except.ok.inj hsame)
  exact ⟨⟨ls, hnext⟩, houtside⟩

theorem perform_pull {source source' : Source} {batch : Batch}
    (h : ∀ trip, source.next disk trip = (source', batch, [])) (p : Program σ) :
    (pull o disk source).perform p =
      (.ok (source', batch), { p with outside := (o.look p.outside).2 }) := by
  rw [pull, perform_bind_ok (perform_outside _ _), h]
  rfl

theorem pull_leads (ho : Backed o tables) (p : Program σ) {source source' : Source} {batch : Batch}
    (h : ∀ trip, source.next disk trip = (source', batch, [])) :
    Leads tables (pull o disk source) p (.ok (source', batch)) (tables p.outside) :=
  ⟨_, perform_pull h p, rfl, ho.look _⟩

/-- What becomes of the ids when a list of chunks is at its end. -/
def atEnd (failure : Option RunError) (ids : List Int) : Except RunError (List Int) :=
  match failure with
  | none => .ok ids
  | some e => .error e

theorem indexBatches_end (ho : Backed o tables) (failure : Option RunError) (fuel : Nat)
    (ids : List Int) :
    Leads tables (indexBatches o embed disk (fuel + 1) (.listed [] failure) ids) p
      (atEnd failure ids) (tables p.outside) := by
  cases failure with
  | none =>
    have hnext (trip : Trip) :
        (Source.listed [] none).next disk trip = (.closed, .finished, []) := rfl
    exact (pull_leads ho p hnext).bind fun q _ ht => leads_pure ht ids
  | some e =>
    have hnext (trip : Trip) :
        (Source.listed [] (some e)).next disk trip = (.closed, .failed e, []) := rfl
    exact (pull_leads ho p hnext).bind fun q _ ht => leads_throw ht e

/-- A run over a list of chunks indexes them from a program that differs from `p` in neither tables
nor pool. -/
theorem indexBatches_listed (embed : Embedder σ) (disk : Disk) (ho : Backed o tables)
    (p : Program σ) (cs : List Chunk) (failure : Option RunError) :
    ∃ q : Program σ, q.isOpen = p.isOpen ∧ tables q.outside = tables p.outside ∧
      ∀ r t, Leads tables (indexAll o embed cs []) q r t →
        Leads tables (indexBatches o embed disk 2 (.listed cs failure) []) p (r >>= atEnd failure)
          t := by
  cases cs with
  | nil =>
    refine ⟨p, rfl, rfl, fun r t h => ?_⟩
    obtain ⟨q, hq, -, rfl⟩ := h
    obtain ⟨rfl, rfl⟩ := Prod.mk.inj hq
    exact indexBatches_end ho failure 1 []
  | cons c cs =>
    have hnext (trip : Trip) : (Source.listed (c :: cs) failure).next disk trip =
        (.listed [] failure, .chunks (c :: cs), []) := rfl
    obtain ⟨q, hq, hqopen, hqt⟩ := pull_leads ho p hnext
    refine ⟨q, hqopen, hqt, fun r t h => leads_behind hq hqopen ?_⟩
    cases r with
    | error e => exact .bind_error h
    | ok ids =>
      refine h.bind fun q' _ ht => ?_
      rw [← ht]
      exact indexBatches_end ho failure 0 ids

theorem leads_always {α : Type} {a : Action σ α} {r : Except RunError α} {t : Tables} (d : Deed)
    (h : Leads tables a p r t) : Leads tables (always a (leave d)) p r t := by
  obtain ⟨q, hq, hopen, ht⟩ := h
  exact ⟨_, perform_always hq (perform_leave d q), hopen, ht⟩

/-- So does a run with one worker, which closes its source in any case. -/
theorem indexSource_listed (embed : Embedder σ) (disk : Disk) (ho : Backed o tables)
    {workers : Nat} (hw : workers ≤ 1) (p : Program σ) (cs : List Chunk)
    (failure : Option RunError) :
    ∃ q : Program σ, q.isOpen = p.isOpen ∧ tables q.outside = tables p.outside ∧
      ∀ r t, Leads tables (indexAll o embed cs []) q r t →
        Leads tables (indexSource o embed disk workers (.listed cs failure)) p
          (r >>= atEnd failure) t := by
  obtain ⟨q, hopen, ht, hlisted⟩ := indexBatches_listed embed disk ho p cs failure
  refine ⟨q, hopen, ht, fun r t h => ?_⟩
  rw [indexSource, if_pos hw]
  exact leads_always _ (hlisted r t h)

/-! ## Whole runs -/

theorem run_eq (workers : Nat) (source : Source) (pruneRoot : Option String) :
    run o embed disk workers source pruneRoot = (do
      let started ← outside o.clock
      let ids ← indexSource o embed disk workers source
      let pruned ← sweep o pruneRoot ids
      report o started ids pruned) := rfl

theorem report_leads (ho : Backed o tables) (started : Float) (ids : List Int) (pruned : Int) :
    ∃ elapsed, Leads tables (report o started ids pruned) p
      (.ok ⟨ids.length, ids.length, pruned, elapsed⟩) (tables p.outside) := by
  refine ⟨(o.clock p.outside).1 - started, leads_behind (perform_outside _ _) rfl ?_⟩
  exact (leads_log (ho.clock _) _ _ _).bind fun q _ ht => leads_pure ht _

/-- The program when a run has read the clock for the first time. -/
def clocked (o : Outside σ) (p : Program σ) : Program σ :=
  { p with outside := (o.clock p.outside).2 }

/-- Where its source fails, a run fails. -/
theorem run_of_error {workers : Nat} {source : Source} {pruneRoot : Option String} {e : RunError}
    {t : Tables}
    (h : Leads tables (indexSource o embed disk workers source) (clocked o p) (.error e) t) :
    Leads tables (run o embed disk workers source pruneRoot) p (.error e) t := by
  rw [run_eq]
  exact leads_behind (perform_outside _ _) rfl (.bind_error h)

section

variable {workers : Nat} {source : Source} {pruneRoot : Option String} {ids : List Int}
  {q : Program σ} {t : Tables}
  (hsource : (indexSource o embed disk workers source).perform (clocked o p) = (.ok ids, q))
  (hopen : q.isOpen = p.isOpen)

include hsource hopen

/-- Where its source is indexed, a run fails if its deletion does. -/
theorem run_of_sweep_error {e : RunError}
    (h : Leads tables (sweep o pruneRoot ids) q (.error e) t) :
    Leads tables (run o embed disk workers source pruneRoot) p (.error e) t := by
  rw [run_eq]
  exact leads_behind (perform_outside _ _) rfl (leads_behind hsource hopen (.bind_error h))

/-- A run whose source is indexed and whose deletion is carried out tells what it has done. -/
theorem run_of_sweep (ho : Backed o tables) {n : Int}
    (h : Leads tables (sweep o pruneRoot ids) q (.ok n) t) :
    ∃ elapsed, Leads tables (run o embed disk workers source pruneRoot) p
      (.ok ⟨ids.length, ids.length, n, elapsed⟩) t := by
  obtain ⟨q', hq', hopen', ht⟩ := h
  obtain ⟨elapsed, hreport⟩ := report_leads (p := q') ho (o.clock p.outside).1 ids n
  rw [ht] at hreport
  rw [run_eq]
  exact ⟨elapsed, leads_behind (perform_outside _ _) rfl (leads_behind hsource hopen
    (leads_behind hq' hopen' hreport))⟩

end

/-- The number of rows that go at the end of a run, and the tables without them. -/
def swept (t : Tables) (pruneRoot : Option String) (ids : List Int) : Int × Tables :=
  match pruneRoot with
  | some root =>
    ((t.prune root (patternBelow root) (sortedIds ids)).1,
      (t.prune root (patternBelow root) (sortedIds ids)).2)
  | none => (0, t)

theorem sound_swept {t : Tables} (hs : t.Sound) (pruneRoot : Option String) (ids : List Int) :
    (swept t pruneRoot ids).2.Sound := by
  cases pruneRoot with
  | none => exact hs
  | some root => exact Tables.sound_prune root _ _ hs

theorem sweep_ok (ho : Reliable o tables) (hopen : p.isOpen = true) (pruneRoot : Option String)
    (ids : List Int) :
    Leads tables (sweep o pruneRoot ids) p (.ok (swept (tables p.outside) pruneRoot ids).1)
      (swept (tables p.outside) pruneRoot ids).2 := by
  cases pruneRoot with
  | none => exact leads_pure rfl 0
  | some root => exact prune_carried hopen (ho.prune _ _ _ _)

theorem sweep_ends (ho : Backed o tables) (pruneRoot : Option String) (ids : List Int) :
    Leads tables (sweep o pruneRoot ids) p (.ok (swept (tables p.outside) pruneRoot ids).1)
        (swept (tables p.outside) pruneRoot ids).2 ∨
      ∃ e, Leads tables (sweep o pruneRoot ids) p (.error e) (tables p.outside) := by
  cases pruneRoot with
  | none => exact .inl (leads_pure rfl 0)
  | some root =>
    cases hopen : p.isOpen with
    | false => exact .inr (leads_error_of_requireOpen fun h => by simp [hopen] at h)
    | true =>
      rcases ho.write (.prune root (patternBelow root) (sortedIds ids)) p.outside rfl with h | h
      · exact .inl (prune_carried hopen h)
      · exact .inr (prune_refused h)

/-- What a run that succeeds has done behind its source. -/
theorem of_sweep_report (ho : Backed o tables) {started : Float} {pruneRoot : Option String}
    {ids : List Int} {q : Program σ} {stats : Stats}
    (h : (do
      let pruned ← sweep o pruneRoot ids
      report o started ids pruned : Action σ Stats).perform p = (.ok stats, q)) :
    ∃ elapsed, stats = ⟨ids.length, ids.length, (swept (tables p.outside) pruneRoot ids).1,
        elapsed⟩ ∧
      tables q.outside = (swept (tables p.outside) pruneRoot ids).2 := by
  obtain ⟨n, p', hsweep, hreport⟩ := perform_bind_eq_ok h
  rcases sweep_ends (p := p) ho pruneRoot ids with ⟨p'', hp'', -, ht⟩ | ⟨e, p'', hp'', -, -⟩
  · obtain ⟨hn, rfl⟩ := Prod.mk.inj (hsweep.symm.trans hp'')
    obtain rfl := Except.ok.inj hn
    obtain ⟨elapsed, q', hq', -, ht'⟩ := report_leads (p := p') ho started ids _
    obtain ⟨hstats, rfl⟩ := Prod.mk.inj (hreport.symm.trans hq')
    exact ⟨elapsed, Except.ok.inj hstats, ht'.trans ht⟩
  · cases (Prod.mk.inj (hsweep.symm.trans hp'')).1

/-- A run that fails behind its source has deleted nothing. -/
theorem of_sweep_report_error (ho : Backed o tables) {started : Float} {pruneRoot : Option String}
    {ids : List Int} {q : Program σ} {e : RunError}
    (h : (do
      let pruned ← sweep o pruneRoot ids
      report o started ids pruned : Action σ Stats).perform p = (.error e, q)) :
    tables q.outside = tables p.outside := by
  rcases sweep_ends (p := p) ho pruneRoot ids with ⟨p', hp', -, -⟩ | ⟨e', p', hp', -, ht⟩
  · obtain ⟨elapsed, q', hq', -⟩ := report_leads (p := p') ho started ids _
    rw [perform_bind_ok hp', hq'] at h
    cases (Prod.mk.inj h).1
  · rw [perform_bind_error hp'] at h
    obtain ⟨-, rfl⟩ := Prod.mk.inj h
    exact ht

/-- What a run over the chunks `cs` that succeeds has made of the tables `t`: it has written `ws`,
it has got the id of each chunk, and then it has deleted what else was at or below its root. -/
inductive Finished (literal : String → String) (t : Tables) (cs : List Chunk)
    (pruneRoot : Option String) (ws : List Write) : Stats → Tables → Prop
  | intro {u : Tables} {ids : List Int} (elapsed : Float) (whole : Write.Whole cs ws)
      (written : t.Written literal ws u) (told : ids.Perm (u.idsOf cs)) :
      Finished literal t cs pruneRoot ws
        ⟨cs.length, cs.length, (swept u pruneRoot ids).1, elapsed⟩ (swept u pruneRoot ids).2

/-- A run that nothing disturbs indexes all chunks and then deletes what it did not touch. -/
theorem run_ok (disk : Disk) (ho : Reliable o tables) (he : Answers embed tables vector)
    (hs : (tables p.outside).Sound) (hopen : p.isOpen = true) {workers : Nat} (hw : workers ≤ 1)
    (cs : List Chunk) (pruneRoot : Option String) :
    ∃ stats t, Finished (vectorLiteral ∘ vector) (tables p.outside) cs pruneRoot
        (Write.inOrder cs) stats t ∧
      Leads tables (run o embed disk workers (.listed cs none) pruneRoot) p (.ok stats) t := by
  have htables : tables (clocked o p).outside = tables p.outside := ho.clock _
  obtain ⟨q, hqopen, hqt, hlisted⟩ :=
    indexSource_listed embed disk ho.toBacked hw (clocked o p) cs none
  rw [htables] at hqt
  obtain ⟨u, hwritten, hall⟩ := indexAll_ok ho he (hqt ▸ hs) (hqopen.trans hopen) cs []
  rw [hqt] at hwritten
  obtain ⟨q', hsource, hopen', ht'⟩ := hlisted _ _ hall
  have hsweep := sweep_ok ho (hopen'.trans hopen) pruneRoot (u.idsOf cs)
  rw [ht'] at hsweep
  obtain ⟨elapsed, hrun⟩ := run_of_sweep hsource hopen' ho.toBacked hsweep
  rw [List.nil_append, Tables.length_idsOf] at hrun
  exact ⟨_, _, .intro elapsed (Write.whole_inOrder cs) hwritten (.refl _), hrun⟩

/-- How a run over `cs` may end, and the tables that it may leave from `t`. -/
inductive Left (literal : String → String) (t : Tables) (cs : List Chunk)
    (pruneRoot : Option String) : Except RunError Stats → Tables → Prop
  /-- All chunks are indexed, and what was not touched is deleted. -/
  | finished {stats : Stats} {u : Tables}
      (h : Finished literal t cs pruneRoot (Write.inOrder cs) stats u) :
      Left literal t cs pruneRoot (.ok stats) u
  /-- All chunks are indexed, but then the source or the deletion failed. -/
  | unswept (e : RunError) {u : Tables} (h : t.Written literal (Write.inOrder cs) u) :
      Left literal t cs pruneRoot (.error e) u
  /-- The chunks before one that failed are indexed, and nothing of that one is stored. -/
  | before (e : RunError) {done rest : List Chunk} {c : Chunk} {u : Tables}
      (hcs : cs = done ++ c :: rest) (h : t.Written literal (Write.inOrder done) u) :
      Left literal t cs pruneRoot (.error e) u
  /-- The chunks before one that failed are indexed, and the row of that one is stored. -/
  | midway (e : RunError) {done rest : List Chunk} {c : Chunk} {id : Int} {u v : Tables}
      (hcs : cs = done ++ c :: rest) (h : t.Written literal (Write.inOrder done) u)
      (hc : u.Stores (chunkRow c) id v) : Left literal t cs pruneRoot (.error e) v

/-- **However a run ends**, it leaves tables that `Left` tells. -/
theorem run_left (disk : Disk) (ho : Backed o tables) (he : Embeds embed tables vector)
    (hs : (tables p.outside).Sound) {workers : Nat} (hw : workers ≤ 1) (cs : List Chunk)
    (failure : Option RunError) (pruneRoot : Option String) :
    ∃ r t, Leads tables (run o embed disk workers (.listed cs failure) pruneRoot) p r t ∧
      Left (vectorLiteral ∘ vector) (tables p.outside) cs pruneRoot r t := by
  have htables : tables (clocked o p).outside = tables p.outside := ho.clock _
  obtain ⟨q, -, hqt, hlisted⟩ := indexSource_listed embed disk ho hw (clocked o p) cs failure
  rw [htables] at hqt
  have hends := indexAll_ends ho he (hqt ▸ hs) cs []
  rw [hqt] at hends
  rcases hends with ⟨u, hwritten, hall⟩ |
    ⟨e, done, c, rest, u, hcs, hwritten, hfail | ⟨id, v, hstore, hfail⟩⟩
  rotate_left
  · exact ⟨_, _, run_of_error (hlisted _ _ hfail), .before e hcs hwritten⟩
  · exact ⟨_, _, run_of_error (hlisted _ _ hfail), .midway e hcs hwritten hstore⟩
  cases failure with
  | some e => exact ⟨_, _, run_of_error (hlisted _ _ hall), .unswept e hwritten⟩
  | none =>
    obtain ⟨q', hsource, hopen, ht⟩ := hlisted _ _ hall
    rcases sweep_ends (p := q') ho pruneRoot (u.idsOf cs) with hsweep | ⟨e, hsweep⟩
    · rw [ht] at hsweep
      obtain ⟨elapsed, hrun⟩ := run_of_sweep hsource hopen ho hsweep
      rw [List.nil_append, Tables.length_idsOf] at hrun
      exact ⟨_, _, hrun, .finished (.intro elapsed (Write.whole_inOrder cs) hwritten (.refl _))⟩
    · rw [ht] at hsweep
      exact ⟨_, _, run_of_sweep_error hsource hopen hsweep, .unswept e hwritten⟩

end

end DocSearch.Index
