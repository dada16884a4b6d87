import DocSearch.Proofs.Doc.Course
import DocSearch.Proofs.Index.Turns

/-!
# What a source gives

`Source.Gives` tells the batches of a source and how it ends while nobody trips the token. A tripped
token can only make a source fail (`next_of_trip`), so a run that succeeds has taken these batches
and no others. Lists and walks come to their end before the bound of `Source.bound` is reached.
-/

namespace DocSearch.Index

open Doc Files

variable {disk : Disk}

namespace Source

/-- The batches of a source whose token nobody trips, and the failure at its end, if there is
one. -/
inductive Gives (disk : Disk) : Source → List (List Chunk) → Option RunError → Prop
  | finished {source source' : Source} {ls : List LogLine}
      (h : source.next disk none = (source', .finished, ls)) : Gives disk source [] none
  | failed {source source' : Source} {e : RunError} {ls : List LogLine}
      (h : source.next disk none = (source', .failed e, ls)) : Gives disk source [] (some e)
  | chunks {source source' : Source} {cs : List Chunk} {ls : List LogLine}
      {bs : List (List Chunk)} {ending : Option RunError}
      (h : source.next disk none = (source', .chunks cs, ls))
      (rest : Gives disk source' bs ending) : Gives disk source (cs :: bs) ending

/-! ## Tripped tokens -/

theorem visit_of_trip (disk : Disk) (w : Walk) (trip : Trip) :
    w.visit disk trip = w.visit disk none ∨
      ∃ w' e ls, w.visit disk trip = (w', .failed e, ls) := by
  cases trip with
  | none => exact .inl rfl
  | some reason =>
    have henter (w : Walk) (p : Place) (others : List Place) :
        ∃ w' e ls, Walk.enter disk (some reason) w p others = (w', .failed e, ls) :=
      ⟨_, _, _, Walk.enter_tripped reason⟩
    unfold Walk.visit
    split
    · exact .inl rfl
    · split
      · exact .inl rfl
      · exact .inr (henter _ _ _)
      · exact .inl rfl
    · split
      · exact .inl rfl
      · split
        · exact .inl rfl
        · exact .inr (henter _ _ _)

/-- A tripped token changes nothing, or it makes the source fail. -/
theorem next_of_trip (disk : Disk) (source : Source) (trip : Trip) :
    source.next disk trip = source.next disk none ∨
      ∃ source' e ls, source.next disk trip = (source', .failed e, ls) := by
  cases source with
  | listed cs failure => cases cs <;> cases failure <;> exact .inl rfl
  | closed => exact .inl rfl
  | walking w =>
    rcases visit_of_trip disk w trip with h | ⟨w', e, ls, h⟩
    · exact .inl (by rw [next, next, h])
    · exact .inr ⟨_, _, _, by rw [next, h]⟩

/-- What comes next from a source, whatever the token shows: what it gives, or a failure. -/
theorem Gives.next_cases {source source' : Source} {bs : List (List Chunk)}
    {ending : Option RunError} (h : Gives disk source bs ending) {trip : Trip} {batch : Batch}
    {ls : List LogLine} (hnext : source.next disk trip = (source', batch, ls)) :
    (∃ e, batch = .failed e) ∨ (batch = .finished ∧ bs = [] ∧ ending = none) ∨
      ∃ cs bs', batch = .chunks cs ∧ bs = cs :: bs' ∧ Gives disk source' bs' ending := by
  rcases next_of_trip disk source trip with hsame | ⟨source'', e, ls', hfailed⟩
  · rw [hsame] at hnext
    cases h with
    | finished h =>
      obtain ⟨-, hbatch, -⟩ := by simpa using h.symm.trans hnext
      exact .inr (.inl ⟨hbatch.symm, rfl, rfl⟩)
    | failed h =>
      obtain ⟨-, hbatch, -⟩ := by simpa using h.symm.trans hnext
      exact .inl ⟨_, hbatch.symm⟩
    | chunks h rest =>
      obtain ⟨rfl, hbatch, -⟩ := by simpa using h.symm.trans hnext
      exact .inr (.inr ⟨_, _, hbatch.symm, rfl, rest⟩)
  · obtain ⟨-, hbatch, -⟩ := by simpa using hfailed.symm.trans hnext
    exact .inl ⟨e, hbatch.symm⟩

/-- A source whose end is no failure does not fail while nobody trips the token. -/
theorem Gives.next_ne_failed {source : Source} {bs : List (List Chunk)}
    (h : Gives disk source bs none) {source' : Source} {ls : List LogLine} (e : RunError) :
    source.next disk none ≠ (source', .failed e, ls) := by
  intro hfailed
  cases h with
  | finished h => simp [h] at hfailed
  | chunks h => simp [h] at hfailed

theorem Gives.ends {source : Source} {bs : List (List Chunk)} {ending : Option RunError}
    (h : Gives disk source bs ending) {fuel : Nat} (hfuel : bs.length < fuel) :
    source.Ends disk fuel := by
  induction fuel generalizing source bs with
  | zero => exact absurd hfuel (Nat.not_lt_zero _)
  | succ fuel ih =>
    intro trip
    rcases hnext : source.next disk trip with ⟨source', batch, ls⟩
    rcases h.next_cases hnext with ⟨e, rfl⟩ | ⟨rfl, -⟩ | ⟨cs, bs', rfl, rfl, rest⟩
    · trivial
    · trivial
    · exact ih rest (by simpa using hfuel)

/-! ## Lists -/

theorem gives_listed (disk : Disk) (cs : List Chunk) (failure : Option RunError) :
    ∃ bs, Gives disk (.listed cs failure) bs failure ∧ bs.flatten = cs ∧ bs.length < 2 := by
  have hend : Gives disk (.listed [] failure) [] failure := by
    cases failure with
    | none => exact .finished rfl
    | some e => exact .failed rfl
  cases cs with
  | nil => exact ⟨[], hend, rfl, by simp⟩
  | cons c cs => exact ⟨[c :: cs], .chunks rfl hend, by simp, by simp⟩

/-! ## Walks -/

theorem next_enter {w : Walk} {q : Place} {others : List Place}
    (h : ∀ trip, w.visit disk trip = Walk.enter disk trip w q others) :
    ∃ ls, (Source.walking w).next disk none =
      (.walking { w with stage := .behind q others }, .chunks (own disk q), ls) := by
  obtain ⟨ls, henter⟩ := Walk.enter_untripped disk w q others
  exact ⟨ls, by rw [next, h, henter]⟩

theorem next_unlisted {w : Walk} {p : Place} {ds : List Place} (h : Walk.Ahead disk w p ds)
    {e : PathError} (he : disk.list p = .error e) :
    (Source.walking w).next disk none = (.closed, .failed (.unwalked p.path e), []) := by
  rw [next, Walk.visit_unlisted h he]
  rfl

/-- A walk that has folders to come gives the chunks of each of them, up to one that cannot be
listed. -/
theorem gives_ahead (htop : disk.top.Proper) {w : Walk} {p : Place} {ds : List Place}
    (h : Walk.Ahead disk w p ds) :
    ∃ bs ending, Gives disk (.walking w) bs ending ∧ bs.length ≤ ds.length ∧
      (ending = none → bs = ds.map (own disk) ∧ ∀ q ∈ p :: ds, Listable disk q) ∧
      ((∀ q ∈ p :: ds, Listable disk q) → ending = none) := by
  induction ds generalizing w p with
  | nil =>
    by_cases hlist : Listable disk p
    · have hnext : (Source.walking w).next disk none = (.closed, .finished, []) := by
        rw [next, Walk.visit_end htop h hlist]
      exact ⟨[], none, .finished hnext, Nat.le_refl _, fun _ => ⟨rfl, by simpa using hlist⟩,
        fun _ => rfl⟩
    · obtain ⟨e, he⟩ := Walk.not_listable hlist
      exact ⟨[], _, .failed (next_unlisted h he), Nat.le_refl _, by simp,
        fun hall => absurd (hall p List.mem_cons_self) hlist⟩
  | cons q ds ih =>
    by_cases hlist : Listable disk p
    · obtain ⟨others, hvisit, hahead⟩ := Walk.visit_next htop h hlist
      obtain ⟨ls, hnext⟩ := next_enter hvisit
      obtain ⟨bs, ending, hbs, hlength, hnone, hall⟩ := ih hahead
      refine ⟨own disk q :: bs, ending, .chunks hnext hbs, Nat.succ_le_succ hlength,
        fun hending => ?_, fun hlisted => hall (List.forall_mem_cons.1 hlisted).2⟩
      obtain ⟨rfl, hlisted⟩ := hnone hending
      exact ⟨rfl, List.forall_mem_cons.2 ⟨hlist, hlisted⟩⟩
    · obtain ⟨e, he⟩ := Walk.not_listable hlist
      exact ⟨[], _, .failed (next_unlisted h he), Nat.zero_le _, by simp,
        fun hall => absurd (hall p List.mem_cons_self) hlist⟩

/-- A walk from a folder gives the chunks of the folders in pre-order. It ends without a failure
exactly if each of them can be listed, and then it has given them all. -/
theorem gives_start (htop : disk.top.Proper) {root : String} (exclude : List String)
    {entries : List (String × Entry)}
    (hroot : disk.entry ⟨normalise root, []⟩ false = .ok (.folder entries)) :
    ∃ bs ending, Gives disk (.walking (.start root exclude)) bs ending ∧
      bs.length < (Source.walking (.start root exclude)).bound disk ∧
      (ending = none →
        bs = (preorder exclude ⟨normalise root, []⟩ (.folder entries)).map (own disk) ∧
        ∀ q ∈ preorder exclude ⟨normalise root, []⟩ (.folder entries), Listable disk q) ∧
      ((∀ q ∈ preorder exclude ⟨normalise root, []⟩ (.folder entries), Listable disk q) →
        ending = none) := by
  have hvisit (trip : Trip) : (Walk.start root exclude).visit disk trip =
      Walk.enter disk trip (.start root exclude) ⟨normalise root, []⟩ [] :=
    visit_start_folder hroot trip
  have hahead : Walk.Ahead disk
      { Walk.start root exclude with stage := .behind ⟨normalise root, []⟩ [] }
      ⟨normalise root, []⟩ _ := ahead_start (stands_of_entry hroot)
  obtain ⟨ls, hnext⟩ := next_enter hvisit
  obtain ⟨bs, ending, hbs, hlength, hnone, hall⟩ := gives_ahead htop hahead
  have hbounded := hahead.bounded
  rw [preorder_folder]
  refine ⟨_, ending, .chunks hnext hbs, ?_, fun hending => ?_, hall⟩
  · simp only [List.length_cons, bound]
    omega
  · obtain ⟨rfl, hlisted⟩ := hnone hending
    exact ⟨rfl, hlisted⟩

end Source

/-! ## One worker -/

section

open DocSearch.Action Store

variable {σ : Type} {o : Outside σ} {embed : Embedder σ} {tables : σ → Tables}
  {vector : String → List Float} {source : Source} {bs : List (List Chunk)}
  {ending : Option RunError}

/-- A run with one worker that succeeds has indexed what its source gives. -/
theorem of_indexBatches (ho : Backed o tables) (he : Embeds embed tables vector)
    (hgives : source.Gives disk bs ending) {fuel : Nat} (hfuel : bs.length < fuel)
    {p q : Program σ} (hs : (tables p.outside).Sound) {done ids : List Int}
    (h : (indexBatches o embed disk fuel source done).perform p = (.ok ids, q)) :
    ending = none ∧ ids = done ++ (tables q.outside).idsOf bs.flatten ∧
      (tables p.outside).Written (vectorLiteral ∘ vector) (Write.inOrder bs.flatten)
        (tables q.outside) := by
  induction fuel generalizing source bs p done with
  | zero => exact absurd hfuel (Nat.not_lt_zero _)
  | succ fuel ih =>
    obtain ⟨source', batch, ls, p', hnext, hpull, -, hlook⟩ := exists_pull o disk source p
    have htables : tables p'.outside = tables p.outside := by rw [hlook]; exact ho.look _
    rw [indexBatches, perform_bind_ok hpull] at h
    rcases hgives.next_cases hnext with ⟨e, rfl⟩ | ⟨rfl, rfl, rfl⟩ | ⟨cs, bs', rfl, rfl, hrest⟩
    · cases (Prod.mk.inj h).1
    · obtain ⟨hids, rfl⟩ := Prod.mk.inj h
      obtain rfl := Except.ok.inj hids
      rw [htables]
      exact ⟨rfl, (List.append_nil _).symm, .nil⟩
    · obtain ⟨some', p'', hcs, hrun⟩ := perform_bind_eq_ok h
      rw [← htables] at hs ⊢
      rcases indexAll_ends ho he hs cs done with ⟨u, hu, q', hq', -, rfl⟩ |
        ⟨e, before, c, after, u, -, -, ⟨q', hq', -⟩ | ⟨id, v, -, q', hq', -⟩⟩
      · obtain ⟨hsome, rfl⟩ := Prod.mk.inj (hcs.symm.trans hq')
        obtain rfl := Except.ok.inj hsome
        obtain ⟨hending, hids, hwritten⟩ := ih hrest (by simpa using hfuel) (hu.sound hs) hrun
        have hrows : ∀ c ∈ cs, .row c ∈ Write.inOrder cs := fun c hc => Write.mem_inOrder.2 hc
        have hkept := hu.idsOf_append hs hwritten hrows
        rw [List.flatten_cons, Tables.idsOf_append, hkept, Write.inOrder_append]
        exact ⟨hending, by rw [hids, List.append_assoc], hu.append hwritten⟩
      · cases (Prod.mk.inj (hcs.symm.trans hq')).1
      · cases (Prod.mk.inj (hcs.symm.trans hq')).1

/-- However the loop of a run with one worker ends, it has done nothing but write. -/
theorem indexBatches_written (ho : Backed o tables) (he : Embeds embed tables vector) (fuel : Nat)
    {p q : Program σ} (hs : (tables p.outside).Sound) {done : List Int}
    {r : Except RunError (List Int)}
    (h : (indexBatches o embed disk fuel source done).perform p = (r, q)) :
    ∃ ws, (tables p.outside).Written (vectorLiteral ∘ vector) ws (tables q.outside) := by
  induction fuel generalizing source p done with
  | zero =>
    obtain ⟨-, rfl⟩ := Prod.mk.inj h
    exact ⟨[], .nil⟩
  | succ fuel ih =>
    obtain ⟨source', batch, ls, p', -, hpull, -, hlook⟩ := exists_pull o disk source p
    have htables : tables p'.outside = tables p.outside := by rw [hlook]; exact ho.look _
    rw [indexBatches, perform_bind_ok hpull] at h
    rw [← htables] at hs ⊢
    cases batch with
    | finished =>
      obtain ⟨-, rfl⟩ := Prod.mk.inj h
      exact ⟨[], .nil⟩
    | failed e =>
      obtain ⟨-, rfl⟩ := Prod.mk.inj h
      exact ⟨[], .nil⟩
    | chunks cs =>
      rcases indexAll_ends ho he hs cs done with ⟨u, hu, q', hq', -, rfl⟩ |
        ⟨e, before, c, after, u, -, hu, ⟨q', hq', -, rfl⟩ | ⟨id, v, hstore, q', hq', -, rfl⟩⟩
      · obtain ⟨ws, hws⟩ := ih (hu.sound hs) ((perform_bind_ok hq').symm.trans h)
        exact ⟨_, hu.append hws⟩
      · obtain ⟨-, rfl⟩ := Prod.mk.inj ((perform_bind_error hq').symm.trans h)
        exact ⟨_, hu⟩
      · obtain ⟨-, rfl⟩ := Prod.mk.inj ((perform_bind_error hq').symm.trans h)
        exact ⟨_, hu.row hstore⟩

/-- Where nothing disturbs a run with one worker, it comes to the end of its source. -/
theorem indexBatches_ok (ho : Reliable o tables) (he : Answers embed tables vector)
    (hlook : ∀ s, (o.look s).1 = none) (hgives : source.Gives disk bs none) {fuel : Nat}
    (hfuel : bs.length < fuel) {p : Program σ} (hs : (tables p.outside).Sound)
    (hopen : p.isOpen = true) (done : List Int) :
    ∃ ids t, Leads tables (indexBatches o embed disk fuel source done) p (.ok ids) t := by
  induction fuel generalizing source bs p done with
  | zero => exact absurd hfuel (Nat.not_lt_zero _)
  | succ fuel ih =>
    obtain ⟨source', batch, ls, p', hnext, hpull, hopen', houtside⟩ := exists_pull o disk source p
    have htables : tables p'.outside = tables p.outside := by rw [houtside]; exact ho.look _
    rw [hlook] at hnext
    rw [indexBatches]
    rcases hgives.next_cases hnext with ⟨e, rfl⟩ | ⟨rfl, rfl, -⟩ | ⟨cs, bs', rfl, rfl, hrest⟩
    · exact absurd hnext (hgives.next_ne_failed e)
    · exact ⟨done, _, leads_behind hpull hopen' (leads_pure rfl done)⟩
    · obtain ⟨u, hu, q, hq, hqopen, rfl⟩ :=
        indexAll_ok ho he (htables ▸ hs) (hopen'.trans hopen) cs done
      obtain ⟨ids, t, hall⟩ := ih hrest (by simpa using hfuel) (hu.sound (htables ▸ hs))
        (hqopen.trans (hopen'.trans hopen)) (done ++ (tables q.outside).idsOf cs)
      exact ⟨ids, t, leads_behind hpull hopen' (leads_behind hq hqopen hall)⟩

variable (hgives : source.Gives disk bs ending) (hbound : bs.length < source.bound disk)
  {pruneRoot : Option String} {p : Program σ} (hs : (tables p.outside).Sound)

include hgives hbound hs

/-- A run with one worker that succeeds has indexed what its source gives, and then it has deleted
what it did not touch. -/
theorem of_run (ho : Backed o tables) (he : Embeds embed tables vector) {workers : Nat}
    (hw : workers ≤ 1) {stats : Stats} {q : Program σ}
    (h : (run o embed disk workers source pruneRoot).perform p = (.ok stats, q)) :
    ending = none ∧ Finished (vectorLiteral ∘ vector) (tables p.outside) bs.flatten pruneRoot
      (Write.inOrder bs.flatten) stats (tables q.outside) := by
  have htables : tables (clocked o p).outside = tables p.outside := ho.clock _
  rw [run_eq, perform_bind_ok (perform_outside _ _)] at h
  obtain ⟨ids, p₁, hsource, hrest⟩ := perform_bind_eq_ok h
  rw [indexSource, if_pos hw] at hsource
  rcases hbatches : (indexBatches o embed disk (source.bound disk) source []).perform
    (clocked o p) with ⟨r, p₂⟩
  obtain ⟨rfl, rfl⟩ := Prod.mk.inj
    ((perform_always hbatches (perform_leave _ p₂)).symm.trans hsource)
  obtain ⟨hending, rfl, hu⟩ := of_indexBatches ho he hgives hbound (htables.symm ▸ hs) hbatches
  obtain ⟨elapsed, hstats, hq⟩ := of_sweep_report ho hrest
  rw [htables] at hu
  rw [List.nil_append] at hstats hq
  rw [hstats, hq, Tables.length_idsOf]
  exact ⟨hending, .intro elapsed (Write.whole_inOrder _) hu (.refl _)⟩

/-- Where nothing disturbs a run over a source that ends without a failure, it succeeds. -/
theorem run_of_gives (ho : Reliable o tables) (he : Answers embed tables vector)
    (hlook : ∀ s, (o.look s).1 = none) (hending : ending = none) (hopen : p.isOpen = true) :
    ∃ stats q, (run o embed disk 1 source pruneRoot).perform p = (.ok stats, q) ∧
      q.isOpen = true := by
  have htables : tables (clocked o p).outside = tables p.outside := ho.clock _
  obtain ⟨ids, q, hsource, hqopen⟩ : ∃ ids q,
      (indexSource o embed disk 1 source).perform (clocked o p) = (.ok ids, q) ∧
        q.isOpen = p.isOpen := by
    obtain ⟨ids, t, hbatches⟩ := indexBatches_ok (p := clocked o p) ho he hlook
      (hending ▸ hgives) hbound (htables.symm ▸ hs) hopen []
    obtain ⟨q, hq, hqopen, -⟩ := leads_always .sourceClosed hbatches
    rw [indexSource, if_pos (Nat.le_refl 1)]
    exact ⟨ids, q, hq, hqopen⟩
  obtain ⟨elapsed, q', hq', hqopen', -⟩ := run_of_sweep hsource hqopen ho.toBacked
    (sweep_ok ho (hqopen.trans hopen) pruneRoot ids)
  exact ⟨_, q', hq', hqopen'.trans hopen⟩

end

end DocSearch.Index
