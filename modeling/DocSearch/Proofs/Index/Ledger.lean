import DocSearch.Proofs.Index.Shift
import DocSearch.Proofs.Index.Supply

/-!
# What a shift has done

Whatever the interleaving, the tables behind a course are those behind its writes, and every task
has written what its stage tells (`Crew.Sane`). Unless the crew has failed, its chunks are those of
its tasks and those whose results have been collected (`Crew.Settled`), and what it has not taken
yet is still to come from its source (`Shift.Owes`).

`ledger_step` says that each act keeps all this, and **`Together.ok`** what it means for a run that
succeeds: each chunk of the source has been stored with its vector, each id has been collected once,
and nothing else has been written.
-/

namespace DocSearch.Index

open DocSearch.Action Files Store

variable {σ : Type} {o : Outside σ} {embed : Embedder σ} {disk : Disk} {tables : σ → Tables}
  {vector : String → List Float} {t₀ : Tables} {ws : List Write}

/-! ## Tasks -/

/-- What a task has written, as its stage tells: it is among the writes `ws`, which have led to the
tables `t`. -/
def Task.Told (vector : String → List Float) (t : Tables) (ws : List Write) (k : Task) : Prop :=
  match k.stage with
  | .stored id => .row k.chunk ∈ ws ∧ id = t.idFor k.chunk.identity
  | .embedded id v => .row k.chunk ∈ ws ∧ id = t.idFor k.chunk.identity ∧ v = vector k.chunk.text
  | .ended (.ok id) => .vector k.chunk ∈ ws ∧ id = t.idFor k.chunk.identity
  | _ => True

/-- Tables `u` in which the chunks whose rows were stored have the ids that they have in `t`. -/
def Lasting (ws : List Write) (t u : Tables) : Prop :=
  ∀ c, .row c ∈ ws → u.idFor c.identity = t.idFor c.identity

/-- What a task has told stays true as long as ids do. -/
theorem Task.Told.append {t u : Tables} {k : Task}
    (ht : t₀.Written (vectorLiteral ∘ vector) ws t) (hids : Lasting ws t u)
    (h : k.Told vector t ws) (new : List Write) : k.Told vector u (ws ++ new) := by
  unfold Task.Told at h ⊢
  split at h
  · obtain ⟨hrow, rfl⟩ := h
    exact ⟨List.mem_append_left _ hrow, (hids _ hrow).symm⟩
  · obtain ⟨hrow, rfl, rfl⟩ := h
    exact ⟨List.mem_append_left _ hrow, (hids _ hrow).symm, rfl⟩
  · obtain ⟨hvector, rfl⟩ := h
    exact ⟨List.mem_append_left _ hvector, (hids _ (ht.row_mem hvector)).symm⟩
  · trivial

/-- How a step from `p` has left a task and the tables, which were those behind `ws`. -/
structure Task.Stepped (tables : σ → Tables) (vector : String → List Float) (t₀ : Tables)
    (ws : List Write) (k : Task) (p : Program σ) (k' : Task) (q : Program σ) : Prop where
  chunk : k'.chunk = k.chunk
  own : ∀ w ∈ k.writes k', w.chunk = k.chunk
  behind : t₀.Written (vectorLiteral ∘ vector) (ws ++ k.writes k') (tables q.outside)
  lasting : Lasting ws (tables p.outside) (tables q.outside)
  told : k'.Told vector (tables q.outside) (ws ++ k.writes k')

section

variable {p q : Program σ} (hp : t₀.Written (vectorLiteral ∘ vector) ws (tables p.outside))

include hp

theorem stepped_of_nothing {k k' : Task} (hchunk : k'.chunk = k.chunk) (hwrites : k.writes k' = [])
    (hq : tables q.outside = tables p.outside) (hk' : k'.Told vector (tables p.outside) ws) :
    k.Stepped tables vector t₀ ws p k' q where
  chunk := hchunk
  own := by simp [hwrites]
  behind := by rwa [hwrites, List.append_nil, hq]
  lasting _ _ := by rw [hq]
  told := by rwa [hwrites, List.append_nil, hq]

/-- A step of a task writes what `Task.writes` tells, and what its stage tells then is so. -/
theorem advance_stepped (ho : Backed o tables) (he : Embeds embed tables vector) (hs : t₀.Sound)
    {k k' : Task} (hk : k.Told vector (tables p.outside) ws) {trip : Trip}
    (hadvance : k.advance o embed trip p = (k', q)) : k.Stepped tables vector t₀ ws p k' q := by
  have hsound := hp.sound hs
  obtain ⟨c, stage⟩ := k
  cases stage with
  | queued =>
    obtain ⟨rfl, rfl⟩ := Prod.mk.inj hadvance
    exact stepped_of_nothing hp rfl rfl rfl trivial
  | ended r =>
    obtain ⟨rfl, rfl⟩ := Prod.mk.inj hadvance
    exact stepped_of_nothing hp rfl rfl rfl hk
  | begun =>
    rcases upsertChunk_ends ho c (p := p) with
      ⟨-, id, u, hstore, q', hq', -, rfl⟩ | ⟨e, q', hq', -, ht⟩
    · simp only [Task.advance, hq'] at hadvance
      obtain ⟨rfl, rfl⟩ := Prod.mk.inj hadvance
      refine ⟨rfl, by simp [Task.writes, Write.chunk], hp.row hstore, fun d hd => ?_,
        by simp [Task.writes], (hstore.idFor_eq hsound).symm⟩
      obtain ⟨h, hh⟩ := hp.exists_holding? hs hd
      obtain ⟨h', hh', hid⟩ := hstore.exists_holding? hsound hh
      rw [Tables.idFor_of_holding? hh', hid, Tables.idFor_of_holding? hh]
    · simp only [Task.advance, hq'] at hadvance
      obtain ⟨rfl, rfl⟩ := Prod.mk.inj hadvance
      exact stepped_of_nothing hp rfl rfl ht trivial
  | stored id =>
    rcases he trip c.text p with ⟨q', hq', -, ht⟩ | ⟨e, q', hq', -, ht⟩
    · simp only [Task.advance, hq'] at hadvance
      obtain ⟨rfl, rfl⟩ := Prod.mk.inj hadvance
      exact stepped_of_nothing hp rfl rfl ht ⟨hk.1, hk.2, rfl⟩
    · simp only [Task.advance, hq'] at hadvance
      obtain ⟨rfl, rfl⟩ := Prod.mk.inj hadvance
      exact stepped_of_nothing hp rfl rfl ht trivial
  | embedded id v =>
    obtain ⟨hrow, rfl, rfl⟩ : Write.row c ∈ ws ∧ id = (tables p.outside).idFor c.identity ∧
      v = vector c.text := hk
    rcases settle_ends ho c ((tables p.outside).idFor c.identity) (vector c.text) (p := p) with
      ⟨-, q', hq', -, ht⟩ | ⟨e, q', hq', -, ht⟩
    · simp only [Task.advance, hq'] at hadvance
      obtain ⟨rfl, rfl⟩ := Prod.mk.inj hadvance
      have hids : Lasting ws (tables p.outside) (tables q'.outside) := by
        intro d hd
        obtain ⟨h₀, hh₀⟩ := hp.exists_holding? hs hrow
        obtain ⟨h, hh⟩ := hp.exists_holding? hs hd
        rw [Tables.idFor_of_holding? hh₀] at ht
        obtain ⟨h', hh', hid⟩ :=
          Tables.exists_holding?_setVector hsound hh hh₀ (vectorLiteral (vector c.text))
        rw [ht, Tables.idFor_of_holding? hh', hid, Tables.idFor_of_holding? hh]
      refine ⟨rfl, by simp [Task.writes, Write.chunk], ?_, hids, by simp [Task.writes],
        (hids c hrow).symm⟩
      rw [ht]
      exact hp.vector hrow
    · simp only [Task.advance, hq'] at hadvance
      obtain ⟨rfl, rfl⟩ := Prod.mk.inj hadvance
      exact stepped_of_nothing hp rfl rfl ht trivial

end

/-! ## Crews -/

/-- The tables behind a crew are those behind what its tasks have written, and each task has written
what its stage tells. The tasks and what was written are for the chunks `taken`. -/
structure Crew.Sane (tables : σ → Tables) (vector : String → List Float) (t₀ : Tables)
    (taken : List Chunk) (ws : List Write) (crew : Crew σ) : Prop where
  behind : t₀.Written (vectorLiteral ∘ vector) ws (tables crew.program.outside)
  known : ∀ w ∈ ws, w.chunk ∈ taken
  own : ∀ k ∈ crew.tasks, k.chunk ∈ taken
  told : ∀ k ∈ crew.tasks, k.Told vector (tables crew.program.outside) ws

/-- Of the chunks `taken`, each one is that of a task, or it is among `done`, its vector has been
stored and its id has been collected. -/
structure Crew.Settled (tables : σ → Tables) (taken done : List Chunk) (ws : List Write)
    (crew : Crew σ) : Prop where
  shared : taken.Perm (crew.tasks.map (·.chunk) ++ done)
  noted : crew.collected = (tables crew.program.outside).idsOf done
  stored : ∀ c ∈ done, .vector c ∈ ws

variable {taken done : List Chunk} {crew crew' : Crew σ}

/-- Tasks may go, and the program may change, as long as the tables do not. -/
theorem Crew.Sane.of_subset (h : crew.Sane tables vector t₀ taken ws)
    (hprogram : tables crew'.program.outside = tables crew.program.outside)
    (htasks : ∀ k ∈ crew'.tasks, k ∈ crew.tasks) : crew'.Sane tables vector t₀ taken ws where
  behind := hprogram ▸ h.behind
  known := h.known
  own k hk := h.own k (htasks k hk)
  told k hk := hprogram ▸ h.told k (htasks k hk)

theorem Crew.Sane.stop (h : crew.Sane tables vector t₀ taken ws) (ho : Backed o tables)
    (e : RunError) : (crew.stop o e).Sane tables vector t₀ taken ws := by
  refine h.of_subset ?_ fun k hk => Crew.mem_tasks_stop hk
  show tables (Crew.rest _).program.outside = _
  rw [Crew.rest_program]
  exact ho.look _

theorem writes_set {i : Nat} {k k' : Task} (hk : crew.tasks[i]? = some k)
    (htasks : crew'.tasks = crew.tasks.set i k') : crew.writes crew' i = k.writes k' := by
  have hi : i < crew.tasks.length := (List.getElem?_eq_some_iff.1 hk).1
  have hk' : crew'.tasks[i]? = some k' := by rw [htasks, List.getElem?_set_self hi]
  simp only [Crew.writes, hk, hk']

/-- A step of one task leaves the others as they are. -/
theorem Crew.Sane.of_stepped (h : crew.Sane tables vector t₀ taken ws) {i : Nat} {k k' : Task}
    (hk : crew.tasks[i]? = some k) (htasks : crew'.tasks = crew.tasks.set i k')
    (hstepped : k.Stepped tables vector t₀ ws crew.program k' crew'.program) :
    crew'.Sane tables vector t₀ taken (ws ++ crew.writes crew' i) := by
  rw [writes_set hk htasks]
  have hmem : k ∈ crew.tasks := List.mem_of_getElem? hk
  refine ⟨hstepped.behind, fun w hw => ?_, fun l hl => ?_, fun l hl => ?_⟩
  · rcases List.mem_append.1 hw with hold | hnew
    · exact h.known w hold
    · rw [hstepped.own w hnew]
      exact h.own k hmem
  · rw [htasks] at hl
    rcases List.mem_or_eq_of_mem_set hl with hold | rfl
    · exact h.own l hold
    · rw [hstepped.chunk]
      exact h.own k hmem
  · rw [htasks] at hl
    rcases List.mem_or_eq_of_mem_set hl with hold | rfl
    · exact (h.told l hold).append h.behind hstepped.lasting _
    · exact hstepped.told

theorem chunks_set {i : Nat} {k k' : Task} (hk : crew.tasks[i]? = some k)
    (hchunk : k'.chunk = k.chunk) :
    (crew.tasks.set i k').map (·.chunk) = crew.tasks.map (·.chunk) := by
  obtain ⟨hi, rfl⟩ := List.getElem?_eq_some_iff.1 hk
  rw [List.map_set, hchunk]
  apply List.ext_getElem (by simp)
  intro j hj hj'
  by_cases hij : i = j
  · subst hij
    simp
  · simp [List.getElem_set_ne hij]

/-- A task that is moved writes what `Crew.writes` tells, and its chunk stays its own. -/
theorem Crew.Sane.work (h : crew.Sane tables vector t₀ taken ws) (ho : Backed o tables)
    (he : Embeds embed tables vector) (hs : t₀.Sound) {i : Nat}
    (hstep : crew.step? o embed (.work i) = some crew') :
    crew'.Sane tables vector t₀ taken (ws ++ crew.writes crew' i) ∧
      Lasting ws (tables crew.program.outside) (tables crew'.program.outside) ∧
      crew'.tasks.map (·.chunk) = crew.tasks.map (·.chunk) ∧
      crew'.collected = crew.collected := by
  obtain ⟨-, k, hk, ⟨hqueued, -, rfl⟩ | ⟨-, rfl⟩⟩ := Crew.work_cases hstep
  · have hbegun : k.Stepped tables vector t₀ ws crew.program { k with stage := .begun }
        crew.program :=
      stepped_of_nothing h.behind rfl (by simp [Task.writes, hqueued]) rfl trivial
    exact ⟨h.of_stepped hk rfl hbegun, hbegun.lasting, chunks_set hk rfl, rfl⟩
  · have hstepped := advance_stepped h.behind ho he hs (h.told k (List.mem_of_getElem? hk))
      (Prod.eta (k.advance o embed crew.stopped crew.program)).symm
    refine ⟨h.of_stepped hk (Crew.rest_tasks _) ?_, ?_, ?_, Crew.rest_collected _⟩
    · rw [Crew.rest_program]
      exact hstepped
    · rw [Crew.rest_program]
      exact hstepped.lasting
    · rw [Crew.rest_tasks]
      exact chunks_set hk hstepped.chunk

/-- What was settled stays so, whatever is written. -/
theorem Crew.Settled.append (h : crew.Settled tables taken done ws)
    (hws : t₀.Written (vectorLiteral ∘ vector) ws (tables crew.program.outside))
    (hids : Lasting ws (tables crew.program.outside) (tables crew'.program.outside))
    (hchunks : crew'.tasks.map (·.chunk) = crew.tasks.map (·.chunk))
    (hcollected : crew'.collected = crew.collected) (new : List Write) :
    crew'.Settled tables taken done (ws ++ new) where
  shared := hchunks ▸ h.shared
  noted := by
    rw [hcollected, h.noted]
    exact List.map_congr_left fun c hc => (hids c (hws.row_mem (h.stored c hc))).symm
  stored c hc := List.mem_append_left _ (h.stored c hc)

/-- Nothing but tasks and results counts. -/
theorem Crew.Settled.of_eq (h : crew.Settled tables taken done ws)
    (hprogram : tables crew'.program.outside = tables crew.program.outside)
    (htasks : crew'.tasks = crew.tasks) (hcollected : crew'.collected = crew.collected) :
    crew'.Settled tables taken done ws :=
  ⟨htasks ▸ h.shared, by rw [hcollected, h.noted, hprogram], h.stored⟩

/-- Tasks whose ids are collected have stored the vectors of their chunks. -/
theorem Crew.Settled.collect (h : crew.Settled tables taken done ws)
    (hsane : crew.Sane tables vector t₀ taken ws) {ended others : List Task} {ids : List Int}
    (hparts : crew.tasks.Perm (ended ++ others))
    (hstages : ended.map (·.stage) = ids.map fun id => .ended (.ok id))
    (htasks : crew'.tasks = others) (hcollected : crew'.collected = crew.collected ++ ids)
    (hprogram : crew'.program = crew.program) :
    crew'.Settled tables taken (done ++ ended.map (·.chunk)) ws := by
  have htold : ∀ k ∈ ended, k.Told vector (tables crew.program.outside) ws :=
    fun k hk => hsane.told k (hparts.mem_iff.2 (List.mem_append_left _ hk))
  have hended : ∀ k ∈ ended, ∃ id, k.stage = .ended (.ok id) := by
    intro k hk
    have hmem : k.stage ∈ ids.map fun id => Stage.ended (.ok id) :=
      hstages ▸ List.mem_map_of_mem hk
    obtain ⟨id, -, hid⟩ := List.mem_map.1 hmem
    exact ⟨id, hid.symm⟩
  have hids : ids = (tables crew.program.outside).idsOf (ended.map (·.chunk)) := by
    clear hparts hended hcollected
    induction ended generalizing ids with
    | nil => simpa [Tables.idsOf] using hstages.symm
    | cons k ended ih =>
      cases ids with
      | nil => simp at hstages
      | cons id ids =>
        obtain ⟨hstage, hrest⟩ := List.cons.inj hstages
        have hk := htold k List.mem_cons_self
        rw [Task.Told, show k.stage = .ended (.ok id) from hstage] at hk
        rw [hk.2, ih hrest fun l hl => htold l (List.mem_cons_of_mem _ hl)]
        rfl
  refine ⟨?_, ?_, fun c hc => ?_⟩
  · have hchunks := (hparts.map (·.chunk)).append_right done
    rw [List.map_append, List.append_assoc] at hchunks
    have hmoved : (ended.map (·.chunk) ++ (others.map (·.chunk) ++ done)).Perm
        (others.map (·.chunk) ++ (done ++ ended.map (·.chunk))) := by
      rw [← List.append_assoc (others.map _)]
      exact List.perm_append_comm
    rw [htasks]
    exact (h.shared.trans hchunks).trans hmoved
  · rw [hcollected, hprogram, Tables.idsOf_append, ← h.noted, ← hids]
  · rcases List.mem_append.1 hc with hold | hnew
    · exact h.stored c hold
    · obtain ⟨k, hk, rfl⟩ := List.mem_map.1 hnew
      obtain ⟨id, hid⟩ := hended k hk
      have htk := htold k hk
      rw [Task.Told, hid] at htk
      exact htk.1

/-! ## Shifts -/

/-- What a shift has not taken yet: of the chunks `cs` it has submitted `taken`, it holds some, and
the others are the batches `bs` that are to come from its source. -/
structure Shift.Owes (disk : Disk) (cs taken : List Chunk) (bs : List (List Chunk))
    (ending : Option RunError) (s : Shift σ) : Prop where
  gives : s.crew.phase = .feeding → s.source.Gives disk bs ending
  whole : taken ++ s.held ++ bs.flatten = cs
  exhausted : s.crew.phase ≠ .feeding → s.held = [] ∧ bs = [] ∧ ending = none
  idle : s.crew.phase = .over none → s.crew.tasks = []

/-- What is known of a shift over the chunks `cs` that has written `ws`. -/
def Shift.Ledger (disk : Disk) (tables : σ → Tables) (vector : String → List Float) (t₀ : Tables)
    (cs : List Chunk) (ending : Option RunError) (ws : List Write) (s : Shift σ) : Prop :=
  ∃ taken, s.crew.Sane tables vector t₀ taken ws ∧ (s.crew.Failing ∨
    ∃ done bs, s.crew.Settled tables taken done ws ∧ s.Owes disk cs taken bs ending)

variable {cs : List Chunk} {ending : Option RunError} {s s' : Shift σ} {new : List Write}

theorem of_pull (ho : Backed o tables) {source source' : Source} {batch : Batch} {p q : Program σ}
    (h : (pull o disk source).perform p = (.ok (source', batch), q)) :
    (∃ trip ls, source.next disk trip = (source', batch, ls)) ∧
      tables q.outside = tables p.outside := by
  obtain ⟨⟨ls, hnext⟩, houtside⟩ := next_of_pull h
  refine ⟨⟨_, ls, hnext⟩, ?_⟩
  rw [houtside]
  exact ho.look _

/-- Each act keeps the ledger. -/
theorem ledger_step (ho : Backed o tables) (he : Embeds embed tables vector) (hs : t₀.Sound)
    (h : s.Ledger disk tables vector t₀ cs ending ws) (hstep : Shift.Step o embed disk s new s') :
    s'.Ledger disk tables vector t₀ cs ending (ws ++ new) := by
  obtain ⟨taken, hsane, hrest⟩ := h
  cases hstep with
  | @work source held crew crew' i hcrew =>
    obtain ⟨hsane', hlasting, hchunks, hcollected⟩ := hsane.work ho he hs hcrew
    obtain ⟨hfeeding, hidle⟩ := Crew.work_phase hcrew
    refine ⟨taken, hsane', hrest.imp (·.step hcrew) ?_⟩
    rintro ⟨done, bs, hsettled, howes⟩
    refine ⟨done, bs, hsettled.append hsane.behind hlasting hchunks hcollected _,
      fun hphase => ?_, howes.whole, fun hnot => ?_, hidle⟩
    · exact howes.gives (hfeeding.1 hphase)
    · exact howes.exhausted fun hold => hnot (hfeeding.2 hold)
  | @collect source held crew crew' picks hcrew =>
    rw [List.append_nil]
    obtain ⟨hphase, ended, others, ids, hparts, ⟨hstages, rfl⟩ | ⟨e, -, rfl⟩⟩ :=
      Crew.collect_cases hcrew
    · have hsane' : Crew.Sane tables vector t₀ taken ws
          (Crew.rest { crew with tasks := others, collected := crew.collected ++ ids }) := by
        refine hsane.of_subset (by rw [Crew.rest_program]) fun k hk => ?_
        rw [Crew.rest_tasks] at hk
        exact hparts.mem_iff.2 (List.mem_append_right _ hk)
      refine ⟨taken, hsane', hrest.imp (·.step hcrew) ?_⟩
      rintro ⟨done, bs, hsettled, howes⟩
      have hfeeding : (Crew.rest { crew with
          tasks := others, collected := crew.collected ++ ids }).phase = .feeding ↔
            crew.phase = .feeding := Crew.feeding_rest_iff
      refine ⟨_, bs, hsettled.collect hsane hparts hstages (Crew.rest_tasks _)
        (Crew.rest_collected _) (Crew.rest_program _),
        fun hphase => howes.gives (hfeeding.1 hphase), howes.whole, fun hnot => ?_, fun hnone => ?_⟩
      · exact howes.exhausted fun hold => hnot (hfeeding.2 hold)
      · have hbefore : crew.phase ≠ .over none := by
          rcases hphase with ⟨hfeeding, -⟩ | hfinishing <;> simp [*]
        rw [Crew.rest_tasks]
        exact (Crew.tasks_of_rest_over hnone hbefore).2
    · refine ⟨taken, Crew.Sane.stop ?_ ho e, .inl (Crew.failing_stop _ e)⟩
      exact hsane.of_subset rfl fun k hk => hparts.mem_iff.2 (List.mem_append_right _ hk)
  | @submit source c held crew crew' hcrew =>
    rw [List.append_nil]
    obtain ⟨hfeeding, -, rfl⟩ := Crew.submit_cases hcrew
    refine ⟨taken ++ [c], ⟨hsane.behind, fun w hw => ?_, fun k hk => ?_, fun k hk => ?_⟩,
      hrest.imp (·.step hcrew) ?_⟩
    · exact List.mem_append_left _ (hsane.known w hw)
    · rcases List.mem_append.1 hk with hold | hnew
      · exact List.mem_append_left _ (hsane.own k hold)
      · obtain rfl := List.mem_singleton.1 hnew
        simp
    · rcases List.mem_append.1 hk with hold | hnew
      · exact hsane.told k hold
      · obtain rfl := List.mem_singleton.1 hnew
        trivial
    · rintro ⟨done, bs, hsettled, howes⟩
      refine ⟨done, bs, ⟨?_, hsettled.noted, hsettled.stored⟩, howes.gives, ?_,
        fun hnot => absurd hfeeding hnot, fun hnone => ?_⟩
      · have hshared := hsettled.shared.append_right [c]
        rw [List.map_append, List.append_assoc]
        refine hshared.trans ?_
        rw [List.append_assoc]
        exact List.perm_append_comm.append_left _
      · rw [← howes.whole]
        simp
      · exact absurd (hfeeding.symm.trans hnone) (by simp)
  | @pull source source' held crew q hfeeding hpull =>
    rw [List.append_nil]
    obtain ⟨⟨trip, ls, hnext⟩, hq⟩ := of_pull ho hpull
    refine ⟨taken, hsane.of_subset hq fun k hk => hk, hrest.imp (fun hfailing => ?_) ?_⟩
    · exact absurd hfeeding hfailing.ne.1
    · rintro ⟨done, bs, hsettled, howes⟩
      have hwhole := howes.whole
      obtain ⟨e, hbatch⟩ | ⟨hbatch, -⟩ | ⟨cs', bs', hbatch, rfl, hgives⟩ :=
        (howes.gives hfeeding).next_cases hnext
      · cases hbatch
      · cases hbatch
      · obtain rfl := Batch.chunks.inj hbatch
        refine ⟨done, bs', hsettled.of_eq hq rfl rfl, fun _ => hgives, ?_,
          fun hnot => absurd hfeeding hnot, fun hnone => ?_⟩
        · simpa using hwhole
        · exact absurd (hfeeding.symm.trans hnone) (by simp)
  | @exhausted source source' crew crew' q hpull hcrew =>
    rw [List.append_nil]
    obtain ⟨⟨trip, ls, hnext⟩, hq⟩ := of_pull ho hpull
    obtain ⟨hfeeding, rfl⟩ := Crew.exhausted_cases hcrew
    refine ⟨taken, hsane.of_subset (by rw [Crew.rest_program]; exact hq) fun k hk => ?_,
      hrest.imp (fun hfailing => ?_) ?_⟩
    · rw [Crew.rest_tasks] at hk
      exact hk
    · exact absurd hfeeding hfailing.ne.1
    · rintro ⟨done, bs, hsettled, howes⟩
      obtain ⟨e, hbatch⟩ | ⟨-, rfl, rfl⟩ | ⟨cs', bs', hbatch, -⟩ :=
        (howes.gives hfeeding).next_cases hnext
      · cases hbatch
      · refine ⟨done, [], hsettled.of_eq ?_ (Crew.rest_tasks _) (Crew.rest_collected _), ?_,
          howes.whole, fun _ => ⟨rfl, rfl, rfl⟩, fun hnone => ?_⟩
        · rw [Crew.rest_program]
          exact hq
        · intro hnot
          exact absurd (Crew.feeding_rest_iff.1 hnot) (by simp)
        · rw [Crew.rest_tasks]
          exact (Crew.tasks_of_rest_over hnone (by simp)).2
      · cases hbatch
  | @broke source source' crew crew' q e hpull hcrew =>
    rw [List.append_nil]
    obtain ⟨-, hq⟩ := of_pull ho hpull
    obtain ⟨-, rfl⟩ := Crew.broke_cases hcrew
    refine ⟨taken, Crew.Sane.stop ?_ ho e, .inl (Crew.failing_stop _ e)⟩
    exact hsane.of_subset hq fun k hk => hk

/-! ## Courses -/

/-- What is known of a shift at its beginning is known all the way. -/
theorem ledger_course (ho : Backed o tables) (he : Embeds embed tables vector) (hs : t₀.Sound)
    (h : s.Ledger disk tables vector t₀ cs ending [])
    (hcourse : Shift.Course o embed disk s ws s') :
    s'.Ledger disk tables vector t₀ cs ending ws := by
  induction hcourse with
  | refl => exact h
  | act _ a ha ih => exact ledger_step ho he hs ih (Shift.act_cases ha)

theorem ledger_start {source : Source} {bs : List (List Chunk)}
    (hgives : source.Gives disk bs ending) (workers : Nat) {p : Program σ}
    (hp : tables p.outside = t₀) :
    Shift.Ledger disk tables vector t₀ bs.flatten ending []
      ⟨source, [], .start workers p⟩ := by
  have hstart : t₀.Written (vectorLiteral ∘ vector) [] (tables p.outside) := hp ▸ .nil
  refine ⟨[], ⟨hstart, by simp, by simp [Crew.start], by simp [Crew.start]⟩,
    .inr ⟨[], bs, ?_, ?_⟩⟩
  · exact ⟨by simp [Crew.start], rfl, by simp⟩
  · exact ⟨fun _ => hgives, rfl, fun hnot => absurd rfl hnot, fun _ => rfl⟩

/-- What a course has written, and for which chunks. -/
theorem Shift.Course.sane (ho : Backed o tables) (he : Embeds embed tables vector)
    {source : Source} {bs : List (List Chunk)} (hgives : source.Gives disk bs ending)
    {workers : Nat} {p : Program σ} (hs : (tables p.outside).Sound)
    (h : Shift.Course o embed disk ⟨source, [], .start workers p⟩ ws s) :
    ∃ taken, s.crew.Sane tables vector (tables p.outside) taken ws := by
  obtain ⟨taken, hsane, -⟩ := ledger_course ho he hs (ledger_start hgives workers rfl) h
  exact ⟨taken, hsane⟩

/-- Behind a crew that has ended well, rows are deleted before the outcome is told. -/
theorem conclude_ends (ho : Backed o tables) (hover : crew.phase = .over none) {started : Float}
    {pruneRoot : Option String} {q : Program σ} {stats : Stats}
    (h : (crew.conclude o started pruneRoot).perform crew.program = (.ok stats, q)) :
    ∃ elapsed, stats = ⟨crew.collected.length, crew.collected.length,
        (swept (tables crew.program.outside) pruneRoot crew.collected).1, elapsed⟩ ∧
      tables q.outside = (swept (tables crew.program.outside) pruneRoot crew.collected).2 := by
  rw [conclude_ok hover, perform_bind_ok (perform_leave _ _)] at h
  obtain ⟨elapsed, hstats, hq⟩ := of_sweep_report ho h
  exact ⟨elapsed, hstats, hq⟩

/-- Where nothing disturbs it, a crew that has ended well concludes its run. -/
theorem leads_conclude (ho : Reliable o tables) (hopen : crew.program.isOpen = true)
    (hover : crew.phase = .over none) (started : Float) (pruneRoot : Option String) :
    ∃ stats, Leads tables (crew.conclude o started pruneRoot) crew.program (.ok stats)
      (swept (tables crew.program.outside) pruneRoot crew.collected).2 := by
  obtain ⟨q, hq, hqopen, ht⟩ := sweep_ok ho (p := ({ crew.program with
    trace := crew.program.trace ++ [.sourceClosed] } : Program σ)) hopen pruneRoot crew.collected
  obtain ⟨elapsed, hreport⟩ := report_leads (p := q) ho.toBacked started crew.collected _
  rw [conclude_ok hover]
  rw [ht] at hreport
  exact ⟨_, leads_behind (perform_leave _ _) rfl (leads_behind hq hqopen hreport)⟩

theorem over_of_matches {phase : Phase} (h : (phase matches .over none) = true) :
    phase = .over none := by
  split at h
  · rfl
  · cases h

/-- A shift whose crew ends well is that of a run that succeeds. -/
theorem exists_together (ho : Reliable o tables) {prefer : Shift σ → List Act}
    {fuel workers : Nat} {source : Source} {p : Program σ} {s : Shift σ}
    (hgo : Shift.go o embed disk prefer fuel ⟨source, [], .start workers (clocked o p)⟩ = s)
    (hover : s.crew.phase = .over none) (hopen : s.crew.program.isOpen = true)
    (pruneRoot : Option String) :
    ∃ ws stats q, Together o embed disk workers source pruneRoot p ws (.ok stats) q ∧
      tables q.outside =
        (swept (tables s.crew.program.outside) pruneRoot s.crew.collected).2 := by
  obtain ⟨ws, hcourse⟩ := Shift.reaches_go o embed disk prefer fuel
    ⟨source, [], .start workers (clocked o p)⟩
  rw [hgo] at hcourse
  obtain ⟨stats, q, hq, -, ht⟩ := leads_conclude ho hopen hover (o.clock p.outside).1 pruneRoot
  exact ⟨ws, stats, q, .intro hcourse hover hq, ht⟩

/-- **What a run that succeeds has done**, under any interleaving: the source has come to its end,
each of its chunks has been stored with its vector, each id has been collected once, and nothing
else has been written. -/
theorem Together.ok (ho : Backed o tables) (he : Embeds embed tables vector) {source : Source}
    {bs : List (List Chunk)} (hgives : source.Gives disk bs ending) {workers : Nat}
    {pruneRoot : Option String} {p q : Program σ} (hs : (tables p.outside).Sound) {stats : Stats}
    (h : Together o embed disk workers source pruneRoot p ws (.ok stats) q) :
    ending = none ∧ Finished (vectorLiteral ∘ vector) (tables p.outside) bs.flatten pruneRoot ws
      stats (tables q.outside) := by
  obtain ⟨hcourse, hover, hend⟩ := h
  rename_i s failure
  have hclock : tables (clocked o p).outside = tables p.outside := ho.clock _
  obtain ⟨taken, hsane, hrest⟩ :=
    ledger_course ho he hs (ledger_start hgives workers hclock) hcourse
  cases failure with
  | some e =>
    rw [conclude_error hover, perform_bind_ok (perform_leave _ _)] at hend
    cases (Prod.mk.inj hend).1
  | none =>
    rcases hrest with hfailing | ⟨done, bs', hsettled, howes⟩
    · exfalso
      rcases hfailing with ⟨e, he⟩ | ⟨e, he⟩ <;> cases he.symm.trans hover
    obtain ⟨hheld, rfl, rfl⟩ := howes.exhausted (by simp [hover])
    have htasks := howes.idle hover
    have hwhole : taken = bs.flatten := by simpa [hheld] using howes.whole
    have hshared : taken.Perm done := by simpa [htasks] using hsettled.shared
    subst hwhole
    obtain ⟨elapsed, hstats, hq⟩ := conclude_ends ho hover hend
    have hids : s.crew.collected.Perm ((tables s.crew.program.outside).idsOf bs.flatten) := by
      rw [hsettled.noted]
      exact (hshared.map _).symm
    have hwhole : Write.Whole bs.flatten ws :=
      ⟨hsane.known, fun c hc => hsettled.stored c (hshared.mem_iff.1 hc)⟩
    rw [hids.length_eq, Tables.length_idsOf] at hstats
    rw [hstats, hq]
    exact ⟨rfl, .intro elapsed hwhole hsane.behind hids⟩

end DocSearch.Index
