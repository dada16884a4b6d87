import DocSearch.Proofs.Index.Failure
import DocSearch.Proofs.Index.Ledger

/-!
# What is submitted, returned and collected

A `Tally` lists what has happened in a shift: the chunks that were submitted, the results that tasks
have returned, and the results that were collected, each in order and with repetitions. Nothing is
assumed about the store or the embedder here, only that no task fails.

Then chunks are submitted in the order of the source, and results do not get lost at any hand-over
(`Shift.Counts`): each submitted chunk is that of a task or of a result that was collected, and each
result that was returned is still with its task or was collected. `counts_of_tallied` proves this of
every course, one act at a time, and `roomy_of_tallied` that there are never more than two tasks for
each worker.
-/

namespace DocSearch.Index

open DocSearch.Action Files Store

variable {σ : Type} {o : Outside σ} {embed : Embedder σ} {disk : Disk}

/-- The result of a task that has succeeded: its chunk and its id. -/
def Task.returned? (t : Task) : Option (Chunk × Int) :=
  match t.stage with
  | .ended (.ok id) => some (t.chunk, id)
  | _ => none

/-- The error of a task that has failed. -/
def Task.failure? (t : Task) : Option RunError :=
  match t.stage with
  | .ended (.error e) => some e
  | _ => none

/-- The error that has stopped a crew. -/
def Phase.failure? : Phase → Option RunError
  | .stopping e | .over (some e) => some e
  | _ => none

/-- What has happened: the chunks that were submitted, the results that tasks returned, the results
that were collected, and the errors of tasks and of the source. -/
structure Tally where
  submitted : List Chunk
  returned : List (Chunk × Int)
  collected : List (Chunk × Int)
  failed : List RunError

/-- The tally behind an act that leads from a shift to another one. -/
def Tally.note (tally : Tally) (s s' : Shift σ) : Act → Tally
  | .work i =>
    { tally with
      returned := tally.returned ++ ((s'.crew.tasks[i]?).bind Task.returned?).toList
      failed := tally.failed ++ ((s'.crew.tasks[i]?).bind Task.failure?).toList }
  | .collect picks =>
    { tally with
      collected := tally.collected ++ (s.crew.picked picks).filterMap Task.returned? }
  | .submit => { tally with submitted := tally.submitted ++ s.held.take 1 }
  | .pull => { tally with failed := tally.failed ++ s'.crew.phase.failure?.toList }

/-- What may have happened to a shift in a number of acts, with its tally. -/
inductive Shift.Tallied (o : Outside σ) (embed : Embedder σ) (disk : Disk) (start : Shift σ) :
    Nat → Tally → Shift σ → Prop
  | refl : Tallied o embed disk start 0 ⟨[], [], [], []⟩ start
  | act {n : Nat} {tally : Tally} {s s' : Shift σ} (h : Tallied o embed disk start n tally s)
      (a : Act) (ha : s.act? o embed disk a = some s') :
      Tallied o embed disk start (n + 1) (tally.note s s' a) s'

namespace Shift

variable {start s s' : Shift σ} {n : Nat} {tally : Tally}

theorem Tallied.course (h : Tallied o embed disk start n tally s) :
    ∃ ws, Course o embed disk start ws s := by
  induction h with
  | refl => exact ⟨[], .refl⟩
  | act _ a ha ih =>
    obtain ⟨ws, hws⟩ := ih
    exact ⟨_, .act hws a ha⟩

theorem Course.tallied {ws : List Write} (h : Course o embed disk start ws s) :
    ∃ n tally, Tallied o embed disk start n tally s := by
  induction h with
  | refl => exact ⟨0, _, .refl⟩
  | act _ a ha ih =>
    obtain ⟨n, tally, htally⟩ := ih
    exact ⟨n + 1, _, .act htally a ha⟩

/-- What every act keeps, a course keeps. -/
theorem Tallied.keeps {P : Shift σ → Prop} (hstart : P start)
    (hact : ∀ {s s' : Shift σ} {a : Act}, P s → s.act? o embed disk a = some s' → P s')
    (h : Tallied o embed disk start n tally s) : P s := by
  induction h with
  | refl => exact hstart
  | act _ a ha ih => exact hact ih ha

/-! ## Acts -/

theorem act_work {i : Nat} (h : s.act? o embed disk (.work i) = some s') :
    ∃ crew', s.crew.step? o embed (.work i) = some crew' ∧ s' = ⟨s.source, s.held, crew'⟩ := by
  obtain ⟨crew', hcrew, h⟩ := Option.bind_eq_some_iff.1 h
  exact ⟨crew', hcrew, (Option.some.inj h).symm⟩

theorem act_collect {picks : List Nat} (h : s.act? o embed disk (.collect picks) = some s') :
    ∃ crew', s.crew.step? o embed (.collect picks) = some crew' ∧
      s' = ⟨s.source, s.held, crew'⟩ := by
  obtain ⟨crew', hcrew, h⟩ := Option.bind_eq_some_iff.1 h
  exact ⟨crew', hcrew, (Option.some.inj h).symm⟩

theorem act_submit (h : s.act? o embed disk .submit = some s') :
    ∃ c cs, s.held = c :: cs ∧ s.crew.phase = .feeding ∧ s.crew.isFull = false ∧
      s' = ⟨s.source, cs, { s.crew with tasks := s.crew.tasks ++ [⟨c, .queued⟩] }⟩ := by
  obtain ⟨source, held, crew⟩ := s
  cases held with
  | nil => cases h
  | cons c cs =>
    obtain ⟨crew', hcrew, h⟩ := Option.bind_eq_some_iff.1 h
    obtain ⟨hfeeding, hroom, rfl⟩ := Crew.submit_cases hcrew
    exact ⟨c, cs, rfl, hfeeding, hroom, (Option.some.inj h).symm⟩

/-- Taking from the source brings chunks, the end, or a failure. -/
theorem act_pull (h : s.act? o embed disk .pull = some s') :
    s.crew.phase = .feeding ∧ s.held = [] ∧ ∃ source' batch q,
      (pull o disk s.source).perform s.crew.program = (.ok (source', batch), q) ∧
      ((∃ cs, batch = .chunks cs ∧ s' = ⟨source', cs, { s.crew with program := q }⟩) ∨
        (batch = .finished ∧
          s' = ⟨source', [], Crew.rest { s.crew with program := q, phase := .finishing }⟩) ∨
        ∃ e, batch = .failed e ∧
          s' = ⟨source', [], Crew.stop o { s.crew with program := q } e⟩) := by
  obtain ⟨source, held, crew⟩ := s
  obtain ⟨source', batch, ls, q, -, hq, -⟩ := exists_pull o disk source crew.program
  rw [act?, pull?] at h
  split at h
  · rename_i hfeeding hheld
    simp only [hq] at h
    refine ⟨hfeeding, hheld, source', batch, q, hq, ?_⟩
    cases batch with
    | chunks cs => exact .inl ⟨cs, rfl, (Option.some.inj h).symm⟩
    | finished =>
      obtain ⟨crew', hcrew, h⟩ := Option.bind_eq_some_iff.1 h
      obtain ⟨-, rfl⟩ := Crew.exhausted_cases hcrew
      exact .inr (.inl ⟨rfl, (Option.some.inj h).symm⟩)
    | failed e =>
      obtain ⟨crew', hcrew, h⟩ := Option.bind_eq_some_iff.1 h
      obtain ⟨-, rfl⟩ := Crew.broke_cases hcrew
      exact .inr (.inr ⟨e, rfl, (Option.some.inj h).symm⟩)
  · cases h

end Shift

/-! ## Tasks that are collected -/

namespace Crew

variable {crew crew' : Crew σ}

/-- Collecting takes the tasks at its places, and there is at least one. -/
theorem collect_picked {picks : List Nat} (h : crew.step? o embed (.collect picks) = some crew') :
    crew.picked picks ≠ [] ∧ crew.tasks.Perm (crew.picked picks ++ crew.others picks) ∧
      ∃ rs, (crew.picked picks).map (·.stage) = rs.map .ended ∧ crew' = crew.take o picks rs := by
  rw [step?] at h
  obtain ⟨rs, hrs, h⟩ := Option.bind_eq_some_iff.1 h
  split_ifs at h with hmay
  obtain ⟨hnodup, hstages⟩ := picked_of_results hrs
  refine ⟨?_, perm_picked_others hnodup, rs, hstages, (Option.some.inj h).symm⟩
  cases picks with
  | nil =>
    rw [mayCollect] at hmay
    split at hmay <;> simp at hmay
  | cons i picks =>
    rw [results?, if_pos (decide_eq_true hnodup), List.mapM_cons] at hrs
    obtain ⟨r, hr, -⟩ := Option.bind_eq_some_iff.1 hrs
    obtain ⟨t, ht, -⟩ := Option.bind_eq_some_iff.1 hr
    rw [picked, List.filterMap_cons_some ht]
    exact List.cons_ne_nil _ _

end Crew

/-- Tasks that have all succeeded have returned their chunks with their ids. -/
theorem returned_of_stages {ts : List Task} {ids : List Int}
    (h : ts.map (·.stage) = ids.map fun id => .ended (.ok id)) :
    (ts.filterMap Task.returned?).map Prod.fst = ts.map (·.chunk) ∧
      (ts.filterMap Task.returned?).map Prod.snd = ids := by
  induction ts generalizing ids with
  | nil =>
    obtain rfl : ids = [] := by simpa using h.symm
    exact ⟨rfl, rfl⟩
  | cons t ts ih =>
    cases ids with
    | nil => cases h
    | cons id ids =>
      obtain ⟨hstage, hrest⟩ := List.cons.inj h
      replace hstage : t.stage = .ended (.ok id) := hstage
      have ht : t.returned? = some (t.chunk, id) := by rw [Task.returned?, hstage]
      obtain ⟨hchunks, hids⟩ := ih hrest
      rw [List.filterMap_cons_some ht, List.map_cons, List.map_cons, List.map_cons, hchunks, hids]
      exact ⟨rfl, rfl⟩

/-- A task that a worker is busy with has neither returned nor failed. -/
theorem results_of_isActive {t : Task} (h : t.stage.isActive = true) :
    t.returned? = none ∧ t.failure? = none := by
  obtain ⟨c, stage⟩ := t
  cases stage with
  | queued => cases h
  | ended r => cases h
  | _ => exact ⟨rfl, rfl⟩

/-- Where one task is replaced that had not returned, what it returns now is new. -/
theorem returned_set {ts : List Task} {i : Nat} {t t' : Task} (ht : ts[i]? = some t)
    (hnone : t.returned? = none) :
    ((ts.set i t').filterMap Task.returned?).Perm
      (ts.filterMap Task.returned? ++ t'.returned?.toList) := by
  induction ts generalizing i with
  | nil => cases ht
  | cons u ts ih =>
    cases i with
    | zero =>
      obtain rfl : u = t := Option.some.inj ht
      rw [List.set_cons_zero, List.filterMap_cons, List.filterMap_cons_none hnone]
      cases t'.returned? with
      | none => simp
      | some r => exact (List.perm_append_singleton r _).symm
    | succ i =>
      have hrest := ih ht
      rw [List.set_cons_succ, List.filterMap_cons, List.filterMap_cons]
      cases u.returned? with
      | none => exact hrest
      | some r => exact hrest.cons r

/-! ## What is counted -/

namespace Shift

variable {start s s' : Shift σ} {n : Nat} {tally : Tally} {cs : List Chunk} {bs : List (List Chunk)}

/-- Of the chunks `cs`, those that are not submitted are held or still to come in the batches `bs`.
Each submitted chunk is that of a task or of a collected result, and each result that was returned
is with its task or was collected. -/
structure Counts (disk : Disk) (cs : List Chunk) (tally : Tally) (bs : List (List Chunk))
    (s : Shift σ) : Prop where
  owes : s.Owes disk cs tally.submitted bs none
  submitted : tally.submitted.Perm
    (s.crew.tasks.map (·.chunk) ++ tally.collected.map Prod.fst)
  returned : tally.returned.Perm (s.crew.tasks.filterMap Task.returned? ++ tally.collected)
  collected : s.crew.collected = tally.collected.map Prod.snd

theorem counts_start {source : Source} (hgives : source.Gives disk bs none) (workers : Nat)
    (p : Program σ) :
    Counts disk bs.flatten ⟨[], [], [], []⟩ bs ⟨source, [], .start workers p⟩ where
  owes := ⟨fun _ => hgives, rfl, fun hnot => absurd rfl hnot, fun _ => rfl⟩
  submitted := .refl _
  returned := .refl _
  collected := rfl

/-- A task that is moved keeps the counts; if it returns, this is noted. -/
theorem Counts.set (h : Counts disk cs tally bs s) {crew' : Crew σ} {i : Nat} {t t' : Task}
    (ht : s.crew.tasks[i]? = some t) (hnone : t.returned? = none) (hchunk : t'.chunk = t.chunk)
    (htasks : crew'.tasks = s.crew.tasks.set i t')
    (hcollected : crew'.collected = s.crew.collected)
    (hfeeding : crew'.phase = .feeding ↔ s.crew.phase = .feeding)
    (hidle : crew'.phase = .over none → crew'.tasks = []) :
    Counts disk cs (tally.note s ⟨s.source, s.held, crew'⟩ (.work i)) bs
      ⟨s.source, s.held, crew'⟩ where
  owes := ⟨fun hphase => h.owes.gives (hfeeding.1 hphase), h.owes.whole,
    fun hnot => h.owes.exhausted fun hphase => hnot (hfeeding.2 hphase), hidle⟩
  submitted := by
    show tally.submitted.Perm (crew'.tasks.map (·.chunk) ++ tally.collected.map Prod.fst)
    rw [htasks, chunks_set ht hchunk]
    exact h.submitted
  returned := by
    have hi : i < s.crew.tasks.length := (List.getElem?_eq_some_iff.1 ht).1
    have ht' : crew'.tasks[i]? = some t' := by rw [htasks, List.getElem?_set_self hi]
    show (tally.returned ++ ((crew'.tasks[i]?).bind Task.returned?).toList).Perm
      (crew'.tasks.filterMap Task.returned? ++ tally.collected)
    rw [ht', htasks]
    have hset : ((s.crew.tasks.set i t').filterMap Task.returned?).Perm _ := returned_set ht hnone
    refine ((h.returned.append_right _).trans ?_).trans (hset.append_right tally.collected).symm
    rw [List.append_assoc, List.append_assoc]
    exact List.perm_append_comm.append_left _
  collected := hcollected.trans h.collected

theorem Counts.work (h : Counts disk cs tally bs s) {i : Nat}
    (ha : s.act? o embed disk (.work i) = some s') :
    Counts disk cs (tally.note s s' (.work i)) bs s' := by
  obtain ⟨crew', hcrew, rfl⟩ := act_work ha
  obtain ⟨hfeeding, hidle⟩ := Crew.work_phase hcrew
  obtain ⟨-, t, ht, ⟨hqueued, -, rfl⟩ | ⟨hactive, rfl⟩⟩ := Crew.work_cases hcrew
  · have hnone : t.returned? = none := by rw [Task.returned?, hqueued]
    have hchunk : (⟨t.chunk, .begun⟩ : Task).chunk = t.chunk := rfl
    exact h.set ht hnone hchunk rfl rfl hfeeding hidle
  · exact h.set ht (results_of_isActive hactive).1 (Crew.advance_chunk t _) (Crew.rest_tasks _)
      (Crew.rest_collected _) hfeeding hidle

/-- Results that are collected are noted, unless one of them is a failure. -/
theorem Counts.collect (h : Counts disk cs tally bs s) {picks : List Nat}
    (ha : s.act? o embed disk (.collect picks) = some s') :
    s'.crew.Failing ∨ Counts disk cs (tally.note s s' (.collect picks)) bs s' := by
  obtain ⟨crew', hcrew, rfl⟩ := act_collect ha
  obtain ⟨hphase, -⟩ := Crew.collect_cases hcrew
  obtain ⟨-, hparts, rs, hstages, rfl⟩ := Crew.collect_picked hcrew
  cases hgather : (gather rs).2 with
  | some e =>
    refine .inl ?_
    simp only [Crew.take, hgather]
    exact Crew.failing_stop _ e
  | none =>
    rw [Crew.gather_none hgather, List.map_map] at hstages
    obtain ⟨hchunks, hids⟩ := returned_of_stages hstages
    have hfeeding : (Crew.take o s.crew picks rs).phase = .feeding ↔ s.crew.phase = .feeding := by
      simp only [Crew.take, hgather]
      exact Crew.feeding_rest_iff
    have htasks : (Crew.take o s.crew picks rs).tasks = s.crew.others picks := by
      simp only [Crew.take, hgather, Crew.rest_tasks]
    refine .inr ⟨⟨fun hphase => h.owes.gives (hfeeding.1 hphase), h.owes.whole,
      fun hnot => h.owes.exhausted fun hphase => hnot (hfeeding.2 hphase), fun hnone => ?_⟩,
      ?_, ?_, ?_⟩
    · have hbefore : s.crew.phase ≠ .over none := by
        rcases hphase with ⟨hphase, -⟩ | hphase <;> simp [hphase]
      simp only [Crew.take, hgather] at hnone ⊢
      rw [Crew.rest_tasks]
      exact (Crew.tasks_of_rest_over hnone hbefore).2
    · show tally.submitted.Perm ((Crew.take o s.crew picks rs).tasks.map (·.chunk) ++
        (tally.collected ++ (s.crew.picked picks).filterMap Task.returned?).map Prod.fst)
      rw [htasks, List.map_append, hchunks]
      refine h.submitted.trans (((hparts.map _).append_right _).trans ?_)
      rw [List.map_append, List.append_assoc]
      exact List.perm_append_comm.trans (by rw [List.append_assoc])
    · show tally.returned.Perm ((Crew.take o s.crew picks rs).tasks.filterMap Task.returned? ++
        (tally.collected ++ (s.crew.picked picks).filterMap Task.returned?))
      rw [htasks]
      refine h.returned.trans (((hparts.filterMap _).append_right _).trans ?_)
      rw [List.filterMap_append, List.append_assoc]
      exact List.perm_append_comm.trans (by rw [List.append_assoc])
    · show (Crew.take o s.crew picks rs).collected =
        (tally.collected ++ (s.crew.picked picks).filterMap Task.returned?).map Prod.snd
      simp only [Crew.take, hgather, Crew.rest_collected]
      rw [List.map_append, hids, h.collected]

theorem Counts.submit (h : Counts disk cs tally bs s)
    (ha : s.act? o embed disk .submit = some s') :
    Counts disk cs (tally.note s s' .submit) bs s' := by
  obtain ⟨c, held, hheld, hfeeding, -, rfl⟩ := act_submit ha
  have hnote : (tally.note s ⟨s.source, held,
      { s.crew with tasks := s.crew.tasks ++ [⟨c, .queued⟩] }⟩ .submit).submitted =
        tally.submitted ++ [c] := by
    simp [Tally.note, hheld]
  constructor
  case owes =>
    refine ⟨h.owes.gives, ?_, fun hnot => absurd hfeeding hnot, fun hnone => ?_⟩
    · rw [hnote, ← h.owes.whole, hheld]
      simp
    · cases hfeeding.symm.trans hnone
  case submitted =>
    rw [hnote]
    show (tally.submitted ++ [c]).Perm
      ((s.crew.tasks ++ [(⟨c, .queued⟩ : Task)]).map (·.chunk) ++ tally.collected.map Prod.fst)
    rw [List.map_append, List.append_assoc]
    refine (h.submitted.append_right [c]).trans ?_
    rw [List.append_assoc]
    exact List.perm_append_comm.append_left _
  case returned =>
    show tally.returned.Perm
      ((s.crew.tasks ++ [(⟨c, .queued⟩ : Task)]).filterMap Task.returned? ++ tally.collected)
    rw [List.filterMap_append, List.append_assoc]
    exact h.returned
  case collected => exact h.collected

/-- Batches that are taken are held; the source ends where it was to end, or it fails. -/
theorem Counts.pull (h : Counts disk cs tally bs s) (ha : s.act? o embed disk .pull = some s') :
    s'.crew.Failing ∨ ∃ bs', Counts disk cs (tally.note s s' .pull) bs' s' := by
  obtain ⟨hfeeding, hheld, source', batch, q, hpull, hbatch⟩ := act_pull ha
  obtain ⟨⟨ls, hnext⟩, -⟩ := next_of_pull hpull
  have hcases := (h.owes.gives hfeeding).next_cases hnext
  have hwhole := h.owes.whole
  obtain ⟨held, rfl, rfl⟩ | ⟨rfl, rfl⟩ | ⟨e, rfl, rfl⟩ := hbatch
  · rcases hcases with ⟨e, hbatch⟩ | ⟨hbatch, -⟩ | ⟨cs', bs', hbatch, rfl, hgives⟩
    · cases hbatch
    · cases hbatch
    · obtain rfl := Batch.chunks.inj hbatch
      refine .inr ⟨bs', ⟨fun _ => hgives, ?_, fun hnot => absurd hfeeding hnot, fun hnone => ?_⟩,
        h.submitted, h.returned, h.collected⟩
      · simpa [Tally.note, hheld] using hwhole
      · cases hfeeding.symm.trans hnone
  · rcases hcases with ⟨e, hbatch⟩ | ⟨-, rfl, -⟩ | ⟨cs', bs', hbatch, -⟩
    · cases hbatch
    · refine .inr ⟨[], ⟨fun hphase => ?_, ?_, fun _ => ⟨rfl, rfl, rfl⟩, fun hnone => ?_⟩, ?_, ?_, ?_⟩
      · cases Crew.feeding_rest_iff.1 hphase
      · rw [hheld] at hwhole
        exact hwhole
      · rw [Crew.rest_tasks]
        exact (Crew.tasks_of_rest_over hnone (by simp)).2
      · rw [Crew.rest_tasks]
        exact h.submitted
      · rw [Crew.rest_tasks]
        exact h.returned
      · rw [Crew.rest_collected]
        exact h.collected
    · cases hbatch
  · exact .inl (Crew.failing_stop _ e)

/-- Nothing makes up for a failure. -/
theorem failing_act (h : s.crew.Failing) {a : Act} (ha : s.act? o embed disk a = some s') :
    s'.crew.Failing := by
  cases a with
  | work i =>
    obtain ⟨crew', hcrew, rfl⟩ := act_work ha
    exact h.step hcrew
  | collect picks =>
    obtain ⟨crew', hcrew, rfl⟩ := act_collect ha
    exact h.step hcrew
  | submit =>
    obtain ⟨c, cs, -, hfeeding, -⟩ := act_submit ha
    exact absurd hfeeding h.ne.1
  | pull => exact absurd (act_pull ha).1 h.ne.1

/-- One act keeps the counts, or the crew fails. -/
theorem Counts.act (h : Counts disk cs tally bs s) {a : Act}
    (ha : s.act? o embed disk a = some s') :
    s'.crew.Failing ∨ ∃ bs', Counts disk cs (tally.note s s' a) bs' s' := by
  cases a with
  | work i => exact .inr ⟨bs, h.work ha⟩
  | collect picks => exact (h.collect ha).imp_right fun h' => ⟨bs, h'⟩
  | submit => exact .inr ⟨bs, h.submit ha⟩
  | pull => exact h.pull ha

/-- **Unless the crew fails, nothing is lost and nothing is done twice.** -/
theorem counts_of_tallied {source : Source} (hgives : source.Gives disk bs none) {workers : Nat}
    {p : Program σ} (h : Tallied o embed disk ⟨source, [], .start workers p⟩ n tally s) :
    s.crew.Failing ∨ ∃ bs', Counts disk bs.flatten tally bs' s := by
  induction h with
  | refl => exact .inr ⟨bs, counts_start hgives workers p⟩
  | act _ a ha ih =>
    rcases ih with hfailing | ⟨bs', hcounts⟩
    · exact .inl (failing_act hfailing ha)
    · exact hcounts.act ha

end Shift

/-! ## Failures -/

namespace Crew

variable {crew crew' : Crew σ}

theorem failing_iff : crew.Failing ↔ crew.phase.failure? ≠ none := by
  unfold Failing Phase.failure?
  rcases crew.phase with _ | _ | e | (_ | e) <;> simp

/-- A crew without failures: it is not failing, and no task has failed. -/
structure Well (crew : Crew σ) : Prop where
  going : ¬ crew.Failing
  tasks : ∀ t ∈ crew.tasks, t.failure? = none

end Crew

namespace Shift

variable {start s s' : Shift σ} {n : Nat} {tally : Tally}

/-- Only an act that notes a failure makes one. -/
theorem well_act (h : s.crew.Well) {a : Act} (ha : s.act? o embed disk a = some s')
    (hnone : (tally.note s s' a).failed = []) : s'.crew.Well := by
  cases a with
  | work i =>
    obtain ⟨crew', hcrew, rfl⟩ := act_work ha
    have hnew : (crew'.tasks[i]?).bind Task.failure? = none := by
      have := (List.append_eq_nil_iff.1 hnone).2
      simpa using this
    have hset {t' : Task} (htasks : crew'.tasks = s.crew.tasks.set i t')
        (hi : i < s.crew.tasks.length) : ∀ t ∈ crew'.tasks, t.failure? = none := by
      intro t ht
      rw [htasks] at ht hnew
      rw [List.getElem?_set_self hi] at hnew
      rcases List.mem_or_eq_of_mem_set ht with hold | rfl
      · exact h.tasks t hold
      · exact hnew
    obtain ⟨-, t, ht, hcases⟩ := Crew.work_cases hcrew
    have hi : i < s.crew.tasks.length := (List.getElem?_eq_some_iff.1 ht).1
    obtain ⟨-, -, rfl⟩ | ⟨-, rfl⟩ := hcases
    · exact ⟨h.going, hset rfl hi⟩
    · refine ⟨fun hfailing => h.going ?_, hset (Crew.rest_tasks _) hi⟩
      have hbefore := Crew.failing_rest_iff.1 hfailing
      exact hbefore
  | collect picks =>
    obtain ⟨crew', hcrew, rfl⟩ := act_collect ha
    obtain ⟨-, taken, others, ids, hparts, ⟨-, rfl⟩ | ⟨e, ⟨t, ht, hte⟩, -⟩⟩ :=
      Crew.collect_cases hcrew
    · refine ⟨fun hfailing => h.going ?_, fun t ht => h.tasks t ?_⟩
      · have hbefore := Crew.failing_rest_iff.1 hfailing
        exact hbefore
      · rw [Crew.rest_tasks] at ht
        exact hparts.mem_iff.2 (List.mem_append_right _ ht)
    · have hfailed := h.tasks t (hparts.mem_iff.2 (List.mem_append_left _ ht))
      rw [Task.failure?, hte] at hfailed
      cases hfailed
  | submit =>
    obtain ⟨c, cs, -, -, -, rfl⟩ := act_submit ha
    refine ⟨h.going, fun t ht => ?_⟩
    rcases List.mem_append.1 ht with hold | hnew
    · exact h.tasks t hold
    · obtain rfl := List.mem_singleton.1 hnew
      rfl
  | pull =>
    have hgoing : ¬ s'.crew.Failing := by
      rw [Crew.failing_iff, not_not]
      have := (List.append_eq_nil_iff.1 hnone).2
      simpa using this
    refine ⟨hgoing, ?_⟩
    obtain ⟨-, -, source', batch, q, -, ⟨cs, -, rfl⟩ | ⟨-, rfl⟩ | ⟨e, -, rfl⟩⟩ := act_pull ha
    · exact h.tasks
    · rw [Crew.rest_tasks]
      exact h.tasks
    · exact absurd (Crew.failing_stop _ e) hgoing

theorem well_of_tallied {source : Source} {workers : Nat} {p : Program σ}
    (h : Tallied o embed disk ⟨source, [], .start workers p⟩ n tally s)
    (hnone : tally.failed = []) : s.crew.Well := by
  induction h with
  | refl =>
    refine ⟨fun hfailing => hfailing.ne.1 rfl, fun t ht => ?_⟩
    cases ht
  | @act n tally s s' h a ha ih =>
    have hbefore : tally.failed = [] := by
      cases a with
      | work i => exact (List.append_eq_nil_iff.1 hnone).1
      | collect picks => exact hnone
      | submit => exact hnone
      | pull => exact (List.append_eq_nil_iff.1 hnone).1
    exact well_act (ih hbefore) ha hnone

/-- A failure does not go away: a crew that is well now was well before, and nothing is noted. -/
theorem well_before {a : Act} (ha : s.act? o embed disk a = some s') (h : s'.crew.Well) :
    s.crew.Well ∧ (tally.note s s' a).failed = tally.failed := by
  cases a with
  | work i =>
    obtain ⟨crew', hcrew, rfl⟩ := act_work ha
    have hback {t t' : Task} (ht : s.crew.tasks[i]? = some t) (htask : t.failure? = none)
        (htasks : crew'.tasks = s.crew.tasks.set i t') (hgoing : ¬ s.crew.Failing) :
        s.crew.Well ∧ (tally.note s ⟨s.source, s.held, crew'⟩ (.work i)).failed =
          tally.failed := by
      have hi : i < s.crew.tasks.length := (List.getElem?_eq_some_iff.1 ht).1
      have ht' : crew'.tasks[i]? = some t' := by rw [htasks, List.getElem?_set_self hi]
      refine ⟨⟨hgoing, fun u hu => ?_⟩, ?_⟩
      · obtain ⟨j, hj⟩ := List.getElem?_of_mem hu
        by_cases hij : i = j
        · subst hij
          obtain rfl := Option.some.inj (ht.symm.trans hj)
          exact htask
        · have hj' : crew'.tasks[j]? = some u := by rw [htasks, List.getElem?_set_ne hij, hj]
          exact h.tasks u (List.mem_of_getElem? hj')
      · have hnone : t'.failure? = none := h.tasks t' (List.mem_of_getElem? ht')
        simp [Tally.note, ht', hnone]
    obtain ⟨-, t, ht, ⟨hqueued, -, rfl⟩ | ⟨hactive, rfl⟩⟩ := Crew.work_cases hcrew
    · exact hback ht (by rw [Task.failure?, hqueued]) rfl h.going
    · refine hback ht (results_of_isActive hactive).2 (Crew.rest_tasks _) fun hfailing => ?_
      exact h.going (Crew.failing_rest_iff.2 hfailing)
  | collect picks =>
    obtain ⟨crew', hcrew, rfl⟩ := act_collect ha
    obtain ⟨-, taken, others, ids, hparts, ⟨hstages, rfl⟩ | ⟨e, -, rfl⟩⟩ :=
      Crew.collect_cases hcrew
    · refine ⟨⟨fun hfailing => h.going (Crew.failing_rest_iff.2 hfailing), fun t ht => ?_⟩, rfl⟩
      rcases List.mem_append.1 (hparts.mem_iff.1 ht) with htaken | hother
      · have hstage : t.stage ∈ taken.map (·.stage) := List.mem_map_of_mem htaken
        rw [hstages] at hstage
        obtain ⟨id, -, hid⟩ := List.mem_map.1 hstage
        rw [Task.failure?, ← hid]
      · refine h.tasks t ?_
        rw [Crew.rest_tasks]
        exact hother
    · exact absurd (Crew.failing_stop _ e) h.going
  | submit =>
    obtain ⟨c, cs, -, -, -, rfl⟩ := act_submit ha
    exact ⟨⟨h.going, fun t ht => h.tasks t (List.mem_append_left _ ht)⟩, rfl⟩
  | pull =>
    have hnone : s'.crew.phase.failure? = none :=
      not_not.1 fun hsome => h.going (Crew.failing_iff.2 hsome)
    refine ⟨?_, by simp [Tally.note, hnone]⟩
    obtain ⟨hfeeding, -, source', batch, q, -, ⟨cs, -, rfl⟩ | ⟨-, rfl⟩ | ⟨e, -, rfl⟩⟩ :=
      act_pull ha
    · exact ⟨h.going, h.tasks⟩
    · refine ⟨fun hfailing => hfailing.ne.1 hfeeding, fun t ht => h.tasks t ?_⟩
      rw [Crew.rest_tasks]
      exact ht
    · exact absurd (Crew.failing_stop _ e) h.going

/-- **No failure is lost**: none was noted exactly if the crew is well now. -/
theorem well_iff_of_tallied {source : Source} {workers : Nat} {p : Program σ}
    (h : Tallied o embed disk ⟨source, [], .start workers p⟩ n tally s) :
    s.crew.Well ↔ tally.failed = [] := by
  refine ⟨fun hwell => ?_, well_of_tallied h⟩
  induction h with
  | refl => rfl
  | act _ a ha ih =>
    obtain ⟨hbefore, hnote⟩ := well_before ha hwell
    exact hnote.trans (ih hbefore)

end Shift

/-! ## Room -/

namespace Crew

variable {crew crew' : Crew σ} {w : Nat}

/-- A crew of `w` workers that has at most two tasks for each of them. -/
structure Roomy (w : Nat) (crew : Crew σ) : Prop where
  workers : crew.workers = w
  tasks : crew.tasks.length ≤ 2 * w

theorem Roomy.rest (h : crew.Roomy w) : (rest crew).Roomy w :=
  ⟨by rw [rest_workers, h.workers], by rw [rest_tasks]; exact h.tasks⟩

theorem Roomy.stop (h : crew.Roomy w) (e : RunError) : (crew.stop o e).Roomy w := by
  rw [Crew.stop]
  refine Roomy.rest ⟨h.workers, ?_⟩
  exact Nat.le_trans (List.length_filter_le _ crew.tasks) h.tasks

end Crew

namespace Shift

variable {start s s' : Shift σ} {n : Nat} {tally : Tally} {w : Nat}

theorem roomy_act (h : s.crew.Roomy w) {a : Act} (ha : s.act? o embed disk a = some s') :
    s'.crew.Roomy w := by
  cases a with
  | work i =>
    obtain ⟨crew', hcrew, rfl⟩ := act_work ha
    obtain ⟨-, t, -, ⟨-, -, rfl⟩ | ⟨-, rfl⟩⟩ := Crew.work_cases hcrew
    · exact ⟨h.workers, by rw [List.length_set]; exact h.tasks⟩
    · refine Crew.Roomy.rest ?_
      exact ⟨h.workers, by rw [List.length_set]; exact h.tasks⟩
  | collect picks =>
    obtain ⟨crew', hcrew, rfl⟩ := act_collect ha
    obtain ⟨-, taken, others, ids, hparts, hend⟩ := Crew.collect_cases hcrew
    have hless : others.length ≤ 2 * w := by
      have hlength := hparts.length_eq
      have htasks := h.tasks
      rw [List.length_append] at hlength
      omega
    obtain ⟨-, rfl⟩ | ⟨e, -, rfl⟩ := hend
    · refine Crew.Roomy.rest ?_
      exact ⟨h.workers, hless⟩
    · refine Crew.Roomy.stop ?_ e
      exact ⟨h.workers, hless⟩
  | submit =>
    obtain ⟨c, cs, -, -, hroom, rfl⟩ := act_submit ha
    refine ⟨h.workers, ?_⟩
    simp only [Crew.isFull, h.workers, decide_eq_false_iff_not] at hroom
    simp only [List.length_append, List.length_singleton]
    omega
  | pull =>
    obtain ⟨-, -, source', batch, q, -, ⟨cs, -, rfl⟩ | ⟨-, rfl⟩ | ⟨e, -, rfl⟩⟩ := act_pull ha
    · exact ⟨h.workers, h.tasks⟩
    · show (Crew.rest { s.crew with program := q, phase := .finishing }).Roomy w
      exact Crew.Roomy.rest ⟨h.workers, h.tasks⟩
    · have hroomy : Crew.Roomy w { s.crew with program := q } := ⟨h.workers, h.tasks⟩
      exact hroomy.stop e

/-- **There are never more than two tasks for each worker.** -/
theorem roomy_of_tallied {source : Source} {workers : Nat} {p : Program σ}
    (h : Tallied o embed disk ⟨source, [], .start workers p⟩ n tally s) :
    s.crew.Roomy workers :=
  h.keeps (P := fun s => s.crew.Roomy workers) ⟨rfl, Nat.zero_le _⟩ fun hroomy ha =>
    roomy_act hroomy ha

end Shift

end DocSearch.Index
