import DocSearch.Index.Run
import Mathlib.Data.List.Nodup
import Mathlib.Data.List.Perm.Basic

/-!
# What a move does to a crew

Each kind of move has one lemma that says everything it may have done. A task that is moved has
begun or has made one of its three steps (`work_cases`). Collecting parts the tasks in those that
are taken, which have ended, and the others (`collect_cases`): without a failure their ids are
noted, otherwise the crew is `Failing`, and then it never succeeds any more
(`Failing.step`).
-/

namespace DocSearch.Index.Crew

open DocSearch.Action

variable {σ : Type} {o : Outside σ} {embed : Embedder σ} {crew crew' : Crew σ}

/-! ## Resting and stopping -/

/-- Resting changes nothing but the phase. -/
theorem rest_eq (crew : Crew σ) : ∃ phase, rest crew = { crew with phase } := by
  unfold rest
  split
  · split_ifs
    · exact ⟨.over none, rfl⟩
    · exact ⟨crew.phase, rfl⟩
  · next e _ =>
    split_ifs
    · exact ⟨.over (some e), rfl⟩
    · exact ⟨crew.phase, rfl⟩
  · exact ⟨crew.phase, rfl⟩

@[simp] theorem rest_program (crew : Crew σ) : (rest crew).program = crew.program := by
  obtain ⟨phase, h⟩ := rest_eq crew
  rw [h]

@[simp] theorem rest_tasks (crew : Crew σ) : (rest crew).tasks = crew.tasks := by
  obtain ⟨phase, h⟩ := rest_eq crew
  rw [h]

@[simp] theorem rest_collected (crew : Crew σ) : (rest crew).collected = crew.collected := by
  obtain ⟨phase, h⟩ := rest_eq crew
  rw [h]

@[simp] theorem rest_workers (crew : Crew σ) : (rest crew).workers = crew.workers := by
  obtain ⟨phase, h⟩ := rest_eq crew
  rw [h]

@[simp] theorem rest_stopped (crew : Crew σ) : (rest crew).stopped = crew.stopped := by
  obtain ⟨phase, h⟩ := rest_eq crew
  rw [h]

/-- A crew that is stopping or has come to an end with a failure. -/
def Failing (crew : Crew σ) : Prop :=
  (∃ e, crew.phase = .stopping e) ∨ ∃ e, crew.phase = .over (some e)

theorem failing_rest_iff : (rest crew).Failing ↔ crew.Failing := by
  unfold rest Failing
  split <;> rename_i h
  · split_ifs <;> simp [h]
  · split_ifs <;> simp [h]
  · rfl

theorem failing_stop (crew : Crew σ) (e : RunError) : (crew.stop o e).Failing := by
  rw [stop, failing_rest_iff]
  exact .inl ⟨e, rfl⟩

/-- Where resting has ended a crew without a failure, no task is left. -/
theorem tasks_of_rest_over (hover : (rest crew).phase = .over none) (h : crew.phase ≠ .over none) :
    crew.phase = .finishing ∧ crew.tasks = [] := by
  unfold rest at hover
  split at hover <;> rename_i hphase
  · split_ifs at hover with hempty
    · exact ⟨hphase, List.isEmpty_iff.1 hempty⟩
    · rw [hphase] at hover
      cases hover
  · split_ifs at hover
    · cases hover
    · rw [hphase] at hover
      cases hover
  · exact absurd hover h

theorem feeding_rest_iff : (rest crew).phase = .feeding ↔ crew.phase = .feeding := by
  unfold rest
  split <;> rename_i h
  · split_ifs <;> simp [h]
  · split_ifs <;> simp [h]
  · rfl

theorem Failing.ne (h : crew.Failing) : crew.phase ≠ .feeding ∧ crew.phase ≠ .finishing := by
  rcases h with ⟨e, he⟩ | ⟨e, he⟩ <;> simp [he]

/-- Stopping drops the tasks that are queued. -/
@[simp] theorem tasks_stop (crew : Crew σ) (e : RunError) :
    (crew.stop o e).tasks = crew.tasks.filter fun t => !(t.stage matches .queued) :=
  rest_tasks _

theorem mem_tasks_stop {e : RunError} {t : Task} (ht : t ∈ (crew.stop o e).tasks) :
    t ∈ crew.tasks := by
  rw [tasks_stop] at ht
  exact List.mem_of_mem_filter ht

/-! ## Working -/

/-- A task that is moved begins, if a worker is free, or it makes one of its steps. -/
theorem work_cases {i : Nat} (h : crew.step? o embed (.work i) = some crew') :
    (∀ failure, crew.phase ≠ .over failure) ∧ ∃ t, crew.tasks[i]? = some t ∧
      (t.stage = .queued ∧ crew.busy < crew.workers ∧
          crew' = { crew with tasks := crew.tasks.set i { t with stage := .begun } } ∨
        t.stage.isActive = true ∧
          crew' = rest { crew with
            program := (t.advance o embed crew.stopped crew.program).2
            tasks := crew.tasks.set i (t.advance o embed crew.stopped crew.program).1 }) := by
  rw [step?, work?] at h
  split at h
  · cases h
  · cases h
  rename_i t ht hover
  refine ⟨fun failure => hover failure, t, ht, ?_⟩
  split at h
  · cases h
  · rename_i hqueued
    split_ifs at h with hfree
    simp only [Bool.and_eq_true, decide_eq_true_eq] at hfree
    exact .inl ⟨hqueued, hfree.1, (Option.some.inj h).symm⟩
  · rename_i hended hqueued
    refine .inr ⟨?_, (Option.some.inj h).symm⟩
    cases hs : t.stage with
    | queued => exact absurd hs hqueued
    | ended r => exact absurd hs (hended r)
    | _ => rfl

/-- Whether a crew takes chunks does not depend on the work of its tasks, and a crew that is over
behind a step of a task has no tasks left. -/
theorem work_phase {i : Nat} (h : crew.step? o embed (.work i) = some crew') :
    (crew'.phase = .feeding ↔ crew.phase = .feeding) ∧
      (crew'.phase = .over none → crew'.tasks = []) := by
  obtain ⟨hover, t, -, ⟨-, -, rfl⟩ | ⟨-, rfl⟩⟩ := work_cases h
  · exact ⟨Iff.rfl, fun hnone => absurd hnone (hover none)⟩
  · refine ⟨feeding_rest_iff, fun hnone => ?_⟩
    rw [rest_tasks]
    exact (tasks_of_rest_over hnone (hover none)).2

/-! ## Collecting -/

/-- The tasks at `picks`. -/
def picked (crew : Crew σ) (picks : List Nat) : List Task := picks.filterMap (crew.tasks[·]?)

/-- Collecting parts the tasks. -/
theorem perm_picked_others {picks : List Nat} (hpicks : picks.Nodup) :
    crew.tasks.Perm (crew.picked picks ++ crew.others picks) := by
  have hzip : (crew.tasks.zipIdx.filter fun t => picks.contains t.2).Perm
      (picks.filterMap fun i => crew.tasks[i]?.map (·, i)) := by
    rw [List.perm_ext_iff_of_nodup]
    · intro t
      simp only [List.mem_filter, List.contains_iff_mem, List.mem_filterMap,
        Option.map_eq_some_iff, List.mem_zipIdx_iff_getElem?]
      constructor
      · rintro ⟨ht, hi⟩
        exact ⟨t.2, hi, t.1, ht, rfl⟩
      · rintro ⟨i, hi, a, ha, rfl⟩
        exact ⟨ha, hi⟩
    · apply List.Nodup.filter
      apply List.Nodup.of_map Prod.snd
      rw [List.zipIdx_map_snd]
      exact List.nodup_range' ..
    · refine hpicks.filterMap fun i j t hi hj => ?_
      obtain ⟨a, -, rfl⟩ := Option.map_eq_some_iff.1 hi
      obtain ⟨b, -, hb⟩ := Option.map_eq_some_iff.1 hj
      exact (Prod.mk.inj hb).2.symm
  have hparts := (List.filter_append_perm (fun t => picks.contains t.2) crew.tasks.zipIdx).symm
  have hall := (hparts.trans (hzip.append_right _)).map Prod.fst
  rw [List.map_append, List.map_filterMap, List.zipIdx_map_fst] at hall
  simpa [picked, others, Function.comp_def] using hall

/-- Results are there only for tasks that have ended. -/
theorem picked_of_results {picks : List Nat} {rs : List (Except RunError Int)}
    (h : crew.results? picks = some rs) :
    picks.Nodup ∧ (crew.picked picks).map (·.stage) = rs.map .ended := by
  rw [results?] at h
  split_ifs at h with hnodup
  refine ⟨of_decide_eq_true hnodup, ?_⟩
  clear hnodup
  induction picks generalizing rs with
  | nil =>
    obtain rfl : rs = [] := by simpa using h.symm
    rfl
  | cons i picks ih =>
    rw [List.mapM_cons] at h
    obtain ⟨r, hr, h⟩ := Option.bind_eq_some_iff.1 h
    obtain ⟨rs', hrs, h⟩ := Option.bind_eq_some_iff.1 h
    obtain rfl : r :: rs' = rs := Option.some.inj h
    obtain ⟨t, ht, hres⟩ := Option.bind_eq_some_iff.1 hr
    have hstage : t.stage = .ended r := by
      rw [Task.result?] at hres
      split at hres <;> simp_all
    rw [picked, List.filterMap_cons, ht, List.map_cons, List.map_cons, hstage]
    exact congrArg _ (ih hrs)

theorem gather_none {rs : List (Except RunError Int)} (h : (gather rs).2 = none) :
    rs = (gather rs).1.map .ok := by
  induction rs with
  | nil => rfl
  | cons r rs ih =>
    cases r with
    | error e => cases h
    | ok id => rw [gather, List.map_cons, ← ih h]

theorem gather_some {rs : List (Except RunError Int)} {e : RunError}
    (h : (gather rs).2 = some e) : .error e ∈ rs := by
  induction rs with
  | nil => cases h
  | cons r rs ih =>
    cases r with
    | error e' =>
      obtain rfl := Option.some.inj h
      exact List.mem_cons_self
    | ok id => exact List.mem_cons_of_mem _ (ih h)

/-- Collecting takes tasks that have ended and notes their ids, or one of them has failed. -/
theorem collect_cases {picks : List Nat} (h : crew.step? o embed (.collect picks) = some crew') :
    (crew.phase = .feeding ∧ crew.isFull = true ∨ crew.phase = .finishing) ∧
      ∃ taken others ids, crew.tasks.Perm (taken ++ others) ∧
        (taken.map (·.stage) = ids.map (fun id => .ended (.ok id)) ∧
            crew' = rest { crew with tasks := others, collected := crew.collected ++ ids } ∨
          ∃ e, (∃ t ∈ taken, t.stage = .ended (.error e)) ∧
            crew' =
              stop o { crew with tasks := others, collected := crew.collected ++ ids } e) := by
  rw [step?] at h
  obtain ⟨rs, hrs, h⟩ := Option.bind_eq_some_iff.1 h
  split_ifs at h with hmay
  obtain rfl : crew.take o picks rs = crew' := Option.some.inj h
  obtain ⟨hnodup, hstages⟩ := picked_of_results hrs
  have hphase : crew.phase = .feeding ∧ crew.isFull = true ∨ crew.phase = .finishing := by
    rw [mayCollect] at hmay
    split at hmay <;> rename_i hphase
    · exact .inl ⟨hphase, (Bool.and_eq_true _ _ ▸ hmay).1⟩
    · exact .inr hphase
    · cases hmay
  refine ⟨hphase, crew.picked picks, crew.others picks, (gather rs).1,
    perm_picked_others hnodup, ?_⟩
  cases hgather : (gather rs).2 with
  | none =>
    rw [gather_none hgather, List.map_map] at hstages
    exact .inl ⟨hstages, by simp only [take, hgather]⟩
  | some e =>
    have hmem : Stage.ended (.error e) ∈ (crew.picked picks).map (·.stage) :=
      hstages ▸ List.mem_map_of_mem (gather_some hgather)
    exact .inr ⟨e, List.mem_map.1 hmem, by simp only [take, hgather]⟩

/-! ## Moves of the source -/

theorem submit_cases {c : Chunk} (h : crew.step? o embed (.submit c) = some crew') :
    crew.phase = .feeding ∧ crew.isFull = false ∧
      crew' = { crew with tasks := crew.tasks ++ [⟨c, .queued⟩] } := by
  rw [step?] at h
  split at h
  · rename_i hphase
    split_ifs at h with hfull
    exact ⟨hphase, by simpa using hfull, (Option.some.inj h).symm⟩
  · cases h

theorem exhausted_cases (h : crew.step? o embed .exhausted = some crew') :
    crew.phase = .feeding ∧ crew' = rest { crew with phase := .finishing } := by
  rw [step?] at h
  split at h
  · rename_i hphase
    exact ⟨hphase, (Option.some.inj h).symm⟩
  · cases h

theorem broke_cases {e : RunError} (h : crew.step? o embed (.broke e) = some crew') :
    crew.phase = .feeding ∧ crew' = crew.stop o e := by
  rw [step?] at h
  split at h
  · rename_i hphase
    exact ⟨hphase, (Option.some.inj h).symm⟩
  · cases h

/-- Nothing makes up for a failure. -/
theorem Failing.step {m : Move} (hfailing : crew.Failing)
    (h : crew.step? o embed m = some crew') : crew'.Failing := by
  have hphase := hfailing.ne
  cases m with
  | work i =>
    obtain ⟨-, t, -, ⟨-, -, rfl⟩ | ⟨-, rfl⟩⟩ := work_cases h
    · exact hfailing
    · rw [failing_rest_iff]
      exact hfailing
  | collect picks =>
    obtain ⟨⟨hfeeding, -⟩ | hfinishing, -⟩ := collect_cases h
    · exact absurd hfeeding hphase.1
    · exact absurd hfinishing hphase.2
  | submit c => exact absurd (submit_cases h).1 hphase.1
  | exhausted => exact absurd (exhausted_cases h).1 hphase.1
  | broke e => exact absurd (broke_cases h).1 hphase.1

end DocSearch.Index.Crew
