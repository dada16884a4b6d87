import DocSearch.Proofs.Index.Race
import DocSearch.Proofs.Index.Tally

/-!
# A crew comes to its end

Every act leaves less to do (`weight_act`): a chunk that is held weighs more than a queued task, a
task loses weight with each of its steps, and what is collected weighs nothing any more. So a course
has no more acts than its chunks and batches allow. As long as a crew is not over, some act is
possible (`exists_act`): if a task has not ended it can be moved, and if they all have ended, their
results can be collected or there is room for another chunk.

**`tasks_are_counted`** puts this together with the counts: a crew whose tasks succeed submits each
chunk once and collects each result once, has never more tasks than two for each worker, and ends
with the ids that its tasks have returned.
-/

namespace DocSearch.Index

open DocSearch.Action Files Store

variable {σ : Type} {o : Outside σ} {embed : Embedder σ} {disk : Disk}

/-! ## What is left to do -/

/-- The steps that a task may still take, and its collection. -/
def Stage.weight : Stage → Nat
  | .queued => 5
  | .begun => 4
  | .stored _ => 3
  | .embedded _ _ => 2
  | .ended _ => 1

/-- What the tasks of a crew may still do. -/
def weightOf : List Task → Nat
  | [] => 0
  | t :: ts => t.stage.weight + weightOf ts

/-- The end of the source is still to come for a crew that takes chunks. -/
def Phase.toCome : Phase → Nat
  | .feeding => 1
  | _ => 0

/-- What may still be done in a shift whose source is to give the batches `bs`. -/
def Shift.weight (bs : List (List Chunk)) (s : Shift σ) : Nat :=
  weightOf s.crew.tasks + 6 * s.held.length + 6 * bs.flatten.length + bs.length +
    s.crew.phase.toCome

theorem toCome_of_ne {phase : Phase} (h : phase ≠ .feeding) : phase.toCome = 0 := by
  cases phase with
  | feeding => exact absurd rfl h
  | _ => rfl

theorem weightOf_append (ts us : List Task) :
    weightOf (ts ++ us) = weightOf ts + weightOf us := by
  induction ts with
  | nil => simp [weightOf]
  | cons t ts ih => rw [List.cons_append, weightOf, weightOf, ih, Nat.add_assoc]

theorem weightOf_perm {ts us : List Task} (h : ts.Perm us) : weightOf ts = weightOf us := by
  induction h with
  | nil => rfl
  | cons t _ ih => rw [weightOf, weightOf, ih]
  | swap t u ts =>
    simp only [weightOf]
    omega
  | trans _ _ ih ih' => exact ih.trans ih'

theorem weightOf_filter_le (p : Task → Bool) (ts : List Task) :
    weightOf (ts.filter p) ≤ weightOf ts := by
  have hparts := weightOf_perm (List.filter_append_perm p ts)
  rw [weightOf_append] at hparts
  omega

/-- Stopping puts nothing on. -/
theorem weightOf_stop_le (crew : Crew σ) (e : RunError) :
    weightOf (crew.stop o e).tasks ≤ weightOf crew.tasks := by
  rw [Crew.tasks_stop]
  exact weightOf_filter_le _ _

theorem weightOf_set_lt {ts : List Task} {i : Nat} {t t' : Task} (ht : ts[i]? = some t)
    (h : t'.stage.weight < t.stage.weight) : weightOf (ts.set i t') < weightOf ts := by
  induction ts generalizing i with
  | nil => cases ht
  | cons u ts ih =>
    cases i with
    | zero =>
      obtain rfl : u = t := Option.some.inj ht
      simp only [weightOf, List.set_cons_zero]
      omega
    | succ i =>
      have hrest := ih ht
      simp only [weightOf, List.set_cons_succ]
      omega

theorem length_le_weightOf (ts : List Task) : ts.length ≤ weightOf ts := by
  induction ts with
  | nil => exact Nat.le_refl 0
  | cons t ts ih =>
    have ht : 1 ≤ t.stage.weight := by cases t.stage <;> simp [Stage.weight]
    simp only [weightOf, List.length_cons]
    omega

/-- A step takes weight off a task. -/
theorem advance_weight {t : Task} (h : t.stage.isActive = true) (stopped : Trip) (p : Program σ) :
    (t.advance o embed stopped p).1.stage.weight < t.stage.weight := by
  obtain ⟨c, stage⟩ := t
  cases stage with
  | begun =>
    simp only [Task.advance]
    rcases (upsertChunk o c).perform p with ⟨_ | _, q⟩ <;> simp [Stage.weight]
  | stored id =>
    simp only [Task.advance]
    rcases (embed stopped c.text).perform p with ⟨_ | _, q⟩ <;> simp [Stage.weight]
  | embedded id v =>
    simp only [Task.advance]
    rcases (settle o c id v).perform p with ⟨_ | _, q⟩ <;> simp [Stage.weight]
  | queued => cases h
  | ended r => cases h

namespace Shift

variable {start s s' : Shift σ} {n : Nat} {tally : Tally} {bs : List (List Chunk)}
  {ending : Option RunError}

/-- Where tasks lose weight and the crew goes on as before, there is less to do. -/
theorem weight_lt_of_tasks {crew' : Crew σ}
    (hfeeding : crew'.phase = .feeding → s.crew.phase = .feeding)
    (h : weightOf crew'.tasks < weightOf s.crew.tasks) :
    weight bs ⟨s.source, s.held, crew'⟩ < weight bs s := by
  have hphase : crew'.phase.toCome ≤ s.crew.phase.toCome := by
    by_cases hp : crew'.phase = .feeding
    · exact Nat.le_of_eq (by rw [hp, hfeeding hp])
    · rw [toCome_of_ne hp]
      exact Nat.zero_le _
  simp only [weight]
  omega

/-- Collecting takes tasks away. -/
theorem weight_collect {picks : List Nat} {crew' : Crew σ}
    (hcrew : s.crew.step? o embed (.collect picks) = some crew') :
    (crew'.phase = .feeding → s.crew.phase = .feeding) ∧
      weightOf crew'.tasks < weightOf s.crew.tasks := by
  obtain ⟨hpicked, hparts, rs, -, rfl⟩ := Crew.collect_picked hcrew
  have hless : weightOf (s.crew.others picks) < weightOf s.crew.tasks := by
    have hweight := weightOf_perm hparts
    have htaken := length_le_weightOf (s.crew.picked picks)
    have hlength : 0 < (s.crew.picked picks).length := List.length_pos_iff.2 hpicked
    rw [weightOf_append] at hweight
    omega
  cases hgather : (gather rs).2 with
  | none =>
    simp only [Crew.take, hgather, Crew.rest_tasks]
    exact ⟨fun hphase => by simpa using Crew.feeding_rest_iff.1 hphase, hless⟩
  | some e =>
    simp only [Crew.take, hgather]
    refine ⟨fun hphase => absurd hphase (Crew.failing_stop _ e).ne.1, ?_⟩
    exact Nat.lt_of_le_of_lt (weightOf_stop_le _ e) hless

/-- A chunk that comes from the source is held, and each batch comes once. -/
theorem weight_pull (hgives : s.crew.phase = .feeding → s.source.Gives disk bs ending)
    (ha : s.act? o embed disk .pull = some s') :
    ∃ bs', (s'.crew.phase = .feeding → s'.source.Gives disk bs' ending) ∧
      s'.weight bs' < s.weight bs := by
  obtain ⟨hfeeding, hheld, source', batch, q, hpull, hbatch⟩ := act_pull ha
  obtain ⟨⟨ls, hnext⟩, -⟩ := next_of_pull hpull
  have hcases := (hgives hfeeding).next_cases hnext
  have hnow : s.crew.phase.toCome = 1 := by
    rw [hfeeding]
    rfl
  obtain ⟨cs, rfl, rfl⟩ | ⟨rfl, rfl⟩ | ⟨e, rfl, rfl⟩ := hbatch
  · rcases hcases with ⟨e, hbatch⟩ | ⟨hbatch, -⟩ | ⟨cs', bs', hbatch, rfl, hrest⟩
    · cases hbatch
    · cases hbatch
    · obtain rfl := Batch.chunks.inj hbatch
      refine ⟨bs', fun _ => hrest, ?_⟩
      simp only [weight, hheld, List.flatten_cons, List.length_append, List.length_cons,
        List.length_nil]
      omega
  · have hphase : (Crew.rest { s.crew with program := q, phase := .finishing }).phase ≠
        .feeding := fun hphase => by cases Crew.feeding_rest_iff.1 hphase
    refine ⟨bs, fun h => absurd h hphase, ?_⟩
    simp only [weight, hheld, hnow, toCome_of_ne hphase, Crew.rest_tasks]
    omega
  · have hphase := (Crew.failing_stop (o := o) { s.crew with program := q } e).ne.1
    have hstop := weightOf_stop_le (o := o) { s.crew with program := q } e
    dsimp only at hstop
    refine ⟨bs, fun h => absurd h hphase, ?_⟩
    simp only [weight, hheld, hnow, toCome_of_ne hphase]
    omega

/-- **Every act leaves less to do.** -/
theorem weight_act (hgives : s.crew.phase = .feeding → s.source.Gives disk bs ending) {a : Act}
    (ha : s.act? o embed disk a = some s') :
    ∃ bs', (s'.crew.phase = .feeding → s'.source.Gives disk bs' ending) ∧
      s'.weight bs' < s.weight bs := by
  cases a with
  | work i =>
    obtain ⟨crew', hcrew, rfl⟩ := act_work ha
    have hfeeding := (Crew.work_phase hcrew).1
    refine ⟨bs, fun hphase => hgives (hfeeding.1 hphase), weight_lt_of_tasks hfeeding.1 ?_⟩
    obtain ⟨-, t, ht, ⟨hqueued, -, rfl⟩ | ⟨hactive, rfl⟩⟩ := Crew.work_cases hcrew
    · refine weightOf_set_lt ht ?_
      rw [hqueued]
      show Stage.begun.weight < Stage.queued.weight
      decide
    · rw [Crew.rest_tasks]
      exact weightOf_set_lt ht (advance_weight hactive _ _)
  | collect picks =>
    obtain ⟨crew', hcrew, rfl⟩ := act_collect ha
    obtain ⟨hfeeding, hless⟩ := weight_collect hcrew
    exact ⟨bs, fun hphase => hgives (hfeeding hphase), weight_lt_of_tasks hfeeding hless⟩
  | submit =>
    obtain ⟨c, cs, hheld, hfeeding, -, rfl⟩ := act_submit ha
    refine ⟨bs, hgives, ?_⟩
    simp only [weight, hheld, weightOf_append, List.length_cons]
    simp only [weightOf, Stage.weight]
    omega
  | pull => exact weight_pull hgives ha

/-- No course has more acts than there was to do. -/
theorem acts_le {source : Source} (hgives : source.Gives disk bs ending) {workers : Nat}
    {p : Program σ} (h : Tallied o embed disk ⟨source, [], .start workers p⟩ n tally s) :
    n ≤ 6 * bs.flatten.length + bs.length + 1 := by
  suffices hless : ∃ bs', (s.crew.phase = .feeding → s.source.Gives disk bs' ending) ∧
      n + s.weight bs' ≤ weight bs ⟨source, [], .start workers p⟩ by
    obtain ⟨bs', -, hn⟩ := hless
    simp only [weight, weightOf, Crew.start, Phase.toCome, List.length_nil] at hn
    omega
  induction h with
  | refl => exact ⟨bs, fun _ => hgives, by omega⟩
  | act _ a ha ih =>
    obtain ⟨bs', hrest, hn⟩ := ih
    obtain ⟨bs'', hrest', hless⟩ := weight_act hrest ha
    exact ⟨bs'', hrest', by omega⟩

end Shift

/-! ## There is always something to do -/

namespace Crew

variable {crew crew' : Crew σ}

/-- A crew that waits does so for tasks: at the end of the source there are some, and a crew that is
stopping has busy workers. -/
structure Awake (crew : Crew σ) : Prop where
  finishing : crew.phase = .finishing → crew.tasks ≠ []
  stopping : ∀ e, crew.phase = .stopping e → ∃ t ∈ crew.tasks, t.stage.isActive = true

theorem awake_rest (crew : Crew σ) : (rest crew).Awake := by
  cases hphase : crew.phase with
  | finishing =>
    cases htasks : crew.tasks with
    | nil =>
      rw [rest, hphase]
      simp only [htasks, List.isEmpty_nil, if_true]
      constructor <;> simp
    | cons t ts =>
      rw [rest, hphase]
      simp only [htasks, List.isEmpty_cons, Bool.false_eq_true, if_false]
      constructor <;> simp [hphase, htasks]
  | stopping e =>
    rw [rest, hphase]
    by_cases hbusy : crew.busy = 0
    · simp only [hbusy, beq_self_eq_true, if_true]
      constructor <;> simp
    · simp only [beq_iff_eq, hbusy, if_false]
      refine ⟨fun h => ?_, fun _ _ => ?_⟩
      · cases hphase.symm.trans h
      · exact List.countP_pos_iff.1 (Nat.pos_of_ne_zero hbusy)
  | feeding =>
    rw [rest, hphase]
    constructor <;> simp [hphase]
  | _ =>
    rw [rest, hphase]
    constructor <;> simp [hphase]

theorem awake_stop (crew : Crew σ) (e : RunError) : (crew.stop o e).Awake := by
  rw [stop]
  exact awake_rest _

theorem awake_of_feeding (h : crew.phase = .feeding) : crew.Awake := by
  constructor <;> simp [h]

theorem isSome_work {i : Nat} {t : Task} (hover : ∀ failure, crew.phase ≠ .over failure)
    (ht : crew.tasks[i]? = some t)
    (h : t.stage.isActive = true ∨ t.stage = .queued ∧ crew.busy < crew.workers ∧
      ∀ u ∈ crew.tasks.take i, u.stage ≠ .queued) :
    (crew.step? o embed (.work i)).isSome := by
  rw [step?, work?, ht]
  split
  · rename_i failure hphase
    exact absurd hphase (hover failure)
  · rename_i hnone _
    cases hnone
  · rename_i u hu _
    obtain rfl := Option.some.inj hu
    rcases h with hactive | ⟨hqueued, hfree, hbefore⟩
    · split
      · rename_i hended
        rw [hended] at hactive
        cases hactive
      · rename_i hqueued
        rw [hqueued] at hactive
        cases hactive
      · rfl
    · simp only [hqueued]
      split_ifs with hbegins
      · rfl
      · refine absurd ?_ hbegins
        simp only [Bool.and_eq_true, decide_eq_true_eq, List.all_eq_true]
        refine ⟨hfree, fun u hu => ?_⟩
        have hnot := hbefore u hu
        cases hstage : u.stage <;> simp_all

theorem exists_first_queued {ts : List Task} {t : Task} (ht : t ∈ ts)
    (hqueued : t.stage = .queued) :
    ∃ i u, ts[i]? = some u ∧ u.stage = .queued ∧ ∀ v ∈ ts.take i, v.stage ≠ .queued := by
  induction ts with
  | nil => cases ht
  | cons v vs ih =>
    by_cases hv : v.stage = .queued
    · exact ⟨0, v, rfl, hv, by simp⟩
    · have hlater : t ∈ vs := (List.mem_cons.1 ht).resolve_left fun heq => hv (heq ▸ hqueued)
      obtain ⟨i, u, hi, hu, hbefore⟩ := ih hlater
      refine ⟨i + 1, u, hi, hu, ?_⟩
      rw [List.take_succ_cons]
      exact List.forall_mem_cons.2 ⟨hv, hbefore⟩

/-- Where some task has not ended, one can be moved: one that is active, or the first one that is
queued, because then all workers are free. -/
theorem exists_work (hover : ∀ failure, crew.phase ≠ .over failure) (hw : 0 < crew.workers)
    {t : Task} (ht : t ∈ crew.tasks) (hended : ∀ r, t.stage ≠ .ended r) :
    ∃ i crew', crew.step? o embed (.work i) = some crew' := by
  by_cases hactive : ∃ u ∈ crew.tasks, u.stage.isActive = true
  · obtain ⟨u, hu, hactive⟩ := hactive
    obtain ⟨i, hi⟩ := List.getElem?_of_mem hu
    exact ⟨i, Option.isSome_iff_exists.1 (isSome_work hover hi (.inl hactive))⟩
  · have hbusy : crew.busy = 0 := by
      rw [busy, List.countP_eq_zero]
      exact fun u hu h => hactive ⟨u, hu, h⟩
    have hqueued : t.stage = .queued := by
      cases hstage : t.stage with
      | queued => rfl
      | ended r => exact absurd hstage (hended r)
      | _ => exact absurd ⟨t, ht, by rw [hstage]; rfl⟩ hactive
    obtain ⟨i, u, hi, hu, hbefore⟩ := exists_first_queued ht hqueued
    have hfree : crew.busy < crew.workers := by omega
    exact ⟨i, Option.isSome_iff_exists.1 (isSome_work hover hi (.inr ⟨hu, hfree, hbefore⟩))⟩

theorem exists_results {ts : List Task} (h : ∀ t ∈ ts, ∃ r, t.stage = .ended r) :
    ∃ rs : List (Except RunError Int), ts.map (·.stage) = rs.map .ended := by
  induction ts with
  | nil => exact ⟨[], rfl⟩
  | cons t ts ih =>
    obtain ⟨r, hr⟩ := h t List.mem_cons_self
    obtain ⟨rs, hrs⟩ := ih fun u hu => h u (List.mem_cons_of_mem t hu)
    exact ⟨r :: rs, by rw [List.map_cons, List.map_cons, hr, hrs]⟩

/-- Where all tasks have ended, all results can be collected. -/
theorem exists_collect (hended : ∀ t ∈ crew.tasks, ∃ r, t.stage = .ended r)
    (htasks : crew.tasks ≠ [])
    (hphase : crew.phase = .feeding ∧ crew.isFull = true ∨ crew.phase = .finishing) :
    ∃ crew', crew.step? o embed (.collect (List.range crew.tasks.length)) = some crew' := by
  obtain ⟨rs, hrs⟩ := exists_results hended
  have hresults : crew.results? (List.range crew.tasks.length) = some rs := Ended.results hrs
  have hmay : crew.mayCollect (List.range crew.tasks.length) rs = true := by
    rcases hphase with ⟨hfeeding, hfull⟩ | hfinishing
    · simp [mayCollect, hfeeding, hfull, htasks]
    · simp [mayCollect, hfinishing, htasks]
  refine ⟨crew.take o (List.range crew.tasks.length) rs, ?_⟩
  rw [step?, hresults]
  simp only [Option.bind_eq_bind, Option.bind_some, hmay, if_true]
  rfl

end Crew

namespace Shift

variable {start s s' : Shift σ} {n : Nat} {tally : Tally}

/-- A crew that takes chunks can take what comes next, whatever it is. -/
theorem exists_pull_act (hfeeding : s.crew.phase = .feeding) (hheld : s.held = []) :
    ∃ a s', s.act? o embed disk a = some s' := by
  suffices hstep : ∃ ws s', s.Step o embed disk ws s' by
    obtain ⟨ws, s', hstep⟩ := hstep
    obtain ⟨a, ha, -⟩ := hstep.exists_act
    exact ⟨a, s', ha⟩
  obtain ⟨source, held, crew⟩ := s
  obtain rfl : held = [] := hheld
  replace hfeeding : crew.phase = .feeding := hfeeding
  obtain ⟨source', batch, ls, q, -, hq, -⟩ := exists_pull o disk source crew.program
  cases batch with
  | chunks cs => exact ⟨[], _, .pull hfeeding hq⟩
  | finished =>
    have hexhausted : Crew.step? o embed { crew with program := q } .exhausted =
        some (Crew.rest { crew with program := q, phase := .finishing }) := by
      rw [Crew.step?, hfeeding]
    exact ⟨[], _, .exhausted hq hexhausted⟩
  | failed e =>
    have hbroke : Crew.step? o embed { crew with program := q } (.broke e) =
        some (Crew.stop o { crew with program := q } e) := by
      rw [Crew.step?, hfeeding]
    exact ⟨[], _, .broke hq hbroke⟩

theorem exists_work_act (h : ∃ i crew', s.crew.step? o embed (.work i) = some crew') :
    ∃ a s', s.act? o embed disk a = some s' := by
  obtain ⟨i, crew', hcrew⟩ := h
  exact ⟨.work i, { s with crew := crew' }, by rw [act?, hcrew]; rfl⟩

theorem exists_collect_act {picks : List Nat}
    (h : ∃ crew', s.crew.step? o embed (.collect picks) = some crew') :
    ∃ a s', s.act? o embed disk a = some s' := by
  obtain ⟨crew', hcrew⟩ := h
  exact ⟨.collect picks, { s with crew := crew' }, by rw [act?, hcrew]; rfl⟩

/-- **As long as a crew is not over, some act is possible.** -/
theorem exists_act (hawake : s.crew.Awake) (hw : 0 < s.crew.workers)
    (hover : ∀ failure, s.crew.phase ≠ .over failure) :
    ∃ a s', s.act? o embed disk a = some s' := by
  by_cases hended : ∀ t ∈ s.crew.tasks, ∃ r, t.stage = .ended r
  · cases hphase : s.crew.phase with
    | feeding =>
      cases hheld : s.held with
      | nil => exact exists_pull_act hphase hheld
      | cons c cs =>
        cases hfull : s.crew.isFull with
        | false =>
          refine ⟨.submit, ⟨s.source, cs,
            { s.crew with tasks := s.crew.tasks ++ [⟨c, .queued⟩] }⟩, ?_⟩
          simp only [act?, hheld, Crew.step?, hphase, hfull]
          rfl
        | true =>
          have htasks : s.crew.tasks ≠ [] := by
            intro hnil
            simp only [Crew.isFull, hnil, List.length_nil, decide_eq_true_eq] at hfull
            omega
          exact exists_collect_act (Crew.exists_collect hended htasks (.inl ⟨hphase, hfull⟩))
    | finishing =>
      have htasks := hawake.finishing hphase
      exact exists_collect_act (Crew.exists_collect hended htasks (.inr hphase))
    | stopping e =>
      obtain ⟨t, ht, hactive⟩ := hawake.stopping e hphase
      obtain ⟨r, hr⟩ := hended t ht
      rw [hr] at hactive
      cases hactive
    | _ => exact absurd hphase (hover _)
  · push Not at hended
    obtain ⟨t, ht, hnot⟩ := hended
    exact exists_work_act (Crew.exists_work hover hw ht hnot)

/-- An act leaves no crew waiting in vain. -/
theorem awake_act (h : s.crew.Awake) {a : Act} (ha : s.act? o embed disk a = some s') :
    s'.crew.Awake := by
  cases a with
  | work i =>
    obtain ⟨crew', hcrew, rfl⟩ := act_work ha
    obtain ⟨-, t, ht, ⟨-, -, rfl⟩ | ⟨-, rfl⟩⟩ := Crew.work_cases hcrew
    · have hi : i < s.crew.tasks.length := (List.getElem?_eq_some_iff.1 ht).1
      refine ⟨fun hphase => ?_, fun e _ => ⟨{ t with stage := .begun }, ?_, rfl⟩⟩
      · have htasks := h.finishing hphase
        simpa using htasks
      · exact List.mem_of_getElem? (List.getElem?_set_self hi)
    · exact Crew.awake_rest _
  | collect picks =>
    obtain ⟨crew', hcrew, rfl⟩ := act_collect ha
    obtain ⟨-, taken, others, ids, -, ⟨-, rfl⟩ | ⟨e, -, rfl⟩⟩ := Crew.collect_cases hcrew
    · exact Crew.awake_rest _
    · exact Crew.awake_stop _ e
  | submit =>
    obtain ⟨c, cs, -, hfeeding, -, rfl⟩ := act_submit ha
    exact Crew.awake_of_feeding hfeeding
  | pull =>
    obtain ⟨hfeeding, -, source', batch, q, -, ⟨cs, -, rfl⟩ | ⟨-, rfl⟩ | ⟨e, -, rfl⟩⟩ := act_pull ha
    · exact Crew.awake_of_feeding hfeeding
    · show (Crew.rest { s.crew with program := q, phase := .finishing }).Awake
      exact Crew.awake_rest _
    · exact Crew.awake_stop _ e

theorem awake_of_tallied {source : Source} {workers : Nat} {p : Program σ}
    (h : Tallied o embed disk ⟨source, [], .start workers p⟩ n tally s) : s.crew.Awake :=
  h.keeps (P := fun s => s.crew.Awake) (Crew.awake_of_feeding rfl) fun hawake ha =>
    awake_act hawake ha

end Shift

/-! ## Behind the crew -/

theorem perform_report (started : Float) (ids : List Int) (pruned : Int) (p : Program σ) :
    ∃ elapsed l, (report o started ids pruned).perform p =
      (.ok ⟨ids.length, ids.length, pruned, elapsed⟩,
        { p with outside := (o.clock p.outside).2, trace := p.trace ++ [.logged l] }) :=
  ⟨_, _, rfl⟩

theorem perform_execute (s : Statement) (p : Program σ) :
    ∃ r, (execute o s).perform p = (r, { p with
      outside := (o.execute s p.outside).2, trace := p.trace ++ [.executed s] }) := by
  have hsend : (send o s).perform p = (.ok (o.execute s p.outside).1, { p with
      outside := (o.execute s p.outside).2, trace := p.trace ++ [.executed s] }) := rfl
  rw [execute, perform_bind_ok hsend]
  cases (o.execute s p.outside).1 with
  | failed message => exact ⟨_, rfl⟩
  | brought rows => exact ⟨_, rfl⟩

/-- With an open pool, pruning executes its statement. -/
theorem trace_prune {p : Program σ} (hopen : p.isOpen = true) (root : String) (ids : List Int) :
    ∃ ds, ((prune o root ids).perform p).2.trace =
      p.trace ++ .executed (.prune root (patternBelow root) (sortedIds ids)) :: ds := by
  rw [prune, perform_bind_ok (perform_requireOpen hopen)]
  obtain ⟨r, hexecute⟩ :=
    perform_execute (o := o) (.prune root (patternBelow root) (sortedIds ids)) p
  cases r with
  | error e =>
    rw [perform_bind_error hexecute]
    exact ⟨[], rfl⟩
  | ok rows =>
    rw [perform_bind_ok hexecute, perform_bind_ok (perform_log _ _ _ _)]
    exact ⟨_, List.append_assoc _ _ _⟩

/-- What a crew that has ended well leaves to do: the ids that it has collected are kept, and they
are counted. -/
theorem conclude_counts {crew : Crew σ} (hover : crew.phase = .over none) (started : Float)
    (pruneRoot : Option String) {r : Except RunError Stats} {q : Program σ}
    (h : (crew.conclude o started pruneRoot).perform crew.program = (r, q)) :
    (∀ stats, r = .ok stats →
      stats.chunks = crew.collected.length ∧ stats.embedded = crew.collected.length) ∧
    (pruneRoot = none → ∃ stats, r = .ok stats) ∧
    ∀ root, pruneRoot = some root → crew.program.isOpen = true → ∃ keep ds,
      q.trace = crew.program.trace ++
        .sourceClosed :: .executed (.prune root (patternBelow root) keep) :: ds ∧
      ∀ id, id ∈ keep ↔ id ∈ crew.collected := by
  rw [conclude_ok hover, perform_bind_ok (perform_leave _ _)] at h
  set p : Program σ :=
    { crew.program with trace := crew.program.trace ++ [.sourceClosed] } with hp
  have hprune : ∀ root, pruneRoot = some root → crew.program.isOpen = true → ∃ ds,
      ((sweep o pruneRoot crew.collected).perform p).2.trace = crew.program.trace ++
        .sourceClosed :: .executed (.prune root (patternBelow root) (sortedIds crew.collected)) ::
          ds := by
    rintro root rfl hopen
    obtain ⟨ds, hds⟩ := trace_prune (o := o) (p := p) hopen root crew.collected
    exact ⟨ds, hds.trans (List.append_assoc _ _ _)⟩
  cases hsweep : (sweep o pruneRoot crew.collected).perform p with
  | mk swept p' =>
    rw [hsweep] at hprune
    cases swept with
    | error e =>
      rw [perform_bind_error hsweep] at h
      obtain ⟨rfl, rfl⟩ := Prod.mk.inj h
      refine ⟨fun stats hstats => (nomatch hstats), fun hnone => ?_, fun root hroot hopen => ?_⟩
      · rw [hnone] at hsweep
        cases (Prod.mk.inj hsweep).1
      · obtain ⟨ds, hds⟩ := hprune root hroot hopen
        exact ⟨_, ds, hds, fun id => mem_sortedIds⟩
    | ok pruned =>
      obtain ⟨elapsed, l, hreport⟩ := perform_report started crew.collected pruned p' (o := o)
      rw [perform_bind_ok hsweep, hreport] at h
      obtain ⟨rfl, rfl⟩ := Prod.mk.inj h
      refine ⟨fun stats hstats => ?_, fun _ => ⟨_, rfl⟩, fun root hroot hopen => ?_⟩
      · obtain rfl := Except.ok.inj hstats
        exact ⟨rfl, rfl⟩
      · obtain ⟨ds, hds⟩ := hprune root hroot hopen
        refine ⟨_, ds ++ [.logged l], ?_, fun id => mem_sortedIds⟩
        rw [show p'.trace = _ from hds]
        simp

/-! ## Main result -/

/-- **A crew whose tasks succeed indexes each chunk once and ends.** For any chunks that a source
gives, and for any course in which neither a task nor the source has failed:

* chunks are submitted in their order, and those whose results have not been collected are never
  more than two for each worker;
* each result that was returned has been collected once, or is still to be collected;
* the course has no more acts than its chunks and batches allow, and as long as the crew is not
  over it goes on;
* when the crew is over, each chunk was submitted once and its result collected once, the run
  counts the chunks, and the ids that it does not prune are those that the tasks have returned. -/
theorem tasks_are_counted {source : Source} {bs : List (List Chunk)}
    (hgives : source.Gives disk bs none) {workers : Nat} (hw : 0 < workers) {p : Program σ}
    {n : Nat} {tally : Tally} {s : Shift σ}
    (h : Shift.Tallied o embed disk ⟨source, [], .start workers p⟩ n tally s)
    (hok : tally.failed = []) :
    (∃ later, tally.submitted ++ later = bs.flatten) ∧
    tally.submitted.length ≤ tally.collected.length + 2 * workers ∧
    tally.returned.Perm (tally.collected ++ s.crew.tasks.filterMap Task.returned?) ∧
    n ≤ 6 * bs.flatten.length + bs.length + 1 ∧
    ((∃ a s', s.act? o embed disk a = some s') ∨ s.crew.phase = .over none) ∧
    (s.crew.phase = .over none →
      tally.submitted = bs.flatten ∧ tally.collected.Perm tally.returned ∧
      (tally.returned.map Prod.fst).Perm bs.flatten ∧
      ∀ started pruneRoot r q,
        (s.crew.conclude o started pruneRoot).perform s.crew.program = (r, q) →
        (∀ stats, r = .ok stats →
          stats.chunks = bs.flatten.length ∧ stats.embedded = bs.flatten.length) ∧
        (pruneRoot = none → ∃ stats, r = .ok stats) ∧
        ∀ root, pruneRoot = some root → s.crew.program.isOpen = true → ∃ keep ds,
          q.trace = s.crew.program.trace ++
            .sourceClosed :: .executed (.prune root (patternBelow root) keep) :: ds ∧
          ∀ id, id ∈ keep ↔ id ∈ tally.returned.map Prod.snd) := by
  have hwell := Shift.well_of_tallied h hok
  have hroomy := Shift.roomy_of_tallied h
  obtain ⟨bs', howes, hsubmitted, hreturned, hcollected⟩ :=
    (Shift.counts_of_tallied hgives h).resolve_left hwell.going
  refine ⟨⟨s.held ++ bs'.flatten, ?_⟩, ?_, hreturned.trans List.perm_append_comm,
    Shift.acts_le hgives h, ?_, fun hover => ?_⟩
  · rw [← List.append_assoc]
    exact howes.whole
  · have hlength := hsubmitted.length_eq
    have htasks := hroomy.tasks
    rw [List.length_append, List.length_map, List.length_map] at hlength
    omega
  · by_cases hover : ∃ failure, s.crew.phase = .over failure
    · obtain ⟨failure, hover⟩ := hover
      cases failure with
      | none => exact .inr hover
      | some e => exact absurd (.inr ⟨e, hover⟩) hwell.going
    · exact .inl (Shift.exists_act (Shift.awake_of_tallied h) (hroomy.workers ▸ hw)
        fun failure hphase => hover ⟨failure, hphase⟩)
  · have htasks := howes.idle hover
    obtain ⟨hheld, rfl, -⟩ := howes.exhausted (by simp [hover])
    have hwhole : tally.submitted = bs.flatten := by simpa [hheld] using howes.whole
    rw [htasks] at hsubmitted hreturned
    rw [hwhole] at hsubmitted
    replace hreturned : tally.collected.Perm tally.returned := hreturned.symm
    replace hsubmitted : bs.flatten.Perm (tally.collected.map Prod.fst) := hsubmitted
    have hlength : s.crew.collected.length = bs.flatten.length := by
      rw [hcollected, List.length_map, hsubmitted.length_eq, List.length_map]
    refine ⟨hwhole, hreturned, ((hreturned.map _).symm.trans hsubmitted.symm), ?_⟩
    intro started pruneRoot r q hend
    obtain ⟨hstats, hnone, hprune⟩ := conclude_counts hover started pruneRoot hend
    rw [hlength] at hstats
    refine ⟨hstats, hnone, fun root hroot hopen => ?_⟩
    obtain ⟨keep, ds, htrace, hkeep⟩ := hprune root hroot hopen
    refine ⟨keep, ds, htrace, fun id => ?_⟩
    rw [hkeep, hcollected]
    exact (hreturned.map Prod.snd).mem_iff

/-- Two workers behind two chunks, of which the first one is overtaken. -/
theorem tasks_are_counted_overtaken :
    ∃ n tally, Shift.Tallied tablesWorld (telling (openChunk "opened").text) ⟨.folder [], [], []⟩
        ⟨.listed [openChunk "opened", openChunk "opens"] none, [],
          .start 2 (clocked tablesWorld ⟨.empty, true, []⟩)⟩ n tally overtaken ∧
      tally.failed = [] ∧ n ≤ 14 ∧
      tally.submitted = [openChunk "opened", openChunk "opens"] ∧
      tally.collected.Perm tally.returned := by
  obtain ⟨bs, hgives, hbs, hlength⟩ := Source.gives_listed ⟨.folder [], [], []⟩
    [openChunk "opened", openChunk "opens"] none
  obtain ⟨ws, hcourse⟩ := Shift.reaches_go tablesWorld (telling (openChunk "opened").text)
    ⟨.folder [], [], []⟩ (Shift.overtaking fun c => c.doc = "opened") 16
    ⟨.listed [openChunk "opened", openChunk "opens"] none, [],
      .start 2 (clocked tablesWorld ⟨.empty, true, []⟩)⟩
  rw [← overtaken.eq_1] at hcourse
  obtain ⟨n, tally, h⟩ := hcourse.tallied
  have htasks : overtaken.crew.tasks = [] := List.isEmpty_iff.1 (by decide +kernel)
  have hwell : overtaken.crew.Well := by
    refine ⟨fun hfailing => ?_, fun t ht => ?_⟩
    · rcases hfailing with ⟨e, he⟩ | ⟨e, he⟩ <;> cases he.symm.trans overtaken_over
    · rw [htasks] at ht
      cases ht
  have hok := (Shift.well_iff_of_tallied h).1 hwell
  obtain ⟨-, -, -, hn, -, hend⟩ := tasks_are_counted hgives (by decide : 0 < 2) h hok
  obtain ⟨hsubmitted, hcollected, -⟩ := hend overtaken_over
  rw [hbs] at hn hsubmitted
  refine ⟨n, tally, h, hok, ?_, hsubmitted, hcollected⟩
  rw [List.length_cons, List.length_cons, List.length_nil] at hn
  omega

end DocSearch.Index
