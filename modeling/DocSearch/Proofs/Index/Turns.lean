import DocSearch.Proofs.Index.Progress
import Mathlib.Data.List.Basic

/-!
# Tasks that take turns

A run with several workers hands its chunks to a crew that lets every task end before the next one
is submitted. Between two chunks such a crew is **`Crew.Idle`**: it has nothing to do, and it has
room for another chunk or makes it, unless it finds a failure among its results. At the end of its
source it collects what is left, and then it is over.
-/

namespace DocSearch.Index

open DocSearch.Action Files

variable {σ : Type} {o : Outside σ} {embed : Embedder σ} {disk : Disk}

namespace Crew

variable {crew : Crew σ}

/-! ## Single moves -/

theorem move_of_none {m : Move} (h : crew.step? o embed m = none) : crew.move o embed m = crew := by
  rw [move, h]
  rfl

theorem move_of_some {m : Move} {crew' : Crew σ} (h : crew.step? o embed m = some crew') :
    crew.move o embed m = crew' := by
  rw [move, h]
  rfl

/-- Nothing happens to a crew that is over. -/
theorem move_over {failure : Option RunError} (h : crew.phase = .over failure) (m : Move) :
    crew.move o embed m = crew := by
  refine move_of_none ?_
  cases m with
  | work i => simp [step?, work?, h]
  | collect picks => cases hr : crew.results? picks <;> simp [step?, mayCollect, h, hr]
  | submit c => simp [step?, h]
  | exhausted => simp [step?, h]
  | broke e => simp [step?, h]

theorem serveTask_over {failure : Option RunError} (h : crew.phase = .over failure) (i : Nat) :
    crew.serveTask o embed i = crew := by
  rw [serveTask]
  generalize List.range 4 = l
  induction l with
  | nil => rfl
  | cons n l ih => rw [List.foldl_cons, move_over h, ih]

theorem serve_over {failure : Option RunError} (h : crew.phase = .over failure) :
    crew.serve o embed = crew := by
  rw [serve]
  generalize List.range crew.tasks.length = l
  induction l with
  | nil => rfl
  | cons n l ih => rw [List.foldl_cons, serveTask_over h, ih]

/-- A task that has ended makes no step. -/
theorem serveTask_ended {i : Nat} {t : Task} {r : Except RunError Int}
    (ht : crew.tasks[i]? = some t) (hr : t.stage = .ended r) : crew.serveTask o embed i = crew := by
  have hstep : crew.step? o embed (.work i) = none := by
    rw [step?, work?]
    cases h : crew.phase <;> simp [ht, hr]
  rw [serveTask, show List.range 4 = [0, 1, 2, 3] from rfl]
  simp only [List.foldl_cons, List.foldl_nil, move_of_none hstep]

/-! ## The last task -/

theorem advance_chunk {stopped : Trip} (t : Task) (p : Program σ) :
    (t.advance o embed stopped p).1.chunk = t.chunk := by
  unfold Task.advance
  split <;> try rfl
  all_goals split <;> rfl

/-- The crew with the program `p` whose tasks are `ts` and, behind them, one for `c` at the stage
`s`. -/
def lastAt (crew : Crew σ) (ts : List Task) (c : Chunk) (s : Stage) (p : Program σ) : Crew σ :=
  { crew with program := p, tasks := ts ++ [⟨c, s⟩] }

section

variable {ts : List Task} {c : Chunk} {p : Program σ} (hfeeding : crew.phase = .feeding)

include hfeeding

theorem move_queued (hts : ∀ t ∈ ts, ∃ r, t.stage = .ended r) (hw : 0 < crew.workers) :
    (crew.lastAt ts c .queued p).move o embed (.work ts.length) = crew.lastAt ts c .begun p := by
  have hidle : (crew.lastAt ts c .queued p).busy = 0 := by
    rw [busy, List.countP_eq_zero]
    intro t ht
    rcases List.mem_append.1 ht with ht | ht
    · obtain ⟨r, hr⟩ := hts t ht
      simp [hr, Stage.isActive]
    · obtain rfl := List.mem_singleton.1 ht
      simp [Stage.isActive]
  refine move_of_some ?_
  rw [step?, work?, hidle]
  simp only [lastAt, hfeeding, List.getElem?_concat_length, List.take_left', hw, decide_true,
    Bool.true_and, List.set_append_right _ _ (Nat.le_refl _), Nat.sub_self, List.set_cons_zero]
  rw [if_pos]
  rw [List.all_eq_true]
  intro t ht
  obtain ⟨r, hr⟩ := hts t ht
  rw [hr]
  rfl

theorem move_active {s : Stage} (hs : s.isActive = true) (huntripped : crew.stopped = none) :
    (crew.lastAt ts c s p).move o embed (.work ts.length) =
      crew.lastAt ts c ((Task.mk c s).advance o embed none p).1.stage
        ((Task.mk c s).advance o embed none p).2 := by
  have hchunk : ((Task.mk c s).advance o embed none p).1 =
      ⟨c, ((Task.mk c s).advance o embed none p).1.stage⟩ :=
    congrArg (Task.mk · _) (advance_chunk ⟨c, s⟩ p)
  refine move_of_some ?_
  rw [step?, work?]
  cases s with
  | queued => cases hs
  | ended r => cases hs
  | _ => simpa [lastAt, hfeeding, rest, huntripped] using hchunk

/-- A queued task behind tasks that have ended does all that indexing its chunk means. -/
theorem serveTask_queued (huntripped : crew.stopped = none)
    (hts : ∀ t ∈ ts, ∃ r, t.stage = .ended r) (hw : 0 < crew.workers) :
    (crew.lastAt ts c .queued p).serveTask o embed ts.length =
      crew.lastAt ts c (.ended ((indexChunk o embed c).perform p).1)
        ((indexChunk o embed c).perform p).2 := by
  have hactive {s : Stage} {q : Program σ} (hs : s.isActive = true) :
      (crew.lastAt ts c s q).move o embed (.work ts.length) =
        crew.lastAt ts c ((Task.mk c s).advance o embed none q).1.stage
          ((Task.mk c s).advance o embed none q).2 :=
    move_active hfeeding hs huntripped
  have hended {r : Except RunError Int} {q : Program σ} :
      (crew.lastAt ts c (.ended r) q).move o embed (.work ts.length) =
        crew.lastAt ts c (.ended r) q := by
    refine move_of_none ?_
    rw [step?, work?]
    simp [lastAt, hfeeding]
  rw [serveTask, show List.range 4 = [0, 1, 2, 3] from rfl]
  simp only [List.foldl_cons, List.foldl_nil]
  rw [move_queued hfeeding hts hw, hactive rfl, indexChunk, perform_bind]
  cases hstored : (Store.upsertChunk o c).perform p with
  | mk r q =>
    cases r with
    | error e => simp only [Task.advance, hstored, hended]
    | ok id =>
      simp only [Task.advance, hstored]
      rw [hactive rfl, perform_bind]
      cases hembedded : (embed none c.text).perform q with
      | mk r q' =>
        cases r with
        | error e => simp only [Task.advance, hembedded, hended]
        | ok v =>
          simp only [Task.advance, hembedded]
          rw [hactive rfl, perform_bind]
          cases hsettled : (settle o c id v).perform q' with
          | mk r q'' =>
            cases r with
            | error e => simp only [Task.advance, hsettled]
            | ok _ => simp only [Task.advance, hsettled]; rfl

end

/-! ## All tasks -/

/-- All tasks have ended, with the results `rs`. -/
def Ended (crew : Crew σ) (rs : List (Except RunError Int)) : Prop :=
  crew.tasks.map (·.stage) = rs.map .ended

variable {rs : List (Except RunError Int)}

theorem Ended.result_at (hended : crew.Ended rs) {i : Nat} (hi : i < crew.tasks.length) :
    ∃ t r, crew.tasks[i]? = some t ∧ t.stage = .ended r := by
  have hmem : crew.tasks[i].stage ∈ rs.map Stage.ended :=
    hended ▸ List.mem_map_of_mem (List.getElem_mem hi)
  obtain ⟨r, -, hr⟩ := List.mem_map.1 hmem
  exact ⟨_, r, List.getElem?_eq_getElem hi, hr.symm⟩

theorem foldl_serveTask_ended {l : List Nat}
    (h : ∀ i ∈ l, ∃ t r, crew.tasks[i]? = some t ∧ t.stage = .ended r) :
    l.foldl (fun crew i => crew.serveTask o embed i) crew = crew := by
  induction l with
  | nil => rfl
  | cons i l ih =>
    rw [List.forall_mem_cons] at h
    obtain ⟨⟨t, r, ht, hr⟩, hl⟩ := h
    rw [List.foldl_cons, serveTask_ended ht hr, ih hl]

theorem serve_ended (hended : crew.Ended rs) : crew.serve o embed = crew :=
  foldl_serveTask_ended fun _ hi => hended.result_at (List.mem_range.1 hi)

/-- A chunk that is submitted behind tasks that have ended is indexed at once. -/
theorem serve_submitted (hended : crew.Ended rs) (hfeeding : crew.phase = .feeding)
    (huntripped : crew.stopped = none) (hw : 0 < crew.workers) (c : Chunk) :
    (crew.lastAt crew.tasks c .queued crew.program).serve o embed =
      crew.lastAt crew.tasks c (.ended ((indexChunk o embed c).perform crew.program).1)
        ((indexChunk o embed c).perform crew.program).2 := by
  have hts : ∀ t ∈ crew.tasks, ∃ r, t.stage = .ended r := by
    intro t ht
    obtain ⟨i, hi, rfl⟩ := List.getElem_of_mem ht
    obtain ⟨t, r, hti, hr⟩ := hended.result_at hi
    rw [List.getElem?_eq_getElem hi] at hti
    exact ⟨r, Option.some.inj hti ▸ hr⟩
  have hlength : (crew.lastAt crew.tasks c .queued crew.program).tasks.length =
      crew.tasks.length + 1 := by
    simp [lastAt]
  have hbefore : (List.range crew.tasks.length).foldl
      (fun crew i => crew.serveTask o embed i) (crew.lastAt crew.tasks c .queued crew.program) =
        crew.lastAt crew.tasks c .queued crew.program := by
    refine foldl_serveTask_ended fun i hi => ?_
    obtain ⟨t, r, ht, hr⟩ := hended.result_at (List.mem_range.1 hi)
    exact ⟨t, r, (List.getElem?_append_left (List.mem_range.1 hi)).trans ht, hr⟩
  rw [serve, hlength, List.range_succ, List.foldl_append, hbefore]
  exact serveTask_queued hfeeding huntripped hts hw

/-! ## Collecting -/

theorem mapM_getElem? {α β : Type} (l : List α) (f : α → Option β) :
    (List.range l.length).mapM (fun i => l[i]?.bind f) = l.mapM f := by
  induction l with
  | nil => rfl
  | cons a l ih =>
    rw [List.length_cons, List.range_succ_eq_map, List.mapM_cons, List.mapM_map, List.mapM_cons,
      ← ih]
    rfl

theorem mapM_result? {ts : List Task} (h : ts.map (·.stage) = rs.map .ended) :
    ts.mapM Task.result? = some rs := by
  induction ts generalizing rs with
  | nil =>
    obtain rfl : rs = [] := by simpa using h.symm
    rfl
  | cons t ts ih =>
    cases rs with
    | nil => simp at h
    | cons r rs =>
      obtain ⟨ht, hts⟩ := List.cons.inj h
      have hstage : t.stage = .ended r := ht
      have hr : t.result? = some r := by rw [Task.result?, hstage]
      rw [List.mapM_cons, hr, ih hts]
      rfl

theorem Ended.results (hended : crew.Ended rs) :
    crew.results? (List.range crew.tasks.length) = some rs := by
  rw [results?, if_pos (decide_eq_true List.nodup_range), mapM_getElem?, mapM_result? hended]

theorem others_all : crew.others (List.range crew.tasks.length) = [] := by
  rw [others, List.map_eq_nil_iff, List.filter_eq_nil_iff]
  intro t ht
  have hlt : t.2 < crew.tasks.length := by simpa using List.snd_lt_of_mem_zipIdx ht
  simp [hlt]

theorem gather_ok (ids : List Int) : gather (ids.map .ok) = (ids, none) := by
  induction ids with
  | nil => rfl
  | cons id ids ih => rw [List.map_cons, gather, ih]

theorem gather_error (h : ∃ e, .error e ∈ rs) : ∃ e, (gather rs).2 = some e := by
  obtain ⟨e, he⟩ := h
  induction rs with
  | nil => cases he
  | cons r rs ih =>
    cases r with
    | error e' => exact ⟨e', rfl⟩
    | ok id => exact ih (List.mem_of_ne_of_mem (by simp) he)

theorem exists_ids (h : ¬ ∃ e, .error e ∈ rs) : ∃ ids : List Int, rs = ids.map .ok := by
  induction rs with
  | nil => exact ⟨[], rfl⟩
  | cons r rs ih =>
    obtain ⟨ids, rfl⟩ := ih fun ⟨e, he⟩ => h ⟨e, List.mem_cons_of_mem _ he⟩
    cases r with
    | error e => exact absurd ⟨e, List.mem_cons_self⟩ h
    | ok id => exact ⟨id :: ids, rfl⟩

theorem take_ok (crew : Crew σ) (ids : List Int) :
    crew.take o (List.range crew.tasks.length) (ids.map .ok) =
      rest { crew with tasks := [], collected := crew.collected ++ ids } := by
  rw [take, gather_ok, others_all]

/-- A failure among the results is the end. -/
theorem take_error (crew : Crew σ) (h : ∃ e, .error e ∈ rs) :
    ∃ e, (crew.take o (List.range crew.tasks.length) rs).phase = .over (some e) := by
  obtain ⟨e, he⟩ := gather_error h
  have hgather : gather rs = ((gather rs).1, some e) := Prod.ext rfl he
  refine ⟨e, ?_⟩
  rw [take, hgather, others_all]
  rfl

theorem collectAll_of_mayCollect (hended : crew.Ended rs)
    (h : crew.mayCollect (List.range crew.tasks.length) rs = true) :
    crew.collectAll o embed = crew.take o (List.range crew.tasks.length) rs := by
  refine move_of_some ?_
  rw [step?, hended.results]
  exact if_pos h

/-! ## Crews between two chunks -/

/-- A crew that takes chunks and has nothing to do: all its tasks have ended, with the results
`rs`. -/
structure Idle (crew : Crew σ) (rs : List (Except RunError Int)) : Prop where
  feeding : crew.phase = .feeding
  untripped : crew.stopped = none
  workers : 0 < crew.workers
  ended : crew.Ended rs

theorem Idle.mayCollect (h : crew.Idle rs) (hfull : crew.isFull = true) :
    crew.mayCollect (List.range crew.tasks.length) rs = true := by
  have hlength : 2 * crew.workers ≤ crew.tasks.length := by simpa [isFull] using hfull
  have hworkers := h.workers
  rw [Crew.mayCollect, h.feeding]
  simp only [hfull, Bool.true_and, Bool.not_eq_true', List.isEmpty_eq_false_iff, ne_eq,
    List.range_eq_nil]
  omega

/-- The crew when there is room for another chunk. -/
def makeRoom (o : Outside σ) (embed : Embedder σ) (crew : Crew σ) : Crew σ :=
  if crew.isFull then crew.collectAll o embed else crew

theorem hand_eq (crew : Crew σ) (c : Chunk) :
    crew.hand o embed c =
      ((crew.makeRoom o embed).move o embed (.submit c)).serve o embed := rfl

/-- Where room is made, a crew fails, or it is idle and has room. -/
theorem Idle.makeRoom (o : Outside σ) (embed : Embedder σ) (h : crew.Idle rs) :
    (∃ e, (crew.makeRoom o embed).phase = .over (some e)) ∨
      ∃ rs', (crew.makeRoom o embed).Idle rs' ∧ (crew.makeRoom o embed).isFull = false := by
  unfold Crew.makeRoom
  split_ifs with hfull
  swap
  · exact .inr ⟨rs, h, by simpa using hfull⟩
  rw [collectAll_of_mayCollect h.ended (h.mayCollect hfull)]
  by_cases herror : ∃ e, .error e ∈ rs
  · exact .inl (take_error crew herror)
  · obtain ⟨ids, rfl⟩ := exists_ids herror
    have hworkers := h.workers
    rw [take_ok, rest, h.feeding]
    refine .inr ⟨[], ⟨rfl, h.untripped, h.workers, rfl⟩, ?_⟩
    simp only [isFull, List.length_nil, decide_eq_false_iff_not]
    omega

theorem Idle.step_submit (h : crew.Idle rs) (hroom : crew.isFull = false) (c : Chunk) :
    crew.step? o embed (.submit c) = some (crew.lastAt crew.tasks c .queued crew.program) := by
  rw [step?, h.feeding]
  simp only [hroom, Bool.false_eq_true, if_false, lastAt, h.feeding]

/-- A chunk for which there is room is indexed at once. -/
theorem Idle.submit (o : Outside σ) (embed : Embedder σ) (h : crew.Idle rs)
    (hroom : crew.isFull = false) (c : Chunk) :
    ((crew.move o embed (.submit c)).serve o embed).Idle
      (rs ++ [((indexChunk o embed c).perform crew.program).1]) := by
  have hended := h.ended
  rw [move_of_some (h.step_submit hroom c),
    serve_submitted h.ended h.feeding h.untripped h.workers c]
  refine ⟨h.feeding, h.untripped, h.workers, ?_⟩
  rw [Ended] at hended ⊢
  simp [Crew.lastAt, hended]

theorem hand_over {failure : Option RunError} (h : crew.phase = .over failure) (c : Chunk) :
    crew.hand o embed c = crew := by
  have hroom : crew.makeRoom o embed = crew := by
    unfold makeRoom
    split_ifs
    · exact move_over h _
    · rfl
  rw [hand_eq, hroom, move_over h, serve_over h]

theorem move_exhausted (hfeeding : crew.phase = .feeding) :
    crew.move o embed .exhausted = rest { crew with phase := .finishing } := by
  refine move_of_some ?_
  rw [step?, hfeeding]

/-- At the end of its source, an idle crew collects everything, and then it is over. -/
theorem Idle.complete (o : Outside σ) (embed : Embedder σ) (h : crew.Idle rs) :
    ∃ failure, ((crew.move o embed .exhausted).complete o embed).phase = .over failure := by
  by_cases htasks : crew.tasks = []
  · have hover : (crew.move o embed .exhausted).phase = .over none := by
      rw [move_exhausted h.feeding, rest]
      simp only [htasks, List.isEmpty_nil, if_true]
    refine ⟨none, ?_⟩
    rw [Crew.complete, serve_over hover, collectAll, move_over hover, hover]
  · have hwaiting : crew.move o embed .exhausted = { crew with phase := .finishing } := by
      rw [move_exhausted h.feeding, rest]
      simp [htasks]
    have hended : Ended { crew with phase := .finishing } rs := h.ended
    have hcomplete : (crew.move o embed .exhausted).complete o embed =
        take o { crew with phase := .finishing } (List.range crew.tasks.length) rs := by
      rw [hwaiting, Crew.complete, serve_ended hended, collectAll_of_mayCollect hended]
      simp [Crew.mayCollect, htasks]
    rw [hcomplete]
    by_cases herror : ∃ e, .error e ∈ rs
    · obtain ⟨e, he⟩ := take_error { crew with phase := .finishing } herror
      exact ⟨some e, he⟩
    · obtain ⟨ids, rfl⟩ := exists_ids herror
      exact ⟨none, by rw [take_ok]; rfl⟩

theorem rest_stopping {e : RunError} (h : crew.phase = .stopping e) (hbusy : crew.busy = 0) :
    rest crew = { crew with phase := .over (some e) } := by
  rw [rest, h]
  simp only [hbusy, beq_self_eq_true, if_true]

/-- A crew whose source fails has failed when it is idle. -/
theorem Idle.broke (h : crew.Idle rs) (e : RunError) :
    (crew.move o embed (.broke e)).phase = .over (some e) := by
  have hmove : crew.move o embed (.broke e) = crew.stop o e := by
    refine move_of_some ?_
    rw [step?, h.feeding]
  have hidle : ∀ t ∈ crew.tasks, ¬ t.stage.isActive = true := by
    intro t ht
    obtain ⟨i, hi, rfl⟩ := List.getElem_of_mem ht
    obtain ⟨t, r, hti, hr⟩ := h.ended.result_at hi
    rw [List.getElem?_eq_getElem hi] at hti
    rw [Option.some.inj hti, hr]
    simp [Stage.isActive]
  rw [hmove]
  show (rest _).phase = _
  rw [rest_stopping rfl]
  apply List.countP_eq_zero.2
  intro t ht
  exact hidle t (List.mem_of_mem_filter ht)

end Crew

/-! ## Runs -/

/-- Whatever the token shows, the source comes to an end before its `fuel`-th batch. -/
def Source.Ends (disk : Disk) : (fuel : Nat) → Source → Prop
  | 0, _ => False
  | fuel + 1, source => ∀ trip,
    match source.next disk trip with
    | (source, .chunks _, _) => Ends disk fuel source
    | _ => True

theorem feed_over {crew : Crew σ} {failure : Option RunError} (h : crew.phase = .over failure)
    (fuel : Nat) (source : Source) : Crew.feed o embed disk fuel source crew = crew := by
  cases fuel with
  | zero => rfl
  | succ fuel => rw [Crew.feed, h]

section

variable {crew : Crew σ} {source source' : Source} {q : Program σ}
  (hfeeding : crew.phase = .feeding)

include hfeeding

theorem feed_chunks {cs : List Chunk}
    (h : (pull o disk source).perform crew.program = (.ok (source', .chunks cs), q)) (fuel : Nat) :
    Crew.feed o embed disk (fuel + 1) source crew =
      Crew.feed o embed disk fuel source'
        (cs.foldl (fun crew c => crew.hand o embed c) { crew with program := q }) := by
  rw [Crew.feed, hfeeding, h]

theorem feed_finished
    (h : (pull o disk source).perform crew.program = (.ok (source', .finished), q)) (fuel : Nat) :
    Crew.feed o embed disk (fuel + 1) source crew =
      (Crew.move o embed { crew with program := q } .exhausted).complete o embed := by
  rw [Crew.feed, hfeeding, h]

theorem feed_failed {e : RunError}
    (h : (pull o disk source).perform crew.program = (.ok (source', .failed e), q)) (fuel : Nat) :
    Crew.feed o embed disk (fuel + 1) source crew =
      Crew.move o embed { crew with program := q } (.broke e) := by
  rw [Crew.feed, hfeeding, h]

end

theorem perform_indexTogether {workers : Nat} {source : Source} {p : Program σ} {crew : Crew σ}
    (hcrew : Crew.feed o embed disk (source.bound disk) source (.start workers p) = crew) :
    (indexTogether o embed disk workers source).perform p =
      (match crew.phase with
        | .over (some e) => .error e
        | _ => .ok crew.collected, crew.program) := by
  have hset : (set crew.program : Action σ PUnit).perform p = (.ok ⟨⟩, crew.program) := rfl
  rw [indexTogether, perform_bind_ok (perform_get p), hcrew]
  refine (perform_bind_ok hset).trans ?_
  rcases crew.phase with _ | _ | _ | _ | _ <;> rfl

end DocSearch.Index
