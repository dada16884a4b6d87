import DocSearch.Index.Shift
import DocSearch.Proofs.Index.Moves
import DocSearch.Proofs.Index.Turns
import DocSearch.Proofs.Store.Written

/-!
# Courses of a shift

Every interleaving of the tasks of a crew and every order in which its results are collected is a
`Shift.Course`, which tells what has been written in which order. **`Together`** is a whole run with
several workers under any interleaving: a course until the crew is over, and then what a run does
behind its crew.

The run in which tasks take turns is one of these (`together_of_run`), and so is any run in which
acts are chosen until the crew is over (`together_of_runChosen`).
-/

namespace DocSearch.Index

open DocSearch.Action Files Store

variable {σ : Type}

/-- What has been written when a task has become another one. -/
def Task.writes (t t' : Task) : List Write :=
  match t.stage, t'.stage with
  | .begun, .stored _ => [.row t.chunk]
  | .embedded _ _, .ended (.ok _) => [.vector t.chunk]
  | _, _ => []

/-- What has been written when the task at `i` was moved and a crew has become another one. -/
def Crew.writes (crew crew' : Crew σ) (i : Nat) : List Write :=
  match crew.tasks[i]?, crew'.tasks[i]? with
  | some t, some t' => t.writes t'
  | _, _ => []

/-- What has been written in an act that leads from a shift to another one. -/
def Shift.writes (s s' : Shift σ) : Act → List Write
  | .work i => s.crew.writes s'.crew i
  | _ => []

section

variable (o : Outside σ) (embed : Embedder σ) (disk : Disk)

/-- What may have happened to a shift, with everything that was written, in order. -/
inductive Shift.Course (s : Shift σ) : List Write → Shift σ → Prop
  | refl : Course s [] s
  | act {ws : List Write} {s' s'' : Shift σ} (h : Course s ws s') (a : Act)
      (ha : s'.act? o embed disk a = some s'') : Course s (ws ++ s'.writes s'' a) s''

/-- A whole run with several workers, with everything that its tasks have written, in order. -/
inductive Together (workers : Nat) (source : Source) (pruneRoot : Option String) (p : Program σ)
    (ws : List Write) (r : Except RunError Stats) (q : Program σ) : Prop
  | intro {s : Shift σ} {failure : Option RunError}
      (hcourse : Shift.Course o embed disk ⟨source, [], .start workers (clocked o p)⟩ ws s)
      (hover : s.crew.phase = .over failure)
      (hend : (s.crew.conclude o (o.clock p.outside).1 pruneRoot).perform s.crew.program = (r, q))

/-- What an act does, by cases. -/
inductive Shift.Step : Shift σ → List Write → Shift σ → Prop
  /-- A task begins or makes a step. -/
  | work {source : Source} {held : List Chunk} {crew crew' : Crew σ} {i : Nat}
      (h : crew.step? o embed (.work i) = some crew') :
      Step ⟨source, held, crew⟩ (crew.writes crew' i) ⟨source, held, crew'⟩
  /-- Results are collected. -/
  | collect {source : Source} {held : List Chunk} {crew crew' : Crew σ} {picks : List Nat}
      (h : crew.step? o embed (.collect picks) = some crew') :
      Step ⟨source, held, crew⟩ [] ⟨source, held, crew'⟩
  /-- A chunk is submitted. -/
  | submit {source : Source} {c : Chunk} {cs : List Chunk} {crew crew' : Crew σ}
      (h : crew.step? o embed (.submit c) = some crew') :
      Step ⟨source, c :: cs, crew⟩ [] ⟨source, cs, crew'⟩
  /-- Chunks are taken from the source. -/
  | pull {source source' : Source} {cs : List Chunk} {crew : Crew σ} {q : Program σ}
      (hfeeding : crew.phase = .feeding)
      (h : (Index.pull o disk source).perform crew.program = (.ok (source', .chunks cs), q)) :
      Step ⟨source, [], crew⟩ [] ⟨source', cs, { crew with program := q }⟩
  /-- The source is at its end. -/
  | exhausted {source source' : Source} {crew crew' : Crew σ} {q : Program σ}
      (h : (Index.pull o disk source).perform crew.program = (.ok (source', .finished), q))
      (hcrew : Crew.step? o embed { crew with program := q } .exhausted = some crew') :
      Step ⟨source, [], crew⟩ [] ⟨source', [], crew'⟩
  /-- The source fails. -/
  | broke {source source' : Source} {crew crew' : Crew σ} {q : Program σ} {e : RunError}
      (h : (Index.pull o disk source).perform crew.program = (.ok (source', .failed e), q))
      (hcrew : Crew.step? o embed { crew with program := q } (.broke e) = some crew') :
      Step ⟨source, [], crew⟩ [] ⟨source', [], crew'⟩

end

variable {o : Outside σ} {embed : Embedder σ} {disk : Disk}

namespace Shift

variable {s s' s'' : Shift σ}

/-! ## Acts -/

theorem pull_cases {crew : Crew σ} {source : Source} {held : List Chunk}
    (h : (⟨source, held, crew⟩ : Shift σ).pull? o embed disk = some s') :
    Step o embed disk ⟨source, held, crew⟩ [] s' := by
  obtain ⟨source', batch, ls, q, -, hq, -⟩ := exists_pull o disk source crew.program
  rw [pull?] at h
  split at h
  · rename_i hfeeding hheld
    obtain rfl : held = [] := hheld
    simp only [hq] at h
    cases batch with
    | chunks cs =>
      obtain rfl := Option.some.inj h
      exact .pull hfeeding hq
    | finished =>
      obtain ⟨crew', hcrew, h⟩ := Option.bind_eq_some_iff.1 h
      obtain rfl := Option.some.inj h
      exact .exhausted hq hcrew
    | failed e =>
      obtain ⟨crew', hcrew, h⟩ := Option.bind_eq_some_iff.1 h
      obtain rfl := Option.some.inj h
      exact .broke hq hcrew
  · cases h

theorem act_cases {a : Act} (h : s.act? o embed disk a = some s') :
    Step o embed disk s (s.writes s' a) s' := by
  obtain ⟨source, held, crew⟩ := s
  cases a with
  | work i =>
    obtain ⟨crew', hcrew, h⟩ := Option.bind_eq_some_iff.1 h
    obtain rfl := Option.some.inj h
    exact .work hcrew
  | collect picks =>
    obtain ⟨crew', hcrew, h⟩ := Option.bind_eq_some_iff.1 h
    obtain rfl := Option.some.inj h
    exact .collect hcrew
  | submit =>
    cases held with
    | nil => cases h
    | cons c cs =>
      obtain ⟨crew', hcrew, h⟩ := Option.bind_eq_some_iff.1 h
      obtain rfl := Option.some.inj h
      exact .submit hcrew
  | pull => exact pull_cases h

/-- Each step is an act. -/
theorem Step.exists_act {ws : List Write} (h : Step o embed disk s ws s') :
    ∃ a, s.act? o embed disk a = some s' ∧ s.writes s' a = ws := by
  cases h with
  | work h => exact ⟨.work _, by rw [act?, h]; rfl, rfl⟩
  | collect h => exact ⟨.collect _, by rw [act?, h]; rfl, rfl⟩
  | submit h => exact ⟨.submit, by simp only [act?, h]; rfl, rfl⟩
  | pull hfeeding h => exact ⟨.pull, by simp only [act?, pull?, hfeeding, h], rfl⟩
  | @exhausted source source' crew crew' q h hcrew =>
    have hfeeding : crew.phase = .feeding := (Crew.exhausted_cases hcrew).1
    refine ⟨.pull, ?_, rfl⟩
    simp only [act?, pull?, h, hcrew]
    rw [hfeeding]
    rfl
  | @broke source source' crew crew' q e h hcrew =>
    have hfeeding : crew.phase = .feeding := (Crew.broke_cases hcrew).1
    refine ⟨.pull, ?_, rfl⟩
    simp only [act?, pull?, h, hcrew]
    rw [hfeeding]
    rfl

/-! ## Courses -/

theorem Course.trans {us ws : List Write} (h : Course o embed disk s us s')
    (h' : Course o embed disk s' ws s'') : Course o embed disk s (us ++ ws) s'' := by
  induction h' with
  | refl =>
    rw [List.append_nil]
    exact h
  | act _ a ha ih =>
    rw [← List.append_assoc]
    exact .act ih a ha

/-- There is a course from a shift to another one. -/
def Reaches (o : Outside σ) (embed : Embedder σ) (disk : Disk) (s s' : Shift σ) : Prop :=
  ∃ ws, Course o embed disk s ws s'

theorem Reaches.refl (s : Shift σ) : Reaches o embed disk s s := ⟨_, .refl⟩

theorem Reaches.trans (h : Reaches o embed disk s s') (h' : Reaches o embed disk s' s'') :
    Reaches o embed disk s s'' := by
  obtain ⟨us, hus⟩ := h
  obtain ⟨ws, hws⟩ := h'
  exact ⟨_, hus.trans hws⟩

theorem Step.reaches {ws : List Write} (h : Step o embed disk s ws s') :
    Reaches o embed disk s s' := by
  obtain ⟨a, ha, -⟩ := h.exists_act
  exact ⟨_, .act .refl a ha⟩

theorem reaches_go (o : Outside σ) (embed : Embedder σ) (disk : Disk)
    (prefer : Shift σ → List Act) (fuel : Nat) (s : Shift σ) :
    Reaches o embed disk s (s.go o embed disk prefer fuel) := by
  induction fuel generalizing s with
  | zero => exact .refl s
  | succ fuel ih =>
    rw [go]
    cases h : (prefer s).findSome? (s.act? o embed disk) with
    | none => exact .refl s
    | some s' =>
      obtain ⟨a, -, ha⟩ := List.exists_of_findSome?_eq_some h
      exact (act_cases ha).reaches.trans (ih s')

/-! ## The schedule in which tasks take turns -/

variable {source : Source} {held : List Chunk} {crew : Crew σ} {rs : List (Except RunError Int)}

theorem reaches_work (i : Nat) : Reaches o embed disk ⟨source, held, crew⟩
    ⟨source, held, crew.move o embed (.work i)⟩ := by
  cases h : crew.step? o embed (.work i) with
  | none =>
    rw [Crew.move_of_none h]
    exact .refl _
  | some crew' =>
    rw [Crew.move_of_some h]
    exact (Step.work h).reaches

theorem reaches_foldl {α : Type} (f : Crew σ → α → Crew σ)
    (hf : ∀ crew a, Reaches o embed disk ⟨source, held, crew⟩ ⟨source, held, f crew a⟩)
    (l : List α) : Reaches o embed disk ⟨source, held, crew⟩ ⟨source, held, l.foldl f crew⟩ := by
  induction l generalizing crew with
  | nil => exact .refl _
  | cons a l ih => exact (hf crew a).trans ih

theorem reaches_serve : Reaches o embed disk ⟨source, held, crew⟩
    ⟨source, held, crew.serve o embed⟩ :=
  reaches_foldl _ (fun _ i => reaches_foldl _ (fun _ _ => reaches_work i) _) _

theorem reaches_collectAll : Reaches o embed disk ⟨source, held, crew⟩
    ⟨source, held, crew.collectAll o embed⟩ := by
  rw [Crew.collectAll]
  cases h : crew.step? o embed (.collect (List.range crew.tasks.length)) with
  | none =>
    rw [Crew.move_of_none h]
    exact .refl _
  | some crew' =>
    rw [Crew.move_of_some h]
    exact (Step.collect h).reaches

theorem reaches_complete : Reaches o embed disk ⟨source, held, crew⟩
    ⟨source, held, crew.complete o embed⟩ :=
  reaches_serve.trans reaches_collectAll

theorem reaches_makeRoom : Reaches o embed disk ⟨source, held, crew⟩
    ⟨source, held, crew.makeRoom o embed⟩ := by
  unfold Crew.makeRoom
  split_ifs
  · exact reaches_collectAll
  · exact .refl _

/-- An idle crew submits the chunk that it is handed, unless it fails when it makes room. -/
theorem reaches_hand (o : Outside σ) (embed : Embedder σ) (disk : Disk) (source : Source)
    (h : crew.Idle rs) (c : Chunk) (cs : List Chunk) :
    Reaches o embed disk ⟨source, c :: cs, crew⟩ ⟨source, cs, crew.hand o embed c⟩ ∧
        (∃ rs', (crew.hand o embed c).Idle rs') ∨
      Reaches o embed disk ⟨source, c :: cs, crew⟩ ⟨source, c :: cs, crew.hand o embed c⟩ ∧
        ∃ e, (crew.hand o embed c).phase = .over (some e) := by
  have hreach : Reaches o embed disk ⟨source, c :: cs, crew⟩
      ⟨source, c :: cs, crew.makeRoom o embed⟩ := reaches_makeRoom
  rw [Crew.hand_eq]
  rcases h.makeRoom o embed with ⟨e, hover⟩ | ⟨rs', hidle, hroom⟩
  · rw [Crew.move_over hover, Crew.serve_over hover]
    exact .inr ⟨hreach, e, hover⟩
  · have hsubmit : (crew.makeRoom o embed).step? o embed (.submit c) = _ :=
      hidle.step_submit hroom c
    have hidle' := hidle.submit o embed hroom c
    rw [Crew.move_of_some hsubmit] at hidle' ⊢
    exact .inl ⟨(hreach.trans (Step.submit hsubmit).reaches).trans reaches_serve, _, hidle'⟩

theorem reaches_hands (h : crew.Idle rs) (cs : List Chunk) :
    Reaches o embed disk ⟨source, cs, crew⟩
          ⟨source, [], cs.foldl (fun crew c => crew.hand o embed c) crew⟩ ∧
        (∃ rs', (cs.foldl (fun crew c => crew.hand o embed c) crew).Idle rs') ∨
      ∃ held e, Reaches o embed disk ⟨source, cs, crew⟩
          ⟨source, held, cs.foldl (fun crew c => crew.hand o embed c) crew⟩ ∧
        (cs.foldl (fun crew c => crew.hand o embed c) crew).phase = .over (some e) := by
  induction cs generalizing crew rs with
  | nil => exact .inl ⟨.refl _, rs, h⟩
  | cons c cs ih =>
    rw [List.foldl_cons]
    rcases reaches_hand o embed disk source h c cs with
      ⟨hreach, rs', hidle⟩ | ⟨hreach, e, hover⟩
    · refine (ih hidle).imp (And.imp_left hreach.trans) ?_
      rintro ⟨held, e, hreach', hover⟩
      exact ⟨held, e, hreach.trans hreach', hover⟩
    · have hrest : cs.foldl (fun crew c => crew.hand o embed c) (crew.hand o embed c) =
          crew.hand o embed c := List.foldl_fixed' (Crew.hand_over hover) cs
      rw [hrest]
      exact .inr ⟨_, e, hreach, hover⟩

/-- A crew that takes turns is over behind its source. -/
theorem reaches_feed (o : Outside σ) (embed : Embedder σ) {fuel : Nat}
    (hends : source.Ends disk fuel) (h : crew.Idle rs) :
    ∃ source' held failure, Reaches o embed disk ⟨source, [], crew⟩
        ⟨source', held, Crew.feed o embed disk fuel source crew⟩ ∧
      (Crew.feed o embed disk fuel source crew).phase = .over failure := by
  induction fuel generalizing source crew rs with
  | zero => exact hends.elim
  | succ fuel ih =>
    obtain ⟨source', batch, ls, q, hnext, hq, -⟩ := exists_pull o disk source crew.program
    have h' : Crew.Idle { crew with program := q } rs :=
      ⟨h.feeding, h.untripped, h.workers, h.ended⟩
    have hends' := hends (o.look crew.program.outside).1
    rw [hnext] at hends'
    cases batch with
    | chunks cs =>
      rw [feed_chunks h.feeding hq]
      have hpull : Reaches o embed disk ⟨source, [], crew⟩ ⟨source', cs, _⟩ :=
        (Step.pull h.feeding hq).reaches
      rcases reaches_hands h' cs with ⟨hreach, rs', hidle⟩ | ⟨held, e, hreach, hover⟩
      · obtain ⟨source'', held, failure, hrest, hover⟩ := ih hends' hidle
        exact ⟨source'', held, failure, (hpull.trans hreach).trans hrest, hover⟩
      · refine ⟨source', held, some e, ?_⟩
        rw [feed_over hover]
        exact ⟨hpull.trans hreach, hover⟩
    | finished =>
      have hexhausted : Crew.step? o embed { crew with program := q } .exhausted =
          some (Crew.rest { crew with program := q, phase := .finishing }) := by
        rw [Crew.step?, h.feeding]
      obtain ⟨failure, hover⟩ := h'.complete o embed
      rw [feed_finished h.feeding hq]
      rw [Crew.move_of_some hexhausted] at hover ⊢
      exact ⟨source', [], failure,
        (Step.exhausted hq hexhausted).reaches.trans reaches_complete, hover⟩
    | failed e =>
      have hbroke : Crew.step? o embed { crew with program := q } (.broke e) =
          some (Crew.stop o { crew with program := q } e) := by
        rw [Crew.step?, h.feeding]
      have hover : (Crew.move o embed { crew with program := q } (.broke e)).phase =
          .over (some e) := h'.broke e
      rw [feed_failed h.feeding hq]
      rw [Crew.move_of_some hbroke] at hover ⊢
      exact ⟨source', [], some e, (Step.broke hq hbroke).reaches, hover⟩

end Shift

/-! ## Whole runs -/

theorem conclude_error {crew : Crew σ} {e : RunError} (h : crew.phase = .over (some e))
    (started : Float) (pruneRoot : Option String) :
    crew.conclude o started pruneRoot = (do leave .sourceClosed; throw e) := by
  rw [Crew.conclude, h]

theorem conclude_ok {crew : Crew σ} (h : crew.phase = .over none) (started : Float)
    (pruneRoot : Option String) :
    crew.conclude o started pruneRoot = (do
      leave .sourceClosed
      let pruned ← sweep o pruneRoot crew.collected
      report o started crew.collected pruned) := by
  rw [Crew.conclude, h]

/-- **The program's own run is one of these**: the one in which tasks take turns. -/
theorem together_of_run {workers : Nat} (hw : 2 ≤ workers) {source : Source}
    (hends : source.Ends disk (source.bound disk)) {pruneRoot : Option String} {p q : Program σ}
    {r : Except RunError Stats}
    (h : (run o embed disk workers source pruneRoot).perform p = (r, q)) :
    ∃ ws, Together o embed disk workers source pruneRoot p ws r q := by
  have hpos : 0 < workers := by omega
  obtain ⟨crew, hcrew⟩ : ∃ crew, Crew.feed o embed disk (source.bound disk) source
      (.start workers (clocked o p)) = crew := ⟨_, rfl⟩
  have hidle : (Crew.start workers (clocked o p)).Idle [] := ⟨rfl, rfl, hpos, rfl⟩
  obtain ⟨source', held, failure, ⟨ws, hcourse⟩, hover⟩ := Shift.reaches_feed o embed hends hidle
  have hdone := perform_indexTogether hcrew
  have hclock : (outside o.clock : Action σ Float).perform p =
      (.ok (o.clock p.outside).1, clocked o p) := rfl
  rw [hcrew] at hcourse hover
  rw [run_eq, perform_bind_ok hclock, indexSource, if_neg (by omega)] at h
  rcases failure with _ | e
  rotate_left
  · rw [hover] at hdone
    rw [perform_bind_error (perform_always hdone (perform_leave _ _))] at h
    refine ⟨ws, .intro hcourse hover ?_⟩
    rw [conclude_error hover]
    exact h
  · rw [hover] at hdone
    rw [perform_bind_ok (perform_always hdone (perform_leave _ _))] at h
    refine ⟨ws, .intro hcourse hover ?_⟩
    rw [conclude_ok hover, perform_bind_ok (perform_leave _ _)]
    exact h

/-- So is a run in which acts are chosen until the crew is over. -/
theorem together_of_runChosen {prefer : Shift σ → List Act} {fuel workers : Nat}
    {source : Source} {pruneRoot : Option String} {p q : Program σ} {r : Except RunError Stats}
    {failure : Option RunError}
    (hover : (Shift.go o embed disk prefer fuel
      ⟨source, [], .start workers (clocked o p)⟩).crew.phase = .over failure)
    (h : (runChosen o embed disk prefer fuel workers source pruneRoot).perform p = (r, q)) :
    ∃ ws, Together o embed disk workers source pruneRoot p ws r q := by
  obtain ⟨ws, hcourse⟩ := Shift.reaches_go o embed disk prefer fuel
    ⟨source, [], .start workers (clocked o p)⟩
  exact ⟨ws, .intro hcourse hover h⟩

end DocSearch.Index
