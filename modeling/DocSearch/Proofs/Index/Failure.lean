import DocSearch.Proofs.Cancel
import DocSearch.Proofs.Index.Frame
import DocSearch.Proofs.Index.Supply

/-!
# What a run with several workers fails with

The first failure stops a crew, and stopping makes other tasks fail: those that are queued are
dropped, and the embeddings that are under way see a tripped token. **None of these failures is ever
what the run fails with** (`run_fails_with_cause`). The error comes from the source, or from a task
that failed while the run had not stopped itself.

The invariant is `Accounted`. As long as nobody has stopped the crew, every failed task was raised
like this (`Raised`), so this is also true of the failure that is collected first; once the crew is
stopping, it keeps that failure and collects nothing any more.
-/

namespace DocSearch.Index

open DocSearch.Action Files Store

variable {σ : Type} {o : Outside σ} {embed : Embedder σ} {disk : Disk}

/-! ## Where an error comes from -/

/-- An act in which an error is raised while the run has not stopped itself: by a task that is given
no trip of the run's own, or by the source. -/
inductive Shift.Raises (o : Outside σ) (embed : Embedder σ) (disk : Disk) (e : RunError) :
    Shift σ → Shift σ → Prop
  | task {source : Source} {held : List Chunk} {crew crew' : Crew σ} {i : Nat} {t : Task}
      (hfresh : crew.stopped = none) (ht : crew.tasks[i]? = some t)
      (hactive : t.stage.isActive = true)
      (hraised : (t.advance o embed none crew.program).1.stage = .ended (.error e))
      (hwork : crew.step? o embed (.work i) = some crew') :
      Raises o embed disk e ⟨source, held, crew⟩ ⟨source, held, crew'⟩
  | source {source source' : Source} {crew crew' : Crew σ} {q : Program σ}
      (hfresh : crew.stopped = none)
      (hraised : (pull o disk source).perform crew.program = (.ok (source', .failed e), q))
      (hbroke : Crew.step? o embed { crew with program := q } (.broke e) = some crew') :
      Raises o embed disk e ⟨source, [], crew⟩ ⟨source', [], crew'⟩

/-- On the way from `start` to `s` this error was raised. -/
def Shift.Raised (o : Outside σ) (embed : Embedder σ) (disk : Disk) (start s : Shift σ)
    (e : RunError) : Prop :=
  ∃ s₀ s₁, start.Reaches o embed disk s₀ ∧ s₀.Raises o embed disk e s₁ ∧ s₁.Reaches o embed disk s

/-! ## Resting and stopping -/

namespace Crew

variable {crew : Crew σ} {e : RunError}

/-- A crew that takes chunks or waits for its last tasks. -/
def GoesOn (crew : Crew σ) : Prop := crew.phase = .feeding ∨ crew.phase = .finishing

/-- A crew that stops or has come to an end because of this error. -/
def FailsWith (crew : Crew σ) (e : RunError) : Prop :=
  crew.phase = .stopping e ∨ crew.phase = .over (some e)

theorem GoesOn.not_failsWith (h : crew.GoesOn) : ¬ crew.FailsWith e := by
  rintro (hstopping | hover)
  · rcases h with h | h <;> cases h.symm.trans hstopping
  · rcases h with h | h <;> cases h.symm.trans hover

theorem failsWith_rest : (rest crew).FailsWith e ↔ crew.FailsWith e := by
  unfold rest FailsWith
  split <;> rename_i hphase
  · split_ifs <;> simp [hphase]
  · split_ifs <;> simp [hphase]
  · rfl

theorem goesOn_of_rest (h : (rest crew).GoesOn) : crew.GoesOn := by
  unfold rest at h
  split at h <;> rename_i hphase
  · exact .inr hphase
  · split_ifs at h
    · rcases h with h | h <;> cases h
    · exact h
  · exact h

/-- A crew that is stopped fails with the error that stopped it. -/
theorem failsWith_stop {e' : RunError} : (crew.stop o e).FailsWith e' ↔ e' = e := by
  rw [stop, failsWith_rest]
  simp [FailsWith, eq_comm]

/-- Stopping is what tripping a child does whose parent is in the state that the token shows. -/
theorem stopped_stop (crew : Crew σ) (e : RunError) :
    (crew.stop o e).stopped = Trip.cancel (some stopReason) (o.look crew.program.outside).1 := by
  rw [stop, rest_stopped]
  cases (o.look crew.program.outside).1 <;> rfl

end Crew

/-! ## The invariant -/

namespace Shift

variable {start s s' : Shift σ} {e : RunError}

theorem Raised.trans (h : Raised o embed disk start s e) (hr : s.Reaches o embed disk s') :
    Raised o embed disk start s' e := by
  obtain ⟨s₀, s₁, hstart, hraises, hreach⟩ := h
  exact ⟨s₀, s₁, hstart, hraises, hreach.trans hr⟩

/-- What a shift owes to what happened since `start`: until somebody stops the crew, every failure
among the tasks was raised, and so was the failure that stopped it. -/
structure Accounted (o : Outside σ) (embed : Embedder σ) (disk : Disk) (start s : Shift σ) :
    Prop where
  reach : start.Reaches o embed disk s
  fresh : s.crew.GoesOn → s.crew.stopped = none
  tasks : s.crew.stopped = none → ∀ t ∈ s.crew.tasks, ∀ e, t.stage = .ended (.error e) →
    Raised o embed disk start s e
  cause : ∀ e, s.crew.FailsWith e → Raised o embed disk start s e
  stopped : ∀ e, s.crew.FailsWith e →
    ∃ w, s.crew.stopped = Trip.cancel (some stopReason) (o.look w).1

theorem accounted_start (source : Source) (workers : Nat) (p : Program σ) :
    Accounted o embed disk ⟨source, [], .start workers p⟩ ⟨source, [], .start workers p⟩ where
  reach := .refl _
  fresh := fun _ => rfl
  tasks := by
    intro _ t ht
    cases ht
  cause := fun e h => absurd h (Crew.GoesOn.not_failsWith (.inl rfl))
  stopped := fun e h => absurd h (Crew.GoesOn.not_failsWith (.inl rfl))

/-- An act that stops nothing keeps the accounts if every failure that is new was raised. -/
theorem Accounted.going (h : Accounted o embed disk start s) (hreach : s.Reaches o embed disk s')
    (hstopped : s'.crew.stopped = s.crew.stopped) (hgoes : s'.crew.GoesOn → s.crew.GoesOn)
    (hcause : ∀ e, s'.crew.FailsWith e → s.crew.FailsWith e)
    (htasks : s.crew.stopped = none → ∀ t ∈ s'.crew.tasks, ∀ e, t.stage = .ended (.error e) →
      t ∈ s.crew.tasks ∨ Raised o embed disk start s' e) :
    Accounted o embed disk start s' where
  reach := h.reach.trans hreach
  fresh := fun hgoesOn => hstopped.trans (h.fresh (hgoes hgoesOn))
  tasks := by
    intro hfresh t ht e he
    rw [hstopped] at hfresh
    rcases htasks hfresh t ht e he with hold | hnew
    · exact (h.tasks hfresh t hold e he).trans hreach
    · exact hnew
  cause := fun e hfails => (h.cause e (hcause e hfails)).trans hreach
  stopped := by
    intro e hfails
    rw [hstopped]
    exact h.stopped e (hcause e hfails)

/-- A crew that stops because of an error that was raised keeps the accounts. -/
theorem accounted_stop {source : Source} {held : List Chunk} {crew : Crew σ}
    (hreach : start.Reaches o embed disk ⟨source, held, crew.stop o e⟩)
    (h : Raised o embed disk start ⟨source, held, crew.stop o e⟩ e) :
    Accounted o embed disk start ⟨source, held, crew.stop o e⟩ where
  reach := hreach
  fresh := fun hgoesOn => absurd (Crew.failsWith_stop.2 rfl) hgoesOn.not_failsWith
  tasks := by
    intro hfresh
    rw [Crew.stopped_stop] at hfresh
    cases htrip : (o.look crew.program.outside).1 <;> rw [htrip] at hfresh <;> cases hfresh
  cause := by
    intro e' h'
    obtain rfl := Crew.failsWith_stop.1 h'
    exact h
  stopped := fun _ _ => ⟨_, Crew.stopped_stop crew e⟩

/-- Every act keeps the accounts. -/
theorem Accounted.step (h : Accounted o embed disk start s) {ws : List Write}
    (hstep : s.Step o embed disk ws s') : Accounted o embed disk start s' := by
  have hreach := hstep.reaches
  cases hstep with
  | @work source held crew crew' i hwork =>
    have hcases := Crew.work_cases hwork
    obtain ⟨-, t, ht, ⟨-, -, rfl⟩ | ⟨hactive, rfl⟩⟩ := hcases
    · refine h.going hreach rfl id (fun _ => id) fun _ t' ht' e he => ?_
      rcases List.mem_or_eq_of_mem_set ht' with hold | rfl
      · exact .inl hold
      · cases he
    · refine h.going hreach (Crew.rest_stopped _) Crew.goesOn_of_rest
        (fun _ => Crew.failsWith_rest.1) fun hfresh t' ht' e he => ?_
      rw [Crew.rest_tasks] at ht'
      rcases List.mem_or_eq_of_mem_set ht' with hold | rfl
      · exact .inl hold
      · -- The task was given the crew's trip, and there is none.
        replace hfresh : crew.stopped = none := hfresh
        rw [hfresh] at he
        exact .inr ⟨_, _, h.reach, .task hfresh ht hactive he hwork, .refl _⟩
  | @collect source held crew crew' picks hcollect =>
    obtain ⟨hphase, taken, others, ids, hparts, hend⟩ := Crew.collect_cases hcollect
    have hgoesOn : crew.GoesOn := hphase.imp_left And.left
    obtain ⟨-, rfl⟩ | ⟨e, ⟨t, ht, hte⟩, rfl⟩ := hend
    · refine h.going hreach (Crew.rest_stopped _) Crew.goesOn_of_rest
        (fun _ => Crew.failsWith_rest.1) fun _ t ht e he => .inl ?_
      rw [Crew.rest_tasks] at ht
      exact hparts.mem_iff.2 (List.mem_append_right _ ht)
    · have hmem : t ∈ crew.tasks := hparts.mem_iff.2 (List.mem_append_left _ ht)
      exact accounted_stop (h.reach.trans hreach)
        ((h.tasks (h.fresh hgoesOn) t hmem e hte).trans hreach)
  | @submit source c cs crew crew' hsubmit =>
    obtain ⟨-, -, rfl⟩ := Crew.submit_cases hsubmit
    refine h.going hreach rfl id (fun _ => id) fun _ t ht e he => ?_
    rcases List.mem_append.1 ht with hold | hnew
    · exact .inl hold
    · obtain rfl := List.mem_singleton.1 hnew
      cases he
  | pull hfeeding hpull =>
    exact h.going hreach rfl id (fun _ => id) fun _ t ht _ _ => .inl ht
  | exhausted hpull hexhausted =>
    obtain ⟨hfeeding, rfl⟩ := Crew.exhausted_cases hexhausted
    refine h.going hreach (Crew.rest_stopped _) (fun _ => .inl hfeeding)
      (fun e hfails => ?_) fun _ t ht _ _ => .inl ?_
    · exact absurd (Crew.failsWith_rest.1 hfails) (Crew.GoesOn.not_failsWith (.inr rfl))
    · rwa [Crew.rest_tasks] at ht
  | broke hpull hbroke =>
    obtain ⟨hfeeding, rfl⟩ := Crew.broke_cases hbroke
    exact accounted_stop (h.reach.trans hreach)
      ⟨_, _, h.reach, .source (h.fresh (.inl hfeeding)) hpull hbroke, .refl _⟩

/-- Every course keeps the accounts. -/
theorem Accounted.course (h : Accounted o embed disk start s) {ws : List Write}
    (hcourse : s.Course o embed disk ws s') : Accounted o embed disk start s' := by
  induction hcourse with
  | refl => exact h
  | act _ a ha ih => exact ih.step (act_cases ha)

end Shift

/-! ## What is left of the source -/

namespace Shift

variable {start s s' : Shift σ}

/-- A crew that takes chunks did so before, and at most one batch has been taken meanwhile. -/
theorem Step.left {ws : List Write} (hstep : s.Step o embed disk ws s')
    (hfeeding : s'.crew.phase = .feeding) :
    s.crew.phase = .feeding ∧ ∃ taken, ∀ bs ending,
      s'.source.Gives disk bs ending → s.source.Gives disk (taken ++ bs) ending := by
  cases hstep with
  | work hwork => exact ⟨(Crew.work_phase hwork).1.1 hfeeding, [], fun _ _ => id⟩
  | collect hcollect =>
    obtain ⟨-, taken, others, ids, -, ⟨-, rfl⟩ | ⟨e, -, rfl⟩⟩ := Crew.collect_cases hcollect
    · have hbefore : _ = Phase.feeding := Crew.feeding_rest_iff.1 hfeeding
      exact ⟨hbefore, [], fun _ _ => id⟩
    · exact absurd hfeeding (Crew.failing_stop _ e).ne.1
  | submit hsubmit => exact ⟨(Crew.submit_cases hsubmit).1, [], fun _ _ => id⟩
  | @pull source source' cs crew q hbefore hpull =>
    refine ⟨hbefore, [cs], fun bs ending hgives => ?_⟩
    obtain ⟨⟨ls, hnext⟩, -⟩ := next_of_pull hpull
    rcases Source.next_of_trip disk source (o.look crew.program.outside).1 with
      hsame | ⟨source'', e, ls', hfailed⟩
    · exact .chunks (hsame.symm.trans hnext) hgives
    · cases (Prod.mk.inj (Prod.mk.inj (hfailed.symm.trans hnext)).2).1
  | exhausted hpull hexhausted =>
    obtain ⟨-, rfl⟩ := Crew.exhausted_cases hexhausted
    cases Crew.feeding_rest_iff.1 hfeeding
  | broke hpull hbroke =>
    obtain ⟨-, rfl⟩ := Crew.broke_cases hbroke
    exact absurd hfeeding (Crew.failing_stop _ _).ne.1

/-- As long as chunks are taken, the source gives what it gave at the beginning, less what has been
taken from it. -/
theorem Course.left {ws : List Write} (hcourse : start.Course o embed disk ws s)
    (hfeeding : s.crew.phase = .feeding) :
    ∃ taken, ∀ bs ending,
      s.source.Gives disk bs ending → start.source.Gives disk (taken ++ bs) ending := by
  induction hcourse with
  | refl => exact ⟨[], fun _ _ => id⟩
  | act _ a ha ih =>
    obtain ⟨hbefore, cs, hcs⟩ := (act_cases ha).left hfeeding
    obtain ⟨taken, htaken⟩ := ih hbefore
    refine ⟨taken ++ cs, fun bs ending hgives => ?_⟩
    rw [List.append_assoc]
    exact htaken _ ending (hcs bs ending hgives)

end Shift

/-! ## The token -/

/-- What happens outside while a run goes on, the embedding of texts included, keeps `P`. -/
structure Stays (o : Outside σ) (embed : Embedder σ) (P : σ → Prop) : Prop where
  clock : ∀ w, P w → P (o.clock w).2
  look : ∀ w, P w → P (o.look w).2
  execute : ∀ s w, P w → P (o.execute s w).2
  embed : ∀ stopped text p, P p.outside → P ((embed stopped text).perform p).2.outside

theorem Stays.kept {P : σ → Prop} (h : Stays o embed P) : Kept o embed fun p => P p.outside where
  leave := fun _ _ _ hp => hp
  look := fun p => h.look p.outside
  execute := fun s p _ => h.execute s p.outside
  embed := h.embed

/-- The source and the embedder raise `cancelled` only when the token that they were given is
tripped. The token of the caller is in the state `token`, which is final once it is tripped; the
embedder is given a child of it, which is tripped as well when the run has stopped itself. -/
structure Watches (o : Outside σ) (embed : Embedder σ) (disk : Disk) (source : Source)
    (token : σ → Trip) : Prop where
  final : Stays o embed fun w => (token w).isSome
  look : ∀ w reason, (o.look w).1 = some reason → (token (o.look w).2).isSome
  embed : ∀ stopped text p q reason,
    (embed stopped text).perform p = (.error (.cancelled reason), q) →
      stopped.isSome ∨ (token q.outside).isSome
  source : ∀ bs reason, ¬ source.Gives disk bs (some (.cancelled reason))

/-- Of the steps of a task, only the embedding raises `cancelled`. -/
theorem advance_cancelled {t : Task} (hactive : t.stage.isActive = true) {stopped : Trip}
    {p : Program σ} {reason : String}
    (h : (t.advance o embed stopped p).1.stage = .ended (.error (.cancelled reason))) :
    (embed stopped t.chunk.text).perform p =
      (.error (.cancelled reason), (t.advance o embed stopped p).2) := by
  obtain ⟨c, stage⟩ := t
  cases stage with
  | begun =>
    simp only [Task.advance] at h
    rcases hr : (upsertChunk o c).perform p with ⟨e | id, q⟩ <;> rw [hr] at h
    · obtain rfl : e = .cancelled reason := by simpa using h
      obtain ⟨cause, hcause⟩ := isStore_of_upsertChunk hr
      cases hcause
    · cases h
  | stored id =>
    simp only [Task.advance] at h ⊢
    rcases hr : (embed stopped c.text).perform p with ⟨e | v, q⟩ <;> rw [hr] at h
    · obtain rfl : e = .cancelled reason := by simpa using h
      rfl
    · cases h
  | embedded id v =>
    simp only [Task.advance] at h
    rcases hr : (settle o c id v).perform p with ⟨e | u, q⟩ <;> rw [hr] at h
    · obtain rfl : e = .cancelled reason := by simpa using h
      obtain ⟨cause, hcause⟩ := isStore_of_settle hr
      cases hcause
    · cases h
  | queued => cases hactive
  | ended r => cases hactive

/-- Where `cancelled` is raised, the caller's token is tripped. -/
theorem Watches.of_raises {source : Source} {token : σ → Trip}
    (h : Watches o embed disk source token) {workers : Nat} {p : Program σ} {s s' : Shift σ}
    {ws : List Write} (hcourse : Shift.Course o embed disk ⟨source, [], .start workers p⟩ ws s)
    {reason : String} (hraises : s.Raises o embed disk (.cancelled reason) s') :
    (token s'.crew.program.outside).isSome := by
  cases hraises with
  | @task source' held crew crew' i t hfresh ht hactive hraised hwork =>
    have hembed := advance_cancelled hactive hraised
    obtain ⟨-, t', ht', hcases⟩ := Crew.work_cases hwork
    obtain rfl := Option.some.inj (ht.symm.trans ht')
    obtain ⟨hqueued, -⟩ | ⟨-, rfl⟩ := hcases
    · rw [hqueued] at hactive
      cases hactive
    · rw [Crew.rest_program, hfresh]
      exact (h.embed _ _ _ _ reason hembed).resolve_left (by simp)
  | @source source₀ source' crew crew' q hfresh hraised hbroke =>
    obtain ⟨hfeeding, rfl⟩ := Crew.broke_cases hbroke
    obtain ⟨⟨ls, hnext⟩, houtside⟩ := next_of_pull hraised
    have htripped : (token q.outside).isSome := by
      rw [houtside]
      cases htrip : (o.look crew.program.outside).1 with
      | some r => exact h.look _ r htrip
      | none =>
        rw [htrip] at hnext
        obtain ⟨taken, htaken⟩ := hcourse.left hfeeding
        exact absurd (htaken [] _ (.failed hnext)) (h.source _ reason)
    rw [Crew.stop, Crew.rest_program]
    exact h.final.look q.outside htripped

/-! ## Deeds -/

/-- Between two programs nothing was pruned. -/
def Unpruned (p q : Program σ) : Prop :=
  ∃ ds, q.trace = p.trace ++ ds ∧ ∀ d ∈ ds, prunes d = false

theorem unpruned_of_trace {p q : Program σ} (h : q.trace = p.trace) : Unpruned p q :=
  ⟨[], by rw [h, List.append_nil], by simp⟩

theorem Unpruned.trans {p q r : Program σ} (h : Unpruned p q) (h' : Unpruned q r) :
    Unpruned p r := by
  obtain ⟨ds, hds, hnone⟩ := h
  obtain ⟨ds', hds', hnone'⟩ := h'
  refine ⟨ds ++ ds', by rw [hds', hds, List.append_assoc], fun d hd => ?_⟩
  rcases List.mem_append.1 hd with hd | hd
  · exact hnone d hd
  · exact hnone' d hd

theorem unpruned_leave {d : Deed} (hd : prunes d = false) (p : Program σ) :
    Unpruned p { p with trace := p.trace ++ [d] } :=
  ⟨[d], rfl, by simpa using hd⟩

theorem kept_unpruned (hembed : ∀ stopped text p, Unpruned p ((embed stopped text).perform p).2)
    (p : Program σ) : Kept o embed (Unpruned p) where
  leave := fun _ q hd h => h.trans (unpruned_leave hd q)
  look := fun _ h => h.trans (unpruned_of_trace rfl)
  execute := fun _ _ _ h => h.trans (unpruned_of_trace rfl)
  embed := fun stopped text q h => h.trans (hembed stopped text q)

/-! ## Main result -/

/-- **A run fails with what went wrong first, not with what its own stop does to others.** A run
with several workers whose crew has come to an end because of `e`, under any interleaving, fails
with `e`, which the source or a task raised before the run stopped itself. It raises `cancelled`
only if the caller's token was tripped, which the run does not do itself: it trips a child. The
source is closed, and nothing is pruned. -/
theorem run_fails_with_cause {workers : Nat} {source : Source} {pruneRoot : Option String}
    {p q : Program σ} {ws : List Write} {s : Shift σ} {e : RunError} {r : Except RunError Stats}
    (hcourse : Shift.Course o embed disk ⟨source, [], .start workers (clocked o p)⟩ ws s)
    (hover : s.crew.phase = .over (some e))
    (hend : (s.crew.conclude o (o.clock p.outside).1 pruneRoot).perform s.crew.program = (r, q)) :
    r = .error e ∧
    Shift.Raised o embed disk ⟨source, [], .start workers (clocked o p)⟩ s e ∧
    (∀ token, Watches o embed disk source token → ∀ reason, e = .cancelled reason →
      (token q.outside).isSome) ∧
    (∀ token : σ → Trip, (∀ trip, Stays o embed fun w => token w = trip) →
      token q.outside = token p.outside) ∧
    (∃ w, s.crew.stopped = Trip.cancel (some stopReason) (o.look w).1 ∧
      ∀ (f : TokenForest) (t : TokenId), f.LooksBack → f.trip? t = (o.look w).1 →
        let stopped := (f.child t).1.cancel (f.child t).2 (some stopReason)
        stopped.trip? (f.child t).2 = s.crew.stopped ∧
          ∀ u < f.tokens.length, stopped.trip? u = f.trip? u) ∧
    q.trace = s.crew.program.trace ++ [.sourceClosed] ∧
    ((∀ stopped text p, Unpruned p ((embed stopped text).perform p).2) → Unpruned p q) := by
  have haccounts := (Shift.accounted_start source workers (clocked o p)).course hcourse
  have hfails : s.crew.FailsWith e := .inr hover
  rw [conclude_error hover, perform_bind_ok (perform_leave _ _), perform_throw] at hend
  obtain ⟨rfl, rfl⟩ := Prod.mk.inj hend
  refine ⟨rfl, haccounts.cause e hfails, fun token hw reason he => ?_, fun token htoken => ?_, ?_,
    rfl, fun hembed => ?_⟩
  · subst he
    obtain ⟨s₀, s₁, ⟨us, hbefore⟩, hraises, vs, hafter⟩ := haccounts.cause _ hfails
    exact hw.final.kept.course hafter (hw.of_raises hbefore hraises)
  · have hstays := htoken (token p.outside)
    exact hstays.kept.course hcourse (hstays.clock p.outside rfl)
  · obtain ⟨w, hw⟩ := haccounts.stopped e hfails
    refine ⟨w, hw, fun f t hf ht => ?_⟩
    rw [hw, ← ht]
    exact TokenForest.trip?_cancel_child hf t (some stopReason)
  · have hcrew : Unpruned p s.crew.program :=
      (kept_unpruned hembed p).course hcourse (unpruned_of_trace rfl)
    exact hcrew.trans (unpruned_leave rfl s.crew.program)

/-- Fails to embed one text, and every text once it is stopped. -/
def faltering (text : String) : Embedder SerialTables := fun stopped t =>
  match stopped with
  | some reason => throw (.cancelled reason)
  | none => if t = text then throw (.daemon .noEmbeddings) else pure [1]

/-- Two workers behind two chunks. The first one fails, and the second one is slow enough to be
stopped. -/
def stopped : Shift SerialTables :=
  Shift.go tablesWorld (faltering (openChunk "opened").text) ⟨.folder [], [], []⟩
    (Shift.overtaking fun c => c.doc = "opens") 16
    ⟨.listed [openChunk "opened", openChunk "opens"] none, [],
      .start 2 (clocked tablesWorld ⟨.empty, true, []⟩)⟩

/-- Whether a crew has come to an end because of this error. -/
def Phase.isOver (e : RunError) : Phase → Bool
  | .over (some e') => e' = e
  | _ => false

theorem over_of_isOver {phase : Phase} {e : RunError} (h : phase.isOver e = true) :
    phase = .over (some e) := by
  unfold Phase.isOver at h
  split at h
  · rw [of_decide_eq_true h]
  · cases h

/-- The second task fails with the stop of the run, the run with the failure of the first one. -/
theorem run_fails_with_cause_stopped :
    (stopped.crew.tasks.any fun t => t.stage matches .ended (.error (.cancelled _))) = true ∧
      ∃ q, (stopped.crew.conclude tablesWorld 0 (some "store")).perform stopped.crew.program =
          (.error (.daemon .noEmbeddings), q) ∧
        Unpruned ⟨.empty, true, []⟩ q := by
  refine ⟨by decide +kernel, ?_⟩
  obtain ⟨ws, hcourse⟩ := Shift.reaches_go tablesWorld (faltering (openChunk "opened").text)
    ⟨.folder [], [], []⟩ (Shift.overtaking fun c => c.doc = "opens") 16
    ⟨.listed [openChunk "opened", openChunk "opens"] none, [],
      .start 2 (clocked tablesWorld ⟨.empty, true, []⟩)⟩
  have hover : stopped.crew.phase = .over (some (.daemon .noEmbeddings)) :=
    over_of_isOver (by decide +kernel)
  rw [← stopped.eq_1] at hcourse
  generalize stopped = s at hcourse hover ⊢
  rcases hend : (s.crew.conclude tablesWorld 0 (some "store")).perform s.crew.program with ⟨r, q⟩
  obtain ⟨rfl, -, -, -, -, -, hunpruned⟩ := run_fails_with_cause hcourse hover hend
  refine ⟨q, rfl, hunpruned fun trip text p => ?_⟩
  unfold faltering
  cases trip with
  | some reason => exact unpruned_of_trace rfl
  | none =>
    dsimp only
    split_ifs
    · exact unpruned_of_trace rfl
    · exact unpruned_of_trace rfl

end DocSearch.Index
