import DocSearch.Proofs.Index.Shift

/-!
# What a shift leaves alone

While it takes chunks and lets its tasks go on, a crew touches what is around it in four ways only:
it leaves deeds, it looks at the token, it executes statements that do not prune, and it embeds
texts. A property of programs that each of these keeps (`Kept`) is kept by every course of a shift
(`Kept.course`).

The operations of the store that a task uses fail with errors of the store and with no others
(`isStore_of_upsertChunk`, `isStore_of_settle`).
-/

namespace DocSearch.Index

open DocSearch.Action Files Store

variable {σ α β ε : Type} {o : Outside σ} {embed : Embedder σ} {disk : Disk}

/-- Whether a deed is the statement that prunes. -/
def prunes : Deed → Bool
  | .executed (.prune _ _ _) => true
  | _ => false

/-- Whether an error is one of the store. -/
def IsStore (e : RunError) : Prop := ∃ cause, e = .store cause

/-! ## Actions -/

/-- However the action ends, `P` still holds, and if it fails, its error is one of `E`. -/
def Within (P : Program σ → Prop) (E : RunError → Prop) (a : Action σ α) : Prop :=
  ∀ p, P p → P (a.perform p).2 ∧ ∀ e, (a.perform p).1 = .error e → E e

section

variable {P : Program σ → Prop} {E : RunError → Prop}

theorem within_pure (v : α) : Within P E (pure v : Action σ α) :=
  fun _ hp => ⟨hp, fun _ h => nomatch h⟩

theorem within_throw {e : RunError} (he : E e) : Within P E (throw e : Action σ α) := by
  intro p hp
  refine ⟨hp, fun e' h => ?_⟩
  obtain rfl := Except.error.inj h
  exact he

theorem within_get : Within P E (get : Action σ (Program σ)) :=
  fun _ hp => ⟨hp, fun _ h => nomatch h⟩

theorem within_ofExcept {wrap : ε → RunError} (hwrap : ∀ e, E (wrap e)) (r : Except ε α) :
    Within P E (ofExcept wrap r : Action σ α) := by
  cases r with
  | ok v => exact within_pure v
  | error e => exact within_throw (hwrap e)

theorem Within.bind {a : Action σ α} {f : α → Action σ β} (ha : Within P E a)
    (hf : ∀ v, Within P E (f v)) : Within P E (a >>= f) := by
  intro p hp
  obtain ⟨hq, he⟩ := ha p hp
  rw [perform_bind]
  rcases h : a.perform p with ⟨r, q⟩
  rw [h] at hq he
  cases r with
  | ok v => exact hf v q hq
  | error e =>
    refine ⟨hq, fun e' h' => he e' ?_⟩
    rw [Except.error.inj h']

end

/-! ## Programs -/

/-- What a crew does to what is around it keeps `P`. -/
structure Kept (o : Outside σ) (embed : Embedder σ) (P : Program σ → Prop) : Prop where
  leave : ∀ d p, prunes d = false → P p → P { p with trace := p.trace ++ [d] }
  look : ∀ p, P p → P { p with outside := (o.look p.outside).2 }
  execute : ∀ s p, prunes (.executed s) = false → P p →
    P { p with outside := (o.execute s p.outside).2 }
  embed : ∀ stopped text p, P p → P ((embed stopped text).perform p).2

namespace Kept

variable {P : Program σ → Prop} {s s' : Shift σ}

theorem within_requireOpen : Within P IsStore (requireOpen : Action σ Unit) := by
  refine within_get.bind fun p => ?_
  cases p.isOpen with
  | true => exact within_pure _
  | false => exact within_throw ⟨_, rfl⟩

theorem within_execute (h : Kept o embed P) {s : Statement}
    (hs : prunes (.executed s) = false) : Within P IsStore (Store.execute o s) := by
  have hleave : Within P IsStore (Action.leave (.executed s) : Action σ Unit) :=
    fun p hp => ⟨h.leave _ p hs hp, fun _ he => nomatch he⟩
  have houtside : Within P IsStore (outside (o.execute s)) :=
    fun p hp => ⟨h.execute s p hs hp, fun _ he => nomatch he⟩
  have hsend : Within P IsStore (send o s) := hleave.bind fun _ => houtside
  refine hsend.bind fun reaction => ?_
  cases reaction with
  | failed message => exact within_throw ⟨_, rfl⟩
  | brought rows => exact within_pure rows

theorem within_upsertChunk (h : Kept o embed P) (c : Chunk) :
    Within P IsStore (upsertChunk o c) := by
  refine within_requireOpen.bind fun _ => ?_
  have hfirst : Within P IsStore (executeFirst o (.upsertChunk (chunkRow c))) :=
    (h.within_execute rfl).bind fun _ => within_ofExcept (fun _ => ⟨_, rfl⟩) _
  refine hfirst.bind fun row => ?_
  cases row with
  | none => exact within_throw ⟨_, rfl⟩
  | some row => exact within_ofExcept (fun _ => ⟨_, rfl⟩) _

theorem within_settle (h : Kept o embed P) (c : Chunk) (id : Int) (v : List Float) :
    Within P IsStore (settle o c id v) := by
  have hvector : Within P IsStore (upsertVector o id (.list (v.map .float))) := by
    refine within_requireOpen.bind fun _ => ?_
    refine (within_ofExcept (fun _ => ⟨_, rfl⟩) _).bind fun literal => ?_
    exact (h.within_execute rfl).bind fun _ => within_pure _
  have hlog : Within P IsStore
      (log .debug indexLogger s!"Indexed {c.kind} {c.symbol} (id={id})" : Action σ Unit) :=
    fun p hp => ⟨h.leave _ p rfl hp, fun _ he => nomatch he⟩
  exact hvector.bind fun _ => hlog

theorem logged (h : Kept o embed P) (ls : List LogLine) {p : Program σ} (hp : P p) :
    P { p with trace := p.trace ++ ls.map .logged } := by
  induction ls generalizing p with
  | nil => simpa using hp
  | cons l ls ih =>
    have := ih (h.leave (.logged l) p rfl hp)
    simpa using this

theorem pull (h : Kept o embed P) (disk : Disk) (source : Source) {p : Program σ} (hp : P p) :
    P ((Index.pull o disk source).perform p).2 := by
  rcases hnext : source.next disk (o.look p.outside).1 with ⟨source', batch, ls⟩
  rw [Index.pull, perform_bind_ok (perform_outside _ _), hnext]
  rw [perform_bind_ok (perform_leaves .logged ls _)]
  exact h.logged ls (h.look p hp)

theorem advance (h : Kept o embed P) (stopped : Trip) (t : Task) {p : Program σ} (hp : P p) :
    P (t.advance o embed stopped p).2 := by
  obtain ⟨c, stage⟩ := t
  cases stage with
  | begun =>
    have hq := (h.within_upsertChunk c p hp).1
    simp only [Task.advance]
    rcases hr : (upsertChunk o c).perform p with ⟨_ | _, q⟩ <;> rwa [hr] at hq
  | stored id =>
    have hq := h.embed stopped c.text p hp
    simp only [Task.advance]
    rcases hr : (embed stopped c.text).perform p with ⟨_ | _, q⟩ <;> rwa [hr] at hq
  | embedded id v =>
    have hq := (h.within_settle c id v p hp).1
    simp only [Task.advance]
    rcases hr : (settle o c id v).perform p with ⟨_ | _, q⟩ <;> rwa [hr] at hq
  | queued => exact hp
  | ended r => exact hp

theorem stop (h : Kept o embed P) {crew : Crew σ} (e : RunError) (hp : P crew.program) :
    P (crew.stop o e).program := by
  rw [Crew.stop, Crew.rest_program]
  exact h.look crew.program hp

/-- Every act keeps what its parts keep. -/
theorem step (h : Kept o embed P) {ws : List Write} (hstep : Shift.Step o embed disk s ws s')
    (hp : P s.crew.program) : P s'.crew.program := by
  cases hstep with
  | work hcrew =>
    obtain ⟨-, t, -, ⟨-, -, rfl⟩ | ⟨-, rfl⟩⟩ := Crew.work_cases hcrew
    · exact hp
    · rw [Crew.rest_program]
      exact h.advance _ t hp
  | collect hcrew =>
    obtain ⟨-, taken, others, ids, -, ⟨-, rfl⟩ | ⟨e, -, rfl⟩⟩ := Crew.collect_cases hcrew
    · rw [Crew.rest_program]
      exact hp
    · exact h.stop e hp
  | submit hcrew =>
    obtain ⟨-, -, rfl⟩ := Crew.submit_cases hcrew
    exact hp
  | @pull source source' cs crew q hfeeding hpull =>
    have hq : P _ := h.pull disk source hp
    rwa [hpull] at hq
  | @exhausted source source' crew crew' q hpull hcrew =>
    obtain ⟨-, rfl⟩ := Crew.exhausted_cases hcrew
    have hq := h.pull disk source hp
    rw [hpull] at hq
    rw [Crew.rest_program]
    exact hq
  | @broke source source' crew crew' q e hpull hcrew =>
    obtain ⟨-, rfl⟩ := Crew.broke_cases hcrew
    have hq := h.pull disk source hp
    rw [hpull] at hq
    exact h.stop e hq

/-- **A course keeps what its acts keep.** -/
theorem course (h : Kept o embed P) {ws : List Write} (hcourse : s.Course o embed disk ws s')
    (hp : P s.crew.program) : P s'.crew.program := by
  induction hcourse with
  | refl => exact hp
  | act _ a ha ih => exact h.step (Shift.act_cases ha) ih

end Kept

/-! ## Errors of the store -/

theorem kept_true (o : Outside σ) (embed : Embedder σ) : Kept o embed fun _ => True where
  leave := fun _ _ _ _ => trivial
  look := fun _ _ => trivial
  execute := fun _ _ _ _ => trivial
  embed := fun _ _ _ _ => trivial

theorem isStore_of_upsertChunk {c : Chunk} {p q : Program σ} {e : RunError}
    (h : (upsertChunk o c).perform p = (.error e, q)) : IsStore e := by
  have hkept := kept_true o fun _ _ => (pure [] : Action σ (List Float))
  exact (hkept.within_upsertChunk c p trivial).2 e (by rw [h])

theorem isStore_of_settle {c : Chunk} {id : Int} {v : List Float} {p q : Program σ} {e : RunError}
    (h : (settle o c id v).perform p = (.error e, q)) : IsStore e := by
  have hkept := kept_true o fun _ _ => (pure [] : Action σ (List Float))
  exact (hkept.within_settle c id v p trivial).2 e (by rw [h])

end DocSearch.Index
