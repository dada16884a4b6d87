import DocSearch.Proofs.Index.Ledger
import DocSearch.Proofs.Store.Alike

/-!
# Runs with any number of workers

A run with one worker goes one way only. With several workers it goes any way that its tasks take:
the way of the program's own schedule is one of them (`runs_of_run`), and others are taken when
threads run as they like. **`Runs`** leaves all this open.

However a run goes, one that succeeds has written all its chunks and deleted what else was at or
below its root (`Runs.finished`), and one that fails has done nothing but write (`Runs.written`).
What `Finished` means for an identity does not depend on the number of workers: a chunk of the
source has the row and the vector that were stored last, and any other row goes or stays as it is.
-/

namespace DocSearch.Index

open DocSearch.Action Files Store

variable {σ : Type} {o : Outside σ} {embed : Embedder σ} {disk : Disk} {tables : σ → Tables}
  {vector : String → List Float}

/-! ## What a run that succeeds has done -/

/-- The ids that a run was told are those of the rows of its chunks. -/
theorem mem_told_iff {literal : String → String} {t u : Tables} (hs : t.Sound) {cs : List Chunk}
    {ws : List Write} (hwhole : Write.Whole cs ws) (hu : t.Written literal ws u) {ids : List Int}
    (htold : ids.Perm (u.idsOf cs)) :
    ∀ r ∈ u.chunks, r.1 ∈ ids ↔ ∃ c ∈ cs, c.identity = r.2.identity :=
  Tables.mem_ids_iff (hu.sound hs) htold fun c hc =>
    hu.exists_holding? hs (hu.row_mem (hwhole.stored c hc))

namespace Finished

variable {literal : String → String} {t t' : Tables} {cs : List Chunk} {pruneRoot : Option String}
  {ws : List Write} {stats : Stats} {i : Identity}
  (h : Finished literal t cs pruneRoot ws stats t')

include h

theorem counts : stats.chunks = cs.length ∧ stats.embedded = cs.length := by
  cases h
  exact ⟨rfl, rfl⟩

variable (hs : t.Sound)

include hs

theorem sound : t'.Sound := by
  obtain ⟨elapsed, -, hu, -⟩ := h
  exact sound_swept (hu.sound hs) pruneRoot _

/-- The identity of a chunk holds the text of the chunk whose row was stored last and the vector of
the chunk whose vector was stored last, under the id that it had. -/
theorem holding?_of_mem {c : Chunk} (hc : c ∈ cs) :
    ∃ r ∈ cs, ∃ v ∈ cs, ∃ id, lastOf (Write.rows ws) c.identity = some r ∧
      lastOf (Write.vectors ws) c.identity = some v ∧
      t'.holding? c.identity = some ⟨id, r.text, some (literal v.text)⟩ ∧
      ∀ d, t.holding? c.identity = some d → d.id = id := by
  obtain ⟨elapsed, hwhole, hu, htold⟩ := h
  rename_i u ids
  have hvector : .vector c ∈ ws := hwhole.stored c hc
  obtain ⟨r, hr⟩ := exists_lastOf (Write.mem_rows.2 (hu.row_mem hvector))
  obtain ⟨v, hv⟩ := exists_lastOf (Write.mem_vectors.2 hvector)
  have hrcs : r ∈ cs := hwhole.known _ (Write.mem_rows.1 (lastOf_mem hr).1)
  have hvcs : v ∈ cs := hwhole.known _ (Write.mem_vectors.1 (lastOf_mem hv).1)
  refine ⟨r, hrcs, v, hvcs, u.idFor c.identity, hr, hv, ?_, fun d hd => (hu.idFor_eq hs hd).symm⟩
  rw [← hu.holding?_some hs hr hv]
  cases pruneRoot with
  | none => rfl
  | some root =>
    exact Tables.holding?_prune_kept (fun i => ∃ d ∈ cs, d.identity = i) root (hu.sound hs)
      (mem_told_iff hs hwhole hu htold) fun _ => ⟨c, hc, rfl⟩

/-- An identity at or below the root that has no chunk holds nothing. -/
theorem holding?_gone {root : String} (hroot : pruneRoot = some root)
    (hi : AtOrBelow root i.filename) (hcs : ∀ c ∈ cs, c.identity ≠ i) :
    t'.holding? i = none := by
  subst hroot
  obtain ⟨elapsed, hwhole, hu, htold⟩ := h
  exact Tables.holding?_prune_gone (fun i => ∃ d ∈ cs, d.identity = i) root (hu.sound hs)
    (mem_told_iff hs hwhole hu htold) hi fun ⟨c, hc, hci⟩ => hcs c hc hci

/-- Elsewhere an identity that has no chunk holds what it held. -/
theorem holding?_other {root : String} (hroot : pruneRoot = some root)
    (hi : ¬ AtOrBelow root i.filename) (hcs : ∀ c ∈ cs, c.identity ≠ i) :
    t'.holding? i = t.holding? i := by
  subst hroot
  obtain ⟨elapsed, hwhole, hu, htold⟩ := h
  rw [← hu.holding?_none hs fun w hw => hcs _ (hwhole.known w hw)]
  exact Tables.holding?_prune_kept (fun i => ∃ d ∈ cs, d.identity = i) root (hu.sound hs)
    (mem_told_iff hs hwhole hu htold) fun hbelow => absurd hbelow hi

/-- The identity of a chunk has the row that was stored last and the vector that was stored last. -/
theorem last_writes {c : Chunk} (hc : c ∈ cs) :
    ∃ r ∈ cs, ∃ v ∈ cs, ∃ id, r.identity = c.identity ∧ v.identity = c.identity ∧
      lastOf (Write.rows ws) c.identity = some r ∧ lastOf (Write.vectors ws) c.identity = some v ∧
      t'.rowsOf c.identity = [(id, chunkRow r)] ∧ t'.vectorsOf id = [(id, literal v.text)] := by
  obtain ⟨r, hrcs, v, hvcs, id, hr, hv, hheld, -⟩ := h.holding?_of_mem hs hc
  obtain ⟨hrow, hvectors⟩ := Tables.rowsOf_of_holding? (h.sound hs) hheld
  have hri := (lastOf_mem hr).2
  refine ⟨r, hrcs, v, hvcs, id, hri, (lastOf_mem hv).2, hr, hv, ?_, hvectors⟩
  rw [← hri] at hrow ⊢
  exact hrow

end Finished

/-! ## Runs -/

/-- A run in any way in which it may go: with one worker there is only one, with several workers
there is one for each interleaving of the tasks. -/
inductive Runs (o : Outside σ) (embed : Embedder σ) (disk : Disk) (workers : Nat) (source : Source)
    (pruneRoot : Option String) (p : Program σ) (r : Except RunError Stats) (q : Program σ) : Prop
  | alone (hw : workers ≤ 1)
      (h : (run o embed disk workers source pruneRoot).perform p = (r, q))
  | together (hw : 2 ≤ workers) {ws : List Write}
      (h : Together o embed disk workers source pruneRoot p ws r q)

/-- **The program's own run** is one of these. -/
theorem runs_of_run {workers : Nat} {source : Source} (hends : source.Ends disk (source.bound disk))
    {pruneRoot : Option String} {p q : Program σ} {r : Except RunError Stats}
    (h : (run o embed disk workers source pruneRoot).perform p = (r, q)) :
    Runs o embed disk workers source pruneRoot p r q := by
  by_cases hw : workers ≤ 1
  · exact .alone hw h
  · obtain ⟨ws, htogether⟩ := together_of_run (by omega) hends h
    exact .together (by omega) htogether

section

variable (ho : Backed o tables) (he : Embeds embed tables vector) {source : Source}
  {bs : List (List Chunk)} {ending : Option RunError} (hgives : source.Gives disk bs ending)
  {workers : Nat} {pruneRoot : Option String} {p q : Program σ} (hs : (tables p.outside).Sound)

include ho he hgives hs

/-- However a run goes, one that succeeds has written all that its source gives. With one worker it
has done so in order. -/
theorem Runs.finished (hbound : bs.length < source.bound disk) {stats : Stats}
    (h : Runs o embed disk workers source pruneRoot p (.ok stats) q) :
    ending = none ∧ ∃ ws, (workers ≤ 1 → ws = Write.inOrder bs.flatten) ∧
      Finished (vectorLiteral ∘ vector) (tables p.outside) bs.flatten pruneRoot ws stats
        (tables q.outside) := by
  cases h with
  | alone hw h =>
    obtain ⟨hending, hfinished⟩ := of_run hgives hbound hs ho he hw h
    exact ⟨hending, _, fun _ => rfl, hfinished⟩
  | @together hw ws h =>
    obtain ⟨hending, hfinished⟩ := h.ok ho he hgives hs
    exact ⟨hending, ws, fun hone => absurd hone (by omega), hfinished⟩

/-- However a run goes, one that fails has done nothing but write. -/
theorem Runs.written {e : RunError}
    (h : Runs o embed disk workers source pruneRoot p (.error e) q) :
    ∃ ws, (tables p.outside).Written (vectorLiteral ∘ vector) ws (tables q.outside) := by
  have hclock : tables (clocked o p).outside = tables p.outside := ho.clock _
  cases h with
  | alone hw h =>
    rw [run_eq, perform_bind_ok (perform_outside _ _), indexSource, if_pos hw] at h
    rcases hbatches : (indexBatches o embed disk (source.bound disk) source []).perform
      (clocked o p) with ⟨r, p₁⟩
    obtain ⟨ws, hws⟩ := indexBatches_written ho he _ (hclock.symm ▸ hs) hbatches
    rw [hclock] at hws
    have hsource := perform_always hbatches (perform_leave .sourceClosed p₁)
    cases r with
    | error e' =>
      obtain ⟨-, rfl⟩ := Prod.mk.inj ((perform_bind_error hsource).symm.trans h)
      exact ⟨ws, hws⟩
    | ok ids =>
      rw [of_sweep_report_error ho ((perform_bind_ok hsource).symm.trans h)]
      exact ⟨ws, hws⟩
  | together hw h =>
    obtain ⟨hcourse, hover, hend⟩ := h
    rename_i ws s failure
    obtain ⟨taken, hsane⟩ := hcourse.sane ho he hgives (hclock.symm ▸ hs)
    have hws := hsane.behind
    rw [hclock] at hws
    cases failure with
    | some e' =>
      rw [conclude_error hover, perform_bind_ok (perform_leave _ _)] at hend
      obtain ⟨-, rfl⟩ := Prod.mk.inj hend
      exact ⟨ws, hws⟩
    | none =>
      rw [conclude_ok hover, perform_bind_ok (perform_leave _ _)] at hend
      rw [of_sweep_report_error ho hend]
      exact ⟨ws, hws⟩

end

end DocSearch.Index
