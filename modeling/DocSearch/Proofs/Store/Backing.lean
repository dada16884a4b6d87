import DocSearch.Proofs.Action
import DocSearch.Proofs.Store.Writing

/-!
# Worlds whose database is made of tables

The program reaches its database through a world of any kind. Here the database is made of tables: a
writing statement is either carried out, with an effect that it may have on tables, or refused, and
then the tables stay as they are (`Backed`). In a reliable world every statement is carried out that
can be (`Reliable`).

**Ids are the database's own affair.** All that is known of the id of a new row is that no row has it
(`Tables.Stores`). A counter behind the ids may skip numbers whenever it likes, as a sequence does
that is advanced by a statement which then updates a row or fails.

**`Leads`** says how an action ends and which tables it leaves; each writing operation of the store
has one lemma for the statement that is carried out and one for the statement that is refused.
-/

namespace DocSearch.Store

open DocSearch.Action

variable {σ α β : Type}

/-! ## Worlds -/

/-- Whether a statement changes the rows of a table. -/
def Statement.writes : Statement → Bool
  | .upsertChunk _ | .upsertVector _ _ | .prune _ _ _ => true
  | _ => false

/-- What a writing statement may bring from the tables `t`, and the tables that it may leave. -/
inductive Tables.Effect (t : Tables) : Statement → Rows → Tables → Prop
  | row {r : Record} {id : Int} {rows : Rows} {u : Tables} (h : t.Stores r id u)
      (hrows : rows.first = .ok (some [.int id])) : Effect t (.upsertChunk r) rows u
  | vector {id : Int} {literal : String} {rows : Rows} {u : Tables}
      (h : t.upsertVector id literal = some u) : Effect t (.upsertVector id literal) rows u
  | prune {root pattern : String} {keep : List Int} {rows : Rows}
      (hrows : rows.count = (t.prune root pattern keep).1) :
      Effect t (.prune root pattern keep) rows (t.prune root pattern keep).2

/-- A statement is carried out. -/
def Carried (o : Outside σ) (tables : σ → Tables) (s : Statement) (w : σ) : Prop :=
  ∃ rows, (o.execute s w).1 = .brought rows ∧
    (tables w).Effect s rows (tables (o.execute s w).2)

/-- A statement fails and has no effect on the tables. -/
def Refused (o : Outside σ) (tables : σ → Tables) (s : Statement) (w : σ) : Prop :=
  (∃ message, (o.execute s w).1 = .failed message) ∧ tables (o.execute s w).2 = tables w

/-- A world whose database is made of tables that nothing but statements changes. -/
structure Backed (o : Outside σ) (tables : σ → Tables) : Prop where
  write : ∀ s w, s.writes = true → Carried o tables s w ∨ Refused o tables s w
  look : ∀ w, tables (o.look w).2 = tables w
  clock : ∀ w, tables (o.clock w).2 = tables w

/-- Such a world that carries out every statement that can be carried out. -/
structure Reliable (o : Outside σ) (tables : σ → Tables) : Prop extends Backed o tables where
  carries : ∀ s w, (∃ rows u, (tables w).Effect s rows u) → Carried o tables s w

namespace Reliable

variable {o : Outside σ} {tables : σ → Tables}

theorem row (ho : Reliable o tables) (r : Record) (w : σ) : Carried o tables (.upsertChunk r) w := by
  have hstore := Tables.stores_serial ⟨tables w, 0⟩ r
  exact ho.carries _ _ ⟨{ rows := [[.int _]] }, _, .row hstore rfl⟩

theorem vector (ho : Reliable o tables) {w : σ} {id : Int}
    (hid : ∃ c ∈ (tables w).chunks, c.1 = id) (literal : String) :
    Carried o tables (.upsertVector id literal) w :=
  ho.carries _ _ ⟨{}, _, .vector (Tables.upsertVector_eq_some_iff.2 ⟨hid, rfl⟩)⟩

theorem prune (ho : Reliable o tables) (root pattern : String) (keep : List Int) (w : σ) :
    Carried o tables (.prune root pattern keep) w :=
  ho.carries _ _ ⟨{ count := _ }, _, .prune rfl⟩

end Reliable

/-- A world that is nothing but its tables; nobody answers there, and time stands still. -/
def tablesWorld : Outside SerialTables where
  connect t := (none, t)
  lend t := (none, t)
  execute s t := t.execute s
  ask _ t := (⟨.failed (.connection "nobody there"), fun _ _ => none⟩, t)
  look t := (none, t)
  clock t := (0, t)

/-- The tables of this world, without their counter. -/
abbrev stored : SerialTables → Tables := SerialTables.toTables

theorem carried_row (r : Record) (t : SerialTables) :
    Carried tablesWorld stored (.upsertChunk r) t :=
  ⟨_, rfl, .row (Tables.stores_serial t r) rfl⟩

theorem carried_prune (root pattern : String) (keep : List Int) (t : SerialTables) :
    Carried tablesWorld stored (.prune root pattern keep) t := ⟨_, rfl, .prune rfl⟩

theorem carried_vector {t : SerialTables} {id : Int} {literal : String} {u : Tables}
    (h : t.upsertVector id literal = some u) :
    Carried tablesWorld stored (.upsertVector id literal) t := by
  have hexec : tablesWorld.execute (.upsertVector id literal) t = (.brought {}, ⟨u, t.nextId⟩) := by
    simp only [tablesWorld, SerialTables.execute, h]
  exact ⟨{}, by rw [hexec], by rw [hexec]; exact .vector h⟩

theorem refused_vector {t : SerialTables} {id : Int} {literal : String}
    (h : t.upsertVector id literal = none) :
    Refused tablesWorld stored (.upsertVector id literal) t := by
  simp [Refused, tablesWorld, SerialTables.execute, h]

theorem reliable_tablesWorld : Reliable tablesWorld stored where
  write s t hs := by
    cases s with
    | upsertChunk r => exact .inl (carried_row r t)
    | upsertVector id literal =>
      cases h : t.upsertVector id literal with
      | none => exact .inr (refused_vector h)
      | some u => exact .inl (carried_vector h)
    | prune root pattern keep => exact .inl (carried_prune root pattern keep t)
    | _ => cases hs
  look _ := rfl
  clock _ := rfl
  carries := by
    rintro s t ⟨rows, u, h⟩
    cases h with
    | row => exact carried_row _ t
    | vector h => exact carried_vector h
    | prune => exact carried_prune _ _ _ t

/-- The same world with a sequence for its ids: a row that is to be stored uses up a number, also
where its identity has an id already. -/
def sequenceWorld : Outside SerialTables where
  __ := tablesWorld
  execute s t := ((t.execute s).1,
    match s with
    | .upsertChunk _ => { (t.execute s).2 with nextId := t.newId + 1 }
    | _ => (t.execute s).2)

theorem reliable_sequenceWorld : Reliable sequenceWorld stored where
  write s t hs := by
    have h := reliable_tablesWorld.write s t hs
    cases s <;> exact h
  look _ := rfl
  clock _ := rfl
  carries s t ht := by
    have h := reliable_tablesWorld.carries s t ht
    cases s <;> exact h

/-- A function of a small program, with the given documentation. -/
def openChunk (doc : String) : Chunk := .mk "function" "Open" doc "store" "store/open.go" []

/-- Another function of the program. -/
def closeChunk : Chunk := .mk "function" "Close" "closes" "store" "store/close.go" []

/-- Tables that hold the first function with its documentation `doc` and a vector. -/
def openTables (doc literal : String) : SerialTables :=
  ⟨⟨[(7, chunkRow (openChunk doc))], [(7, literal)], none⟩, 8⟩

theorem sound_openTables (doc literal : String) : (openTables doc literal).Sound := by
  constructor <;> simp [openTables]

/-! ## Where actions lead -/

/-- From `p`, an action ends in `r` and leaves the tables `t`, and the pool as it was. -/
def Leads (tables : σ → Tables) (a : Action σ α) (p : Program σ) (r : Except RunError α)
    (t : Tables) : Prop :=
  ∃ q, a.perform p = (r, q) ∧ q.isOpen = p.isOpen ∧ tables q.outside = t

section

variable {tables : σ → Tables} {p : Program σ}

theorem leads_behind {a : Action σ α} {f : α → Action σ β} {v : α} {q : Program σ} {t : Tables}
    {r : Except RunError β} (ha : a.perform p = (.ok v, q)) (hopen : q.isOpen = p.isOpen)
    (hf : Leads tables (f v) q r t) : Leads tables (a >>= f) p r t := by
  obtain ⟨q', hq', hopen', ht⟩ := hf
  exact ⟨q', by rw [perform_bind_ok ha, hq'], hopen'.trans hopen, ht⟩

theorem Leads.bind {a : Action σ α} {f : α → Action σ β} {v : α} {t t' : Tables}
    {r : Except RunError β} (ha : Leads tables a p (.ok v) t)
    (hf : ∀ q, q.isOpen = p.isOpen → tables q.outside = t → Leads tables (f v) q r t') :
    Leads tables (a >>= f) p r t' := by
  obtain ⟨q, hq, hopen, ht⟩ := ha
  exact leads_behind hq hopen (hf q hopen ht)

theorem Leads.bind_error {a : Action σ α} {f : α → Action σ β} {e : RunError} {t : Tables}
    (ha : Leads tables a p (.error e) t) : Leads tables (a >>= f) p (.error e) t := by
  obtain ⟨q, hq, hopen, ht⟩ := ha
  exact ⟨q, perform_bind_error hq, hopen, ht⟩

variable {t : Tables} (ht : tables p.outside = t)

include ht

theorem leads_pure (v : α) : Leads tables (pure v : Action σ α) p (.ok v) t := ⟨p, rfl, rfl, ht⟩

theorem leads_throw (e : RunError) : Leads tables (throw e : Action σ α) p (.error e) t :=
  ⟨p, rfl, rfl, ht⟩

theorem leads_log (level : LogLevel) (logger message : String) :
    Leads tables (log level logger message : Action σ Unit) p (.ok ()) t :=
  ⟨_, rfl, rfl, ht⟩

end

/-! ## Statements -/

section

variable {o : Outside σ} {tables : σ → Tables} {s : Statement} {p : Program σ}

theorem leads_send : Leads tables (send o s) p (.ok (o.execute s p.outside).1)
    (tables (o.execute s p.outside).2) := ⟨_, rfl, rfl, rfl⟩

theorem execute_carried (h : Carried o tables s p.outside) :
    ∃ rows u, (tables p.outside).Effect s rows u ∧ Leads tables (execute o s) p (.ok rows) u := by
  obtain ⟨rows, hanswer, heffect⟩ := h
  refine ⟨rows, _, heffect, leads_send.bind fun q _ ht => ?_⟩
  rw [hanswer]
  exact leads_pure ht rows

theorem execute_refused (h : Refused o tables s p.outside) :
    ∃ e, Leads tables (execute o s) p (.error e) (tables p.outside) := by
  obtain ⟨⟨message, hanswer⟩, heffect⟩ := h
  refine ⟨.store (.failed message), leads_send.bind fun q _ ht => ?_⟩
  rw [hanswer]
  exact leads_throw (ht.trans heffect) _

theorem perform_requireOpen (hopen : p.isOpen = true) :
    (requireOpen : Action σ Unit).perform p = (.ok (), p) := by
  rw [requireOpen, perform_bind_ok (perform_get p), hopen]
  rfl

theorem perform_requireOpen_closed (hopen : p.isOpen = false) :
    (requireOpen : Action σ Unit).perform p = (.error (.store .notOpen), p) := by
  rw [requireOpen, perform_bind_ok (perform_get p), hopen]
  rfl

/-! ## Operations -/

/-- An operation that begins by asking for an open pool fails in any case if its statement does. -/
theorem leads_error_of_requireOpen {f : Unit → Action σ α}
    (h : p.isOpen = true → ∃ e, Leads tables (f ()) p (.error e) (tables p.outside)) :
    ∃ e, Leads tables (requireOpen >>= f) p (.error e) (tables p.outside) := by
  cases hopen : p.isOpen with
  | true =>
    obtain ⟨e, he⟩ := h hopen
    exact ⟨e, leads_behind (perform_requireOpen hopen) rfl he⟩
  | false => exact ⟨_, .bind_error ⟨p, perform_requireOpen_closed hopen, rfl, rfl⟩⟩

theorem upsertChunk_carried {c : Chunk} (hopen : p.isOpen = true)
    (h : Carried o tables (.upsertChunk (chunkRow c)) p.outside) :
    ∃ id u, (tables p.outside).Stores (chunkRow c) id u ∧
      Leads tables (upsertChunk o c) p (.ok id) u := by
  obtain ⟨rows, u, heffect, hsent⟩ := execute_carried h
  cases heffect with
  | @row _ id _ _ hstore hrows =>
    have hrow : Leads tables (executeFirst o (.upsertChunk (chunkRow c))) p
        (.ok (some [.int id])) u := hsent.bind fun q _ ht => by rw [hrows]; exact leads_pure ht _
    refine ⟨id, u, hstore, leads_behind (perform_requireOpen hopen) rfl ?_⟩
    exact hrow.bind fun q _ ht => leads_pure ht id

theorem upsertChunk_refused {c : Chunk}
    (h : Refused o tables (.upsertChunk (chunkRow c)) p.outside) :
    ∃ e, Leads tables (upsertChunk o c) p (.error e) (tables p.outside) := by
  obtain ⟨e, he⟩ := execute_refused h
  exact leads_error_of_requireOpen fun _ => ⟨e, .bind_error (.bind_error he)⟩

/-- A row is stored, or nothing happens. -/
theorem upsertChunk_ends (ho : Backed o tables) (c : Chunk) :
    p.isOpen = true ∧ (∃ id u, (tables p.outside).Stores (chunkRow c) id u ∧
        Leads tables (upsertChunk o c) p (.ok id) u) ∨
      ∃ e, Leads tables (upsertChunk o c) p (.error e) (tables p.outside) := by
  cases hopen : p.isOpen with
  | false => exact .inr (leads_error_of_requireOpen fun h => by simp [hopen] at h)
  | true =>
    rcases ho.write (.upsertChunk (chunkRow c)) p.outside rfl with h | h
    · exact .inl ⟨rfl, upsertChunk_carried hopen h⟩
    · exact .inr (upsertChunk_refused h)

theorem vectorOf_floats (v : List Float) : vectorOf (.list (v.map .float)) = .ok v := by
  show (v.map Value.float).mapM Value.toFloat = .ok v
  induction v with
  | nil => rfl
  | cons f v ih =>
    rw [List.map_cons, List.mapM_cons, ih]
    rfl

theorem literalOf_floats (v : List Float) :
    literalOf (.list (v.map .float)) = .ok (vectorLiteral v) := by
  rw [literalOf, vectorOf_floats]
  rfl

theorem perform_literalOf (v : List Float) :
    (ofExcept .store (literalOf (.list (v.map .float))) : Action σ String).perform p =
      (.ok (vectorLiteral v), p) := by
  rw [literalOf_floats]
  rfl

theorem upsertVector_carried {id : Int} {v : List Float} (hopen : p.isOpen = true)
    (h : Carried o tables (.upsertVector id (vectorLiteral v)) p.outside) :
    (∃ c ∈ (tables p.outside).chunks, c.1 = id) ∧
      Leads tables (upsertVector o id (.list (v.map .float))) p (.ok ())
        ((tables p.outside).setVector id (vectorLiteral v)) := by
  obtain ⟨rows, u, heffect, hsent⟩ := execute_carried h
  cases heffect with
  | vector hu =>
    obtain ⟨hid, rfl⟩ := Tables.upsertVector_eq_some_iff.1 hu
    refine ⟨hid, leads_behind (perform_requireOpen hopen) rfl ?_⟩
    exact leads_behind (perform_literalOf v) rfl (hsent.bind fun q _ ht => leads_pure ht ())

theorem upsertVector_refused {id : Int} {v : List Float}
    (h : Refused o tables (.upsertVector id (vectorLiteral v)) p.outside) :
    ∃ e, Leads tables (upsertVector o id (.list (v.map .float))) p (.error e)
      (tables p.outside) := by
  obtain ⟨e, he⟩ := execute_refused h
  have hsent : Leads tables (discard (execute o (.upsertVector id (vectorLiteral v)))) p (.error e)
      (tables p.outside) := .bind_error he
  exact leads_error_of_requireOpen fun _ => ⟨e, leads_behind (perform_literalOf v) rfl hsent⟩

/-- A vector is stored for a row that is there, or nothing happens. -/
theorem upsertVector_ends (ho : Backed o tables) (id : Int) (v : List Float) :
    (∃ c ∈ (tables p.outside).chunks, c.1 = id) ∧
        Leads tables (upsertVector o id (.list (v.map .float))) p (.ok ())
          ((tables p.outside).setVector id (vectorLiteral v)) ∨
      ∃ e, Leads tables (upsertVector o id (.list (v.map .float))) p (.error e)
        (tables p.outside) := by
  cases hopen : p.isOpen with
  | false => exact .inr (leads_error_of_requireOpen fun h => by simp [hopen] at h)
  | true =>
    rcases ho.write (.upsertVector id (vectorLiteral v)) p.outside rfl with h | h
    · exact .inl (upsertVector_carried hopen h)
    · exact .inr (upsertVector_refused h)

theorem prune_carried {root : String} {ids : List Int} (hopen : p.isOpen = true)
    (h : Carried o tables (.prune root (patternBelow root) (sortedIds ids)) p.outside) :
    Leads tables (prune o root ids) p
      (.ok ((tables p.outside).prune root (patternBelow root) (sortedIds ids)).1)
      ((tables p.outside).prune root (patternBelow root) (sortedIds ids)).2 := by
  obtain ⟨rows, u, heffect, hsent⟩ := execute_carried h
  cases heffect with
  | prune hrows =>
    rw [← hrows]
    refine leads_behind (perform_requireOpen hopen) rfl (hsent.bind fun q _ ht => ?_)
    exact (leads_log ht _ _ _).bind fun q _ ht => leads_pure ht _

theorem prune_refused {root : String} {ids : List Int}
    (h : Refused o tables (.prune root (patternBelow root) (sortedIds ids)) p.outside) :
    ∃ e, Leads tables (prune o root ids) p (.error e) (tables p.outside) := by
  obtain ⟨e, he⟩ := execute_refused h
  exact leads_error_of_requireOpen fun _ => ⟨e, .bind_error he⟩

end

end DocSearch.Store
