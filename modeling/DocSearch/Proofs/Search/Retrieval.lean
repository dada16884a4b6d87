import DocSearch.Proofs.Search.Handling
import DocSearch.Proofs.Store.Backing
import DocSearch.Tool.Call

/-!
# All rows or none

A stream of results that breaks off looks like a short one to whoever reads it, and only afterwards
it tells of the error. A retrieval reads the stream to its end and asks for the error.

**Reading.** While the results are read, the token is looked at before each row and before the end.
`drain_live` says how that goes, by induction on the rows: the connection is given back once, and
there is no error exactly if every row is a record, the rows end without a failure and no look found
the token tripped.

**`retrieval_complete_or_fails`** says the same of a retrieval for any client, of a search of the
tool, and that a prompt is answered from a complete retrieval only.
-/

namespace DocSearch.Search

open DocSearch.Action Store Text

variable {σ : Type} {o : Outside σ} {p q : Program σ}

/-! ## Connections in the trace -/

/-- Whether a deed takes a connection out of the pool or gives it back. -/
def loan? : Deed → Option Bool
  | .lent => some true
  | .returned => some false
  | _ => none

/-- What was done between two programs took no connection, or it took one and gave it back. -/
def Released (p q : Program σ) : Prop :=
  ∃ deeds, q.trace = p.trace ++ deeds ∧
    (deeds.filterMap loan? = [] ∨ deeds.filterMap loan? = [true, false])

theorem Released.behind {p q q' : Program σ} (h : Released p q) {deeds : List Deed}
    (htrace : q'.trace = q.trace ++ deeds) (hloans : deeds.filterMap loan? = []) :
    Released p q' := by
  obtain ⟨before, hbefore, hreleased⟩ := h
  refine ⟨before ++ deeds, by rw [htrace, hbefore, List.append_assoc], ?_⟩
  rwa [List.filterMap_append, hloans, List.append_nil]

/-- A client that embeds texts without the pool. -/
def Client.Poolless (c : Client σ) : Prop :=
  ∀ text p, ∃ deeds, ((c.embed text).perform p).2.trace = p.trace ++ deeds ∧
    deeds.filterMap loan? = []

/-- The model daemon embeds texts without the pool. -/
theorem poolless_daemonClient (o : Outside σ) (m : Daemon.Models) :
    (daemonClient o m).Poolless := by
  intro text p
  cases hlook : (o.look p.outside).1 with
  | some reason =>
    have hcheck : (checkToken o).perform p =
        (.error (.cancelled reason), { p with outside := (o.look p.outside).2 }) := by
      rw [checkToken, perform_bind_ok (perform_outside _ _), hlook]
      rfl
    have hfail : ((daemonClient o m).embed text).perform p =
        (.error (.cancelled reason), { p with outside := (o.look p.outside).2 }) :=
      perform_bind_error (perform_bind_error hcheck)
    exact ⟨[], by simp [hfail], rfl⟩
  | none =>
    have hcheck : (checkToken o).perform p =
        (.ok (), { p with outside := (o.look p.outside).2 }) := by
      rw [checkToken, perform_bind_ok (perform_outside _ _), hlook]
      rfl
    have hask : ((daemonClient o m).embed text).perform p = _ :=
      perform_bind_ok ((perform_bind_ok hcheck).trans
        ((perform_bind_ok (perform_leave _ _)).trans (perform_outside _ _)))
    rw [hask]
    refine ⟨[.asked (Daemon.embedRequest m.base m.embedding text)], ?_, rfl⟩
    cases Daemon.embedding _ _ <;> rfl

/-! ## Reading the results -/

/-- What the next looks at the token find. -/
def looks (o : Outside σ) : Nat → σ → List Trip
  | 0, _ => []
  | n + 1, s => (o.look s).1 :: looks o n (o.look s).2

theorem looks_eq_none (hlook : ∀ s, (o.look s).1 = none) (n : Nat) (s : σ) :
    ∀ trip ∈ looks o n s, trip = none := by
  induction n generalizing s with
  | zero => simp [looks]
  | succ n ih => exact List.forall_mem_cons.2 ⟨hlook s, ih _⟩

theorem perform_fetch (o : Outside σ) (r : Results) (p : Program σ) :
    (fetch o r).perform p =
      (.ok ((r.next (o.look p.outside).1).1, (r.next (o.look p.outside).1).2.1),
        ⟨(o.look p.outside).2, p.isOpen, p.trace ++ (r.next (o.look p.outside).1).2.2⟩) := by
  rw [fetch, perform_bind_ok (perform_outside _ _)]
  rcases r.next (o.look p.outside).1 with ⟨r', fetched, deeds⟩
  have hleaves := perform_leaves id deeds { p with outside := (o.look p.outside).2 }
  rw [List.map_id] at hleaves
  exact perform_bind_ok hleaves

theorem perform_finish (r : Results) (p : Program σ) :
    (finish r : Action σ Unit).perform p =
      (.ok (), { p with trace := p.trace ++ r.finish.2 }) := by
  have hleaves := perform_leaves id r.finish.2 p
  rw [List.map_id] at hleaves
  exact perform_bind_ok hleaves

/-- The results of an open cursor. -/
def reading (rows : List Row) (failure : Option String) : Results :=
  ⟨⟨rows, failure, false⟩, false, none⟩

theorem next_tripped (rows : List Row) (failure : Option String) (reason : String) :
    (reading rows failure).next (some reason) =
      (⟨⟨rows, failure, true⟩, true, some (.cancelled reason)⟩, .stop,
        [.cursorClosed, .returned]) := rfl

theorem next_at_end (failure : Option String) :
    (reading [] failure).next none =
      (⟨⟨[], failure, true⟩, true, failure.map fun message => .store (.rowUnread message)⟩, .stop,
        [.cursorClosed, .returned]) := by
  cases failure <;> rfl

theorem next_at_row (row : Row) (rows : List Row) (failure : Option String) :
    (reading (row :: rows) failure).next none = (reading rows failure, handedOut row, []) := by
  refine next_results_row ⟨rfl, rfl, rfl⟩ ?_
  simp only [reading, Cursor.next, handedOut]
  rfl

/-- Rows that are read to their end and hold these records, one each. -/
structure Intact (o : Outside σ) (rows : List Row) (failure : Option String) (s : σ)
    (records : List Record) : Prop where
  records : rows.map recordOfRow = records.map .ok
  failure : failure = none
  looks : ∀ trip ∈ looks o (rows.length + 1) s, trip = none

theorem intact_nil {failure : Option String} {s : σ} {records : List Record} :
    Intact o [] failure s records ↔ (o.look s).1 = none ∧ failure = none ∧ records = [] := by
  constructor
  · rintro ⟨hrecords, hfailure, hlooks⟩
    exact ⟨hlooks _ List.mem_cons_self, hfailure, List.map_eq_nil_iff.1 hrecords.symm⟩
  · rintro ⟨hlook, hfailure, rfl⟩
    exact ⟨rfl, hfailure, fun trip htrip => (List.mem_singleton.1 htrip).trans hlook⟩

theorem intact_cons {row : Row} {rows : List Row} {failure : Option String} {s : σ}
    {records : List Record} :
    Intact o (row :: rows) failure s records ↔
      (o.look s).1 = none ∧ ∃ record rest, recordOfRow row = .ok record ∧
        records = record :: rest ∧ Intact o rows failure (o.look s).2 rest := by
  constructor
  · rintro ⟨hrecords, hfailure, hlooks⟩
    obtain ⟨hlook, hrest⟩ := List.forall_mem_cons.1 hlooks
    cases records with
    | nil => cases hrecords
    | cons record rest =>
      obtain ⟨hrow, hrows⟩ := List.cons.inj hrecords
      exact ⟨hlook, record, rest, hrow, rfl, hrows, hfailure, hrest⟩
  · rintro ⟨hlook, record, rest, hrow, rfl, hrows, hfailure, hrest⟩
    exact ⟨by simp [hrow, hrows], hfailure, List.forall_mem_cons.2 ⟨hlook, hrest⟩⟩

/-- **Reading results.** However the results end, the connection is given back once; they are all
there exactly if nothing ended them early. -/
theorem drain_live (o : Outside σ) (rows : List Row) (failure : Option String)
    (records : List Record) (p : Program σ) :
    ∃ out err s, (drain o (rows.length + 1) (reading rows failure) records).perform p =
        (.ok (out, err), ⟨s, p.isOpen, p.trace ++ [.cursorClosed, .returned]⟩) ∧
      ∀ all, (err = none ∧ out = all) ↔
        ∃ rest, all = records ++ rest ∧ Intact o rows failure p.outside rest := by
  induction rows generalizing records p with
  | nil =>
    rw [List.length_nil, drain, perform_bind_ok (perform_fetch o _ p)]
    cases htrip : (o.look p.outside).1 with
    | some reason =>
      rw [next_tripped]
      refine ⟨records, some (.cancelled reason), _, rfl, fun all => ?_⟩
      simp [intact_nil, htrip]
    | none =>
      rw [next_at_end]
      refine ⟨records, failure.map fun message => .store (.rowUnread message), _, rfl,
        fun all => ?_⟩
      cases failure <;> simp [intact_nil, htrip, eq_comm]
  | cons row rows ih =>
    rw [List.length_cons, drain, perform_bind_ok (perform_fetch o _ p)]
    cases htrip : (o.look p.outside).1 with
    | some reason =>
      rw [next_tripped]
      refine ⟨records, some (.cancelled reason), _, rfl, fun all => ?_⟩
      simp [intact_cons, htrip]
    | none =>
      rw [next_at_row, handedOut]
      cases hrow : recordOfRow row with
      | error e =>
        -- The results go on after such a row, so they are ended from outside.
        refine ⟨records, some (.store (.notRecord e)), (o.look p.outside).2, ?_, fun all => ?_⟩
        · simp only [List.append_nil]
          rw [perform_bind_ok (perform_finish _ _)]
          rfl
        · simp [intact_cons, hrow]
      | ok record =>
        obtain ⟨out, err, s, hdrain, hall⟩ :=
          ih (records ++ [record]) ⟨(o.look p.outside).2, p.isOpen, p.trace ++ []⟩
        rw [List.append_nil] at hdrain
        refine ⟨out, err, s, ?_, fun all => (hall all).trans ?_⟩
        · simp only [List.append_nil]
          exact hdrain
        · simp only [intact_cons, htrip, hrow, true_and, Except.ok.injEq]
          constructor
          · rintro ⟨rest, rfl, hrest⟩
            exact ⟨record :: rest, by simp, record, rest, rfl, rfl, hrest⟩
          · rintro ⟨_, rfl, _, rest, rfl, rfl, hrest⟩
            exact ⟨rest, by simp, hrest⟩

/-! ## Starting a search -/

/-- A search that begins: the pool is open and lends a connection, and the database brings rows. -/
def Started (o : Outside σ) (v : List Float) (limit : Value) (p : Program σ) (script : Rows)
    (s : σ) : Prop :=
  p.isOpen = true ∧ ∃ s₁, o.lend p.outside = (none, s₁) ∧
    o.execute (.nearest (vectorLiteral v) limit) s₁ = (.brought script, s)

theorem perform_send (o : Outside σ) (statement : Statement) (p : Program σ) :
    (send o statement).perform p = (.ok (o.execute statement p.outside).1,
      ⟨(o.execute statement p.outside).2, p.isOpen, p.trace ++ [.executed statement]⟩) := rfl

/-- Over a connection that was lent, a vector with a literal is asked for, and where the query fails
the connection is given back. -/
theorem nearest_of_literal {vector : Value} {literal : String}
    (hliteral : literalOf vector = .ok literal) (limit : Value) {s : σ} (hopen : p.isOpen = true)
    (hlend : o.lend p.outside = (none, s)) :
    (nearest o vector limit).perform p =
      match o.execute (.nearest literal limit) s with
      | (.failed message, s') => (.error (.store (.queryFailed message)), ⟨s', p.isOpen,
          p.trace ++ [.lent, .executed (.nearest literal limit), .returned]⟩)
      | (.brought script, s') => (.ok (.ofRows script), ⟨s', p.isOpen,
          p.trace ++ [.lent, .executed (.nearest literal limit)]⟩) := by
  rw [nearest, perform_bind_ok (perform_requireOpen hopen), perform_bind_ok (perform_outside _ _),
    hlend, perform_bind_ok (perform_leave _ _), hliteral,
    perform_bind_ok (perform_ofExcept_ok _ _ _), perform_bind_ok (perform_send o _ _)]
  dsimp only
  rcases o.execute (.nearest literal limit) s with ⟨_ | script, s'⟩
  · dsimp only
    rw [perform_bind_ok (perform_leave _ _), perform_throw]
    simp
  · simp

/-- The numbers of an embedding always have a literal. -/
theorem nearest_lent (v : List Float) (limit : Value) {s : σ} (hopen : p.isOpen = true)
    (hlend : o.lend p.outside = (none, s)) :
    (nearest o (.list (v.map .float)) limit).perform p =
      match o.execute (.nearest (vectorLiteral v) limit) s with
      | (.failed message, s') => (.error (.store (.queryFailed message)), ⟨s', p.isOpen,
          p.trace ++ [.lent, .executed (.nearest (vectorLiteral v) limit), .returned]⟩)
      | (.brought script, s') => (.ok (.ofRows script), ⟨s', p.isOpen,
          p.trace ++ [.lent, .executed (.nearest (vectorLiteral v) limit)]⟩) :=
  nearest_of_literal (literalOf_floats v) limit hopen hlend

theorem nearest_started {v : List Float} {limit : Value} {script : Rows} {s : σ}
    (h : Started o v limit p script s) :
    (nearest o (.list (v.map .float)) limit).perform p = (.ok (.ofRows script),
      ⟨s, p.isOpen, p.trace ++ [.lent, .executed (.nearest (vectorLiteral v) limit)]⟩) := by
  obtain ⟨hopen, s₁, hlend, hexecute⟩ := h
  rw [nearest_lent v limit hopen hlend, hexecute]

theorem nearest_closed (vector limit : Value) (hopen : p.isOpen = false) :
    (nearest o vector limit).perform p = (.error (.store .notOpen), p) :=
  perform_bind_error (perform_requireOpen_closed hopen)

theorem nearest_unlent (vector limit : Value) {message : String} {s : σ} (hopen : p.isOpen = true)
    (hlend : o.lend p.outside = (some message, s)) :
    (nearest o vector limit).perform p =
      (.error (.store (.failed message)), { p with outside := s }) := by
  rw [nearest, perform_bind_ok (perform_requireOpen hopen), perform_bind_ok (perform_outside _ _),
    hlend]
  rfl

/-- A search that does not begin fails, and keeps no connection. -/
theorem nearest_cases (o : Outside σ) (v : List Float) (limit : Value) (p : Program σ) :
    (∃ script s, Started o v limit p script s) ∨
      ∃ e q, (nearest o (.list (v.map .float)) limit).perform p = (.error e, q) ∧
        Released p q := by
  cases hopen : p.isOpen with
  | false => exact .inr ⟨_, p, nearest_closed _ limit hopen, [], by simp, .inl rfl⟩
  | true =>
    rcases hlend : o.lend p.outside with ⟨_ | message, s⟩
    · have hnearest := nearest_lent v limit hopen hlend
      rcases hexecute : o.execute (.nearest (vectorLiteral v) limit) s with ⟨message | script, s'⟩
      · rw [hexecute] at hnearest
        exact .inr ⟨_, _, hnearest, _, rfl, .inr rfl⟩
      · exact .inl ⟨script, s', hopen, s, hlend, hexecute⟩
    · exact .inr ⟨_, _, nearest_unlent _ limit hopen hlend, [], by simp, .inl rfl⟩

/-! ## Retrieving -/

/-- A retrieval in which nothing fails: the query is embedded, the search begins, and its rows are
read to their end. -/
def Complete (o : Outside σ) (c : Client σ) (query : String) (limit : Value) (p : Program σ)
    (records : List Record) : Prop :=
  ∃ v q script s, (c.embed query).perform p = (.ok v, q) ∧ Started o v limit q script s ∧
    Intact o script.rows script.failure s records

theorem search_started {c : Client σ} {query : String} {limit : Value} {v : List Float}
    {script : Rows} {s : σ} (hv : (c.embed query).perform p = (.ok v, q))
    (h : Started o v limit q script s) :
    ∃ line, (c.search o query limit).perform p = (.ok (reading script.rows script.failure),
      ⟨s, q.isOpen, q.trace ++
        [.lent, .executed (.nearest (vectorLiteral v) limit), .logged line]⟩) := by
  rw [Client.search, perform_bind_ok hv, perform_bind_ok (nearest_started h),
    perform_bind_ok (perform_log _ _ _ _), perform_pure]
  simp only [List.append_assoc, List.cons_append, List.nil_append]
  exact ⟨_, rfl⟩

/-- **A search that begins** gives its connection back, and brings all rows or fails. -/
theorem retrieve_started {c : Client σ} {query : String} {limit : Value} {v : List Float}
    {script : Rows} {s : σ} (hv : (c.embed query).perform p = (.ok v, q))
    (h : Started o v limit q script s) :
    ∃ r q' line, (c.retrieve o query limit).perform p = (r, q') ∧
      q'.trace = q.trace ++ [.lent, .executed (.nearest (vectorLiteral v) limit), .logged line,
        .cursorClosed, .returned] ∧
      ∀ records, r = .ok records ↔ Intact o script.rows script.failure s records := by
  obtain ⟨line, hsearch⟩ := search_started hv h
  obtain ⟨out, err, s', hdrain, hall⟩ := drain_live o script.rows script.failure []
    ⟨s, q.isOpen, q.trace ++ [.lent, .executed (.nearest (vectorLiteral v) limit), .logged line]⟩
  simp only [List.nil_append, exists_eq_left'] at hall
  have hrows : (reading script.rows script.failure).cursor.rows = script.rows := rfl
  rw [Client.retrieve, perform_bind_ok hsearch, hrows, perform_bind_ok hdrain]
  cases err with
  | some e =>
    refine ⟨.error e, _, line, rfl, by simp, fun records => ?_⟩
    rw [← hall]
    simp
  | none =>
    refine ⟨.ok out, _, line, rfl, by simp, fun records => ?_⟩
    rw [← hall]
    simp

theorem Complete.retrieve {c : Client σ} {query : String} {limit : Value} {records : List Record}
    (h : Complete o c query limit p records) :
    ((c.retrieve o query limit).perform p).1 = .ok records := by
  obtain ⟨v, q, script, s, hembed, hstarted, hintact⟩ := h
  obtain ⟨r, q', line, hretrieve, -, hall⟩ := retrieve_started hembed hstarted
  rw [hretrieve]
  exact (hall records).2 hintact

/-- However a retrieval goes, it keeps no connection, and what it returns is complete. -/
theorem retrieve_cases (o : Outside σ) {c : Client σ} (hc : c.Poolless) (query : String)
    (limit : Value) (p : Program σ) :
    ∃ r q, (c.retrieve o query limit).perform p = (r, q) ∧ Released p q ∧
      ∀ records, r = .ok records → Complete o c query limit p records := by
  obtain ⟨deeds, htrace, hloans⟩ := hc query p
  rcases hembed : (c.embed query).perform p with ⟨e | v, q⟩ <;> rw [hembed] at htrace
  · have hfail : (c.retrieve o query limit).perform p = (.error e, q) :=
      perform_bind_error (perform_bind_error hembed)
    exact ⟨_, q, hfail, ⟨deeds, htrace, .inl hloans⟩, nofun⟩
  · rcases nearest_cases o v limit q with ⟨script, s, hstarted⟩ | ⟨e, q', hnearest, hreleased⟩
    · obtain ⟨r, q', line, hretrieve, htrace', hall⟩ := retrieve_started hembed hstarted
      refine ⟨r, q', hretrieve, ⟨_, by rw [htrace', htrace, List.append_assoc], .inr ?_⟩, ?_⟩
      · rw [List.filterMap_append, hloans]
        rfl
      · intro records hr
        exact ⟨v, q, script, s, hembed, hstarted, (hall records).1 hr⟩
    · have hfail : (c.retrieve o query limit).perform p = (.error e, q') := by
        refine perform_bind_error ?_
        rw [Client.search, perform_bind_ok hembed]
        exact perform_bind_error hnearest
      obtain ⟨others, htrace', hothers⟩ := hreleased
      refine ⟨_, q', hfail, ⟨deeds ++ others, ?_, ?_⟩, nofun⟩
      · rw [htrace', htrace, List.append_assoc]
      · simpa [hloans] using hothers

theorem retrieve_eq_ok_iff {c : Client σ} (hc : c.Poolless) {query : String} {limit : Value}
    {records : List Record} :
    ((c.retrieve o query limit).perform p).1 = .ok records ↔
      Complete o c query limit p records := by
  obtain ⟨r, q, hretrieve, -, hall⟩ := retrieve_cases o hc query limit p
  refine ⟨fun hr => hall records ?_, Complete.retrieve⟩
  rw [← hr, hretrieve]

/-- The search of the tool ends as the retrieval does. -/
theorem searchFor_outcome (o : Outside σ) (c : Client σ) (query : String) (limit : Value)
    (p : Program σ) :
    ((Tool.searchFor o c query limit).perform p).1 =
      ((c.retrieve o query limit).perform p).1 := by
  rcases hretrieve : (c.retrieve o query limit).perform p with ⟨e | records, q⟩
  · rw [Tool.searchFor, perform_bind_error hretrieve]
  · rw [Tool.searchFor, perform_bind_ok hretrieve]
    rfl

theorem released_searchFor (o : Outside σ) {c : Client σ} (hc : c.Poolless) (query : String)
    (limit : Value) (p : Program σ) :
    Released p ((Tool.searchFor o c query limit).perform p).2 := by
  obtain ⟨r, q, hretrieve, hreleased, -⟩ := retrieve_cases o hc query limit p
  cases r with
  | error e =>
    rw [Tool.searchFor, perform_bind_error hretrieve]
    exact hreleased
  | ok records =>
    rw [Tool.searchFor, perform_bind_ok hretrieve]
    exact hreleased.behind rfl rfl

/-- A prompt is answered from what was retrieved, or fails as the retrieval did. -/
theorem prompt_cases (o : Outside σ) {c : Client σ} (hc : c.Poolless) (query : String)
    (limit : Value) (stream : Bool) (p : Program σ) :
    (∃ e q, ((c.retrieve o query limit).perform p).1 = .error e ∧ Released p q ∧
      (c.prompt o query limit stream).perform p = (.error e, q)) ∨
    ∃ records q, ((c.retrieve o query limit).perform p).1 = .ok records ∧ Released p q ∧
      (c.prompt o query limit stream).perform p =
        (c.generate (Prompt.prompt query (Prompt.context records)) stream).perform q := by
  obtain ⟨r, q, hretrieve, hreleased, -⟩ := retrieve_cases o hc query limit p
  rw [Client.prompt, hretrieve]
  cases r with
  | error e => exact .inl ⟨e, q, rfl, hreleased, perform_bind_error hretrieve⟩
  | ok records =>
    rw [perform_bind_ok hretrieve, perform_bind_ok (perform_log _ _ _ _),
      perform_bind_ok (perform_leave _ _)]
    exact .inr ⟨records, _, rfl, (hreleased.behind rfl rfl).behind rfl rfl, rfl⟩

/-- **All rows or none.** A retrieval, and a search of the tool, returns all rows in order if
nothing failed and no look found the token tripped, and otherwise fails. In both cases no connection
is kept. A prompt is answered at most once, from a complete retrieval and over no connection. -/
theorem retrieval_complete_or_fails (o : Outside σ) {c : Client σ} (hc : c.Poolless)
    (query : String) (limit : Value) (p : Program σ) :
    (∀ search ∈ [c.retrieve o query limit, Tool.searchFor o c query limit],
      Released p (search.perform p).2 ∧
        ∀ records, (search.perform p).1 = .ok records ↔ Complete o c query limit p records) ∧
    ∀ stream,
      (∃ e q, (∀ records, ¬ Complete o c query limit p records) ∧ Released p q ∧
        (c.prompt o query limit stream).perform p = (.error e, q)) ∨
      ∃ records q, Complete o c query limit p records ∧ Released p q ∧
        (c.prompt o query limit stream).perform p =
          (c.generate (Prompt.prompt query (Prompt.context records)) stream).perform q := by
  constructor
  · obtain ⟨r, q, hretrieve, hreleased, -⟩ := retrieve_cases o hc query limit p
    simp only [List.forall_mem_cons, List.not_mem_nil, false_implies, implies_true, and_true,
      searchFor_outcome]
    exact ⟨⟨by rwa [hretrieve], fun records => retrieve_eq_ok_iff hc⟩,
      released_searchFor o hc query limit p, fun records => retrieve_eq_ok_iff hc⟩
  · intro stream
    obtain ⟨e, q, hfail, hreleased, hprompt⟩ | ⟨records, q, hok, hreleased, hprompt⟩ :=
      prompt_cases o hc query limit stream p
    · refine .inl ⟨e, q, fun records hcomplete => ?_, hreleased, hprompt⟩
      rw [hcomplete.retrieve] at hfail
      cases hfail
    · exact .inr ⟨records, q, (retrieve_eq_ok_iff hc).1 hok, hreleased, hprompt⟩

/-- Two rows, as the database brings them. -/
def twoRows : Rows :=
  ⟨[[.text "func Open()\n", .text "store", .text "open.go", .text "Open", .text "function"],
    [.text "func Close()\n", .text "store", .text "close.go", .text "Close", .text "function"]],
    none, -1⟩

/-- A world that brings these rows, and in which nobody trips the token. -/
def twoRowsWorld : Outside Unit where
  connect _ := (none, ())
  lend _ := (none, ())
  execute _ _ := (.brought twoRows, ())
  ask _ _ := (⟨.failed (.connection "nobody there"), fun _ _ => none⟩, ())
  look _ := (none, ())
  clock _ := (0, ())

/-- A client that answers a prompt with the prompt. -/
def echo : Client Unit :=
  ⟨fun _ => pure [1], fun prompt _ => pure ⟨prompt, .null, .null, .null⟩, .text "echo"⟩

/-- Both rows are returned, and the prompt is made of both. -/
theorem two_rows_retrieved :
    let p : Program Unit := ⟨(), true, []⟩
    let records : List Record := [⟨"func Open()\n", "store", "open.go", "Open", "function"⟩,
      ⟨"func Close()\n", "store", "close.go", "Close", "function"⟩]
    ((echo.retrieve twoRowsWorld "close it" (.int 2)).perform p).1 = .ok records ∧
      Released p ((Tool.searchFor twoRowsWorld echo "close it" (.int 2)).perform p).2 ∧
      ((echo.prompt twoRowsWorld "close it" (.int 2) false).perform p).1 =
        .ok ⟨Prompt.prompt "close it" (Prompt.context records), .null, .null, .null⟩ := by
  intro p records
  have hc : echo.Poolless := fun _ p => ⟨[], (List.append_nil p.trace).symm, rfl⟩
  obtain ⟨hsearches, hprompt⟩ := retrieval_complete_or_fails twoRowsWorld hc "close it" (.int 2) p
  have hcomplete : Complete twoRowsWorld echo "close it" (.int 2) p records :=
    ⟨[1], p, twoRows, (), rfl, ⟨rfl, (), rfl, rfl⟩, rfl, rfl, looks_eq_none (fun _ => rfl) _ _⟩
  obtain ⟨-, hretrieve⟩ := hsearches _ List.mem_cons_self
  obtain ⟨hreleased, -⟩ := hsearches _ (List.mem_cons_of_mem _ List.mem_cons_self)
  refine ⟨(hretrieve records).2 hcomplete, hreleased, ?_⟩
  obtain ⟨e, q, hnone, -⟩ | ⟨others, q, hothers, -, hanswer⟩ := hprompt false
  · exact absurd hcomplete (hnone records)
  · obtain rfl : others = records :=
      Except.ok.inj (hothers.retrieve.symm.trans hcomplete.retrieve)
    rw [hanswer]
    rfl

end DocSearch.Search
