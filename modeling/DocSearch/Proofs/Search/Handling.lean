import DocSearch.Search.Handling

/-!
# One connection for one search

**Theorem (`connection_returned_once`).** Whatever is done to the results of a search and to the
cursor under them, the connection is given back when the stream ends and never again; no row is
read after that.

Two inversion lemmas say what one handling does. While the cursor is open, `handle_open`: either the
next row is handed out and nothing else changes, or the stream ends here. Once it is closed,
`handle_closed`: the cursor stays as it is, nothing is done outside and nothing but the end is handed
out. `Accounts` is the invariant that ties the state of the results to what has happened so far; it
holds of results just opened, one handling keeps it, and so every sequence of handlings does.
-/

namespace DocSearch.Search

open Store

/-! ## What happened -/

/-- Whether the stream is over once this is handed out. -/
def isEnd : Fetched → Bool
  | .record _ => false
  | .stop => true
  | .failed e => Results.isEnding e

/-- What a row hands out: its record, or that it is none. -/
def handedOut (row : Row) : Fetched :=
  match recordOfRow row with
  | .ok r => .record r
  | .error e => .failed (.store (.notRecord e))

/-- The record with the values of a row of five columns. -/
def ofColumns : Row → Option Record
  | [data, package, filename, symbol, kind] =>
    some ⟨data.display, package.display, filename.display, symbol.display, kind.display⟩
  | _ => none

namespace Handled

/-- Whether this ends the stream: an end is handed out, or something else than a record is asked
for. -/
def ends (h : Handled) : Bool :=
  match h.answer with
  | .fetched f => isEnd f
  | .told _ | .done => true

/-- Whether this ends the stream of the results, which a cursor that ends below them does not. -/
def endsResults (h : Handled) : Bool := h.what.atResults && h.ends

/-- What a row handed out. -/
def taken (h : Handled) : Option Fetched :=
  match h.answer with
  | .fetched (.record r) => some (.record r)
  | .fetched (.failed (.store (.notRecord e))) => some (.failed (.store (.notRecord e)))
  | _ => none

end Handled

/-- The record that is handed out. -/
def recordIn : Fetched → Option Record
  | .record r => some r
  | _ => none

/-- The records that were delivered. -/
def records (log : List Handled) : List Record :=
  (log.filterMap Handled.taken).filterMap recordIn

/-- The error that ends the results when this is done to them while their cursor is open and there
is no row left, or a token tripped. -/
def Handling.blame (failure : Option String) : Handling → Option RunError
  | .results (.next (some reason)) => some (.cancelled reason)
  | .results (.next none) => failure.map fun message => .store (.rowUnread message)
  | _ => none

/-- What a closed cursor and the results over it answer. -/
def Handling.silence (error : Option RunError) : Handling → Answer
  | .results (.next _) | .cursor (.next _) => .fetched .stop
  | .error => .told error
  | _ => .done

/-! ## Rows -/

theorem recordOfRow_columns (data package filename symbol kind : Value) :
    recordOfRow [data, package, filename, symbol, kind] =
      .ok ⟨data.display, package.display, filename.display, symbol.display, kind.display⟩ :=
  rfl

theorem handedOut_of_length {row : Row} (h : row.length = 5) :
    ∃ r, ofColumns row = some r ∧ handedOut row = .record r := by
  match row, h with
  | [data, package, filename, symbol, kind], _ =>
    refine ⟨_, rfl, ?_⟩
    rw [handedOut, recordOfRow_columns]

theorem isEnd_handedOut (row : Row) : isEnd (handedOut row) = false := by
  unfold handedOut
  cases recordOfRow row <;> rfl

theorem taken_handedOut (what : Handling) (row : Row) (deeds : List Deed) :
    Handled.taken ⟨what, .fetched (handedOut row), deeds⟩ = some (handedOut row) := by
  unfold handedOut Handled.taken
  cases recordOfRow row <;> rfl

/-! ## One handling -/

/-- Results whose stream has not ended. -/
structure Results.Live (r : Results) : Prop where
  closed : r.cursor.closed = false
  finished : r.finished = false
  error : r.error = none

/-- The results whose stream this has ended. -/
def Results.over (r : Results) (h : Handling) : Results :=
  ⟨{ r.cursor with closed := true }, h.atResults, h.blame r.cursor.failure⟩

theorem close_open {c : Cursor} (h : c.closed = false) :
    c.close = ({ c with closed := true }, [.cursorClosed, .returned]) := by
  simp [Cursor.close, h]

theorem close_closed {c : Cursor} (h : c.closed = true) : c.close = (c, []) := by
  simp [Cursor.close, h]

theorem finish_live {r : Results} (hr : r.Live) :
    r.finish = (⟨{ r.cursor with closed := true }, true, none⟩, [.cursorClosed, .returned]) := by
  simp [Results.finish, hr.finished, close_open hr.closed, hr.error]

theorem finish_closed {r : Results} (hc : r.cursor.closed = true) :
    r.finish = ({ r with finished := true }, []) := by
  unfold Results.finish
  cases hf : r.finished with
  | true => simp [← hf]
  | false => simp [close_closed hc]

/-- Asked for a record, an open cursor hands out its next row or closes. -/
theorem next_open {c : Cursor} (hc : c.closed = false) (trip : Trip) :
    (∃ row rows, trip = none ∧ c.rows = row :: rows ∧
      c.next trip = ({ c with rows }, handedOut row, [])) ∨
    (∃ f, c.next trip = ({ c with closed := true }, f, [.cursorClosed, .returned]) ∧
      (f = .stop ∧ trip = none ∧ c.failure = none ∨
        ∃ e, f = .failed e ∧ Results.isEnding e = true ∧
          (Handling.results (.next trip)).blame c.failure = some e)) := by
  have hclose := close_open hc
  cases trip with
  | some reason =>
    refine .inr ⟨.failed (.cancelled reason), ?_, .inr ⟨_, rfl, rfl, rfl⟩⟩
    simp [Cursor.next, Cursor.closeWith, hc, hclose]
  | none =>
    cases hrows : c.rows with
    | cons row rows =>
      refine .inl ⟨row, rows, rfl, rfl, ?_⟩
      simp only [Cursor.next, hc, hrows, handedOut]
      rfl
    | nil =>
      refine .inr ?_
      cases hfailure : c.failure with
      | some message =>
        refine ⟨.failed (.store (.rowUnread message)), ?_, .inr ⟨_, rfl, rfl, rfl⟩⟩
        simp [Cursor.next, Cursor.closeWith, hc, hclose, hrows, hfailure]
      | none =>
        refine ⟨.stop, ?_, .inl ⟨rfl, rfl, rfl⟩⟩
        simp [Cursor.next, Cursor.closeWith, hc, hclose, hrows, hfailure]

/-- A row handed out is not an end, so the results hand it on. -/
theorem next_results_row {r : Results} (hr : r.Live) {trip : Trip} {c : Cursor} {row : Row}
    (h : r.cursor.next trip = (c, handedOut row, [])) :
    r.next trip = ({ r with cursor := c }, handedOut row, []) := by
  unfold handedOut at h ⊢
  simp only [Results.next, hr.finished, h]
  cases recordOfRow row <;> rfl

/-- While the stream lasts, the next row is handed out or the stream ends. -/
theorem handle_live {r : Results} (hr : r.Live) (h : Handling) :
    (∃ row rows, r.cursor.rows = row :: rows ∧
      r.handle h = ({ r with cursor := { r.cursor with rows } },
        ⟨h, .fetched (handedOut row), []⟩)) ∨
    (∃ answer, r.handle h = (r.over h, ⟨h, answer, [.cursorClosed, .returned]⟩) ∧
      Handled.ends ⟨h, answer, [.cursorClosed, .returned]⟩ = true) := by
  obtain ⟨hclosed, hfinished, herror⟩ := hr
  have hfinish := finish_live ⟨hclosed, hfinished, herror⟩
  have hclose := close_open hclosed
  match h with
  | .results (.next trip) =>
    obtain ⟨row, rows, rfl, hrows, hnext⟩ | ⟨f, hnext, hf⟩ := next_open hclosed trip
    · refine .inl ⟨row, rows, hrows, ?_⟩
      simp only [Results.handle, Use.onResults,
        next_results_row ⟨hclosed, hfinished, herror⟩ hnext]
    · refine .inr ⟨.fetched .stop, ?_, rfl⟩
      obtain ⟨rfl, rfl, hfailure⟩ | ⟨e, rfl, hending, hblame⟩ := hf
      · simp [Results.handle, Use.onResults, Results.next, Results.finish, Cursor.close, hnext,
          hfinished, herror, Results.over, Handling.atResults, Handling.blame, hfailure]
      · simp [Results.handle, Use.onResults, Results.next, Results.finish, Cursor.close, hnext,
          hfinished, Results.over, Handling.atResults, hblame, hending]
  | .cursor (.next trip) =>
    obtain ⟨row, rows, rfl, hrows, hnext⟩ | ⟨f, hnext, hf⟩ := next_open hclosed trip
    · refine .inl ⟨row, rows, hrows, ?_⟩
      simp only [Results.handle, Use.onCursor, hnext]
    · refine .inr ⟨.fetched f, ?_, ?_⟩
      · simp [Results.handle, Use.onCursor, hnext, Results.over, Handling.atResults,
          Handling.blame, hfinished, herror]
      · obtain ⟨rfl, -, -⟩ | ⟨e, rfl, hending, -⟩ := hf
        · rfl
        · exact hending
  | .error =>
    refine .inr ⟨.told none, ?_, rfl⟩
    simp only [Results.handle, hfinish]
    rfl
  | .results .close | .results .exit | .results .drop =>
    refine .inr ⟨.done, ?_, rfl⟩
    simp only [Results.handle, Use.onResults, hfinish]
    rfl
  | .cursor .close | .cursor .exit | .cursor .drop =>
    refine .inr ⟨.done, ?_, rfl⟩
    simp only [Results.handle, Use.onCursor, hclose, Results.over, Handling.atResults,
      Handling.blame, hfinished, herror]

theorem next_closed {c : Cursor} (hc : c.closed = true) (trip : Trip) :
    c.next trip = (c, .stop, []) := by
  simp [Cursor.next, hc]

theorem next_results_closed {r : Results} (hc : r.cursor.closed = true) (trip : Trip) :
    r.next trip = ({ r with finished := true }, .stop, []) := by
  unfold Results.next
  cases hf : r.finished with
  | true => simp [← hf]
  | false => simp [next_closed hc, Results.finish, close_closed hc]

/-- Once the cursor is closed, nothing but the end is handed out. -/
theorem handle_closed {r : Results} (hc : r.cursor.closed = true) (h : Handling) :
    r.handle h = ({ r with finished := r.finished || h.atResults },
      ⟨h, h.silence r.error, []⟩) := by
  match h with
  | .results (.next trip) =>
    simp [Results.handle, Use.onResults, next_results_closed hc, Handling.silence,
      Handling.atResults]
  | .error =>
    simp [Results.handle, finish_closed hc, Handling.silence, Handling.atResults]
  | .results .close | .results .exit | .results .drop =>
    simp [Results.handle, Use.onResults, finish_closed hc, Handling.silence,
      Handling.atResults]
  | .cursor (.next trip) =>
    simp [Results.handle, Use.onCursor, next_closed hc, Handling.silence, Handling.atResults]
  | .cursor .close | .cursor .exit | .cursor .drop =>
    simp [Results.handle, Use.onCursor, close_closed hc, Handling.silence, Handling.atResults]

/-! ## What the state tells about the past -/

theorem ends_of_endsResults {log : List Handled} (h : log.any Handled.endsResults = true) :
    log.any Handled.ends = true := by
  rw [List.any_eq_true] at h ⊢
  obtain ⟨g, hg, hends⟩ := h
  rw [Handled.endsResults, Bool.and_eq_true] at hends
  exact ⟨g, hg, hends.2⟩

theorem ends_silence (h : Handling) (error : Option RunError) (deeds : List Deed) :
    Handled.ends ⟨h, h.silence error, deeds⟩ = true := by
  match h with
  | .results (.next _) | .results .close | .results .exit | .results .drop => rfl
  | .cursor (.next _) | .cursor .close | .cursor .exit | .cursor .drop => rfl
  | .error => rfl

/-- What ends the stream is no row. -/
theorem taken_of_ends {g : Handled} (h : g.ends = true) : g.taken = none := by
  obtain ⟨what, answer, deeds⟩ := g
  match answer with
  | .told _ | .done | .fetched .stop => rfl
  | .fetched (.record r) => cases h
  | .fetched (.failed e) =>
    cases e with
    | store cause => cases cause <;> first | rfl | cases h
    | _ => rfl

/-- The state of results that were opened over `script`, against what happened since. -/
structure Accounts (script : Rows) (r : Results) (log : List Handled) : Prop where
  closed : r.cursor.closed = log.any Handled.ends
  finished : r.finished = log.any Handled.endsResults
  deeds : log.flatMap (·.deeds) =
    if log.any Handled.ends then [Deed.cursorClosed, Deed.returned] else []
  failure : r.cursor.failure = script.failure
  error : r.finished = false → r.error = none
  rows : ∃ k, r.cursor.rows = script.rows.drop k ∧
    log.filterMap Handled.taken = (script.rows.take k).map handedOut

theorem Accounts.opened (script : Rows) : Accounts script (.opened script) [] :=
  ⟨rfl, rfl, rfl, rfl, fun _ => rfl, 0, rfl, rfl⟩

theorem Accounts.live {script : Rows} {r : Results} {log : List Handled}
    (ha : Accounts script r log) (hc : r.cursor.closed = false) : r.Live := by
  have hf : r.finished = false := by
    rw [ha.finished, Bool.eq_false_iff]
    intro h
    rw [ha.closed, ends_of_endsResults h] at hc
    cases hc
  exact ⟨hc, hf, ha.error hf⟩

/-- One handling keeps the accounts. -/
theorem Accounts.handle {script : Rows} {r : Results} {log : List Handled}
    (ha : Accounts script r log) (h : Handling) :
    Accounts script (r.handle h).1 (log ++ [(r.handle h).2]) := by
  obtain ⟨k, hrows, htaken⟩ := ha.rows
  cases hc : r.cursor.closed with
  | true =>
    have hends : log.any Handled.ends = true := ha.closed ▸ hc
    rw [handle_closed hc]
    constructor
    case closed => simp [hc, hends]
    case finished => simp [ha.finished, Handled.endsResults, ends_silence]
    case deeds => simp [ha.deeds, hends]
    case failure => exact ha.failure
    case error =>
      intro hf
      exact ha.error (Bool.or_eq_false_iff.1 hf).1
    case rows =>
      refine ⟨k, hrows, ?_⟩
      simp [htaken, taken_of_ends (ends_silence h r.error [])]
  | false =>
    have hends : log.any Handled.ends = false := ha.closed ▸ hc
    have hlive := ha.live hc
    have hfinished : log.any Handled.endsResults = false := ha.finished ▸ hlive.finished
    obtain ⟨row, rows, hnext, hhandle⟩ | ⟨answer, hhandle, hanswer⟩ := handle_live hlive h
    · have hrow : Handled.ends ⟨h, .fetched (handedOut row), []⟩ = false := isEnd_handedOut row
      rw [hhandle]
      constructor
      case closed => simp only [List.any_append, List.any_cons, List.any_nil, hends, hrow, hc]; rfl
      case finished =>
        simp [hlive.finished, hfinished, Handled.endsResults, hrow]
      case deeds => simp [ha.deeds, hends, hrow]
      case failure => exact ha.failure
      case error => exact ha.error
      case rows =>
        have hlast : script.rows.drop k = row :: rows := hrows ▸ hnext
        refine ⟨k + 1, ?_, ?_⟩
        · rw [← List.tail_drop, hlast]
          rfl
        · have hk : script.rows[k]? = some row := by
            rw [← List.head?_drop, hlast]
            rfl
          simp [htaken, taken_handedOut, List.take_add_one, hk]
    · rw [hhandle]
      constructor
      case closed => simp [Results.over, hanswer]
      case finished => simp [Results.over, hfinished, Handled.endsResults, hanswer]
      case deeds => simp [ha.deeds, hends, hanswer]
      case failure => exact ha.failure
      case error =>
        intro hf
        match h with
        | .cursor _ => rfl
      case rows =>
        refine ⟨k, hrows, ?_⟩
        simp [htaken, taken_of_ends hanswer]

/-- All that is done keeps the accounts. -/
theorem Accounts.after {script : Rows} (hs : List Handling) :
    ∀ {r : Results} {log : List Handled}, Accounts script r log →
      Accounts script (r.after hs) (log ++ r.log hs) := by
  induction hs with
  | nil =>
    intro r log ha
    rw [Results.log, List.append_nil]
    exact ha
  | cons h hs ih =>
    intro r log ha
    have := ih (ha.handle h)
    rwa [List.append_assoc, List.singleton_append] at this

theorem accounts_after (script : Rows) (hs : List Handling) :
    Accounts script ((Results.opened script).after hs) ((Results.opened script).log hs) :=
  (Accounts.opened script).after hs

/-! ## After the end -/

/-- Over a closed cursor nothing is read or given back, and the error stays. -/
theorem after_closed (hs : List Handling) : ∀ {r : Results}, r.cursor.closed = true →
    (r.after hs).cursor = r.cursor ∧ (r.after hs).error = r.error ∧
      r.log hs = hs.map fun h => ⟨h, h.silence r.error, []⟩ := by
  induction hs with
  | nil => intro r _; exact ⟨rfl, rfl, rfl⟩
  | cons h hs ih =>
    intro r hc
    have hstep := handle_closed hc h
    have hc' : (r.handle h).1.cursor.closed = true := by rw [hstep]; exact hc
    obtain ⟨hcursor, herror, hlog⟩ := ih hc'
    rw [hstep] at hcursor herror hlog
    simp only [Results.after, Results.log, List.map_cons, hstep]
    exact ⟨hcursor, herror, congrArg _ hlog⟩

theorem silence_quiet {h : Handling} {error : Option RunError} {f : Fetched}
    (hf : h.silence error = .fetched f) : f = .stop := by
  match h with
  | .results (.next _) | .cursor (.next _) => cases hf; rfl
  | .results .close | .results .exit | .results .drop | .error => cases hf
  | .cursor .close | .cursor .exit | .cursor .drop => cases hf

/-- Results that have ended do not depend on what is left of their rows. -/
theorem log_closed_irrelevant {r : Results} (hc : r.cursor.closed = true) (rows : List Row)
    (failure : Option String) (hs : List Handling) :
    (⟨⟨rows, failure, r.cursor.closed⟩, r.finished, r.error⟩ : Results).log hs = r.log hs := by
  let other : Results := ⟨⟨rows, failure, r.cursor.closed⟩, r.finished, r.error⟩
  have hother : other.cursor.closed = true := hc
  exact (after_closed hs hother).2.2.trans (after_closed hs hc).2.2.symm

/-! ## The error that ended the results -/

/-- The error that ends the results of `script` when, after `before`, this ends them. -/
def cause (script : Rows) (before : List Handled) (h : Handling) : Option RunError :=
  if before.any Handled.ends then none else h.blame script.failure

/-- The results keep the cause of their end. -/
theorem Accounts.cause {script : Rows} {r : Results} {log : List Handled}
    (ha : Accounts script r log) (hbefore : log.any Handled.endsResults = false) {h : Handling}
    (hends : (r.handle h).2.endsResults = true) :
    (r.handle h).1.error = cause script log h := by
  cases hc : r.cursor.closed with
  | true =>
    have hlog : log.any Handled.ends = true := ha.closed ▸ hc
    rw [handle_closed hc, Search.cause, if_pos hlog]
    exact ha.error (ha.finished.trans hbefore)
  | false =>
    have hlog : log.any Handled.ends = false := ha.closed ▸ hc
    rw [Search.cause, if_neg (by rw [hlog]; exact Bool.false_ne_true), ← ha.failure]
    obtain ⟨row, rows, -, hhandle⟩ | ⟨answer, hhandle, -⟩ := handle_live (ha.live hc) h
    · rw [hhandle] at hends
      have : isEnd (handedOut row) = true := (Bool.and_eq_true_iff.1 hends).2
      rw [isEnd_handedOut] at this
      cases this
    · rw [hhandle]
      rfl

/-- Whoever asks the results for their error is told the cause of their end. -/
theorem Accounts.told {script : Rows} {r : Results} {log : List Handled}
    (ha : Accounts script r log) (hbefore : log.any Handled.endsResults = false) {h : Handling}
    (hends : (r.handle h).2.endsResults = true) (hs : List Handling) {g : Handled}
    (hg : g ∈ r.log (h :: hs)) (hwhat : g.what = .error) :
    g.answer = .told (Search.cause script log h) := by
  have herror := ha.cause hbefore hends
  have hclosed : (r.handle h).1.cursor.closed = true := by
    rw [(ha.handle h).closed]
    refine ends_of_endsResults ?_
    simp [hends]
  rw [Results.log, List.mem_cons, (after_closed hs hclosed).2.2, List.mem_map] at hg
  obtain rfl | ⟨h', -, rfl⟩ := hg
  · obtain rfl : h = .error := hwhat
    rw [← herror]
    rfl
  · obtain rfl : h' = .error := hwhat
    rw [← herror]
    rfl

/-! ## Main result -/

/-- Rows of five columns hand out their records. -/
theorem map_some_records {rows : List Row} (hrows : ∀ row ∈ rows, row.length = 5) :
    ((rows.map handedOut).filterMap recordIn).map some = rows.map ofColumns := by
  induction rows with
  | nil => rfl
  | cons row rows ih =>
    obtain ⟨r, hcolumns, hhanded⟩ := handedOut_of_length (hrows row List.mem_cons_self)
    have htail := ih fun row h => hrows row (List.mem_cons_of_mem _ h)
    have hhead : recordIn (handedOut row) = some r := by rw [hhanded]; rfl
    rw [List.map_cons, List.map_cons, List.filterMap_cons_some hhead, List.map_cons, htail,
      hcolumns]

/-- **The connection goes back once, when the stream ends.** The rows that were handed out are the
first ones of the script, in order; after the end no row is read, and only the end is handed out;
and the results tell the error that ended them, if it was one. -/
theorem connection_returned_once (script : Rows) (hs : List Handling) :
    let log := (Results.opened script).log hs
    let r := (Results.opened script).after hs
    log.flatMap (·.deeds) =
      (if log.any Handled.ends then [Deed.cursorClosed, Deed.returned] else []) ∧
    (∃ k, r.cursor.rows = script.rows.drop k ∧
      log.filterMap Handled.taken = (script.rows.take k).map handedOut ∧
      ((∀ row ∈ script.rows, row.length = 5) →
        (records log).map some = (script.rows.take k).map ofColumns)) ∧
    (log.any Handled.ends = true → ∀ more,
      (r.after more).cursor = r.cursor ∧
      (∀ rows failure, (⟨⟨rows, failure, r.cursor.closed⟩, r.finished, r.error⟩ : Results).log more =
        r.log more) ∧
      ∀ g ∈ r.log more, g.deeds = [] ∧ ∀ f, g.answer = .fetched f → f = .stop) ∧
    ∀ before h after, hs = before ++ h :: after →
      let earlier := (Results.opened script).log before
      let now := (Results.opened script).after before
      earlier.any Handled.endsResults = false → (now.handle h).2.endsResults = true →
      ∀ g ∈ now.log (h :: after), g.what = .error → g.answer = .told (cause script earlier h) := by
  have ha := accounts_after script hs
  obtain ⟨k, hrows, htaken⟩ := ha.rows
  refine ⟨ha.deeds, ⟨k, hrows, htaken, fun hfive => ?_⟩, fun hends more => ?_, ?_⟩
  · rw [records, htaken]
    exact map_some_records fun row hrow => hfive row (List.mem_of_mem_take hrow)
  · have hclosed := ha.closed.trans hends
    obtain ⟨hcursor, -, hlog⟩ := after_closed more hclosed
    refine ⟨hcursor, fun rows failure => log_closed_irrelevant hclosed rows failure more, ?_⟩
    intro g hg
    rw [hlog, List.mem_map] at hg
    obtain ⟨h, -, rfl⟩ := hg
    exact ⟨rfl, fun f hf => silence_quiet hf⟩
  · rintro before h after - earlier now hbefore hends g hg hwhat
    exact (accounts_after script before).told hbefore hends after hg hwhat

/-- A connection that breaks after one row: the results tell it, also once they are closed and
dropped and their cursor is closed once more. -/
example :
    let script : Rows := ⟨[[.text "d", .text "p", .text "f", .text "s", .text "k"]], some "reset", -1⟩
    let uses : List Handling := [.results (.next none), .results (.next none), .results .close,
      .cursor .close, .results .drop]
    ((Results.opened script).log uses).flatMap (·.deeds) = [.cursorClosed, .returned] ∧
      records ((Results.opened script).log uses) = [⟨"d", "p", "f", "s", "k"⟩] ∧
      (((Results.opened script).after uses).handle .error).2.answer =
        .told (some (.store (.rowUnread "reset"))) :=
  ⟨rfl, rfl, rfl⟩

end DocSearch.Search
