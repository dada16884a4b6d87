import DocSearch.Proofs.Search.Retrieval

/-!
# Connections on loan

A search takes a connection out of the pool. Its cursor gives the connection back when it ends, and
where the query fails the search itself gives it back. One failure lies in between: the vector is
turned into a literal when the connection is out already, and a vector that is no sequence of
numbers ends the search there. Such a search strands its connection (`strands`).

**One search.** `nearest_ends` goes through all the ways in which a search can end. It settles its
loan, in each of them but that one (`Settled`).

**Many searches.** At a desk any number of cursors are used in turn, while more searches start and
the pool is closed and opened. `account_deal` says what one thing does to the connections that are
out, and by induction `account_after` says it of everything done.

**`connections_out_iff`**: the connections out are those of the open cursors and the stranded ones,
so they are those of the open cursors exactly if no search had a vector without a literal.
-/

namespace DocSearch.Search

open DocSearch.Action Store

variable {σ : Type} {o : Outside σ} {p : Program σ}

/-! ## Vectors without a literal -/

/-- Whether a value is a sequence of nothing but numbers. -/
def isVector (vector : Value) : Bool :=
  match vector.items with
  | .ok vs => vs.all fun v => v.toFloat.isOk
  | .error _ => false

/-- Whether a search takes a connection out and then finds that its vector has no literal. -/
def strands (o : Outside σ) (vector : Value) (p : Program σ) : Bool :=
  p.isOpen && (o.lend p.outside).1.isNone && !isVector vector

theorem isOk_mapM_toFloat (vs : List Value) :
    (vs.mapM Value.toFloat).isOk = vs.all fun v => v.toFloat.isOk := by
  induction vs with
  | nil => rfl
  | cons v vs ih =>
    rw [List.mapM_cons, List.all_cons, ← ih]
    cases v.toFloat with
    | error e => rfl
    | ok f => cases vs.mapM Value.toFloat <;> rfl

theorem isOk_literalOf (vector : Value) : (literalOf vector).isOk = isVector vector := by
  unfold literalOf vectorOf isVector
  cases vector.items with
  | error e => rfl
  | ok vs =>
    dsimp only
    rw [← isOk_mapM_toFloat]
    show (((vs.mapM Value.toFloat).map vectorLiteral).mapError _).isOk = _
    cases vs.mapM Value.toFloat <;> rfl

/-! ## Cursors -/

/-- What is left of a cursor after all of this is done to it, and what was done outside. -/
def uses (c : Cursor) : List Use → Cursor × List Deed
  | [] => (c, [])
  | u :: us => ((uses (u.onCursor c).1 us).1, (u.onCursor c).2.2 ++ (uses (u.onCursor c).1 us).2)

/-- A cursor that holds a connection: whatever is done to it, the connection goes back when it ends,
and never again. -/
def Holds (c : Cursor) : Prop :=
  ∀ us, (uses c us).2.filterMap loan? = if (uses c us).1.closed then [false] else []

/-- One use ends an open cursor, or it leaves things as they are. -/
theorem onCursor_cases (c : Cursor) (u : Use) :
    (c.closed = false ∧ (u.onCursor c).1.closed = true ∧
      (u.onCursor c).2.2 = [.cursorClosed, .returned]) ∨
    ((u.onCursor c).1.closed = c.closed ∧ (u.onCursor c).2.2 = []) := by
  cases hc : c.closed with
  | true =>
    refine .inr ?_
    match u with
    | .next trip => simp [Use.onCursor, next_closed hc, hc]
    | .close | .exit | .drop => simp [Use.onCursor, close_closed hc, hc]
  | false =>
    match u with
    | .next trip =>
      obtain ⟨row, rows, -, -, hnext⟩ | ⟨f, hnext, -⟩ := next_open hc trip
      · exact .inr (by simp [Use.onCursor, hnext, hc])
      · exact .inl (by simp [Use.onCursor, hnext])
    | .close | .exit | .drop => exact .inl (by simp [Use.onCursor, close_open hc])

theorem uses_closed {c : Cursor} (hc : c.closed = true) (us : List Use) :
    (uses c us).1.closed = true ∧ (uses c us).2 = [] := by
  induction us generalizing c with
  | nil => exact ⟨hc, rfl⟩
  | cons u us ih =>
    obtain ⟨hopen, -⟩ | ⟨hsame, hdeeds⟩ := onCursor_cases c u
    · simp [hopen] at hc
    · obtain ⟨hclosed, hnothing⟩ := ih (hsame.trans hc)
      exact ⟨hclosed, by rw [uses, hdeeds, hnothing, List.append_nil]⟩

theorem holds_of_open {c : Cursor} (hc : c.closed = false) : Holds c := by
  intro us
  induction us generalizing c with
  | nil => simp [uses, hc]
  | cons u us ih =>
    rw [uses, List.filterMap_append]
    obtain ⟨-, hends, hdeeds⟩ | ⟨hsame, hdeeds⟩ := onCursor_cases c u
    · obtain ⟨hclosed, hnothing⟩ := uses_closed hends us
      rw [hdeeds, hnothing, hclosed]
      rfl
    · rw [hdeeds, ih (hsame.trans hc)]
      rfl

/-! ## One search -/

/-- A search has settled its loan: it brings a cursor that holds the connection it took, or it fails
and has given the connection back, once, unless it took none. -/
def Settled (r : Except RunError Cursor) (deeds : List Deed) : Prop :=
  match r with
  | .ok c => deeds.filterMap loan? = [true] ∧ Holds c
  | .error _ => deeds.filterMap loan? = [] ∨ deeds.filterMap loan? = [true, false]

/-- What a search does to the pool, by whether it strands its connection. -/
inductive Loan (stranded : Bool) : Except RunError Cursor → List Deed → Prop where
  | held {c deeds} (hstranded : stranded = false) (hc : c.closed = false)
      (hloan : deeds.filterMap loan? = [true]) : Loan stranded (.ok c) deeds
  | none {e deeds} (hstranded : stranded = false) (hloan : deeds.filterMap loan? = []) :
      Loan stranded (.error e) deeds
  | back {e deeds} (hstranded : stranded = false)
      (hloan : deeds.filterMap loan? = [true, false]) : Loan stranded (.error e) deeds
  | lost {e deeds} (hstranded : stranded = true) (hloan : deeds.filterMap loan? = [true]) :
      Loan stranded (.error e) deeds

/-- **The ends of a search.** With a literal it goes on to the query; without one it fails where
nobody gives the connection back. -/
theorem nearest_ends (o : Outside σ) (vector limit : Value) (p : Program σ) :
    ∃ r q deeds, (nearest o vector limit).perform p = (r, q) ∧ q.trace = p.trace ++ deeds ∧
      Loan (strands o vector p) r deeds := by
  cases hopen : p.isOpen with
  | false =>
    exact ⟨_, _, [], nearest_closed vector limit hopen, by simp,
      .none (by simp [strands, hopen]) rfl⟩
  | true =>
    rcases hlend : o.lend p.outside with ⟨_ | message, s⟩
    · cases hliteral : literalOf vector with
      | error e =>
        have hvector : isVector vector = false := by
          rw [← isOk_literalOf, hliteral]
          rfl
        refine ⟨.error (.store e), ⟨s, p.isOpen, p.trace ++ [.lent]⟩, _, ?_, rfl,
          .lost (by simp [strands, hopen, hlend, hvector]) rfl⟩
        rw [nearest, perform_bind_ok (perform_requireOpen hopen),
          perform_bind_ok (perform_outside _ _), hlend, perform_bind_ok (perform_leave _ _),
          hliteral]
        exact perform_bind_error (perform_ofExcept_error _ _ _)
      | ok literal =>
        have hvector : isVector vector = true := by
          rw [← isOk_literalOf, hliteral]
          rfl
        have hsafe : strands o vector p = false := by simp [strands, hvector]
        have hnearest := nearest_of_literal hliteral limit hopen hlend
        rcases hexecute : o.execute (.nearest literal limit) s with ⟨message | script, s'⟩ <;>
          rw [hexecute] at hnearest
        · exact ⟨_, _, _, hnearest, rfl, .back hsafe rfl⟩
        · exact ⟨_, _, _, hnearest, rfl, .held hsafe rfl rfl⟩
    · exact ⟨_, _, [], nearest_unlent vector limit hopen hlend, by simp,
        .none (by simp [strands, hlend]) rfl⟩

theorem Loan.settled_iff {stranded : Bool} {r : Except RunError Cursor} {deeds : List Deed}
    (h : Loan stranded r deeds) : Settled r deeds ↔ stranded = false := by
  cases h with
  | held hstranded hc hloan => exact iff_of_true ⟨hloan, holds_of_open hc⟩ hstranded
  | none hstranded hloan => exact iff_of_true (.inl hloan) hstranded
  | back hstranded hloan => exact iff_of_true (.inr hloan) hstranded
  | lost hstranded hloan => simp [Settled, hloan, hstranded]

/-! ## Many searches -/

/-- The number of connections taken out of the pool. -/
def takenIn (deeds : List Deed) : Nat := (deeds.filterMap loan?).count true

/-- The number of connections given back. -/
def returnedIn (deeds : List Deed) : Nat := (deeds.filterMap loan?).count false

/-- The program, and the cursors that its searches have brought. -/
structure Desk (σ : Type) where
  program : Program σ
  cursors : List Cursor

/-- What is done at a desk: the pool is opened or closed, a search is started, or the `i`th cursor
is used. -/
inductive Deal where
  | openPool (plan : PoolPlan)
  | closePool
  | ask (vector limit : Value)
  | use (i : Nat) (u : Use)

namespace Desk

/-- The number of cursors that have not ended. -/
def held (d : Desk σ) : Nat := d.cursors.countP fun c => !c.closed

/-- Does one thing. -/
def deal (o : Outside σ) (d : Desk σ) : Deal → Desk σ
  | .openPool plan => { d with program := ((openPool o plan).perform d.program).2 }
  | .closePool => { d with program := ((closePool : Action σ Unit).perform d.program).2 }
  | .ask vector limit =>
    match (nearest o vector limit).perform d.program with
    | (.ok c, q) => ⟨q, d.cursors ++ [c]⟩
    | (.error _, q) => { d with program := q }
  | .use i u =>
    match d.cursors[i]? with
    | some c =>
      let (c, _, deeds) := u.onCursor c
      ⟨{ d.program with trace := d.program.trace ++ deeds }, d.cursors.set i c⟩
    | none => d

/-- The desk after all of this is done. -/
def after (o : Outside σ) (d : Desk σ) : List Deal → Desk σ
  | [] => d
  | x :: xs => (d.deal o x).after o xs

/-- Whether this strands a connection. -/
def loses (o : Outside σ) (d : Desk σ) : Deal → Bool
  | .ask vector _ => strands o vector d.program
  | _ => false

/-- The number of connections stranded while all of this is done. -/
def stranded (o : Outside σ) (d : Desk σ) : List Deal → Nat
  | [] => 0
  | x :: xs => (d.loses o x).toNat + (d.deal o x).stranded o xs

end Desk

/-- Between two states of a desk the account is kept: connections are out for the cursors that have
not ended, and for the stranded searches. -/
def Account (d d' : Desk σ) (stranded : Nat) : Prop :=
  ∃ deeds, d'.program.trace = d.program.trace ++ deeds ∧
    takenIn deeds + d.held = returnedIn deeds + d'.held + stranded

theorem Account.refl (d : Desk σ) : Account d d 0 := ⟨[], by simp, by simp [takenIn, returnedIn]⟩

theorem Account.trans {d d' d'' : Desk σ} {k n : Nat} (h : Account d d' k)
    (h' : Account d' d'' n) : Account d d'' (k + n) := by
  obtain ⟨deeds, htrace, hcount⟩ := h
  obtain ⟨more, htrace', hcount'⟩ := h'
  refine ⟨deeds ++ more, by rw [htrace', htrace, List.append_assoc], ?_⟩
  simp only [takenIn, returnedIn, List.filterMap_append, List.count_append] at hcount hcount' ⊢
  omega

theorem account_of_loans {d d' : Desk σ} {deeds : List Deed} {loans : List Bool} {k : Nat}
    (htrace : d'.program.trace = d.program.trace ++ deeds) (hloans : deeds.filterMap loan? = loans)
    (hcount : loans.count true + d.held = loans.count false + d'.held + k) : Account d d' k :=
  ⟨deeds, htrace, by rw [takenIn, returnedIn, hloans, hcount]⟩

theorem account_openPool (o : Outside σ) (d : Desk σ) (plan : PoolPlan) :
    Account d (d.deal o (.openPool plan)) 0 := by
  cases hopen : d.program.isOpen with
  | true =>
    have hperform : (openPool o plan).perform d.program = (.ok (), d.program) := by
      rw [openPool, perform_bind_ok (perform_get _), hopen]
      rfl
    rw [Desk.deal, hperform]
    exact .refl d
  | false =>
    refine ⟨[.poolMade plan, .poolOpened], ?_, rfl⟩
    rw [Desk.deal, openPool, perform_bind_ok (perform_get _), hopen, if_neg Bool.false_ne_true,
      perform_bind_ok (perform_leave _ _), perform_bind_ok (perform_leave _ _),
      perform_bind_ok (perform_outside _ _)]
    cases (o.connect d.program.outside).1 <;> exact List.append_assoc _ _ _

theorem account_closePool (o : Outside σ) (d : Desk σ) :
    Account d (d.deal o .closePool) 0 := by
  rw [Desk.deal, closePool, perform_bind_ok (perform_get _)]
  cases hopen : d.program.isOpen with
  | true => exact ⟨[.poolClosed], rfl, rfl⟩
  | false => exact .refl d

theorem account_ask (o : Outside σ) (d : Desk σ) (vector limit : Value) :
    Account d (d.deal o (.ask vector limit)) (strands o vector d.program).toNat := by
  obtain ⟨r, q, deeds, hnearest, htrace, hloan⟩ := nearest_ends o vector limit d.program
  rw [Desk.deal, hnearest]
  cases hloan with
  | held hstranded hc hloan =>
    refine account_of_loans htrace hloan ?_
    simp [hstranded, Desk.held, hc, Nat.add_comm]
  | none hstranded hloan =>
    refine account_of_loans htrace hloan ?_
    simp [hstranded, Desk.held]
  | back hstranded hloan =>
    refine account_of_loans htrace hloan ?_
    simp [hstranded, Desk.held]
  | lost hstranded hloan =>
    refine account_of_loans htrace hloan ?_
    simp [hstranded, Desk.held, Nat.add_comm]

/-- A cursor that takes the place of another one counts instead of it. -/
theorem held_set {d : Desk σ} {i : Nat} {c : Cursor} (hc : d.cursors[i]? = some c) (c' : Cursor)
    (q : Program σ) :
    (Desk.mk q (d.cursors.set i c')).held + (!c.closed).toNat = d.held + (!c'.closed).toNat := by
  obtain ⟨hi, rfl⟩ := List.getElem?_eq_some_iff.1 hc
  have hpos : d.cursors[i].closed = false → 0 < d.held := fun h =>
    List.countP_pos_iff.2 ⟨_, List.getElem_mem hi, by simp [h]⟩
  unfold Desk.held at hpos ⊢
  rw [List.countP_set hi]
  cases hclosed : d.cursors[i].closed with
  | true => cases c'.closed <;> simp
  | false =>
    have hone := hpos hclosed
    cases c'.closed <;> simp <;> omega

theorem account_use (o : Outside σ) (d : Desk σ) (i : Nat) (u : Use) :
    Account d (d.deal o (.use i u)) 0 := by
  cases hc : d.cursors[i]? with
  | none =>
    rw [Desk.deal, hc]
    exact .refl d
  | some c =>
    have hdeal : d.deal o (.use i u) =
        ⟨{ d.program with trace := d.program.trace ++ (u.onCursor c).2.2 },
          d.cursors.set i (u.onCursor c).1⟩ := by rw [Desk.deal, hc]
    have hheld := held_set hc (u.onCursor c).1
      { d.program with trace := d.program.trace ++ (u.onCursor c).2.2 }
    rw [← hdeal] at hheld
    obtain ⟨hopen, hends, hdeeds⟩ | ⟨hsame, hdeeds⟩ := onCursor_cases c u
    · rw [hopen, hends] at hheld
      have hloans : (u.onCursor c).2.2.filterMap loan? = [false] := by
        rw [hdeeds]
        rfl
      refine account_of_loans (by rw [hdeal]) hloans ?_
      simpa [Nat.add_comm] using hheld.symm
    · rw [hsame] at hheld
      have hloans : (u.onCursor c).2.2.filterMap loan? = [] := by
        rw [hdeeds]
        rfl
      refine account_of_loans (by rw [hdeal]) hloans ?_
      simpa using (Nat.add_right_cancel hheld).symm

/-- **One deal** keeps the account. -/
theorem account_deal (o : Outside σ) (d : Desk σ) (x : Deal) :
    Account d (d.deal o x) (d.loses o x).toNat := by
  cases x with
  | openPool plan => exact account_openPool o d plan
  | closePool => exact account_closePool o d
  | ask vector limit => exact account_ask o d vector limit
  | use i u => exact account_use o d i u

/-- **All that is done** keeps the account. -/
theorem account_after (o : Outside σ) (d : Desk σ) (xs : List Deal) :
    Account d (d.after o xs) (d.stranded o xs) := by
  induction xs generalizing d with
  | nil => exact .refl d
  | cons x xs ih => exact (account_deal o d x).trans (ih _)

/-- No connection is stranded exactly if no search on the way strands one. -/
theorem stranded_eq_zero_iff (o : Outside σ) (d : Desk σ) (xs : List Deal) :
    d.stranded o xs = 0 ↔ ∀ before vector limit rest, xs = before ++ .ask vector limit :: rest →
      strands o vector (d.after o before).program = false := by
  induction xs generalizing d with
  | nil => simp [Desk.stranded]
  | cons x xs ih =>
    rw [Desk.stranded, Nat.add_eq_zero_iff, ih]
    constructor
    · rintro ⟨hx, hxs⟩ before vector limit rest h
      cases before with
      | nil =>
        obtain ⟨rfl, -⟩ := List.cons.inj h
        exact Bool.toNat_eq_zero.1 hx
      | cons y ys =>
        obtain ⟨rfl, hrest⟩ := List.cons.inj h
        exact hxs ys vector limit rest hrest
    · refine fun h => ⟨?_, fun before vector limit rest hrest => ?_⟩
      · match x with
        | .ask vector limit => exact Bool.toNat_eq_zero.2 (h [] vector limit xs rfl)
        | .openPool _ | .closePool | .use _ _ => rfl
      · exact h (x :: before) vector limit rest (congrArg _ hrest)

/-! ## Main result -/

/-- **Whose connections are out.** A search settles its loan unless it takes a connection and its
vector is no sequence of numbers. Whatever is done, the connections that are out are one for each
cursor that has not ended and one for each such search. -/
theorem connections_out_iff (o : Outside σ) (p : Program σ) :
    (∀ vector limit, ∃ deeds,
      ((nearest o vector limit).perform p).2.trace = p.trace ++ deeds ∧
      (Settled ((nearest o vector limit).perform p).1 deeds ↔ strands o vector p = false)) ∧
    let d : Desk σ := ⟨p, []⟩
    ∀ xs, ∃ deeds, (d.after o xs).program.trace = p.trace ++ deeds ∧
      takenIn deeds = returnedIn deeds + (d.after o xs).held + d.stranded o xs ∧
      (takenIn deeds = returnedIn deeds + (d.after o xs).held ↔
        ∀ before vector limit rest, xs = before ++ .ask vector limit :: rest →
          strands o vector (d.after o before).program = false) := by
  constructor
  · intro vector limit
    obtain ⟨r, q, deeds, hnearest, htrace, hloan⟩ := nearest_ends o vector limit p
    rw [hnearest]
    exact ⟨deeds, htrace, hloan.settled_iff⟩
  · intro d xs
    obtain ⟨deeds, htrace, hcount⟩ := account_after o d xs
    have hout : takenIn deeds = returnedIn deeds + (d.after o xs).held + d.stranded o xs := hcount
    refine ⟨deeds, htrace, hout, ?_⟩
    rw [← stranded_eq_zero_iff, hout]
    exact Nat.add_eq_left

/-- An open pool over empty tables. A search for something that is no number leaves its connection
out, and there is no cursor to give it back. -/
theorem letter_strands :
    let p : Program SerialTables := ⟨.empty, true, []⟩
    let vector : Value := .list [.text "x"]
    let d := (Desk.mk p []).after tablesWorld [.ask vector (.int 1)]
    ((nearest tablesWorld vector (.int 1)).perform p).1 =
        .error (.store (.notVector (.malformed "x"))) ∧
      ((nearest tablesWorld vector (.int 1)).perform p).2.trace = p.trace ++ [.lent] ∧
      ¬ Settled ((nearest tablesWorld vector (.int 1)).perform p).1 [.lent] ∧
      takenIn d.program.trace ≠ returnedIn d.program.trace + d.held := by
  intro p vector d
  have hfails : ((nearest tablesWorld vector (.int 1)).perform p).1 =
      .error (.store (.notVector (.malformed "x"))) := rfl
  refine ⟨hfails, rfl, ?_, Nat.one_ne_zero⟩
  rw [hfails]
  rintro (hnone | hback)
  · cases hnone
  · cases hback

end DocSearch.Search
