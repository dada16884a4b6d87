import DocSearch.Daemon.Wait
import Mathlib.Data.List.Basic
import Mathlib.Tactic.SplitIfs

/-!
# How a stream is left

A worker takes the lines of a stream one by one. Lines pass (`Passes`) as long as they are blank or
hold an object that does not end the answer, and each adds its piece. Then the worker leaves the
stream, in one of five ways (`Leaves`): at the last object, at a line that holds no object, at a line
that it reaches with the token tripped, at a failure, or at the end of the stream.

**One step.** `Course` says where a worker is and which pieces it has handed out. `course_step` keeps
it, whatever happens next, and by induction `course_after` says it of everything that may happen.

**The caller.** It is told how the stream was left, or it has found the token tripped before that
(`told_after`), and what it has got it keeps (`answer_after`). An answer is made of the pieces that
were handed out (`texts_of_completion`).

**At once.** Reading a stream in one go comes to the same exit (`Exit.streamPieces_eq`).
-/

namespace DocSearch.Daemon

open Text

/-! ## Lines -/

/-- What an object adds to an answer: its piece, unless there is nothing in it. -/
def spoken (fields : Object) : List Value :=
  if (pieceOf fields).truthy then [pieceOf fields] else []

/-- A line that holds an object. -/
def Holds (cs : List Char) (fields : Object) : Prop :=
  cs.all isBlank = false ∧ object (Json.read cs) = .ok fields

/-- A line that is not blank and holds no object. -/
def Breaks (cs : List Char) (e : Error) : Prop :=
  cs.all isBlank = false ∧ object (Json.read cs) = .error e

/-- A line behind which the stream goes on. -/
def Passes (cs : List Char) : Prop :=
  cs.all isBlank = true ∨ ∃ fields, Holds cs fields ∧ isLast fields = false

/-- What a line adds to an answer. -/
def piecesOf (cs : List Char) : List Value :=
  if cs.all isBlank then [] else
    match object (Json.read cs) with
    | .ok fields => spoken fields
    | .error _ => []

variable {cs : List Char} {fields : Object} {e : Error}

theorem Holds.piecesOf_eq (h : Holds cs fields) : piecesOf cs = spoken fields := by
  simp [piecesOf, h.1, h.2]

theorem take_of_holds (h : Holds cs fields) :
    ∃ piece, (Arrival.line cs).take none =
        .line piece (if isLast fields then some fields else none) ∧
      piece.toList = spoken fields := by
  refine ⟨if (pieceOf fields).truthy then some (pieceOf fields) else none, ?_, ?_⟩
  · simp [Arrival.take, h.1, h.2]
  · unfold spoken
    split_ifs <;> rfl

theorem take_of_passes (h : Passes cs) :
    ∃ piece, (Arrival.line cs).take none = .line piece none ∧ piece.toList = piecesOf cs := by
  rcases h with hblank | ⟨fields, hfields, hmore⟩
  · exact ⟨none, by simp [Arrival.take, hblank], by simp [piecesOf, hblank]⟩
  · obtain ⟨piece, htake, hpiece⟩ := take_of_holds hfields
    exact ⟨piece, by simpa [hmore] using htake, hpiece.trans hfields.piecesOf_eq.symm⟩

theorem take_of_breaks (h : Breaks cs e) : (Arrival.line cs).take none = .failed e := by
  simp [Arrival.take, h.1, h.2]

theorem take_of_trip (reason : String) (cs : List Char) :
    (Arrival.line cs).take (some reason) = .failed (.cancelled reason) := rfl

theorem line_cases (cs : List Char) :
    Passes cs ∨ (∃ fields, Holds cs fields ∧ isLast fields = true) ∨ ∃ e, Breaks cs e := by
  by_cases hblank : cs.all isBlank = true
  · exact .inl (.inl hblank)
  · rw [Bool.not_eq_true] at hblank
    cases hread : object (Json.read cs) with
    | error e => exact .inr (.inr ⟨e, hblank, hread⟩)
    | ok fields =>
      cases hlast : isLast fields with
      | true => exact .inr (.inl ⟨fields, ⟨hblank, hread⟩, hlast⟩)
      | false => exact .inl (.inr ⟨fields, ⟨hblank, hread⟩, hlast⟩)

/-! ## Exits -/

/-- How a worker leaves a stream that finds the token in the state `look` and `rest` still to come:
what it hands out on the way, and what it is left with. -/
inductive Leaves : (look : Trip) → (rest : List Arrival) → List Value → Except Error Object → Prop
  | done {cs fields rest} : Holds cs fields → isLast fields = true →
      Leaves none (.line cs :: rest) (spoken fields) (.ok fields)
  | unread {cs e rest} : Breaks cs e → Leaves none (.line cs :: rest) [] (.error e)
  | tripped {reason cs rest} :
      Leaves (some reason) (.line cs :: rest) [] (.error (.cancelled reason))
  | broken {look f rest} : Leaves look (.failure f :: rest) [] (.error (f.toError generatePath))
  | ended {look} : Leaves look [] [] (.ok [])

/-- A worker on its way: the lines in front have passed while the token was not tripped, and they
made up the pieces. -/
structure Passed (arrivals : List Arrival) (front : List (List Char)) (seen : List Trip)
    (pieces : List Value) (rest : List Arrival) : Prop where
  split : arrivals = front.map .line ++ rest
  passes : ∀ cs ∈ front, Passes cs
  seen_eq : seen = List.replicate front.length none
  pieces_eq : pieces = front.flatMap piecesOf

/-- A worker that has left the stream behind some lines that passed. `seen` are the states of the
token at its steps; those behind the exit do not count. -/
def Exit (arrivals : List Arrival) (seen : List Trip) (pieces : List Value)
    (last : Except Error Object) : Prop :=
  ∃ front before look more said rest tail, seen = before ++ look :: more ∧ pieces = said ++ tail ∧
    Passed arrivals front before said rest ∧ Leaves look rest tail last

variable {arrivals rest : List Arrival} {front : List (List Char)} {seen : List Trip}
  {pieces tail : List Value} {last : Except Error Object} {w : Waiting}

theorem passed_nil (arrivals : List Arrival) : Passed arrivals [] [] [] arrivals :=
  ⟨rfl, by simp, rfl, rfl⟩

theorem Passed.length_seen (h : Passed arrivals front seen pieces rest) :
    seen.length = front.length := by
  rw [h.seen_eq, List.length_replicate]

theorem Passed.snoc (h : Passed arrivals front seen pieces (.line cs :: rest)) (hcs : Passes cs) :
    Passed arrivals (front ++ [cs]) (seen ++ [none]) (pieces ++ piecesOf cs) rest where
  split := by simp [h.split]
  passes := by
    intro c hc
    rcases List.mem_append.1 hc with hc | hc
    · exact h.passes c hc
    · exact List.mem_singleton.1 hc ▸ hcs
  seen_eq := by simp [h.seen_eq, List.replicate_add]
  pieces_eq := by simp [h.pieces_eq]

theorem Passed.exit (h : Passed arrivals front seen pieces rest) {look : Trip}
    (hleaves : Leaves look rest tail last) : Exit arrivals (seen ++ [look]) (pieces ++ tail) last :=
  ⟨front, seen, look, [], pieces, rest, tail, rfl, rfl, h, hleaves⟩

theorem Exit.append (h : Exit arrivals seen pieces last) (more : List Trip) :
    Exit arrivals (seen ++ more) pieces last := by
  obtain ⟨front, before, look, more', said, rest, tail, rfl, hpieces, hpassed, hleaves⟩ := h
  exact ⟨front, before, look, more' ++ more, said, rest, tail, by simp, hpieces, hpassed, hleaves⟩

/-- What comes of the next arrival: it passes, or the worker leaves the stream there. -/
theorem take_cases (look : Trip) (a : Arrival) (rest : List Arrival) :
    (∃ cs piece, look = none ∧ a = .line cs ∧ Passes cs ∧ a.take look = .line piece none ∧
      piece.toList = piecesOf cs) ∨
    (∃ piece fields, a.take look = .line piece (some fields) ∧
      Leaves look (a :: rest) piece.toList (.ok fields)) ∨
    ∃ e, a.take look = .failed e ∧ Leaves look (a :: rest) [] (.error e) := by
  cases a with
  | failure f => exact .inr (.inr ⟨_, rfl, .broken⟩)
  | line cs =>
    cases look with
    | some reason => exact .inr (.inr ⟨_, take_of_trip reason cs, .tripped⟩)
    | none =>
      rcases line_cases cs with hpasses | ⟨fields, hfields, hlast⟩ | ⟨e, hbreaks⟩
      · obtain ⟨piece, htake, hpiece⟩ := take_of_passes hpasses
        exact .inl ⟨cs, piece, rfl, rfl, hpasses, htake, hpiece⟩
      · obtain ⟨piece, htake, hpiece⟩ := take_of_holds hfields
        rw [if_pos hlast] at htake
        exact .inr (.inl ⟨piece, fields, htake, hpiece ▸ .done hfields hlast⟩)
      · exact .inr (.inr ⟨e, take_of_breaks hbreaks, .unread hbreaks⟩)

/-! ## The worker -/

/-- Where a worker is that has found the token in the states `seen` at its steps. -/
def Course (arrivals : List Arrival) (seen : List Trip) (w : Waiting) : Prop :=
  match w.stage with
  | .reading rest => ∃ front, Passed arrivals front seen w.pieces rest
  | .ended last | .told last => Exit arrivals seen w.pieces last

theorem course_start (arrivals : List Arrival) : Course arrivals [] (.start arrivals) :=
  ⟨[], passed_nil arrivals⟩

theorem course_work (h : Course arrivals seen w) : Course arrivals (seen ++ [w.token]) w.work := by
  obtain ⟨stage, pieces, token, answer⟩ := w
  unfold Waiting.work
  cases stage with
  | ended last => exact Exit.append (show Exit arrivals seen pieces last from h) [token]
  | told last => exact Exit.append (show Exit arrivals seen pieces last from h) [token]
  | reading rest =>
    obtain ⟨front, hpassed⟩ := h
    cases rest with
    | nil =>
      have hexit : Exit arrivals (seen ++ [token]) (pieces ++ []) (.ok []) := hpassed.exit .ended
      rwa [List.append_nil] at hexit
    | cons a rest =>
      dsimp only
      rcases take_cases token a rest with
        ⟨cs, piece, rfl, rfl, hpasses, htake, hpiece⟩ | ⟨piece, fields, htake, hleaves⟩ |
        ⟨e, htake, hleaves⟩
      · rw [htake]
        have hsnoc := hpassed.snoc hpasses
        rw [← hpiece] at hsnoc
        exact ⟨front ++ [cs], hsnoc⟩
      · rw [htake]
        exact hpassed.exit hleaves
      · rw [htake]
        have hexit := hpassed.exit hleaves
        rwa [List.append_nil] at hexit

theorem look_stage (w : Waiting) : w.look.stage = w.stage := by
  unfold Waiting.look
  split <;> rfl

theorem look_pieces (w : Waiting) : w.look.pieces = w.pieces := by
  unfold Waiting.look
  split <;> rfl

theorem look_token (w : Waiting) : w.look.token = w.token := by
  unfold Waiting.look
  split <;> rfl

/-- The states of the token that a step shows to the worker. -/
def Event.shown (w : Waiting) : Event → List Trip
  | .work => [w.token]
  | _ => []

theorem course_step (h : Course arrivals seen w) (ev : Event) :
    Course arrivals (seen ++ ev.shown w) (w.step ev) := by
  cases ev with
  | work => exact course_work h
  | trip reason => exact (List.append_nil seen).symm ▸ h
  | look =>
    show Course arrivals (seen ++ []) _
    rw [List.append_nil]
    unfold Course Waiting.step
    dsimp only
    rwa [look_stage, look_pieces]

theorem tokens_cons (w : Waiting) (ev : Event) (events : List Event) :
    w.tokens (ev :: events) = ev.shown w ++ (w.step ev).tokens events := by
  cases ev <;> rfl

/-- **The worker's course**, whatever happens and in whichever order. -/
theorem course_after (h : Course arrivals seen w) (events : List Event) :
    Course arrivals (seen ++ w.tokens events) (w.after events) := by
  induction events generalizing seen w with
  | nil => rwa [Waiting.tokens, List.append_nil]
  | cons ev events ih =>
    have hstep := ih (course_step h ev)
    rwa [List.append_assoc, ← tokens_cons] at hstep

/-- How many steps a worker still has to go, at the most. -/
def Waiting.ahead (w : Waiting) : Nat :=
  match w.stage with
  | .reading rest => rest.length + 2
  | .ended _ => 1
  | .told _ => 0

theorem ahead_work (w : Waiting) : w.work.ahead ≤ w.ahead - 1 := by
  obtain ⟨stage, pieces, token, answer⟩ := w
  unfold Waiting.work Waiting.ahead
  cases stage with
  | ended last => exact Nat.le_refl 0
  | told last => exact Nat.le_refl 0
  | reading rest =>
    cases rest with
    | nil => exact Nat.le_refl 1
    | cons a rest =>
      cases htake : a.take token with
      | failed e => simp [htake]
      | line piece last => cases last <;> simp [htake]

theorem ahead_after (w : Waiting) (events : List Event) :
    (w.after events).ahead ≤ w.ahead - (w.tokens events).length := by
  induction events generalizing w with
  | nil => exact Nat.le_refl _
  | cons ev events ih =>
    have hafter : (w.after (ev :: events)).ahead ≤ _ := ih (w.step ev)
    have hstep : (w.step ev).ahead ≤ w.ahead - (ev.shown w).length := by
      cases ev with
      | work => exact ahead_work w
      | trip reason => exact Nat.le_refl _
      | look => simp [Waiting.step, Waiting.ahead, look_stage, Event.shown]
    rw [tokens_cons, List.length_append]
    omega

/-- A worker that goes on comes to the end and tells the caller how the stream was left. -/
theorem told_of_steps {events : List Event}
    (h : arrivals.length + 2 ≤ ((Waiting.start arrivals).tokens events).length) :
    ∃ last, ((Waiting.start arrivals).after events).stage = .told last := by
  have hahead := ahead_after (.start arrivals) events
  have hstart : (Waiting.start arrivals).ahead = arrivals.length + 2 := rfl
  cases hstage : ((Waiting.start arrivals).after events).stage with
  | told last => exact ⟨last, rfl⟩
  | ended last => simp only [Waiting.ahead, hstage] at hahead hstart; omega
  | reading rest => simp only [Waiting.ahead, hstage] at hahead hstart; omega

/-! ## The token -/

/-- A token that is tripped stays as it is. -/
theorem token_step {reason : String} (h : w.token = some reason) (ev : Event) :
    (w.step ev).token = some reason := by
  cases ev with
  | trip r => simp [Waiting.step, h, Trip.cancel]
  | look => exact (look_token w).trans h
  | work =>
    unfold Waiting.step Waiting.work
    dsimp only
    split
    next => exact h
    next => split <;> exact h
    next => exact h
    next => exact h

/-! ## The caller -/

/-- What the caller may have got: how the stream was left, or that the token is tripped. -/
def Told (w : Waiting) : Prop :=
  ∀ last, w.answer = some last →
    w.stage = .told last ∨ ∃ reason, w.token = some reason ∧ last = .error (.cancelled reason)

theorem told_start (arrivals : List Arrival) : Told (.start arrivals) := by
  intro last hlast
  cases hlast

theorem work_answer (w : Waiting) : w.work.answer = w.answer := by
  unfold Waiting.work
  split
  next => rfl
  next => split <;> rfl
  next => rfl
  next => rfl

theorem told_step (h : Told w) (ev : Event) : Told (w.step ev) := by
  intro last hlast
  cases ev with
  | trip reason =>
    rcases h last hlast with hstage | ⟨r, htoken, rfl⟩
    · exact .inl hstage
    · exact .inr ⟨r, token_step htoken _, rfl⟩
  | work =>
    rcases h last ((work_answer w).symm.trans hlast) with hstage | ⟨r, htoken, rfl⟩
    · left
      show w.work.stage = _
      simp only [Waiting.work, hstage]
    · exact .inr ⟨r, token_step htoken .work, rfl⟩
  | look =>
    have hstage' : (w.step .look).stage = w.stage := look_stage w
    have htoken' : (w.step .look).token = w.token := look_token w
    rw [hstage', htoken']
    change w.look.answer = some last at hlast
    unfold Waiting.look at hlast
    split at hlast
    next => exact h last hlast
    next hstage => exact .inl (hstage.trans (congrArg Stage.told (Option.some.inj hlast)))
    next reason _ htoken _ => exact .inr ⟨reason, htoken, (Option.some.inj hlast).symm⟩
    next hanswer _ _ => exact absurd (hanswer.symm.trans hlast) (by simp)

theorem told_after (h : Told w) (events : List Event) : Told (w.after events) := by
  induction events generalizing w with
  | nil => exact h
  | cons ev events ih => exact ih (told_step h ev)

/-- What the caller has got it keeps. -/
theorem answer_after {got : Except Error Object} (h : w.answer = some got) (events : List Event) :
    (w.after events).answer = some got := by
  induction events generalizing w with
  | nil => exact h
  | cons ev events ih =>
    refine ih (w := w.step ev) ?_
    cases ev with
    | work => exact (work_answer w).trans h
    | trip reason => exact h
    | look => simp [Waiting.step, Waiting.look, h]

/-- A caller that looks when the worker has told it gets something. -/
theorem answer_of_told (hstage : w.stage = .told last) :
    ∃ got, (w.step .look).answer = some got := by
  unfold Waiting.step Waiting.look
  cases hanswer : w.answer <;> simp [hanswer, hstage]

/-! ## Reading at once -/

/-- A token whose state is `seen[i]` at step `i`, and that is not tripped anywhere else. -/
def watchOf (seen : List Trip) : Watch := fun i _ => (seen[i]?).getD none

theorem streamPieces_lines {watch : Watch} (hpasses : ∀ cs ∈ front, Passes cs) (i : Nat)
    (hwatch : ∀ j < front.length, ∀ ps, watch (i + j) ps = none) (pieces : List Value)
    (rest : List Arrival) :
    streamPieces watch i pieces (front.map .line ++ rest) =
      streamPieces watch (i + front.length) (pieces ++ front.flatMap piecesOf) rest := by
  induction front generalizing i pieces with
  | nil => simp
  | cons cs front ih =>
    obtain ⟨piece, htake, hpiece⟩ := take_of_passes (hpasses cs List.mem_cons_self)
    have hnone : watch i pieces = none := hwatch 0 (Nat.succ_pos _) pieces
    rw [List.map_cons, List.cons_append, streamPieces, hnone, htake]
    dsimp only
    rw [ih (fun c hc => hpasses c (List.mem_cons_of_mem cs hc)) (i + 1)
      (fun j hj ps => by
        rw [Nat.add_right_comm]
        exact hwatch (j + 1) (Nat.succ_lt_succ hj) ps)]
    rw [hpiece, List.flatMap_cons, List.append_assoc, List.length_cons, Nat.add_right_comm,
      Nat.add_assoc i]

theorem Leaves.streamPieces_eq {watch : Watch} {look : Trip} {i : Nat}
    (h : Leaves look rest tail last) (hlook : watch i pieces = look) :
    streamPieces watch i pieces rest = (pieces ++ tail, last) := by
  cases h with
  | done hfields hlast =>
    obtain ⟨piece, htake, hpiece⟩ := take_of_holds hfields
    rw [if_pos hlast] at htake
    rw [streamPieces, hlook, htake, ← hpiece]
  | unread hbreaks => rw [streamPieces, hlook, take_of_breaks hbreaks, List.append_nil]
  | tripped => rw [streamPieces, hlook, take_of_trip, List.append_nil]
  | broken => rw [streamPieces, Arrival.take, List.append_nil]
  | ended => rw [streamPieces, List.append_nil]

/-- **Reading a stream at once** comes to the exit to which the worker comes. -/
theorem Exit.streamPieces_eq (h : Exit arrivals seen pieces last) :
    streamPieces (watchOf seen) 0 [] arrivals = (pieces, last) := by
  obtain ⟨front, before, look, more, said, rest, tail, rfl, rfl, hpassed, hleaves⟩ := h
  have hlength := hpassed.length_seen
  have hbefore : ∀ j < front.length, ∀ ps, watchOf (before ++ look :: more) (0 + j) ps = none := by
    intro j hj ps
    rw [watchOf, Nat.zero_add, List.getElem?_append_left (hlength ▸ hj), hpassed.seen_eq,
      List.getElem?_replicate, if_pos hj, Option.getD_some]
  have hlook : watchOf (before ++ look :: more) (0 + front.length)
      ([] ++ front.flatMap piecesOf) = look := by
    rw [watchOf, Nat.zero_add, List.getElem?_append_right (Nat.le_of_eq hlength), hlength,
      Nat.sub_self, List.getElem?_cons_zero, Option.getD_some]
  rw [hpassed.split, streamPieces_lines hpassed.passes 0 hbefore, hleaves.streamPieces_eq hlook,
    hpassed.pieces_eq, List.nil_append]

/-- A stream is left somewhere, however the token looks on the way. -/
theorem streamPieces_exit (watch : Watch) (h : Passed arrivals front seen pieces rest) :
    ∃ more, (∀ t ∈ more, ∃ i ps, t = watch i ps) ∧
      Exit arrivals (seen ++ more) (streamPieces watch seen.length pieces rest).1
        (streamPieces watch seen.length pieces rest).2 := by
  induction rest generalizing front seen pieces with
  | nil =>
    have hexit : Exit arrivals (seen ++ [watch seen.length pieces]) (pieces ++ []) (.ok []) :=
      h.exit .ended
    rw [List.append_nil] at hexit
    exact ⟨_, by simp, hexit⟩
  | cons a rest ih =>
    rcases take_cases (watch seen.length pieces) a rest with
      ⟨cs, piece, hlook, rfl, hpasses, htake, hpiece⟩ | ⟨piece, fields, htake, hleaves⟩ |
      ⟨e, htake, hleaves⟩
    · obtain ⟨more, hmore, hexit⟩ := ih (h.snoc hpasses)
      rw [List.length_append, List.length_singleton, List.append_assoc, ← hpiece] at hexit
      refine ⟨none :: more, ?_, ?_⟩
      · intro t ht
        rcases List.mem_cons.1 ht with rfl | ht
        · exact ⟨_, _, hlook.symm⟩
        · exact hmore t ht
      · rw [streamPieces, htake]
        exact hexit
    · rw [streamPieces, htake]
      exact ⟨_, by simp, h.exit hleaves⟩
    · have hexit := h.exit hleaves
      rw [List.append_nil] at hexit
      rw [streamPieces, htake]
      exact ⟨_, by simp, hexit⟩

/-! ## Answers -/

/-- A value that is a text. -/
def IsText (v : Value) : Prop := ∃ s, v = .text s

theorem exists_texts {pieces : List Value} (h : ∀ p ∈ pieces, IsText p) :
    ∃ texts : List String, pieces = texts.map .text := by
  induction pieces with
  | nil => exact ⟨[], rfl⟩
  | cons p pieces ih =>
    obtain ⟨s, rfl⟩ := h p List.mem_cons_self
    obtain ⟨texts, rfl⟩ := ih fun q hq => h q (List.mem_cons_of_mem _ hq)
    exact ⟨s :: texts, rfl⟩

theorem joinPieces_texts (texts : List String) :
    joinPieces (texts.map .text) = .ok (String.join texts) := by
  have hdisplay : (texts.map Value.text).map Value.display = texts := by
    rw [List.map_map]
    exact List.map_id texts
  unfold joinPieces
  split
  next i hi =>
    obtain ⟨hlength, hother, -⟩ := List.findIdx?_eq_some_iff_getElem.1 hi
    rw [List.getElem_map] at hother
    cases hother
  next => rw [hdisplay]

/-- Pieces are joined exactly if they are texts. -/
theorem joinPieces_cases (pieces : List Value) :
    (∃ texts : List String, pieces = texts.map .text) ∨
      (∃ p ∈ pieces, ¬ IsText p) ∧ ∃ i type, joinPieces pieces = .error (.notText i type) := by
  by_cases h : ∀ p ∈ pieces, IsText p
  · exact .inl (exists_texts h)
  · push Not at h
    refine .inr ⟨h, ?_⟩
    obtain ⟨p, hp, hother⟩ := h
    unfold joinPieces
    split
    next i _ => exact ⟨i, _, rfl⟩
    next hnone =>
      have htext := List.findIdx?_eq_none_iff.1 hnone p hp
      cases p with
      | text s => exact absurd ⟨s, rfl⟩ hother
      | _ => cases htext

/-- What the last object tells about an answer. -/
def answerOf (model : Value) (last : Object) (content : String) : Completion where
  content
  model := (Value.lookup "model" last).getD model
  tokens := (Value.lookup "eval_count" last).getD .null
  finish := (Value.lookup "done_reason" last).getD .null

theorem completion_texts (model : Value) (texts : List String) (last : Object) :
    completion model (texts.map .text) last = .ok (answerOf model last (String.join texts)) := by
  rw [completion, joinPieces_texts]
  rfl

/-- An answer is made of texts. -/
theorem texts_of_completion {model : Value} {last : Object} {c : Completion}
    (h : completion model pieces last = .ok c) :
    ∃ texts : List String, pieces = texts.map .text ∧ c.content = String.join texts := by
  rcases joinPieces_cases pieces with ⟨texts, rfl⟩ | ⟨-, i, type, herror⟩
  · rw [completion_texts] at h
    cases h
    exact ⟨texts, rfl, rfl⟩
  · rw [completion, herror] at h
    cases h

/-- Values have no decidable equality, but errors have. -/
theorem eq_error_of_decide {α : Type} {r : Except Error α}
    (h : (match r with | .ok _ => false | .error e' => decide (e' = e)) = true) : r = .error e := by
  cases r with
  | ok a => cases h
  | error e' => exact congrArg _ (of_decide_eq_true h)

theorem eq_ok_of_decide {r : Except Error Object} (h : r.isOk = true) :
    r = .ok (r.toOption.getD []) := by
  cases r with
  | ok fields => rfl
  | error e => cases h

theorem eq_text_of_decide {v : Option Value} {s : String}
    (h : (match v with | some (.text t) => t == s | _ => false) = true) : v = some (.text s) := by
  split at h
  next t => rw [beq_iff_eq.1 h]
  next => cases h

end DocSearch.Daemon
