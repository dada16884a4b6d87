import DocSearch.Proofs.Daemon.Exits
import DocSearch.Proofs.Text.Lines
import DocSearch.Proofs.Text.Utf8

/-!
# What a stream delivers

A stream carries one object to a line. Whatever happens while it is read, and in whichever order, the
pieces handed out are those of the lines that were taken, each once and in order; no line is taken
behind the one where the stream is left; and an answer is what was handed out (`Delivered`).

**Lines.** The lines are those of the whole text, however the body was cut into parts
(`arrivals_eq`). They are not always what the daemon wrote on a line of its own: inside a text there
may be characters that end a line here and do not end one there.

**`stream_delivered`** is the law of delivery over the lines that are read, and says when these are
the records that were written.
-/

namespace DocSearch.Daemon

open Text

/-! ## The lines of a stream -/

/-- The text of a reply. -/
def Reply.text (r : Reply) : List Char := Utf8.decodeLossy r.body

theorem arrivalsFrom_eq {text : List Char} {lines : List (List Char)} {buffer : LineBuffer}
    (before : Bytes) (h : Gathered text lines buffer) (htext : text = Utf8.shownText before)
    (parts : List Bytes) :
    lines.map .line ++ arrivalsFrom .utf8 none before text.length buffer parts =
      (splitLines (Utf8.decodeLossy (before ++ parts.flatten))).map .line := by
  induction parts generalizing before text lines buffer with
  | nil =>
    have hwhole := Utf8.decodeLossy_append before []
    rw [List.append_nil, List.append_nil, ← htext] at hwhole
    have hrest : (Charset.utf8.decode true before).drop text.length =
        Utf8.decodeLossy (Utf8.complete before).2 := by
      rw [show Charset.utf8.decode true before = Utf8.decodeLossy before from rfl, hwhole,
        List.drop_left]
    have hflush := (h.take (Utf8.decodeLossy (Utf8.complete before).2)).flush
    rw [List.flatten_nil, List.append_nil, hwhole, ← hflush, arrivalsFrom, hrest, List.append_assoc,
      List.map_append]
  | cons p ps ih =>
    have hmore := Utf8.shownText_append before p
    rw [← htext] at hmore
    have hpart : (Charset.utf8.decode false (before ++ p)).drop text.length =
        Utf8.shownText ((Utf8.complete before).2 ++ p) := by
      rw [show Charset.utf8.decode false (before ++ p) = Utf8.shownText (before ++ p) from rfl,
        hmore, List.drop_left]
    have hnext := ih (before ++ p) (h.take (Utf8.shownText ((Utf8.complete before).2 ++ p)))
      hmore.symm
    rw [List.map_append, List.append_assoc, ← hmore, List.append_assoc before] at hnext
    rw [List.flatten_cons, ← hnext, arrivalsFrom]
    dsimp only
    rw [hpart]
    rfl

/-- **The lines of a stream** are those of its whole text, whatever its parts are. -/
theorem arrivals_eq {r : Reply} (hcharset : r.charset = .utf8) (hfailure : r.failure = none) :
    r.arrivals = (splitLines r.text).map .line := by
  have hempty : [] = Utf8.shownText [] := by simp [Utf8.shownText, Utf8.complete, Utf8.decodeLossy]
  unfold Reply.arrivals
  rw [hcharset, hfailure]
  exact arrivalsFrom_eq [] .empty hempty r.parts

/-! ## Delivery -/

/-- What is delivered of a stream when the worker has found the token in the states `seen` at its
steps. -/
structure Delivered (arrivals : List Arrival) (seen : List Trip) (w : Waiting) : Prop where
  /-- The pieces are those of the lines that were taken, up to the exit. -/
  course : Course arrivals seen w
  /-- The worker does not go on for ever. -/
  ends : arrivals.length + 2 ≤ seen.length → ∃ last, w.stage = .told last
  /-- The caller gets what it is told, or it gives up because the token is tripped. -/
  answered : Told w
  /-- A caller that has been told and looks has its answer. -/
  looked : ∀ last, w.stage = .told last → ∃ got, (w.step .look).answer = some got
  /-- An answer is what was handed out. -/
  content : ∀ model c, w.result? model = some (.ok c) →
    ∃ texts : List String, w.pieces = texts.map .text ∧ c.content = String.join texts
  /-- Nothing stands in the way of an answer if all pieces are texts. -/
  completed : ∀ model last, w.answer = some (.ok last) →
    (∀ cs fields, .line cs ∈ arrivals → Holds cs fields → IsText (pieceOf fields)) →
    ∃ c, w.result? model = some (.ok c)

variable {arrivals : List Arrival} {seen : List Trip} {pieces : List Value}
  {last : Except Error Object} {w : Waiting}

theorem isText_of_mem_piecesOf {cs : List Char} {p : Value} (hp : p ∈ piecesOf cs)
    (h : ∀ fields, Holds cs fields → IsText (pieceOf fields)) : IsText p := by
  unfold piecesOf at hp
  split_ifs at hp with hblank
  · cases hp
  · rw [Bool.not_eq_true] at hblank
    split at hp
    next fields hfields =>
      unfold spoken at hp
      split_ifs at hp
      · exact List.mem_singleton.1 hp ▸ h fields ⟨hblank, hfields⟩
      · cases hp
    next => cases hp

/-- What is handed out up to an exit stands in the lines of the stream. -/
theorem Exit.isText (h : Exit arrivals seen pieces last)
    (htexts : ∀ cs fields, .line cs ∈ arrivals → Holds cs fields → IsText (pieceOf fields)) :
    ∀ p ∈ pieces, IsText p := by
  obtain ⟨front, before, look, more, said, rest, tail, -, rfl, hpassed, hleaves⟩ := h
  intro p hp
  rcases List.mem_append.1 hp with hp | hp
  · rw [hpassed.pieces_eq, List.mem_flatMap] at hp
    obtain ⟨cs, hcs, hp⟩ := hp
    refine isText_of_mem_piecesOf hp fun fields => htexts cs fields ?_
    rw [hpassed.split]
    exact List.mem_append_left _ (List.mem_map_of_mem hcs)
  · cases hleaves with
    | @done cs fields rest hfields hlast =>
      rw [← hfields.piecesOf_eq] at hp
      refine isText_of_mem_piecesOf hp fun fields => htexts cs fields ?_
      rw [hpassed.split]
      exact List.mem_append_right _ List.mem_cons_self
    | _ => cases hp

theorem delivered_after (arrivals : List Arrival) (events : List Event) :
    Delivered arrivals ((Waiting.start arrivals).tokens events)
      ((Waiting.start arrivals).after events) := by
  have hcourse : Course arrivals ((Waiting.start arrivals).tokens events)
      ((Waiting.start arrivals).after events) := course_after (course_start arrivals) events
  have htold := told_after (told_start arrivals) events
  have hends : arrivals.length + 2 ≤ ((Waiting.start arrivals).tokens events).length →
      ∃ last, ((Waiting.start arrivals).after events).stage = .told last := told_of_steps
  generalize (Waiting.start arrivals).tokens events = seen at hcourse hends ⊢
  generalize (Waiting.start arrivals).after events = w at hcourse htold hends ⊢
  refine ⟨hcourse, hends, htold, fun _ => answer_of_told, fun model c hc => ?_,
    fun model last hanswer htexts => ?_⟩
  · obtain ⟨last, -, hlast⟩ := Option.map_eq_some_iff.1 hc
    cases last with
    | error e => cases hlast
    | ok fields => exact texts_of_completion hlast
  · rcases htold _ hanswer with hstage | ⟨reason, -, hcancelled⟩
    · unfold Course at hcourse
      rw [hstage] at hcourse
      obtain ⟨texts, hpieces⟩ := exists_texts (hcourse.isText htexts)
      refine ⟨answerOf model last (String.join texts), ?_⟩
      rw [Waiting.result?, hanswer, hpieces, Option.map_some]
      exact congrArg some (completion_texts model texts last)
    · cases hcancelled

/-- **The law of delivery.** Whatever happens while a stream is read, delivery is as described. The
lines of a stream are those of its text; and they are the records of this text, but for an empty one
at the end, exactly if no record holds a character that ends a line. Reading at once comes to the
same exit. -/
theorem stream_delivered (r : Reply) :
    (∀ events, Delivered r.arrivals ((Waiting.start r.arrivals).tokens events)
      ((Waiting.start r.arrivals).after events)) ∧
    (r.charset = .utf8 → r.failure = none → r.arrivals = (splitLines r.text).map .line) ∧
    (ReadsRecords r.text ↔ ∀ record ∈ records r.text, Unbroken record) ∧
    ∀ seen pieces last, r.isRefusal = false → Exit r.arrivals seen pieces last →
      replyPieces true (watchOf seen) (.replied r) = (pieces, last) := by
  refine ⟨delivered_after r.arrivals, arrivals_eq, readsRecords_iff r.text, ?_⟩
  intro seen pieces last hrefusal hexit
  rw [replyPieces, if_pos rfl, accept, hrefusal, if_neg Bool.false_ne_true]
  exact hexit.streamPieces_eq

/-- Two records, cut in the middle of a character. -/
def cutReply : Reply :=
  let body := Utf8.encode "\x7b\"response\":\"é\"\x7d\n\x7b\"done\":true\x7d\n"
  { parts := [body.take 14, body.drop 14] }

/-- In four steps the worker has told how it left the stream of two records. -/
theorem stream_delivered_cut :
    cutReply.arrivals = (splitLines cutReply.text).map .line ∧
      ∃ last, ((Waiting.start cutReply.arrivals).after [.work, .work, .work, .work]).stage =
          .told last ∧
        replyPieces true (watchOf [none, none, none, none]) (.replied cutReply) =
          (((Waiting.start cutReply.arrivals).after [.work, .work, .work, .work]).pieces, last) := by
  obtain ⟨hdelivered, hlines, -, hreply⟩ := stream_delivered cutReply
  obtain ⟨hcourse, hends, -⟩ := hdelivered [.work, .work, .work, .work]
  obtain ⟨last, hstage⟩ := hends (by decide +kernel)
  have hseen : (Waiting.start cutReply.arrivals).tokens [.work, .work, .work, .work] =
      [none, none, none, none] := by decide +kernel
  unfold Course at hcourse
  rw [hstage, hseen] at hcourse
  exact ⟨hlines rfl rfl, last, hstage, hreply _ _ _ rfl hcourse⟩

/-- One record whose text holds the character `U+0085`. -/
def nextLineReply : Reply :=
  { parts := [Utf8.encode "\x7b\"response\":\"a\u0085b\",\"done\":true\x7d\n"] }

/-- The record holds an answer of one piece, but its line is cut at `U+0085`: nothing is handed out,
and the answer is an error. -/
theorem next_line_lost :
    let events : List Event := [.work, .work, .work, .work, .look]
    let seen := (Waiting.start nextLineReply.arrivals).tokens events
    let w := (Waiting.start nextLineReply.arrivals).after events
    (streamPieces (watchOf seen) 0 [] ((records nextLineReply.text).map .line)).1.length = 1 ∧
      w.pieces.length = 0 ∧ ¬ Course ((records nextLineReply.text).map .line) seen w ∧
      (generation (.text "m") true (fun _ _ => none) (.replied nextLineReply)).2 =
        .error (.malformed (.fault .unterminated 1 13 12)) := by
  intro events seen w
  have hrecords :
      (streamPieces (watchOf seen) 0 [] ((records nextLineReply.text).map .line)).1.length = 1 := by
    decide +kernel
  have hpieces : w.pieces.length = 0 := by decide +kernel
  refine ⟨hrecords, hpieces, fun hcourse => ?_, eq_error_of_decide (by decide +kernel)⟩
  obtain ⟨last, hstage⟩ := (delivered_after nextLineReply.arrivals events).ends (by decide +kernel)
  unfold Course at hcourse
  rw [hstage] at hcourse
  rw [hcourse.streamPieces_eq, hpieces] at hrecords
  cases hrecords

end DocSearch.Daemon
