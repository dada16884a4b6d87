import DocSearch.Proofs.Daemon.Delivery
import DocSearch.Proofs.Daemon.Escape
import DocSearch.Proofs.Json.Reading

/-!
# Agreement of streamed and whole answers

An answer may come as one object that holds its text, or as records that spell it (`Spells`): each
carries a piece, the last one ends the answer, and blank records may stand in between.

**One record.** The lines that are read are the pieces of the records. A record whose object holds no
character that ends a line comes to one line with that object, and to blank lines around it. Any
other comes to a line that is cut inside the object, and holds none (`fragments_carries`).

**All records.** By induction on the records, the lines lead to the last object, or to a line that
holds none (`Spells.found`, `Spells.lost`).

**`streaming_agrees_iff`**: both ways tell the same answer exactly if no object of the records holds
a character that ends a line.
-/

namespace DocSearch.Daemon

open Text

/-! ## Records -/

/-- A record that carries an object, with blanks around it or without. -/
def Carries (record : List Char) (fields : Object) : Prop :=
  Holds (trimBy Json.isSpace record) fields

/-- Records that spell an answer up to the object that ends it. -/
inductive Spells : List (List Char) → List String → Object → Prop
  | last {record s last} : Carries record last → isLast last = true → pieceOf last = .text s →
      Spells [record] [s] last
  | blank {record sent texts last} : record.all isBlank = true → Spells sent texts last →
      Spells (record :: sent) texts last
  | piece {record fields s sent texts last} : Carries record fields → isLast fields = false →
      pieceOf fields = .text s → Spells sent texts last →
      Spells (record :: sent) (s :: texts) last

/-- A record that is blank, or whose object holds no character that ends a line. -/
def Whole (record : List Char) : Prop :=
  record.all isBlank = false → Unbroken (trimBy Json.isSpace record)

variable {record : List Char} {sent rest lines : List (List Char)} {texts : List String}
  {fields last whole : Object} {s : String}

theorem object_eq_ok_iff {read : Except Json.Error Value} :
    object read = .ok fields ↔ read = .ok (.map fields) ∧ Value.lookup "error" fields = none := by
  unfold object
  split
  next e => simp
  next fields' =>
    cases herror : Value.lookup "error" fields' with
    | none =>
      simp only [Except.ok.injEq, Value.map.injEq]
      refine ⟨fun h => ⟨h, h ▸ herror⟩, And.left⟩
    | some e =>
      simp only [reduceCtorEq, Except.ok.injEq, Value.map.injEq, false_iff, not_and]
      rintro rfl
      simp [herror]
  next v hv =>
    simp only [reduceCtorEq, Except.ok.injEq, false_iff, not_and]
    rintro rfl
    exact absurd rfl (hv fields)

theorem isBlank_of_isSpace {c : Char} (h : Json.isSpace c = true) : isBlank c = true := by
  simp only [Json.isSpace, Bool.or_eq_true, beq_iff_eq] at h
  rcases h with ((rfl | rfl) | rfl) | rfl <;> rfl

theorem all_isBlank_of_subset {cs ds : List Char} (h : cs ⊆ ds)
    (hds : ∀ c ∈ ds, isBlank c = true) : cs.all isBlank = true :=
  List.all_eq_true.2 fun c hc => hds c (h hc)

/-- Blanks in front of a text come to blank lines, and to blanks in front of its first line. -/
theorem fragments_lead {lead : List Char} (h : ∀ c ∈ lead, Json.isSpace c = true) (cs : List Char) :
    ∃ before blanks, fragments (lead ++ cs) = before ++ fragments (blanks ++ cs) ∧
      (∀ l ∈ before, l.all isBlank = true) ∧ Unbroken blanks ∧
      ∀ c ∈ blanks, Json.isSpace c = true := by
  by_cases hlead : Unbroken lead
  · exact ⟨[], lead, rfl, by simp, hlead, h⟩
  · obtain ⟨a, c, b, rfl, hb, hc⟩ := exists_last_break hlead
    refine ⟨fragments a, b, ?_, fun l hl => ?_, hb, fun d hd => h d (by simp [hd])⟩
    · rw [List.append_assoc, List.cons_append, fragments_append_cons hc]
    · exact all_isBlank_of_subset (subset_of_mem_fragments hl) fun d hd =>
        isBlank_of_isSpace (h d (List.mem_append_left _ hd))

/-- Blanks behind a line come to blanks behind it, and to blank lines. -/
theorem fragments_trail {trail line : List Char} (hline : Unbroken line)
    (h : ∀ c ∈ trail, Json.isSpace c = true) :
    ∃ blanks after, fragments (line ++ trail) = (line ++ blanks) :: after ∧
      (∀ l ∈ after, l.all isBlank = true) ∧ ∀ c ∈ blanks, Json.isSpace c = true := by
  by_cases htrail : Unbroken trail
  · exact ⟨trail, [], fragments_of_unbroken (hline.append htrail), by simp, h⟩
  · obtain ⟨a, c, b, rfl, ha, hc⟩ := exists_first_break htrail
    refine ⟨a, fragments b, ?_, fun l hl => ?_, fun d hd => h d (List.mem_append_left _ hd)⟩
    · rw [← List.append_assoc, fragments_append_cons hc, fragments_of_unbroken (hline.append ha)]
      rfl
    · exact all_isBlank_of_subset (subset_of_mem_fragments hl) fun d hd =>
        isBlank_of_isSpace (h d (by simp [hd]))

/-- An object is held with blanks around it, too. -/
theorem Holds.padded {lead cs trail : List Char} (h : Holds cs fields)
    (hlead : ∀ c ∈ lead, Json.isSpace c = true) (htrail : ∀ c ∈ trail, Json.isSpace c = true) :
    Holds (lead ++ cs ++ trail) fields := by
  obtain ⟨hread, herror⟩ := object_eq_ok_iff.1 h.2
  refine ⟨?_, object_eq_ok_iff.2 ⟨Json.read_padded hread hlead htrail, herror⟩⟩
  simp only [List.all_append, h.1, Bool.and_false, Bool.false_and]

/-- A line that is cut inside an object holds none. -/
theorem breaks_of_cut {lead front trail : List Char} {c : Char}
    (h : Holds (front ++ c :: trail) fields) (hc : endsTextLine c = true)
    (hfront : ∀ d, (front ++ c :: trail).head? = some d → Json.isSpace d = false)
    (hback : ∀ d, (front ++ c :: trail).getLast? = some d → Json.isSpace d = false)
    (hlead : ∀ d ∈ lead, Json.isSpace d = true) : ∃ e, Breaks (lead ++ front) e := by
  obtain ⟨hread, -⟩ := object_eq_ok_iff.1 h.2
  obtain ⟨more, hmore⟩ := Json.brace_of_read hread
  have hskip : Json.skip (front ++ c :: trail) = front ++ c :: trail := by
    cases hcs : front ++ c :: trail with
    | nil => rfl
    | cons d ds =>
      rw [Json.skip, List.dropWhile_cons_of_neg (by simp [hfront d (by rw [hcs]; rfl)])]
  rw [hskip] at hmore
  have hblank : (lead ++ front).all isBlank = false := by
    cases front with
    | nil =>
      rw [List.nil_append, List.cons.injEq] at hmore
      rw [hmore.1] at hc
      cases hc
    | cons d front =>
      rw [List.cons_append, List.cons.injEq] at hmore
      rw [hmore.1, List.all_append, List.all_cons, show isBlank '{' = false from rfl,
        Bool.false_and, Bool.and_false]
  cases hcut : object (Json.read (lead ++ front)) with
  | error e => exact ⟨e, hblank, hcut⟩
  | ok fields' =>
    obtain ⟨z, hz⟩ : ∃ z, (c :: trail).getLast? = some z :=
      Option.ne_none_iff_exists'.1 (by simp [List.getLast?_eq_none_iff])
    have hspace := hback z (by rw [List.getLast?_append, hz]; rfl)
    exact absurd (object_eq_ok_iff.1 hcut).1
      (Json.read_cut hread (List.mem_of_getLast? hz) hspace hlead fields')

/-- **The lines of a record** that carries an object: its object stands on one of them with blank
ones around it, or one of them is cut inside the object. -/
theorem fragments_carries (h : Carries record fields) :
    ∃ before line after, fragments record = before ++ line :: after ∧
      (∀ l ∈ before, l.all isBlank = true) ∧
      (Unbroken (trimBy Json.isSpace record) →
        Holds line fields ∧ ∀ l ∈ after, l.all isBlank = true) ∧
      (¬ Unbroken (trimBy Json.isSpace record) → ∃ e, Breaks line e) := by
  obtain ⟨lead, trail, hrecord, hlead, htrail, hfront, hback⟩ :=
    exists_ends_of_trimBy Json.isSpace record
  unfold Carries at h
  generalize trimBy Json.isSpace record = body at h hrecord hfront hback ⊢
  obtain ⟨before, blanks, hfragments, hbefore, hunbroken, hblanks⟩ :=
    fragments_lead hlead (body ++ trail)
  rw [← List.append_assoc, ← hrecord, ← List.append_assoc] at hfragments
  by_cases hbody : Unbroken body
  · obtain ⟨blanks', after, htrailing, hafter, hblanks'⟩ :=
      fragments_trail (hunbroken.append hbody) htrail
    refine ⟨before, blanks ++ body ++ blanks', after, hfragments.trans (by rw [htrailing]), hbefore,
      fun _ => ⟨h.padded hblanks hblanks', hafter⟩, fun hbroken => absurd hbody hbroken⟩
  · obtain ⟨a, c, b, rfl, ha, hc⟩ := exists_first_break hbody
    refine ⟨before, blanks ++ a, fragments (b ++ trail), ?_, hbefore,
      fun hwhole => absurd hwhole hbody,
      fun _ => breaks_of_cut h hc hfront hback hblanks⟩
    rw [hfragments, ← List.append_assoc blanks, List.append_assoc (blanks ++ a), List.cons_append,
      fragments_append_cons hc, fragments_of_unbroken (hunbroken.append ha)]
    rfl

/-! ## Lines -/

/-- Lines that lead a worker whose token is not tripped to one of them, where it leaves the stream
whatever follows. -/
def Leads (lines : List (List Char)) (pieces : List Value) (last : Except Error Object) : Prop :=
  ∃ front line rest tail, lines = front ++ line :: rest ∧ (∀ cs ∈ front, Passes cs) ∧
    line.all isBlank = false ∧ pieces = front.flatMap piecesOf ++ tail ∧
    ∀ arrivals, Leaves none (.line line :: arrivals) tail last

variable {pieces : List Value} {result : Except Error Object}

theorem leads_done (h : Holds record fields) (hlast : isLast fields = true)
    (rest : List (List Char)) : Leads (record :: rest) (spoken fields) (.ok fields) :=
  ⟨[], record, rest, spoken fields, rfl, by simp, h.1, rfl, fun _ => .done h hlast⟩

theorem leads_unread {e : Error} (h : Breaks record e) (rest : List (List Char)) :
    Leads (record :: rest) [] (.error e) :=
  ⟨[], record, rest, [], rfl, by simp, h.1, rfl, fun _ => .unread h⟩

theorem Leads.behind {before : List (List Char)} (h : Leads lines pieces result)
    (hbefore : ∀ l ∈ before, Passes l) :
    Leads (before ++ lines) (before.flatMap piecesOf ++ pieces) result := by
  obtain ⟨front, line, rest, tail, rfl, hfront, hline, rfl, hleaves⟩ := h
  refine ⟨before ++ front, line, rest, tail, by simp, fun l hl => ?_, hline, by simp, hleaves⟩
  exact (List.mem_append.1 hl).elim (hbefore l) (hfront l)

theorem Leads.before (h : Leads lines pieces result) (more : List (List Char)) :
    Leads (lines ++ more) pieces result := by
  obtain ⟨front, line, rest, tail, rfl, hfront, hline, rfl, hleaves⟩ := h
  exact ⟨front, line, rest ++ more, tail, by simp, hfront, hline, rfl, hleaves⟩

/-- An empty line at the end does not matter. -/
theorem Leads.exit {read : List (List Char)} (h : Leads lines pieces result)
    (hread : read = lines ∨ read ++ [[]] = lines) :
    ∃ n, Exit (read.map .line) (List.replicate n none) pieces result := by
  obtain ⟨front, line, rest, tail, rfl, hfront, hline, rfl, hleaves⟩ := h
  have hne : line ≠ [] := by
    rintro rfl
    cases hline
  obtain ⟨more, rfl⟩ : ∃ more, read = front ++ line :: more := by
    rcases hread with hread | hread
    · exact ⟨rest, hread⟩
    · rcases List.append_eq_append_iff.1 hread with ⟨l, -, hempty⟩ | ⟨l, hl, hempty⟩
      · exact absurd (List.mem_singleton.1 (hempty ▸ by simp)) hne
      · cases l with
        | nil => exact absurd (List.cons.inj hempty).1 hne
        | cons k l => exact ⟨l, by rw [hl, (List.cons.inj hempty).1]⟩
  refine ⟨front.length + 1, ?_⟩
  have hpassed : Passed ((front ++ line :: more).map .line) front (List.replicate front.length none)
      (front.flatMap piecesOf) (.line line :: more.map .line) :=
    ⟨by simp, hfront, rfl, rfl⟩
  have hexit := hpassed.exit (hleaves (more.map .line))
  rwa [← List.replicate_succ'] at hexit

theorem flatMap_piecesOf_blank (h : ∀ l ∈ lines, l.all isBlank = true) :
    lines.flatMap piecesOf = [] :=
  List.flatMap_eq_nil_iff.2 fun l hl => by simp [piecesOf, h l hl]

theorem passes_blank (h : ∀ l ∈ lines, l.all isBlank = true) : ∀ l ∈ lines, Passes l :=
  fun l hl => .inl (h l hl)

theorem spoken_text (h : pieceOf fields = .text s) :
    spoken fields = ([s].filter (· ≠ "")).map .text := by
  unfold spoken
  rw [h]
  by_cases hs : s = "" <;> simp [hs, Value.truthy]

/-! ## Answers -/

theorem blank_fragments (h : record.all isBlank = true) :
    ∀ l ∈ fragments record, l.all isBlank = true :=
  fun _ hl => all_isBlank_of_subset (subset_of_mem_fragments hl) (List.all_eq_true.1 h)

theorem Carries.whole_iff (h : Carries record fields) :
    Whole record ↔ Unbroken (trimBy Json.isSpace record) := by
  refine ⟨fun hwhole => hwhole ?_, fun hunbroken _ => hunbroken⟩
  by_contra hblank
  rw [Bool.not_eq_false, List.all_eq_true] at hblank
  have hbody : (trimBy Json.isSpace record).all isBlank = true :=
    all_isBlank_of_subset (fun _ => mem_of_mem_trimBy) hblank
  rw [h.1] at hbody
  cases hbody

/-- A record with a piece comes to lines that pass. -/
theorem Carries.passes (h : Carries record fields) (hwhole : Whole record)
    (hmore : isLast fields = false) :
    (∀ l ∈ fragments record, Passes l) ∧ (fragments record).flatMap piecesOf = spoken fields := by
  obtain ⟨before, line, after, hfragments, hbefore, hholds, -⟩ := fragments_carries h
  obtain ⟨hline, hafter⟩ := hholds (h.whole_iff.1 hwhole)
  rw [hfragments]
  constructor
  · intro l hl
    rcases List.mem_append.1 hl with hl | hl
    · exact passes_blank hbefore l hl
    · rcases List.mem_cons.1 hl with rfl | hl
      · exact .inr ⟨fields, hline, hmore⟩
      · exact passes_blank hafter l hl
  · rw [List.flatMap_append, List.flatMap_cons, flatMap_piecesOf_blank hbefore,
      flatMap_piecesOf_blank hafter, hline.piecesOf_eq, List.nil_append, List.append_nil]

theorem Carries.leads_done (h : Carries record fields) (hwhole : Whole record)
    (hlast : isLast fields = true) : Leads (fragments record) (spoken fields) (.ok fields) := by
  obtain ⟨before, line, after, hfragments, hbefore, hholds, -⟩ := fragments_carries h
  have hline := (hholds (h.whole_iff.1 hwhole)).1
  have hleads := (Daemon.leads_done hline hlast after).behind (passes_blank hbefore)
  rwa [flatMap_piecesOf_blank hbefore, ← hfragments] at hleads

/-- A record whose object is cut comes to an error. -/
theorem Carries.leads_unread (h : Carries record fields) (hbroken : ¬ Whole record) :
    ∃ e, Leads (fragments record) [] (.error e) := by
  obtain ⟨before, line, after, hfragments, hbefore, -, hbreaks⟩ := fragments_carries h
  obtain ⟨e, he⟩ := hbreaks (mt h.whole_iff.2 hbroken)
  have hleads := (Daemon.leads_unread he after).behind (passes_blank hbefore)
  rw [flatMap_piecesOf_blank hbefore, ← hfragments] at hleads
  exact ⟨e, hleads⟩

/-- **Whole records** lead to the object that ends the answer. -/
theorem Spells.found (h : Spells sent texts last) (hwhole : ∀ record ∈ sent, Whole record) :
    Leads (sent.flatMap fragments) ((texts.filter (· ≠ "")).map .text) (.ok last) := by
  induction h with
  | last hcarries hlast hs =>
    rw [← spoken_text hs, List.flatMap_cons]
    exact (hcarries.leads_done (hwhole _ List.mem_cons_self) hlast).before _
  | blank hblank _ ih =>
    have hrest := (ih fun r hr => hwhole r (List.mem_cons_of_mem _ hr)).behind
      (passes_blank (blank_fragments hblank))
    rwa [flatMap_piecesOf_blank (blank_fragments hblank)] at hrest
  | @piece record fields s sent texts last hcarries hmore hs _ ih =>
    obtain ⟨hpasses, hpieces⟩ := hcarries.passes (hwhole _ List.mem_cons_self) hmore
    have hrest := (ih fun r hr => hwhole r (List.mem_cons_of_mem _ hr)).behind hpasses
    rw [hpieces, spoken_text hs, ← List.map_append, ← List.filter_append] at hrest
    exact hrest

/-- **A record that is not whole** leads to an error. -/
theorem Spells.lost (h : Spells sent texts last) (hbroken : ∃ record ∈ sent, ¬ Whole record) :
    ∃ pieces e, Leads (sent.flatMap fragments) pieces (.error e) := by
  induction h with
  | last hcarries _ _ =>
    obtain ⟨record, hrecord, hbroken⟩ := hbroken
    rw [List.mem_singleton.1 hrecord] at hbroken
    obtain ⟨e, hleads⟩ := hcarries.leads_unread hbroken
    exact ⟨_, e, hleads.before _⟩
  | @blank record sent texts last hblank _ ih =>
    have hwhole : Whole record := fun hnot => absurd (hblank.symm.trans hnot) (by simp)
    obtain ⟨pieces, e, hleads⟩ := ih (by simpa [hwhole] using hbroken)
    exact ⟨_, e, hleads.behind (passes_blank (blank_fragments hblank))⟩
  | @piece record fields s sent texts last hcarries hmore _ _ ih =>
    by_cases hwhole : Whole record
    · obtain ⟨pieces, e, hleads⟩ := ih (by simpa [hwhole] using hbroken)
      exact ⟨_, e, hleads.behind (hcarries.passes hwhole hmore).1⟩
    · obtain ⟨e, hleads⟩ := hcarries.leads_unread hwhole
      exact ⟨_, e, hleads.before _⟩

theorem join_filter (texts : List String) :
    String.join (texts.filter (· ≠ "")) = String.join texts := by
  induction texts with
  | nil => rfl
  | cons s texts ih => by_cases hs : s = "" <;> simp_all

/-- A reply whose text begins with these records. -/
structure Sends (r : Reply) (sent : List (List Char)) : Prop where
  accepted : r.isRefusal = false
  charset : r.charset = .utf8
  complete : r.failure = none
  records : ∃ rest, records r.text = sent ++ rest

/-- The lines of records lead to what a stream of them is left with. -/
theorem generation_leads {r : Reply} (hr : Sends r sent)
    (h : Leads (sent.flatMap fragments) pieces result) (model : Value) :
    generation model true (fun _ _ => none) (.replied r) =
      (pieces, result >>= completion model pieces) := by
  obtain ⟨rest, hrecords⟩ := hr.records
  have hlines := splitLines_records r.text
  rw [hrecords, List.flatMap_append] at hlines
  obtain ⟨n, hexit⟩ := (h.before (rest.flatMap fragments)).exit hlines
  rw [← arrivals_eq hr.charset hr.complete] at hexit
  exact generation_stream model ⟨r, n, rfl, hr.accepted, hexit⟩

/-- What a stream of whole records tells. -/
theorem generation_spelled {r : Reply} (hr : Sends r sent) (hsent : Spells sent texts last)
    (hwhole : ∀ record ∈ sent, Whole record) (model : Value) :
    generation model true (fun _ _ => none) (.replied r) =
      ((texts.filter (· ≠ "")).map .text, .ok (answerOf model last (String.join texts))) := by
  rw [generation_leads hr (hsent.found hwhole), ← join_filter texts, ← completion_texts]
  rfl

/-- A record that is not whole makes the stream an error. -/
theorem generation_broken {r : Reply} (hr : Sends r sent) (hsent : Spells sent texts last)
    (hbroken : ∃ record ∈ sent, ¬ Whole record) (model : Value) :
    ∃ e, (generation model true (fun _ _ => none) (.replied r)).2 = .error e := by
  obtain ⟨pieces, e, hleads⟩ := hsent.lost hbroken
  exact ⟨e, by rw [generation_leads hr hleads]; rfl⟩

/-- What one object tells, told with what another one has about the answer. -/
theorem generation_brought {plain : Outcome} (hplain : Brings plain whole)
    (htext : Value.lookup "response" whole = some (.text s))
    (hmeta : ∀ key ∈ ["model", "eval_count", "done_reason"],
      Value.lookup key whole = Value.lookup key last) (model : Value) :
    (generation model false (fun _ _ => none) plain).2 = .ok (answerOf model last s) := by
  have hpiece : pieceOf whole = .text s := by rw [pieceOf, htext, Option.getD_some]
  have hanswer : completion model [.text s] whole = .ok (answerOf model whole (String.join [s])) :=
    completion_texts model [s] whole
  have hsame : answerOf model whole (String.join [s]) = answerOf model last s := by
    unfold answerOf
    rw [hmeta "model" (by simp), hmeta "eval_count" (by simp), hmeta "done_reason" (by simp)]
    simp
  rw [generation_whole, (readObject_eq_ok_iff generatePath).2 hplain]
  dsimp only
  rw [hpiece, hanswer, hsame]

/-- **Streamed and whole answers.** Records that spell an answer, whatever follows them, and one
object with its whole text and with what the last record tells about it are answered alike exactly
if no object of the records holds a character that ends a line. The pieces that are then handed out
are those that are not empty, and they make up the text. -/
theorem streaming_agrees_iff {r : Reply} {plain : Outcome} (hr : Sends r sent)
    (hsent : Spells sent texts last) (hplain : Brings plain whole)
    (htext : Value.lookup "response" whole = some (.text (String.join texts)))
    (hmeta : ∀ key ∈ ["model", "eval_count", "done_reason"],
      Value.lookup key whole = Value.lookup key last) (model : Value) :
    let streamed := generation model true (fun _ _ => none) (.replied r)
    let told := generation model false (fun _ _ => none) plain
    told.2 = .ok (answerOf model last (String.join texts)) ∧
      (streamed.2 = told.2 ↔ ∀ record ∈ sent, Whole record) ∧
      ((∀ record ∈ sent, Whole record) →
        streamed.1 = (texts.filter (· ≠ "")).map .text ∧
          String.join (texts.filter (· ≠ "")) = String.join texts) := by
  intro streamed told
  have htold : told.2 = .ok (answerOf model last (String.join texts)) :=
    generation_brought hplain htext hmeta model
  have hspelled : (∀ record ∈ sent, Whole record) → streamed =
      ((texts.filter (· ≠ "")).map .text, .ok (answerOf model last (String.join texts))) :=
    fun hwhole => generation_spelled hr hsent hwhole model
  refine ⟨htold, ⟨fun hagree => ?_, fun hwhole => ?_⟩, fun hwhole => ?_⟩
  · by_contra hbroken
    push Not at hbroken
    obtain ⟨e, he⟩ := generation_broken hr hsent hbroken model
    have herror : streamed.2 = .error e := he
    rw [hagree, htold] at herror
    cases herror
  · rw [htold, hspelled hwhole]
  · exact ⟨by rw [hspelled hwhole], join_filter texts⟩

theorem carries_of_decide {record : List Char}
    (hblank : (trimBy Json.isSpace record).all isBlank = false)
    (h : (object (Json.read (trimBy Json.isSpace record))).isOk = true) :
    Carries record ((object (Json.read (trimBy Json.isSpace record))).toOption.getD []) :=
  ⟨hblank, eq_ok_of_decide h⟩

theorem pieceOf_of_decide {fields : Object} {s : String}
    (h : (match Value.lookup "response" fields with
      | some (.text t) => t == s
      | _ => false) = true) : pieceOf fields = .text s := by
  rw [pieceOf, eq_text_of_decide h, Option.getD_some]

/-- Two records that spell a greeting, with a blank one in between. -/
def greeting : List (List Char) :=
  ["\x7b\"response\":\"Hel\"\x7d".toList, [],
    "\x7b\"response\":\"lo\",\"model\":\"m\",\"done\":true\x7d".toList]

/-- The stream of a greeting, with another line behind it. -/
def greetingReply : Reply :=
  { parts := [Utf8.encode (String.ofList (['\n'].intercalate greeting) ++ "\n?")] }

/-- A greeting in two pieces and in one. -/
theorem streaming_agrees_greeting :
    let streamed := generation (.text "m") true (fun _ _ => none) (.replied greetingReply)
    let told := generation (.text "m") false (fun _ _ => none)
      (bodyReply "\x7b\"response\":\"Hello\",\"model\":\"m\"\x7d")
    streamed.2 = told.2 ∧ ∃ handed : List String, streamed.1 = handed.map .text ∧
      String.join handed = "Hello" := by
  intro streamed told
  have hrecords : records greetingReply.text = greeting ++ [['?']] := by decide +kernel
  have hsent : Spells greeting ["Hel", "lo"] _ :=
    .piece (carries_of_decide (by decide +kernel) (by decide +kernel)) (by decide +kernel)
      (pieceOf_of_decide (by decide +kernel)) <|
    .blank rfl <|
    .last (carries_of_decide (by decide +kernel) (by decide +kernel)) (by decide +kernel)
      (pieceOf_of_decide (by decide +kernel))
  have hplain : Brings (bodyReply "\x7b\"response\":\"Hello\",\"model\":\"m\"\x7d") _ :=
    ⟨_, rfl, rfl, rfl, eq_ok_of_decide (by decide +kernel)⟩
  have hwhole : ∀ record ∈ greeting, Whole record := by
    intro record hrecord _ c hc
    have hcheck : (greeting.all fun record =>
        (trimBy Json.isSpace record).all fun c => !endsTextLine c) = true := by decide +kernel
    simpa using List.all_eq_true.1 (List.all_eq_true.1 hcheck record hrecord) c hc
  obtain ⟨-, hagree, hhanded⟩ := streaming_agrees_iff ⟨rfl, rfl, rfl, _, hrecords⟩ hsent hplain
    (eq_text_of_decide (by decide +kernel)) (by
      intro key hkey
      simp only [List.mem_cons, List.not_mem_nil, or_false] at hkey
      rcases hkey with rfl | rfl | rfl
      · exact (eq_text_of_decide (by decide +kernel)).trans
          (eq_text_of_decide (s := "m") (by decide +kernel)).symm
      · exact (Option.isNone_iff_eq_none.1 (by decide +kernel)).trans
          (Option.isNone_iff_eq_none.1 (by decide +kernel)).symm
      · exact (Option.isNone_iff_eq_none.1 (by decide +kernel)).trans
          (Option.isNone_iff_eq_none.1 (by decide +kernel)).symm) (.text "m")
  exact ⟨hagree.2 hwhole, _, hhanded hwhole⟩

/-- The record of `nextLineReply`. -/
def nextLineRecord : List Char := "\x7b\"response\":\"a\u0085b\",\"done\":true\x7d".toList

/-- The record tells an answer as a whole, but on a stream its line is cut at `U+0085`. -/
theorem next_line_disagrees :
    (∃ last, Spells [nextLineRecord] ["a\u0085b"] last) ∧
      records nextLineReply.text = [nextLineRecord, []] ∧
      ((generation (.text "m") false (fun _ _ => none) (.replied nextLineReply)).2.toOption.map
        Completion.content) = some "a\u0085b" ∧
      (generation (.text "m") true (fun _ _ => none) (.replied nextLineReply)).2 =
        .error (.malformed (.fault .unterminated 1 13 12)) := by
  refine ⟨⟨_, .last (carries_of_decide (by decide +kernel) (by decide +kernel)) (by decide +kernel)
    (pieceOf_of_decide (by decide +kernel))⟩, ?_, ?_, eq_error_of_decide ?_⟩ <;> decide +kernel

end DocSearch.Daemon
