import DocSearch.Text.Lines
import Mathlib.Data.List.Basic
import Mathlib.Tactic.SplitIfs

/-!
# Lines, in parts and as a whole

A text that arrives in parts is cut into the same lines as the whole text (`Gathered.feed`,
`Gathered.flush`): at any time the buffer holds the line that is not complete, and a carriage return
apart from it.

Whoever writes one record to a line ends it with a line feed. The lines that are read are the pieces
of these records, cut at each character that ends a line (`splitLines_records`); they are the records
themselves exactly if no record holds such a character (`readsRecords_iff`).
-/

namespace DocSearch.Text

/-! ## Splitting at an element -/

theorem exists_splitOn {α : Type} [BEq α] (a : α) (xs : List α) :
    ∃ piece pieces, xs.splitOn a = piece :: pieces :=
  List.exists_cons_of_ne_nil (List.splitOn_ne_nil a xs)

theorem not_mem_of_mem_splitOn {α : Type} [BEq α] [LawfulBEq α] {a : α} {xs piece : List α}
    (h : piece ∈ xs.splitOn a) : a ∉ piece := by
  induction xs generalizing piece with
  | nil => simp_all
  | cons x xs ih =>
    obtain ⟨first, others, hsplit⟩ := exists_splitOn a xs
    rw [hsplit] at ih
    rw [List.splitOn_cons_eq_if_modifyHead, hsplit] at h
    split_ifs at h with hx
    · rcases List.mem_cons.1 h with rfl | hpiece
      · exact List.not_mem_nil
      · exact ih hpiece
    · rcases List.mem_cons.1 h with rfl | hpiece
      · have hax : a ≠ x := fun hax => hx (beq_iff_eq.2 hax.symm)
        exact List.not_mem_cons_of_ne_of_not_mem hax (ih List.mem_cons_self)
      · exact ih (List.mem_cons_of_mem _ hpiece)

/-! ## Complete lines -/

/-- A text without a character that ends a line. -/
def Unbroken (cs : List Char) : Prop := ∀ c ∈ cs, endsTextLine c = false

theorem unbroken_nil : Unbroken [] := fun _ hc => (nomatch hc)

/-- A text ends and another begins inside one line break. -/
def Seam (a b : List Char) : Prop := a.getLast? = some '\r' ∧ b.head? = some '\n'

variable {line cs a b text part : List Char} {lines : List (List Char)}

theorem Unbroken.append (ha : Unbroken a) (hb : Unbroken b) : Unbroken (a ++ b) :=
  List.forall_mem_append.2 ⟨ha, hb⟩

theorem cutLines_return (line cs : List Char) :
    cutLines line ('\r' :: '\n' :: cs) =
      (line.reverse :: (cutLines [] cs).1, (cutLines [] cs).2) := by
  rw [cutLines]

theorem cutLines_cons {c : Char} (h : ¬ Seam [c] cs) :
    cutLines line (c :: cs) =
      if endsTextLine c then (line.reverse :: (cutLines [] cs).1, (cutLines [] cs).2)
      else cutLines (c :: line) cs := by
  rw [cutLines]
  rintro cs' rfl rfl
  exact h ⟨rfl, rfl⟩

theorem Seam.cons (c : Char) (h : Seam a b) : Seam (c :: a) b :=
  ⟨by rw [List.getLast?_cons, h.1]; rfl, h.2⟩

theorem Seam.of_append {c : Char} (h : Seam [c] (a ++ b)) : Seam [c] a ∨ Seam (c :: a) b := by
  cases a with
  | nil => exact .inr h
  | cons d a => exact .inl h

theorem not_seam_of_ne {c : Char} (h : ∀ cs', c = '\r' → cs = '\n' :: cs' → False) :
    ¬ Seam [c] cs := by
  rintro ⟨hreturn, hfeed⟩
  obtain ⟨cs', rfl⟩ := List.head?_eq_some_iff.1 hfeed
  exact h cs' (Option.some.inj hreturn) rfl

/-- A text is cut part by part, if no line break is. -/
theorem cutLines_append (h : ¬ Seam a b) (line : List Char) :
    cutLines line (a ++ b) =
      ((cutLines line a).1 ++ (cutLines (cutLines line a).2.reverse b).1,
        (cutLines (cutLines line a).2.reverse b).2) := by
  induction line, a using cutLines.induct with
  | case1 line => simp [cutLines]
  | case2 line cs lines rest _ ih =>
    rw [List.cons_append, List.cons_append, cutLines_return, cutLines_return,
      ih fun hseam => h ((hseam.cons _).cons _)]
    rfl
  | case3 line c cs hne hc lines rest _ ih =>
    have hcs := not_seam_of_ne hne
    have hcsb : ¬ Seam [c] (cs ++ b) := fun hseam => hseam.of_append.elim hcs h
    rw [List.cons_append, cutLines_cons hcsb, cutLines_cons hcs, if_pos hc, if_pos hc,
      ih fun hseam => h (hseam.cons c)]
    rfl
  | case4 line c cs hne hc ih =>
    have hcs := not_seam_of_ne hne
    have hcsb : ¬ Seam [c] (cs ++ b) := fun hseam => hseam.of_append.elim hcs h
    rw [List.cons_append, cutLines_cons hcsb, cutLines_cons hcs, if_neg hc, if_neg hc,
      ih fun hseam => h (hseam.cons c)]

/-- What ends no line is put to the line at hand. -/
theorem cutLines_unbroken (h : Unbroken a) (line b : List Char) :
    cutLines line (a ++ b) = cutLines (a.reverse ++ line) b := by
  induction a generalizing line with
  | nil => rfl
  | cons c a ih =>
    have hc := h c List.mem_cons_self
    have hseam : ¬ Seam [c] (a ++ b) := fun hseam => by
      obtain rfl : c = '\r' := Option.some.inj hseam.1
      cases hc
    rw [List.cons_append, cutLines_cons hseam, hc, if_neg Bool.false_ne_true,
      ih fun d hd => h d (List.mem_cons_of_mem c hd)]
    simp

/-- Neither the complete lines nor what is left holds a character that ends a line. -/
theorem unbroken_cutLines (h : Unbroken line) (cs : List Char) :
    (∀ l ∈ (cutLines line cs).1, Unbroken l) ∧ Unbroken (cutLines line cs).2 := by
  have hreverse : ∀ {line : List Char}, Unbroken line → Unbroken line.reverse :=
    fun h c hc => h c (List.mem_reverse.1 hc)
  induction line, cs using cutLines.induct with
  | case1 line => exact ⟨fun l hl => (nomatch hl), hreverse h⟩
  | case2 line cs lines rest _ ih =>
    rw [cutLines_return]
    exact ⟨List.forall_mem_cons.2 ⟨hreverse h, (ih unbroken_nil).1⟩, (ih unbroken_nil).2⟩
  | case3 line c cs hne hc lines rest _ ih =>
    have hcs := not_seam_of_ne hne
    rw [cutLines_cons hcs, if_pos hc]
    exact ⟨List.forall_mem_cons.2 ⟨hreverse h, (ih unbroken_nil).1⟩, (ih unbroken_nil).2⟩
  | case4 line c cs hne hc ih =>
    have hcs := not_seam_of_ne hne
    rw [cutLines_cons hcs, if_neg hc]
    exact ih (List.forall_mem_cons.2 ⟨by simpa using hc, h⟩)

/-! ## Texts in parts -/

/-- A buffer has gathered a text: its complete lines have been given out, what is left of it is
pending, and a carriage return at its end is held back. -/
structure Gathered (text : List Char) (lines : List (List Char)) (b : LineBuffer) : Prop where
  returned_iff : b.returned = true ↔ text.getLast? = some '\r'
  cut : cutLines [] (if b.returned then text.dropLast else text) = (lines, b.pending)

namespace Gathered

variable {b : LineBuffer}

theorem empty : Gathered [] [] {} := ⟨by simp, by simp [cutLines]⟩

/-- The text that has been gathered, less the carriage return that is held back. -/
theorem text_eq (h : Gathered text lines b) :
    text = (if b.returned then text.dropLast else text) ++ if b.returned then ['\r'] else [] := by
  cases hreturned : b.returned with
  | false => simp
  | true =>
    obtain ⟨init, rfl⟩ := List.getLast?_eq_some_iff.1 (h.returned_iff.1 hreturned)
    simp

theorem unbroken_pending (h : Gathered text lines b) : Unbroken b.pending := by
  have hcut := (unbroken_cutLines unbroken_nil (if b.returned then text.dropLast else text)).2
  rwa [h.cut] at hcut

/-- What a buffer has gathered ends in no line break that goes on in what it holds back or gets. -/
theorem not_seam (h : Gathered text lines b) (part : List Char) :
    ¬ Seam (if b.returned then text.dropLast else text)
      ((if b.returned then ['\r'] else []) ++ part) := by
  cases hreturned : b.returned with
  | true => exact fun ⟨_, hfeed⟩ => by cases hfeed
  | false =>
    rintro ⟨hlast, -⟩
    rw [h.returned_iff.2 (by simpa using hlast)] at hreturned
    cases hreturned

/-- Cutting what is pending with more behind it goes on where the text was left. -/
theorem cutLines_more (h : Gathered text lines b) (part : List Char) :
    cutLines [] (text ++ part) =
      (lines ++ (cutLines [] (b.pending ++ (if b.returned then ['\r'] else []) ++ part)).1,
        (cutLines [] (b.pending ++ (if b.returned then ['\r'] else []) ++ part)).2) := by
  have hwhole := cutLines_append (h.not_seam part) []
  rw [h.cut, ← List.append_assoc, ← h.text_eq] at hwhole
  rw [hwhole, List.append_assoc b.pending, cutLines_unbroken h.unbroken_pending, List.append_nil]

theorem dropLast_if {ret : Bool} (hpart : part ≠ []) (cs : List Char) :
    (if ret then (cs ++ part).dropLast else cs ++ part) =
      cs ++ if ret then part.dropLast else part := by
  cases ret with
  | true => exact List.dropLast_append_of_ne_nil hpart
  | false => rfl

/-- **A further part** completes the lines that it completes in the whole text. -/
theorem feed (h : Gathered text lines b) (hpart : part ≠ []) :
    Gathered (text ++ part) (lines ++ (b.feed part).1) (b.feed part).2 := by
  have hlast : ∀ cs : List Char, (cs ++ part).getLast? = part.getLast? := by
    intro cs
    obtain ⟨c, hc⟩ := Option.ne_none_iff_exists'.1 (mt List.getLast?_eq_none_iff.1 hpart)
    rw [List.getLast?_append, hc]
    rfl
  constructor
  · show (_ == some '\r') = true ↔ _
    rw [beq_iff_eq, hlast, hlast]
  · have hcut := h.cutLines_more (if part.getLast? == some '\r' then part.dropLast else part)
    unfold LineBuffer.feed
    simp only [hlast]
    rw [dropLast_if hpart, dropLast_if hpart]
    exact hcut

/-- A part that may be empty. -/
theorem take (h : Gathered text lines b) (part : List Char) :
    Gathered (text ++ part) (lines ++ (if part.isEmpty then ([], b) else b.feed part).1)
      (if part.isEmpty then ([], b) else b.feed part).2 := by
  cases part with
  | nil => simpa using h
  | cons c cs => exact h.feed (List.cons_ne_nil c cs)

/-- **At the end** nothing is missing of the lines of the text. -/
theorem flush (h : Gathered text lines b) : lines ++ b.flush = splitLines text := by
  have hcut := h.cutLines_more []
  rw [List.append_nil, List.append_nil] at hcut
  unfold splitLines LineBuffer.flush
  rw [hcut]
  cases hreturned : b.returned with
  | true =>
    rw [cutLines_unbroken h.unbroken_pending]
    simp [cutLines, endsTextLine]
  | false =>
    have hpending := cutLines_unbroken h.unbroken_pending [] []
    rw [List.append_nil] at hpending
    simp only [Bool.false_eq_true, if_false, List.append_nil, hpending]
    cases b.pending <;> simp [cutLines]

end Gathered

/-! ## Records -/

/-- A line without the carriage return at its end. -/
def dropReturn (cs : List Char) : List Char := if cs.getLast? = some '\r' then cs.dropLast else cs

/-- The records of a text that has one of them on each line; behind a line feed at the end there is
an empty one. -/
def records (text : List Char) : List (List Char) := (text.splitOn '\n').map dropReturn

/-- The lines of a text are its records, but for an empty one at the end. -/
def ReadsRecords (text : List Char) : Prop :=
  splitLines text = records text ∨ splitLines text ++ [[]] = records text

/-- The pieces of a record, cut at each character that ends a line. -/
def fragments (record : List Char) : List (List Char) := record.splitOnP endsTextLine

theorem fragments_append_cons {c : Char} (hc : endsTextLine c = true) (a b : List Char) :
    fragments (a ++ c :: b) = fragments a ++ fragments b :=
  List.splitOnP_append_cons a b hc

theorem fragments_of_unbroken (h : Unbroken cs) : fragments cs = [cs] :=
  List.splitOnP_eq_singleton h

/-- The first character of a text that ends a line. -/
theorem exists_first_break (h : ¬ Unbroken cs) :
    ∃ a c b, cs = a ++ c :: b ∧ Unbroken a ∧ endsTextLine c = true := by
  have hfind : cs.find? endsTextLine ≠ none := by
    simpa [Unbroken] using h
  obtain ⟨c, hc⟩ := Option.ne_none_iff_exists'.1 hfind
  obtain ⟨hends, a, b, hcs, ha⟩ := List.find?_eq_some_iff_append.1 hc
  exact ⟨a, c, b, hcs, fun d hd => by simpa using ha d hd, hends⟩

/-- The last character of a text that ends a line. -/
theorem exists_last_break (h : ¬ Unbroken cs) :
    ∃ a c b, cs = a ++ c :: b ∧ Unbroken b ∧ endsTextLine c = true := by
  have hreverse : ¬ Unbroken cs.reverse := fun hcs => h fun c hc => hcs c (List.mem_reverse.2 hc)
  obtain ⟨b, c, a, hcs, hb, hends⟩ := exists_first_break hreverse
  refine ⟨a.reverse, c, b.reverse, ?_, fun d hd => hb d (List.mem_reverse.1 hd), hends⟩
  rw [← List.reverse_reverse cs, hcs]
  simp

/-- The pieces of a record hold nothing but characters of the record. -/
theorem subset_of_mem_fragments {piece : List Char} (h : piece ∈ fragments cs) : piece ⊆ cs := by
  induction cs generalizing piece with
  | nil => simp_all [fragments]
  | cons c cs ih =>
    unfold fragments at h ih
    rw [List.splitOnP_cons_eq_if_modifyHead] at h
    split_ifs at h
    · rcases List.mem_cons.1 h with rfl | hpiece
      · exact List.nil_subset _
      · exact List.subset_cons_of_subset c (ih hpiece)
    · obtain ⟨first, others, hsplit⟩ := List.exists_cons_of_ne_nil
        (List.splitOnP_ne_nil endsTextLine cs)
      rw [hsplit] at h ih
      rcases List.mem_cons.1 h with rfl | hpiece
      · exact List.cons_subset_cons c (ih List.mem_cons_self)
      · exact List.subset_cons_of_subset c (ih (List.mem_cons_of_mem _ hpiece))

theorem splitOnPPrepend_eq_cutLines (h : '\n' ∉ cs) (line : List Char) :
    List.splitOnPPrepend endsTextLine cs line = (cutLines line cs).1 ++ [(cutLines line cs).2] := by
  induction cs generalizing line with
  | nil => simp [cutLines]
  | cons c cs ih =>
    have hcs : '\n' ∉ cs := fun hmem => h (List.mem_cons_of_mem c hmem)
    have hseam : ¬ Seam [c] cs := fun ⟨_, hfeed⟩ => by
      obtain ⟨cs', rfl⟩ := List.head?_eq_some_iff.1 hfeed
      exact hcs List.mem_cons_self
    rw [List.splitOnPPrepend_cons_eq_if, cutLines_cons hseam]
    split_ifs
    · rw [← List.splitOnPPrepend_nil_right, ih hcs]
      rfl
    · exact ih hcs _

theorem fragments_eq (h : '\n' ∉ cs) :
    fragments cs = (cutLines [] cs).1 ++ [(cutLines [] cs).2] :=
  splitOnPPrepend_eq_cutLines h []

theorem dropReturn_cases (cs : List Char) :
    (∃ init, cs = init ++ ['\r'] ∧ dropReturn cs = init) ∨
      cs.getLast? ≠ some '\r' ∧ dropReturn cs = cs := by
  unfold dropReturn
  split_ifs with hreturn
  · obtain ⟨init, rfl⟩ := List.getLast?_eq_some_iff.1 hreturn
    exact .inl ⟨init, rfl, List.dropLast_concat⟩
  · exact .inr ⟨hreturn, rfl⟩

/-- A record and the line feed behind it come to the pieces of the record. -/
theorem cutLines_record (h : '\n' ∉ a) (b : List Char) :
    cutLines [] (a ++ '\n' :: b) =
      (fragments (dropReturn a) ++ (cutLines [] b).1, (cutLines [] b).2) := by
  rcases dropReturn_cases a with ⟨init, rfl, hdrop⟩ | ⟨hlast, hdrop⟩
  · have hinit : '\n' ∉ init := fun hmem => h (List.mem_append_left _ hmem)
    have hseam : ¬ Seam init ('\r' :: '\n' :: b) := fun ⟨_, hfeed⟩ => by cases hfeed
    rw [hdrop, fragments_eq hinit, List.append_assoc, List.singleton_append,
      cutLines_append hseam, cutLines_return]
    simp
  · have hseam : ¬ Seam a ('\n' :: b) := fun ⟨hreturn, _⟩ => hlast hreturn
    have hfeed : ¬ Seam ['\n'] b := fun ⟨hreturn, _⟩ => by cases hreturn
    have hends : endsTextLine '\n' = true := rfl
    rw [hdrop, fragments_eq h, cutLines_append hseam, cutLines_cons hfeed, if_pos hends]
    simp

/-- The last record may be ended by nothing, or by a carriage return alone. -/
theorem cutLines_last_record (h : '\n' ∉ a) :
    fragments (dropReturn a) = (cutLines [] a).1 ++ [(cutLines [] a).2] ∨
      fragments (dropReturn a) = (cutLines [] a).1 ∧ (cutLines [] a).2 = [] := by
  rcases dropReturn_cases a with ⟨init, rfl, hdrop⟩ | ⟨-, hdrop⟩
  · have hinit : '\n' ∉ init := fun hmem => h (List.mem_append_left _ hmem)
    have hseam : ¬ Seam init ['\r'] := fun ⟨_, hfeed⟩ => by cases hfeed
    right
    rw [hdrop, fragments_eq hinit, cutLines_append hseam]
    simp [cutLines, endsTextLine]
  · rw [hdrop]
    exact .inl (fragments_eq h)

theorem cutLines_records {ls : List (List Char)} (hls : ls ≠ []) (h : ∀ l ∈ ls, '\n' ∉ l) :
    let cut := cutLines [] (['\n'].intercalate ls)
    (ls.map dropReturn).flatMap fragments = cut.1 ++ [cut.2] ∨
      (ls.map dropReturn).flatMap fragments = cut.1 ∧ cut.2 = [] := by
  induction ls with
  | nil => exact absurd rfl hls
  | cons l ls ih =>
    have hl := h l List.mem_cons_self
    cases ls with
    | nil => simpa using cutLines_last_record hl
    | cons m ls =>
      have hrest := ih (List.cons_ne_nil m ls) fun k hk => h k (List.mem_cons_of_mem l hk)
      have hcut := cutLines_record hl (['\n'].intercalate (m :: ls))
      dsimp only at hrest ⊢
      rw [List.intercalate_cons_cons, List.append_assoc, List.singleton_append, hcut,
        List.map_cons, List.flatMap_cons, List.append_assoc]
      simpa only [List.append_cancel_left_eq] using hrest

/-- **The lines of a text** are the pieces of its records, but for an empty one at the end. -/
theorem splitLines_records (text : List Char) :
    splitLines text = (records text).flatMap fragments ∨
      splitLines text ++ [[]] = (records text).flatMap fragments := by
  have hcut := cutLines_records (List.splitOn_ne_nil '\n' text) fun l => not_mem_of_mem_splitOn
  rw [List.intercalate_splitOn] at hcut
  unfold splitLines records
  generalize cutLines [] text = cut at hcut
  obtain ⟨lines, rest⟩ := cut
  rcases hcut with hcut | ⟨hcut, rfl⟩
  · rw [hcut]
    cases rest with
    | nil => exact .inr rfl
    | cons c cs => exact .inl rfl
  · exact .inl hcut.symm

theorem unbroken_of_mem_splitLines (h : line ∈ splitLines text) : Unbroken line := by
  obtain ⟨hlines, hrest⟩ := unbroken_cutLines unbroken_nil text
  unfold splitLines at h
  dsimp only at h
  split_ifs at h
  · exact hlines line h
  · rcases List.mem_append.1 h with h | h
    · exact hlines line h
    · exact List.mem_singleton.1 h ▸ hrest

theorem flatMap_fragments {ls : List (List Char)} (h : ∀ l ∈ ls, Unbroken l) :
    ls.flatMap fragments = ls := by
  induction ls with
  | nil => rfl
  | cons l ls ih =>
    rw [List.flatMap_cons, fragments_of_unbroken (h l List.mem_cons_self),
      ih fun k hk => h k (List.mem_cons_of_mem l hk)]
    rfl

/-- **The lines are the records** exactly if no record holds a character that ends a line. -/
theorem readsRecords_iff (text : List Char) :
    ReadsRecords text ↔ ∀ record ∈ records text, Unbroken record := by
  constructor
  · rintro (h | h) record hrecord
    · exact unbroken_of_mem_splitLines (h ▸ hrecord)
    · rcases List.mem_append.1 (h ▸ hrecord) with hline | hempty
      · exact unbroken_of_mem_splitLines hline
      · rw [List.mem_singleton.1 hempty]
        exact unbroken_nil
  · intro h
    have hlines := splitLines_records text
    rwa [flatMap_fragments h] at hlines

end DocSearch.Text
