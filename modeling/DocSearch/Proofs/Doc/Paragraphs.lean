import Mathlib.Data.List.Chain
import Mathlib.Data.List.DropRight
import DocSearch.Doc.Comment
import DocSearch.Proofs.Text.Lines

/-!
# Documentation texts are made of paragraphs

The lines of a group of comments fall into *paragraphs*, the runs of lines between empty lines. The
documentation text of the group is its paragraphs one below the other, with one empty line between
any two and a line break behind the last (`textOf_eq`). This tells how the text begins and ends and
which lines are in it (`LaidOut`).

The text is built in one pass over the lines that keeps or drops each empty line. The induction
therefore speaks of both states of the pass: behind an empty line a paragraph may begin, and behind
another line the paragraph at hand goes on (`joinLines_squeeze`).
-/

namespace DocSearch.Doc

open Text

/-! ## Paragraphs -/

/-- The paragraphs of some lines: the runs of lines that stand between empty ones. -/
def paragraphs (ls : List (List Char)) : List (List (List Char)) :=
  (ls.splitOn []).filter (· ≠ [])

/-- Paragraphs one below the other with one empty line between any two. -/
def stacked (ps : List (List (List Char))) : List (List Char) := [[]].intercalate ps

/-- Lines as a text, each ended by a line break. -/
def ended (ls : List (List Char)) : List Char := ls.flatMap (· ++ [ '\n' ])

/-- Paragraphs that have lines, none of them empty. -/
def Filled (ps : List (List (List Char))) : Prop := ∀ p ∈ ps, p ≠ [] ∧ [] ∉ p

theorem splitOn_nil_cons (ls : List (List Char)) : ([] :: ls).splitOn [] = [] :: ls.splitOn [] := by
  simp [List.splitOn_cons_eq_if_modifyHead]

theorem splitOn_cons {l : List Char} (hl : l ≠ []) {ls piece : List (List Char)}
    {pieces : List (List (List Char))} (h : ls.splitOn [] = piece :: pieces) :
    (l :: ls).splitOn [] = (l :: piece) :: pieces := by
  simp [List.splitOn_cons_eq_if_modifyHead, hl, h]

theorem paragraphs_nil_cons (ls : List (List Char)) : paragraphs ([] :: ls) = paragraphs ls := by
  rw [paragraphs, splitOn_nil_cons]
  rfl

theorem paragraphs_cons {l : List Char} (hl : l ≠ []) {ls piece : List (List Char)}
    {pieces : List (List (List Char))} (h : ls.splitOn [] = piece :: pieces) :
    paragraphs (l :: ls) = (l :: piece) :: pieces.filter (· ≠ []) := by
  rw [paragraphs, splitOn_cons hl h]
  rfl

theorem filled_paragraphs (ls : List (List Char)) : Filled (paragraphs ls) := by
  intro p hp
  obtain ⟨hpiece, hne⟩ := List.mem_filter.1 hp
  exact ⟨of_decide_eq_true hne, not_mem_of_mem_splitOn hpiece⟩

/-- Paragraphs lose, add and reorder no line that is not empty. -/
theorem flatten_paragraphs (ls : List (List Char)) :
    (paragraphs ls).flatten = ls.filter (· ≠ []) := by
  induction ls with
  | nil => rfl
  | cons l ls ih =>
    by_cases hl : l = []
    · subst hl
      rw [paragraphs_nil_cons, ih]
      rfl
    · obtain ⟨piece, pieces, hsplit⟩ := exists_splitOn [] ls
      rw [paragraphs, hsplit, List.flatten_filter_ne_nil] at ih
      rw [paragraphs, splitOn_cons hl hsplit, List.flatten_filter_ne_nil,
        List.filter_cons_of_pos (by simpa using hl), ← ih]
      rfl

theorem paragraphs_eq_nil_iff {ls : List (List Char)} : paragraphs ls = [] ↔ ∀ l ∈ ls, l = [] := by
  constructor
  · intro h
    have hnone := flatten_paragraphs ls
    rw [h, eq_comm, List.flatten_nil, List.filter_eq_nil_iff] at hnone
    simpa using hnone
  · intro h
    by_contra hne
    obtain ⟨p, ps, hps⟩ := List.exists_cons_of_ne_nil hne
    have hp : p ∈ paragraphs ls := hps ▸ List.mem_cons_self
    obtain ⟨hpne, hempty⟩ := filled_paragraphs ls p hp
    obtain ⟨l, p', rfl⟩ := List.exists_cons_of_ne_nil hpne
    have hl : l ∈ ls.filter (· ≠ []) := by
      rw [← flatten_paragraphs]
      exact List.mem_flatten_of_mem hp List.mem_cons_self
    obtain ⟨hmem, hlne⟩ := List.mem_filter.1 hl
    exact of_decide_eq_true hlne (h l hmem)

/-! ## Paragraphs one below the other -/

theorem stacked_cons (p : List (List Char)) {ps : List (List (List Char))} (hps : ps ≠ []) :
    stacked (p :: ps) = p ++ [] :: stacked ps := by
  rw [stacked, List.intercalate_cons_of_ne_nil hps, List.append_assoc]
  rfl

theorem stacked_cons_cons (l : List Char) (p : List (List Char)) (ps : List (List (List Char))) :
    stacked ((l :: p) :: ps) = l :: stacked (p :: ps) :=
  List.intercalate_cons_cons_left

/-- Filled paragraphs are found again in their lines. -/
theorem paragraphs_stacked {ps : List (List (List Char))} (h : Filled ps) :
    paragraphs (stacked ps) = ps := by
  by_cases hps : ps = []
  · subst hps
    rfl
  · rw [paragraphs, stacked, List.splitOn_intercalate [] (fun p hp => (h p hp).2) hps,
      List.filter_eq_self]
    intro p hp
    exact decide_eq_true (h p hp).1

/-- An empty line at the end belongs to no paragraph. -/
theorem paragraphs_append_nil (ls : List (List Char)) :
    paragraphs (ls ++ [[]]) = paragraphs ls := by
  rw [paragraphs, List.splitOn_append_cons_self, List.filter_append]
  exact List.append_nil _

/-- No two lines in a row are empty. -/
def Gapless (ls : List (List Char)) : Prop := ls.IsChain fun l m => l ≠ [] ∨ m ≠ []

theorem Gapless.append {p ls : List (List Char)} (hp : [] ∉ p) (h : Gapless ls) :
    Gapless (p ++ ls) := by
  induction p with
  | nil => exact h
  | cons l p ih =>
    obtain ⟨hl, hrest⟩ := List.ne_and_not_mem_of_not_mem_cons hp
    exact List.isChain_cons.2 ⟨fun _ _ => .inl hl.symm, ih hrest⟩

/-- Put between empty lines, paragraphs leave no two empty lines in a row. -/
theorem gapless_stacked {ps : List (List (List Char))} (h : Filled ps) (hps : ps ≠ []) :
    Gapless ([] :: (stacked ps ++ [[]])) := by
  induction ps with
  | nil => exact absurd rfl hps
  | cons p ps ih =>
    obtain ⟨hne, hempty⟩ := h p List.mem_cons_self
    have hbehind : ∀ ls, Gapless ls → Gapless ([] :: (p ++ ls)) := by
      intro ls hls
      refine List.isChain_cons.2 ⟨fun l hl => .inr ?_, hls.append hempty⟩
      rw [List.head?_append_of_ne_nil p hne] at hl
      exact ne_of_mem_of_not_mem (List.mem_of_mem_head? hl) hempty
    by_cases hlast : ps = []
    · subst hlast
      rw [stacked, List.intercalate_singleton]
      exact hbehind [[]] (List.isChain_singleton [])
    · rw [stacked_cons p hlast, List.append_assoc]
      exact hbehind _ (ih (fun q hq => h q (List.mem_cons_of_mem p hq)) hlast)

/-- Between empty lines, lines without two empty ones in a row neither begin nor end with one. -/
theorem Gapless.ends {ls : List (List Char)} (h : Gapless ([] :: (ls ++ [[]]))) (hls : ls ≠ []) :
    (∀ l ∈ ls.head?, l ≠ []) ∧ ∀ l ∈ ls.getLast?, l ≠ [] := by
  obtain ⟨hfirst, hrest⟩ := List.isChain_cons.1 h
  obtain ⟨-, -, hseam⟩ := List.isChain_append.1 hrest
  rw [List.head?_append_of_ne_nil ls hls] at hfirst
  refine ⟨fun l hl => ?_, fun l hl => ?_⟩
  · simpa using hfirst l hl
  · simpa using hseam l hl [] rfl

theorem stacked_ne_nil {ps : List (List (List Char))} (h : Filled ps) (hps : ps ≠ []) :
    stacked ps ≠ [] := by
  intro hnil
  have hgapless := gapless_stacked h hps
  rw [hnil] at hgapless
  simp [Gapless] at hgapless

theorem mem_of_mem_stacked {ps : List (List (List Char))} {l : List Char} (h : l ∈ stacked ps) :
    l = [] ∨ ∃ p ∈ ps, l ∈ p := by
  induction ps with
  | nil => simp [stacked] at h
  | cons p ps ih =>
    by_cases hps : ps = []
    · subst hps
      exact .inr ⟨p, List.mem_cons_self, by simpa [stacked] using h⟩
    · rw [stacked_cons p hps] at h
      rcases List.mem_append.1 h with hp | hrest
      · exact .inr ⟨p, List.mem_cons_self, hp⟩
      · rcases List.mem_cons.1 hrest with rfl | hrest
        · exact .inl rfl
        · exact (ih hrest).imp_right fun ⟨q, hq, hl⟩ => ⟨q, List.mem_cons_of_mem p hq, hl⟩

theorem filter_stacked {ps : List (List (List Char))} (h : Filled ps) :
    (stacked ps).filter (· ≠ []) = ps.flatten := by
  rw [← flatten_paragraphs, paragraphs_stacked h]

theorem ended_cons (l : List Char) (ls : List (List Char)) :
    ended (l :: ls) = l ++ '\n' :: ended ls := by
  simp [ended]

/-- Lines that are ended are separated, with an empty line at the end. -/
theorem ended_eq_intercalate (ls : List (List Char)) :
    ended ls = [ '\n' ].intercalate (ls ++ [[]]) := by
  induction ls with
  | nil => rfl
  | cons l ls ih =>
    rw [ended_cons, ih, List.cons_append, List.intercalate_cons_of_ne_nil (by simp),
      List.append_assoc]
    rfl

theorem ended_eq_of_ne_nil {ls : List (List Char)} (hls : ls ≠ []) :
    ended ls = [ '\n' ].intercalate ls ++ [ '\n' ] := by
  induction ls with
  | nil => exact absurd rfl hls
  | cons l ls ih =>
    rw [ended_cons]
    by_cases hrest : ls = []
    · subst hrest
      rw [List.intercalate_singleton]
      rfl
    · rw [ih hrest, List.intercalate_cons_of_ne_nil hrest]
      simp

/-- A text whose first line is not empty does not begin with a line break. -/
theorem head?_ended {l : List Char} (hl : l ≠ []) (hnewline : '\n' ∉ l) (ls : List (List Char)) :
    (ended (l :: ls)).head? ≠ some '\n' := by
  obtain ⟨c, l', rfl⟩ := List.exists_cons_of_ne_nil hl
  rw [ended_cons, List.cons_append, List.head?_cons]
  intro hc
  exact hnewline (Option.some.inj hc ▸ List.mem_cons_self)

/-- A text whose last line is not empty ends in one line break. -/
theorem exists_ended_eq {l : List Char} (hl : l ≠ []) (hnewline : '\n' ∉ l)
    (ls : List (List Char)) :
    ∃ front c, ended (ls ++ [l]) = front ++ [c, '\n'] ∧ c ≠ '\n' := by
  obtain ⟨l', c, rfl⟩ := (List.eq_nil_or_concat l).resolve_left hl
  refine ⟨ended ls ++ l', c, by simp [ended], ?_⟩
  rintro rfl
  exact hnewline (by simp)

theorem splitOn_ended {ls : List (List Char)} (h : ∀ l ∈ ls, '\n' ∉ l) :
    (ended ls).splitOn '\n' = ls ++ [[]] := by
  rw [ended_eq_intercalate]
  refine List.splitOn_intercalate '\n' (fun l hl => ?_) (by simp)
  rcases List.mem_append.1 hl with hl | hl
  · exact h l hl
  · rw [List.mem_singleton.1 hl]
    exact List.not_mem_nil

/-- A text that has the paragraphs of some lines one below the other. It begins with no empty line,
has no two empty lines in a row, ends in one line break and has all lines that are not empty, in
their order. -/
structure LaidOut (ls : List (List Char)) (text : List Char) : Prop where
  nil_iff : paragraphs ls = [] ↔ ∀ l ∈ ls, l = []
  text_eq : text = if paragraphs ls = [] then []
    else [ '\n' ].intercalate (stacked (paragraphs ls)) ++ [ '\n' ]
  begins : text.head? ≠ some '\n'
  gapless : Gapless (text.splitOn '\n')
  ends : text = [] ∨ ∃ front c, text = front ++ [c, '\n'] ∧ c ≠ '\n'
  kept : (text.splitOn '\n').filter (· ≠ []) = ls.filter (· ≠ [])

theorem laidOut_ended {ls : List (List Char)}
    (h : ∀ l ∈ stacked (paragraphs ls), '\n' ∉ l) :
    LaidOut ls (ended (stacked (paragraphs ls))) := by
  have hfilled : Filled (paragraphs ls) := filled_paragraphs ls
  have hkept : ((ended (stacked (paragraphs ls))).splitOn '\n').filter (· ≠ []) =
      ls.filter (· ≠ []) := by
    rw [splitOn_ended h, List.filter_append, filter_stacked hfilled, flatten_paragraphs]
    exact List.append_nil _
  by_cases hps : paragraphs ls = []
  · have hempty : ended (stacked (paragraphs ls)) = [] := by
      rw [hps]
      rfl
    refine ⟨paragraphs_eq_nil_iff, ?_, ?_, ?_, .inl hempty, hkept⟩
    · rw [if_pos hps, hempty]
    · rw [hempty]
      exact Option.some_ne_none _ ∘ Eq.symm
    · rw [hempty]
      exact List.isChain_singleton []
  have hgapless := gapless_stacked hfilled hps
  have hne := stacked_ne_nil hfilled hps
  obtain ⟨hhead, hlast⟩ := hgapless.ends hne
  refine ⟨paragraphs_eq_nil_iff, ?_, ?_, ?_, .inr ?_, hkept⟩
  · rw [if_neg hps, ended_eq_of_ne_nil hne]
  · obtain ⟨l, rest, hstacked⟩ := List.exists_cons_of_ne_nil hne
    rw [hstacked] at h hhead ⊢
    exact head?_ended (hhead l rfl) (h l List.mem_cons_self) rest
  · rw [splitOn_ended h]
    exact (List.isChain_cons.1 hgapless).2
  · obtain ⟨front, l, hstacked⟩ := (List.eq_nil_or_concat _).resolve_left hne
    rw [List.concat_eq_append] at hstacked
    rw [hstacked] at h hlast ⊢
    exact exists_ended_eq (hlast l List.getLast?_concat) (h l (by simp)) front

/-! ## The text of paragraphs -/

theorem joinLines_cons {l : List Char} (hl : l ≠ []) (ls : List (List Char)) :
    joinLines (l :: ls) = l ++ '\n' :: joinLines ls := by
  cases ls with
  | nil => simp [joinLines, hl]
  | cons => rfl

theorem joinLines_nil_cons {ls : List (List Char)} (hls : ls ≠ []) :
    joinLines ([] :: ls) = '\n' :: joinLines ls := by
  cases ls with
  | nil => exact absurd rfl hls
  | cons => rfl

/-- Nothing is left of lines without paragraphs. -/
theorem squeeze_eq_nil_iff {ls : List (List Char)} : squeeze true ls = [] ↔ paragraphs ls = [] := by
  induction ls with
  | nil => simp [squeeze, paragraphs]
  | cons l ls ih =>
    by_cases hl : l = []
    · subst hl
      rw [paragraphs_nil_cons, ← ih]
      rfl
    · obtain ⟨piece, pieces, hsplit⟩ := exists_splitOn [] ls
      simp [squeeze, paragraphs_cons hl hsplit, hl]

/-- **One pass lays out the paragraphs.** Behind an empty line the pass lays out the paragraphs of
the lines to come; behind another line it goes on with the paragraph at hand. -/
theorem joinLines_squeeze {ls piece : List (List Char)} {pieces : List (List (List Char))}
    (h : ls.splitOn [] = piece :: pieces) :
    joinLines (squeeze true ls) = ended (stacked (paragraphs ls)) ∧
      joinLines (squeeze false ls) = ended (stacked (piece :: pieces.filter (· ≠ []))) := by
  induction ls generalizing piece pieces with
  | nil =>
    obtain ⟨rfl, rfl⟩ := List.cons.inj h
    exact ⟨rfl, rfl⟩
  | cons l ls ih =>
    obtain ⟨first, others, hsplit⟩ := exists_splitOn [] ls
    obtain ⟨hbehind, hinside⟩ := ih hsplit
    by_cases hl : l = []
    · subst hl
      rw [splitOn_nil_cons] at h
      obtain ⟨rfl, rfl⟩ := List.cons.inj h
      refine ⟨by rw [paragraphs_nil_cons]; exact hbehind, ?_⟩
      change joinLines ([] :: squeeze true ls) = ended (stacked ([] :: paragraphs ls))
      by_cases hnone : paragraphs ls = []
      · rw [squeeze_eq_nil_iff.2 hnone, hnone]
        rfl
      · rw [joinLines_nil_cons (mt squeeze_eq_nil_iff.1 hnone), hbehind, stacked_cons _ hnone,
          List.nil_append, ended_cons, List.nil_append]
    · rw [splitOn_cons hl hsplit] at h
      obtain ⟨rfl, rfl⟩ := List.cons.inj h
      have hkept : ∀ gap, squeeze gap (l :: ls) = l :: squeeze false ls := by
        intro gap
        simp [squeeze, hl]
      rw [hkept, hkept, joinLines_cons hl, hinside, paragraphs_cons hl hsplit, stacked_cons_cons,
        ended_cons]
      exact ⟨rfl, rfl⟩

/-- **The documentation text of a group** is its paragraphs one below the other. -/
theorem textOf_eq (comments : List (List Char)) :
    textOf comments = ended (stacked (paragraphs (lines comments))) := by
  obtain ⟨piece, pieces, hsplit⟩ := exists_splitOn [] (lines comments)
  exact (joinLines_squeeze hsplit).1

/-! ## The lines of a group -/

theorem splitAt_eq_splitOn (sep : Char) (cs : List Char) : splitAt sep cs = cs.splitOn sep := by
  induction cs with
  | nil => rfl
  | cons c cs ih =>
    obtain ⟨piece, pieces, hsplit⟩ := exists_splitOn sep cs
    rw [splitAt, ih, hsplit, List.splitOn_cons_eq_if_modifyHead, hsplit]
    rfl

/-- The lines of a comment: none, if the comment is a directive. -/
def linesOf (comment : List Char) : List (List Char) :=
  (body? comment).toList.flatMap fun b => (b.splitOn '\n').map (List.rdropWhile isLineBlank)

theorem lines_eq (comments : List (List Char)) :
    lines comments = (comments.filterMap body?).flatMap
      (fun b => (b.splitOn '\n').map (List.rdropWhile isLineBlank)) := by
  unfold lines
  simp only [splitAt_eq_splitOn]
  rfl

theorem lines_eq_flatMap (comments : List (List Char)) :
    lines comments = comments.flatMap linesOf := by
  rw [lines_eq]
  induction comments with
  | nil => rfl
  | cons c cs ih =>
    rw [List.flatMap_cons, ← ih, linesOf, List.filterMap_cons]
    cases body? c <;> simp

/-- A line holds no line break, and no blank ends it. -/
theorem of_mem_lines {comments : List (List Char)} {l : List Char} (h : l ∈ lines comments) :
    '\n' ∉ l ∧ l.rdropWhile isLineBlank = l := by
  rw [lines_eq_flatMap] at h
  obtain ⟨c, -, hl⟩ := List.mem_flatMap.1 h
  obtain ⟨b, -, hl⟩ := List.mem_flatMap.1 hl
  obtain ⟨piece, hpiece, rfl⟩ := List.mem_map.1 hl
  refine ⟨fun hnewline => ?_, List.rdropWhile_idempotent _ _⟩
  exact not_mem_of_mem_splitOn hpiece ((List.rdropWhile_prefix _ _).subset hnewline)

/-- The lines of paragraphs are among those that they were made of, or empty. -/
theorem of_mem_stacked {comments : List (List Char)} {l : List Char}
    (h : l ∈ stacked (paragraphs (lines comments))) : '\n' ∉ l ∧ l.rdropWhile isLineBlank = l := by
  rcases mem_of_mem_stacked h with rfl | ⟨p, hp, hl⟩
  · exact ⟨List.not_mem_nil, rfl⟩
  · have hline : l ∈ (lines comments).filter (· ≠ []) := by
      rw [← flatten_paragraphs]
      exact List.mem_flatten_of_mem hp hl
    exact of_mem_lines (List.mem_filter.1 hline).1

/-- The lines of a documentation text are those of its paragraphs. -/
theorem splitOn_textOf (comments : List (List Char)) :
    (textOf comments).splitOn '\n' = stacked (paragraphs (lines comments)) ++ [[]] := by
  rw [textOf_eq, splitOn_ended fun l hl => (of_mem_stacked hl).1]

/-- **A documentation text is made of paragraphs.** They are the runs of lines between empty lines
that the bodies of the comments have when their trailing blanks are dropped. -/
theorem commentText_eq_paragraphs (comments : List String) :
    lines (comments.map String.toList) =
        ((comments.map String.toList).filterMap body?).flatMap
          (fun b => (b.splitOn '\n').map (List.rdropWhile isLineBlank)) ∧
      LaidOut (lines (comments.map String.toList)) (commentText comments).toList := by
  refine ⟨lines_eq _, ?_⟩
  rw [commentText, String.toList_ofList, textOf_eq]
  exact laidOut_ended fun l hl => (of_mem_stacked hl).1

end DocSearch.Doc
