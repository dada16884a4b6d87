import DocSearch.Proofs.Doc.Spelling

/-!
# Directives, and only directives, are left out

A `//` comment whose body is a *directive* says nothing to a reader. What a directive is, is told
here as a grammar (`Directive`), and the test that cuts a name off the front of the body and looks
at the two characters behind it is shown to accept exactly this grammar (`isDirective_iff`).

**A directive vanishes.** It has no lines, so the group without it has the same lines, and a text is
a function of the lines. Nothing is left of its place: the lines in front of it and behind it become
neighbours before empty lines are dropped, and if both are part of a paragraph it is one paragraph.

**Every other comment is said.** Its body without one leading space, cut at line breaks and without
trailing blanks, stands between the lines of the others (`linesOf_of_not_directive`). A general
comment with the same body has the same lines, and is never a directive.
-/

namespace DocSearch.Doc

open Text

/-! ## The grammar of directives -/

/-- The small letters and the digits, of which the names of directives are made. -/
def IsNameChar (c : Char) : Prop := ('a' ≤ c ∧ c ≤ 'z') ∨ ('0' ≤ c ∧ c ≤ '9')

/-- The bodies that are directives: a directive word and anything behind it, or a name, a colon, one
more character of a name and anything behind them. -/
inductive Directive : List Char → Prop where
  | word {w : String} (rest : List Char) :
      w ∈ ["line ", "extern ", "export "] → Directive (w.toList ++ rest)
  | named {name : List Char} {c : Char} (rest : List Char) :
      name ≠ [] → (∀ a ∈ name, IsNameChar a) → IsNameChar c → Directive (name ++ ':' :: c :: rest)

theorem isDirectiveChar_iff {c : Char} : isDirectiveChar c = true ↔ IsNameChar c := by
  simp [isDirectiveChar, isAsciiDigit, IsNameChar]

theorem after?_isSome_iff {p cs : List Char} :
    (after? p cs).isSome = true ↔ ∃ rest, cs = p ++ rest := by
  induction p generalizing cs with
  | nil => simp [after?]
  | cons a p ih =>
    cases cs with
    | nil => simp [after?]
    | cons c cs =>
      by_cases hac : a = c
      · simp [after?, hac, ih]
      · simp [after?, hac, Ne.symm hac]

/-- A body begins with a directive word. -/
theorem begins_with_word_iff {body : List Char} :
    directiveWords.any (fun w => (after? w.toList body).isSome) = true ↔
      ∃ w ∈ ["line ", "extern ", "export "], ∃ rest, body = w.toList ++ rest := by
  rw [List.any_eq_true]
  exact exists_congr fun w => and_congr_right fun _ => after?_isSome_iff

/-- The name in front of the colon is all that the test cuts off: no colon is in a name. -/
theorem cut_name {name : List Char} (hname : ∀ a ∈ name, IsNameChar a) (rest : List Char) :
    (name ++ ':' :: rest).takeWhile isDirectiveChar = name ∧
      (name ++ ':' :: rest).dropWhile isDirectiveChar = ':' :: rest := by
  have hname' : ∀ a ∈ name, isDirectiveChar a = true := fun a ha =>
    isDirectiveChar_iff.2 (hname a ha)
  have hcolon : isDirectiveChar ':' = false := by decide
  rw [List.takeWhile_append_of_pos hname', List.dropWhile_append_of_pos hname']
  simp [hcolon]

/-- **The test accepts the grammar**, whatever the body is. -/
theorem isDirective_iff {body : List Char} : isDirective body = true ↔ Directive body := by
  rw [isDirective, Bool.or_eq_true, begins_with_word_iff]
  constructor
  · intro h
    rcases h with ⟨w, hw, rest, rfl⟩ | hnamed
    · exact Directive.word rest hw
    · have hbody := List.takeWhile_append_dropWhile (p := isDirectiveChar) (l := body)
      have hname : ∀ a ∈ body.takeWhile isDirectiveChar, IsNameChar a := fun a ha =>
        isDirectiveChar_iff.1 (List.mem_takeWhile_imp ha)
      split at hnamed
      next a name c rest htake hdrop =>
        rw [htake] at hname
        rw [htake, hdrop] at hbody
        rw [← hbody]
        exact Directive.named rest (List.cons_ne_nil a name) hname (isDirectiveChar_iff.1 hnamed)
      next => exact absurd hnamed Bool.false_ne_true
  · intro h
    cases h with
    | word rest hw => exact .inl ⟨_, hw, rest, rfl⟩
    | @named name c rest hne hname hc =>
      obtain ⟨htake, hdrop⟩ := cut_name hname (c :: rest)
      obtain ⟨a, name, rfl⟩ := List.exists_cons_of_ne_nil hne
      rw [htake, hdrop]
      exact .inr (isDirectiveChar_iff.2 hc)

/-- A space is in front of no directive. -/
theorem not_directive_space (cs : List Char) : ¬ Directive (' ' :: cs) := by
  rw [← isDirective_iff]
  simp [isDirective, directiveWords, after?, isDirectiveChar, isAsciiDigit]

/-! ## The lines of a `//` comment -/

/-- A text without the space in front of it, if there is one. -/
def unspaced (cs : List Char) : List Char := if cs.head? = some ' ' then cs.tail else cs

/-- What a `//` comment says that is no directive: its lines without the space behind the marker and
without trailing blanks. -/
def said (body : List Char) : List (List Char) :=
  ((unspaced body).splitOn '\n').map (List.rdropWhile isLineBlank)

theorem body?_of_not_directive {body : List Char} (h : ¬ Directive body) :
    body? ('/' :: '/' :: body) = some (unspaced body) := by
  by_cases hspace : body.head? = some ' '
  · obtain ⟨cs, rfl⟩ := List.head?_eq_some_iff.1 hspace
    rfl
  · rw [body?_line hspace, if_neg (mt isDirective_iff.1 h), unspaced, if_neg hspace]

theorem body?_of_directive {body : List Char} (h : Directive body) :
    body? ('/' :: '/' :: body) = none := by
  have hspace : body.head? ≠ some ' ' := by
    intro hspace
    obtain ⟨cs, rfl⟩ := List.head?_eq_some_iff.1 hspace
    exact not_directive_space cs h
  rw [body?_line hspace, if_pos (isDirective_iff.2 h)]

theorem linesOf_of_directive {body : List Char} (h : Directive body) :
    linesOf ('/' :: '/' :: body) = [] := by
  rw [linesOf, body?_of_directive h]
  rfl

theorem linesOf_of_not_directive {body : List Char} (h : ¬ Directive body) :
    linesOf ('/' :: '/' :: body) = said body := by
  rw [linesOf, body?_of_not_directive h]
  simp [said]

theorem linesOf_general (cs : List Char) :
    linesOf ('/' :: '*' :: (cs ++ [ '*', '/' ])) =
      (cs.splitOn '\n').map (List.rdropWhile isLineBlank) := by
  rw [linesOf, body?_enclosed]
  simp

/-- The lines of a group are those of the comments in front, of one comment and of those behind. -/
theorem lines_append_cons (xs ys : List String) (c : String) :
    lines ((xs ++ c :: ys).map String.toList) =
      lines (xs.map String.toList) ++ linesOf c.toList ++ lines (ys.map String.toList) := by
  simp [lines_eq_flatMap]

/-- The text of a group is told by its lines. -/
theorem commentText_congr {cs ds : List String}
    (h : lines (cs.map String.toList) = lines (ds.map String.toList)) :
    commentText cs = commentText ds := by
  rw [← String.toList_inj, toList_commentText, toList_commentText, h]

/-- What a text holds, apart from the separators, is in one of its pieces. -/
theorem exists_mem_splitOn {sep c : Char} {cs : List Char} (hc : c ∈ cs) (hsep : c ≠ sep) :
    ∃ piece ∈ cs.splitOn sep, c ∈ piece := by
  induction cs with
  | nil => exact absurd hc List.not_mem_nil
  | cons d cs ih =>
    obtain ⟨first, others, hsplit⟩ := exists_splitOn sep cs
    rw [hsplit] at ih
    rw [List.splitOn_cons_eq_if_modifyHead, hsplit]
    split_ifs with hd
    · have hcs : c ∈ cs := List.mem_of_ne_of_mem (fun hcd => hsep (hcd.trans (beq_iff_eq.1 hd))) hc
      obtain ⟨piece, hpiece, hmem⟩ := ih hcs
      exact ⟨piece, List.mem_cons_of_mem [] hpiece, hmem⟩
    · by_cases hcd : c = d
      · exact ⟨d :: first, List.mem_cons_self, hcd ▸ List.mem_cons_self⟩
      · obtain ⟨piece, hpiece, hmem⟩ := ih (List.mem_of_ne_of_mem hcd hc)
        rcases List.mem_cons.1 hpiece with rfl | hothers
        · exact ⟨d :: piece, List.mem_cons_self, List.mem_cons_of_mem d hmem⟩
        · exact ⟨piece, List.mem_cons_of_mem (d :: first) hothers, hmem⟩

/-- A body that is not all blanks has a line that is not empty. -/
theorem exists_said {body : List Char} (h : ∃ c ∈ body, isLineBlank c = false) :
    ∃ l ∈ said body, l ≠ [] := by
  obtain ⟨c, hc, hvisible⟩ := h
  have hne : ∀ b, isLineBlank b = true → c ≠ b := by
    intro b hb hcb
    rw [hcb, hb] at hvisible
    exact Bool.noConfusion hvisible
  have hunspaced : c ∈ unspaced body := by
    by_cases hspace : body.head? = some ' '
    · obtain ⟨cs, rfl⟩ := List.head?_eq_some_iff.1 hspace
      exact List.mem_of_ne_of_mem (hne ' ' (by decide)) hc
    · rwa [unspaced, if_neg hspace]
  obtain ⟨piece, hpiece, hmem⟩ := exists_mem_splitOn hunspaced (hne '\n' (by decide))
  refine ⟨piece.rdropWhile isLineBlank, List.mem_map_of_mem hpiece, ?_⟩
  intro hempty
  have hblank := List.rdropWhile_eq_nil_iff.1 hempty c hmem
  exact absurd (hblank.symm.trans hvisible) (by decide)

/-- The lines of a comment that are not empty cannot be missed in the text of its group. -/
theorem commentText_ne_of_linesOf {xs ys : List String} {c : String}
    (h : ∃ l ∈ linesOf c.toList, l ≠ []) :
    commentText (xs ++ c :: ys) ≠ commentText (xs ++ ys) := by
  intro heq
  have hwith := (commentText_eq_paragraphs (xs ++ c :: ys)).2.kept
  rw [heq, (commentText_eq_paragraphs (xs ++ ys)).2.kept, lines_append_cons] at hwith
  have hlength := congrArg List.length hwith
  obtain ⟨l, hl, hne⟩ := h
  have hpos : 0 < ((linesOf c.toList).filter (· ≠ [])).length :=
    List.length_pos_of_mem (List.mem_filter.2 ⟨hl, decide_eq_true hne⟩)
  simp only [lines_eq_flatMap, List.map_append, List.flatMap_append, List.filter_append,
    List.length_append] at hlength hpos
  omega

/-- **Directives, and only directives, vanish.** The test for directives accepts their grammar. A
`//` comment whose body is in the grammar can be left out of any group without a change of its text.
The lines of any other stand in the text between those of the other comments, as the lines of a
general comment do, and if one of them is not blank the text is not the one without it. -/
theorem commentText_directive :
    (∀ body : String, isDirective body.toList = true ↔ Directive body.toList) ∧
    ∀ (xs ys : List String) (body : String),
      (Directive body.toList →
        commentText (xs ++ ("//" ++ body) :: ys) = commentText (xs ++ ys)) ∧
      (¬ Directive body.toList →
        LaidOut (lines (xs.map String.toList) ++ said body.toList ++ lines (ys.map String.toList))
          (commentText (xs ++ ("//" ++ body) :: ys)).toList ∧
        commentText (xs ++ ("//" ++ body) :: ys) =
          commentText (xs ++ ("/*" ++ String.ofList (unspaced body.toList) ++ "*/") :: ys) ∧
        ((∃ c ∈ body.toList, isLineBlank c = false) →
          commentText (xs ++ ("//" ++ body) :: ys) ≠ commentText (xs ++ ys))) := by
  refine ⟨fun body => isDirective_iff, fun xs ys body => ?_⟩
  have hbody : ("//" ++ body).toList = '/' :: '/' :: body.toList := by simp
  constructor
  · intro h
    apply commentText_congr
    rw [lines_append_cons, hbody, linesOf_of_directive h]
    simp [lines_eq_flatMap]
  · intro h
    have hown := linesOf_of_not_directive h
    have hlines := lines_append_cons xs ys ("//" ++ body)
    rw [hbody, hown] at hlines
    refine ⟨?_, ?_, ?_⟩
    · rw [← hlines]
      exact (commentText_eq_paragraphs _).2
    · have hgeneral : ("/*" ++ String.ofList (unspaced body.toList) ++ "*/").toList =
          '/' :: '*' :: (unspaced body.toList ++ [ '*', '/' ]) := by simp
      apply commentText_congr
      rw [hlines, lines_append_cons, hgeneral, linesOf_general]
      rfl
    · intro hvisible
      apply commentText_ne_of_linesOf
      rw [hbody, hown]
      exact exists_said hvisible

/-- Between empty lines, a directive vanishes together with one of them; what lacks the character
behind its colon is said. -/
theorem commentText_directive_build :
    (isDirective "go:build x".toList = true ↔ Directive "go:build x".toList) ∧
      Directive "go:build x".toList ∧ ¬ Directive "go: x".toList ∧
      commentText ["// a", "//", "//go:build x", "//", "// b"] =
        commentText ["// a", "//", "//", "// b"] ∧
      commentText ["// a", "//", "//", "// b"] = "a\n\nb\n" ∧
      commentText ["// a", "//", "//go: x", "//", "// b"] = "a\n\ngo: x\n\nb\n" ∧
      commentText ["// a", "//", "//go: x", "//", "// b"] ≠
        commentText ["// a", "//", "//", "// b"] := by
  have hbuild : Directive "go:build x".toList := by
    rw [← isDirective_iff]
    decide +kernel
  have hspace : ¬ Directive "go: x".toList := by
    rw [← isDirective_iff]
    decide +kernel
  obtain ⟨-, -, hsaid⟩ := (commentText_directive.2 ["// a", "//"] ["//", "// b"] "go: x").2 hspace
  exact ⟨commentText_directive.1 "go:build x", hbuild, hspace,
    (commentText_directive.2 ["// a", "//"] ["//", "// b"] "go:build x").1 hbuild,
    by decide +kernel, by decide +kernel, hsaid ⟨'g', by decide +kernel, by decide⟩⟩

end DocSearch.Doc
