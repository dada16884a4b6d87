import DocSearch.Proofs.Doc.Paragraphs

/-!
# The text does not depend on how it is written

The same lines can be commented line by line or in one general comment, and a file can end its lines
in a line feed or in a carriage return and a line feed. Neither changes the documentation text.

**Two ways to comment lines.** A comment has its lines (`linesOf`), and both ways give the group the
same lines without their trailing blanks. So the text is that of their paragraphs. What a group says
has no trailing blanks and its paragraphs are found again, so its text, commented again, is the text
(`commentText_of_either_style`).

**Line ends.** A carriage return stands behind a line, where it is dropped as a trailing blank. It
must not be seen before: no directive begins or ends to be one by it (`isDirective_append_return`).
-/

namespace DocSearch.Doc

open Text

/-! ## Two ways to comment lines -/

/-- Lines commented one by one. -/
def slashed (ls : List String) : List String := ls.map ("// " ++ ·)

/-- Lines in one general comment. -/
def enclosed (ls : List String) : String := "/*" ++ join "\n" ls ++ "*/"

/-- The lines of a text, the last of which nothing ends. -/
def textLines (text : String) : List String := (text.toList.splitOn '\n').map String.ofList

/-- Lines without their trailing blanks. -/
def stripped (ls : List String) : List (List Char) :=
  ls.map fun l => l.toList.rdropWhile isLineBlank

theorem linesOf_slashed {cs : List Char} (h : '\n' ∉ cs) :
    linesOf ('/' :: '/' :: ' ' :: cs) = [cs.rdropWhile isLineBlank] := by
  simp [linesOf, body?, List.splitOn_eq_singleton h]

theorem body?_enclosed (cs : List Char) :
    body? ('/' :: '*' :: (cs ++ [ '*', '/' ])) = some cs := by
  simp [body?]

theorem lines_slashed {ls : List String} (h : ∀ l ∈ ls, '\n' ∉ l.toList) :
    lines ((slashed ls).map String.toList) = stripped ls := by
  rw [lines_eq_flatMap]
  induction ls with
  | nil => rfl
  | cons l ls ih =>
    have hl : linesOf ("// " ++ l).toList = [l.toList.rdropWhile isLineBlank] := by
      rw [String.toList_append]
      exact linesOf_slashed (h l List.mem_cons_self)
    have hrest := ih fun m hm => h m (List.mem_cons_of_mem l hm)
    rw [slashed, List.map_cons, List.map_cons, List.flatMap_cons, hl]
    exact congrArg ([_] ++ ·) hrest

theorem lines_enclosed {ls : List String} (h : ∀ l ∈ ls, '\n' ∉ l.toList) :
    lines [(enclosed ls).toList] = if ls = [] then [[]] else stripped ls := by
  have hchars : (enclosed ls).toList =
      '/' :: '*' :: ([ '\n' ].intercalate (ls.map String.toList) ++ [ '*', '/' ]) := by
    simp [enclosed, join]
  rw [lines_eq_flatMap, List.flatMap_singleton, hchars, linesOf, body?_enclosed]
  split_ifs with hls
  · subst hls
    rfl
  · have hsplit : ([ '\n' ].intercalate (ls.map String.toList)).splitOn '\n' =
        ls.map String.toList :=
      List.splitOn_intercalate '\n' (by simpa using h) (by simpa using hls)
    simp [hsplit, stripped]

theorem toList_commentText (comments : List String) :
    (commentText comments).toList =
      ended (stacked (paragraphs (lines (comments.map String.toList)))) := by
  rw [commentText, String.toList_ofList, textOf_eq]

/-- The text of commented lines. -/
theorem toList_commentText_slashed {ls : List String} (h : ∀ l ∈ ls, '\n' ∉ l.toList) :
    (commentText (slashed ls)).toList = ended (stacked (paragraphs (stripped ls))) := by
  rw [toList_commentText, lines_slashed h]

theorem commentText_enclosed {ls : List String} (h : ∀ l ∈ ls, '\n' ∉ l.toList) :
    commentText [enclosed ls] = commentText (slashed ls) := by
  rw [← String.toList_inj, toList_commentText_slashed h, toList_commentText, List.map_singleton,
    lines_enclosed h]
  split_ifs with hls
  · subst hls
    rfl
  · rfl

/-- The lines of a documentation text have its paragraphs, no trailing blanks and no line breaks,
whether or not the empty line at the end counts. -/
theorem exists_clean_lines (comments : List String) {ls : List String}
    (h : ls ∈ [textLines (commentText comments), (textLines (commentText comments)).dropLast]) :
    ∃ ks : List (List Char), ls = ks.map String.ofList ∧
      (∀ l ∈ ks, '\n' ∉ l ∧ l.rdropWhile isLineBlank = l) ∧
      paragraphs ks = paragraphs (lines (comments.map String.toList)) := by
  have hsplit := splitOn_textOf (comments.map String.toList)
  have hstacked := paragraphs_stacked (filled_paragraphs (lines (comments.map String.toList)))
  rw [textLines, commentText, String.toList_ofList, hsplit, ← List.map_dropLast,
    List.dropLast_concat] at h
  rcases List.mem_pair.1 h with rfl | rfl
  · refine ⟨_, rfl, fun l hl => ?_, by rw [paragraphs_append_nil, hstacked]⟩
    rcases List.mem_append.1 hl with hl | hl
    · exact of_mem_stacked hl
    · rw [List.mem_singleton.1 hl]
      exact ⟨List.not_mem_nil, rfl⟩
  · exact ⟨_, rfl, fun l hl => of_mem_stacked hl, hstacked⟩

/-- **The text of lines does not depend on how they are commented**: line by line or all in one
general comment. Commented again in either way, the lines of a documentation text have that text. -/
theorem commentText_of_either_style :
    (∀ ls : List String, (∀ l ∈ ls, '\n' ∉ l.toList) →
      commentText (slashed ls) = commentText [enclosed ls]) ∧
    ∀ comments : List String,
      ∀ ls ∈ [textLines (commentText comments), (textLines (commentText comments)).dropLast],
        commentText (slashed ls) = commentText comments ∧
        commentText [enclosed ls] = commentText comments := by
  refine ⟨fun ls h => (commentText_enclosed h).symm, fun comments ls h => ?_⟩
  obtain ⟨ks, rfl, hclean, hks⟩ := exists_clean_lines comments h
  have hnewline : ∀ l ∈ ks.map String.ofList, '\n' ∉ l.toList := by
    simpa using fun l hl => (hclean l hl).1
  have hstripped : stripped (ks.map String.ofList) = ks := by
    rw [stripped, List.map_map]
    refine (List.map_congr_left fun l hl => ?_).trans (List.map_id ks)
    simpa using (hclean l hl).2
  have hslashed : commentText (slashed (ks.map String.ofList)) = commentText comments := by
    rw [← String.toList_inj, toList_commentText_slashed hnewline, toList_commentText, hstripped,
      hks]
  exact ⟨hslashed, (commentText_enclosed hnewline).trans hslashed⟩

/-- Lines that look like a directive, a list and the end of a comment. -/
def oddLines : List String := ["go:build x", "", "  - a */"]

/-- A directive, two comments with an empty one between them, and a general comment. -/
def mixedComments : List String := ["//go:build x", "// a \t", "//", "//", "/* b\n\n*/"]

theorem commentText_of_odd_lines :
    (∀ l ∈ oddLines, '\n' ∉ l.toList) ∧
      commentText (slashed oddLines) = commentText [enclosed oddLines] ∧
      commentText (slashed oddLines) = "go:build x\n\n  - a */\n" ∧
      ["a", "", " b", ""] ∈ [textLines (commentText mixedComments),
        (textLines (commentText mixedComments)).dropLast] ∧
      commentText (slashed ["a", "", " b", ""]) = commentText mixedComments ∧
      commentText [enclosed ["a", "", " b", ""]] = commentText mixedComments := by
  have hodd : ∀ l ∈ oddLines, '\n' ∉ l.toList := by decide +kernel
  have hmixed : ["a", "", " b", ""] ∈ [textLines (commentText mixedComments),
      (textLines (commentText mixedComments)).dropLast] := by decide +kernel
  exact ⟨hodd, commentText_of_either_style.1 oddLines hodd, by decide +kernel, hmixed,
    commentText_of_either_style.2 mixedComments _ hmixed⟩

/-! ## Line ends -/

/-- A text in which a carriage return stands in front of every line break. -/
def returned (cs : List Char) : List Char :=
  cs.flatMap fun c => if c = '\n' then [ '\r', '\n' ] else [c]

/-- A comment of a file in which lines end in a carriage return and a line break. A `//` comment
ends in front of the line break and has the carriage return. -/
def withReturns (comment : String) : String :=
  match comment.toList with
  | '/' :: '/' :: _ => comment ++ "\r"
  | cs => String.ofList (returned cs)

/-- The comments of Go: what follows `//` on a line, and what is between `/*` and `*/`. -/
inductive IsGoComment : String → Prop where
  | line {cs : List Char} : '\n' ∉ cs → IsGoComment (String.ofList ('/' :: '/' :: cs))
  | general (cs : List Char) : IsGoComment (String.ofList ('/' :: '*' :: (cs ++ [ '*', '/' ])))

/-- A carriage return at the end of a text is not seen by a search for a text without one. -/
theorem after?_append_return {p : List Char} (hp : '\r' ∉ p) (cs : List Char) :
    (after? p (cs ++ [ '\r' ])).isSome = (after? p cs).isSome := by
  induction p generalizing cs with
  | nil => rfl
  | cons a p ih =>
    obtain ⟨ha, hp⟩ := List.ne_and_not_mem_of_not_mem_cons hp
    cases cs with
    | nil => simp [after?, ha.symm]
    | cons c cs =>
      simp only [List.cons_append, after?]
      split_ifs
      · exact ih hp cs
      · rfl

theorem takeWhile_append_return (cs : List Char) :
    (cs ++ [ '\r' ]).takeWhile isDirectiveChar = cs.takeWhile isDirectiveChar ∧
      (cs ++ [ '\r' ]).dropWhile isDirectiveChar = cs.dropWhile isDirectiveChar ++ [ '\r' ] := by
  induction cs with
  | nil => decide
  | cons c cs ih =>
    cases hc : isDirectiveChar c with
    | true => simpa [hc] using ih
    | false => simp [hc]

/-- **A carriage return makes no directive** and ends none. -/
theorem isDirective_append_return (cs : List Char) :
    isDirective (cs ++ [ '\r' ]) = isDirective cs := by
  have hwords : directiveWords.any (fun w => (after? w.toList (cs ++ [ '\r' ])).isSome) =
      directiveWords.any (fun w => (after? w.toList cs).isSome) := by
    simp [directiveWords, after?_append_return]
  obtain ⟨htake, hdrop⟩ := takeWhile_append_return cs
  rw [isDirective, isDirective, hwords, htake, hdrop]
  congr 1
  -- Behind the name and its colon, a carriage return is no character of a name.
  cases cs.takeWhile isDirectiveChar with
  | nil => rfl
  | cons =>
    cases cs.dropWhile isDirectiveChar with
    | nil => rfl
    | cons d ds =>
      by_cases hd : d = ':'
      · subst hd
        cases ds with
        | nil => rfl
        | cons => rfl
      · simp [hd]

/-- What is dropped at the end of a text is told by what is dropped behind its first character. -/
theorem rdropWhile_cons_congr {p : Char → Bool} {xs ys : List Char}
    (h : xs.rdropWhile p = ys.rdropWhile p) (c : Char) :
    (c :: xs).rdropWhile p = (c :: ys).rdropWhile p := by
  unfold List.rdropWhile at h ⊢
  rw [List.reverse_cons, List.reverse_cons, List.dropWhile_append, List.dropWhile_append,
    List.reverse_injective h]

/-- Carriage returns in front of line breaks are dropped with the blanks at the ends of lines. -/
theorem stripped_returned (cs : List Char) :
    ((returned cs).splitOn '\n').map (List.rdropWhile isLineBlank) =
      (cs.splitOn '\n').map (List.rdropWhile isLineBlank) := by
  induction cs with
  | nil => rfl
  | cons c cs ih =>
    obtain ⟨first, others, hsplit⟩ := exists_splitOn '\n' cs
    obtain ⟨first', others', hsplit'⟩ := exists_splitOn '\n' (returned cs)
    rw [hsplit, hsplit', List.map_cons, List.map_cons] at ih
    by_cases hc : c = '\n'
    · have hcs : returned (c :: cs) = [ '\r' ] ++ '\n' :: returned cs := by
        simp [returned, hc]
      rw [hcs, List.splitOn_append_cons_self_of_not_mem (by decide), hsplit',
        List.splitOn_cons_eq_if_modifyHead, if_pos (beq_iff_eq.2 hc), hsplit]
      exact congrArg ([] :: ·) ih
    · have hcs : returned (c :: cs) = c :: returned cs := by
        simp [returned, hc]
      obtain ⟨hfirst, hothers⟩ := List.cons.inj ih
      rw [hcs, List.splitOn_cons_eq_if_modifyHead, List.splitOn_cons_eq_if_modifyHead, hsplit,
        hsplit', if_neg (by simpa using hc), if_neg (by simpa using hc), List.modifyHead_cons,
        List.modifyHead_cons, List.map_cons, List.map_cons, rdropWhile_cons_congr hfirst c, hothers]

theorem body?_line {cs : List Char} (h : cs.head? ≠ some ' ') :
    body? ('/' :: '/' :: cs) = if isDirective cs then none else some cs := by
  cases cs with
  | nil => rfl
  | cons c cs =>
    have hc : c ≠ ' ' := by simpa using h
    simp [body?, hc]

/-- A carriage return behind a `//` comment is part of its body, at the end of its line. -/
theorem body?_line_append_return (cs : List Char) :
    body? ('/' :: '/' :: (cs ++ [ '\r' ])) = (body? ('/' :: '/' :: cs)).map (· ++ [ '\r' ]) := by
  by_cases hblank : cs.head? = some ' '
  · obtain ⟨cs, rfl⟩ := List.head?_eq_some_iff.1 hblank
    rfl
  · have hblank' : (cs ++ [ '\r' ]).head? ≠ some ' ' := by
      cases cs with
      | nil => decide
      | cons c cs => exact hblank
    rw [body?_line hblank, body?_line hblank', isDirective_append_return]
    split_ifs <;> rfl

theorem body?_suffix {cs b : List Char} (h : body? ('/' :: '/' :: cs) = some b) : b <:+ cs := by
  by_cases hblank : cs.head? = some ' '
  · obtain ⟨cs, rfl⟩ := List.head?_eq_some_iff.1 hblank
    obtain rfl := Option.some.inj h
    exact List.suffix_cons ' ' cs
  · rw [body?_line hblank] at h
    split_ifs at h
    obtain rfl := Option.some.inj h
    exact List.suffix_refl _

/-- A comment has the same lines with either line ends, and is a directive with both or neither. -/
theorem linesOf_withReturns {c : String} (h : IsGoComment c) :
    linesOf (withReturns c).toList = linesOf c.toList ∧
      (body? (withReturns c).toList = none ↔ body? c.toList = none) := by
  cases h with
  | @line cs hcs =>
    have hreturns : (withReturns (String.ofList ('/' :: '/' :: cs))).toList =
        '/' :: '/' :: (cs ++ [ '\r' ]) := by
      simp [withReturns]
    rw [hreturns, String.toList_ofList, linesOf, linesOf, body?_line_append_return]
    refine ⟨?_, Option.map_eq_none_iff⟩
    cases hbody : body? ('/' :: '/' :: cs) with
    | none => rfl
    | some b =>
      have hb : '\n' ∉ b := fun hmem => hcs ((body?_suffix hbody).subset hmem)
      have hb' : '\n' ∉ b ++ [ '\r' ] := by simpa using hb
      simp [List.splitOn_eq_singleton hb, List.splitOn_eq_singleton hb',
        List.rdropWhile_concat_pos _ _ _ (show isLineBlank '\r' = true by decide)]
  | general cs =>
    have hreturns : (withReturns (String.ofList ('/' :: '*' :: (cs ++ [ '*', '/' ])))).toList =
        '/' :: '*' :: (returned cs ++ [ '*', '/' ]) := by
      simp [withReturns, returned]
    rw [hreturns, String.toList_ofList, linesOf, linesOf, body?_enclosed, body?_enclosed]
    simpa using stripped_returned cs

/-- **Line ends do not change the documentation.** The comments of a file whose lines end in a
carriage return and a line feed have the text that they have with mere line feeds, and the same
comments are directives. -/
theorem commentText_withReturns :
    (∀ comments : List String, (∀ c ∈ comments, IsGoComment c) →
      commentText (comments.map withReturns) = commentText comments) ∧
    ∀ c, IsGoComment c → (body? (withReturns c).toList = none ↔ body? c.toList = none) := by
  refine ⟨fun comments h => ?_, fun c hc => (linesOf_withReturns hc).2⟩
  have hlines : lines ((comments.map withReturns).map String.toList) =
      lines (comments.map String.toList) := by
    rw [lines_eq_flatMap, lines_eq_flatMap, List.map_map, List.flatMap_map, List.flatMap_map]
    exact List.flatMap_congr fun c hc => (linesOf_withReturns (h c hc)).1
  rw [← String.toList_inj, toList_commentText, toList_commentText, hlines]

/-- A directive that is cut short is none, with a carriage return behind it or without. -/
theorem commentText_withReturns_cut :
    (∀ c ∈ ["//go:", "//go:build", "/*\n a\n*/"], IsGoComment c) ∧
      ["//go:", "//go:build", "/*\n a\n*/"].map withReturns =
        ["//go:\r", "//go:build\r", "/*\r\n a\r\n*/"] ∧
      commentText ["//go:\r", "//go:build\r", "/*\r\n a\r\n*/"] =
        commentText ["//go:", "//go:build", "/*\n a\n*/"] ∧
      commentText ["//go:", "//go:build", "/*\n a\n*/"] = "go:\n\n a\n" ∧
      (body? (withReturns "//go:").toList = none ↔ body? "//go:".toList = none) := by
  have hgo : ∀ c ∈ ["//go:", "//go:build", "/*\n a\n*/"], IsGoComment c := by
    simp only [List.forall_mem_cons]
    exact ⟨@IsGoComment.line "go:".toList (by decide +kernel),
      @IsGoComment.line "go:build".toList (by decide +kernel),
      IsGoComment.general "\n a\n".toList, by simp⟩
  have hreturns : ["//go:", "//go:build", "/*\n a\n*/"].map withReturns =
      ["//go:\r", "//go:build\r", "/*\r\n a\r\n*/"] := by decide +kernel
  refine ⟨hgo, hreturns, ?_, by decide +kernel, ?_⟩
  · rw [← hreturns]
    exact commentText_withReturns.1 _ hgo
  · exact commentText_withReturns.2 _ (hgo _ List.mem_cons_self)

end DocSearch.Doc
