import DocSearch.Proofs.Doc.Identity

/-!
# Blocks between blank lines

The search for the comments that lead a node goes back over the siblings before it, as far as it
likes. It never crosses a blank line.

**Rows count only among each other.** A file whose rows are all moved down by the same number of
lines yields the same chunks (`siblingChunks_down`), because every comparison of rows is one of two
rows of the same file.

**Nothing is seen across a blank line.** Where a line is free between two parts of a file, the
second part has the lead groups that it has as a file of its own (`leadGroup_append`). The comment
nearest to the blank line is too far from the thing above it to be led by it, and it does not stand
on the row where that thing ends, which would take it out of its group.

**`blank_line_separates`** puts both together: each part yields its own chunks, wherever it stands
and whatever stands around it. It holds of any outline, whoever has read it (`extract_separates`).
-/

namespace DocSearch.Go

/-! ## Moving down -/

/-- The same rows `k` lines further down. -/
def Rows.down (k : Nat) (r : Rows) : Rows := ⟨r.first + k, r.last + k⟩

/-- A sibling `k` lines further down; `f` moves what a node holds. -/
def Sibling.down {α : Type} (f : α → α) (k : Nat) : Sibling α → Sibling α
  | .comment text rows => .comment text (rows.down k)
  | .semicolon rows => .semicolon (rows.down k)
  | .mark rows => .mark (rows.down k)
  | .node value rows => .node (f value) (rows.down k)

mutual

/-- A type `k` lines further down. -/
def TypeExpr.down (k : Nat) : TypeExpr → TypeExpr
  | .named name => .named name
  | .generic base => .generic (downOf k base)
  | .pointer plain target => .pointer plain (downOf k target)
  | .parenthesized inner => .parenthesized (downOf k inner)
  | .struct fields => .struct (fields.map (Sibling.down id k))
  | .interface elements => .interface (elements.map (Sibling.down id k))
  | .array => .array
  | .map => .map
  | .channel => .channel
  | .function => .function
  | .other => .other

/-- The same for a type that may be missing. -/
def TypeExpr.downOf (k : Nat) : Option TypeExpr → Option TypeExpr
  | none => none
  | some t => some (t.down k)

end

/-- A specification `k` lines further down. -/
def TypeSpec.down (k : Nat) (s : TypeSpec) : TypeSpec := ⟨s.name, s.type.down k⟩

/-- A declaration `k` lines further down. -/
def Declaration.down (k : Nat) : Declaration → Declaration
  | .package name => .package name
  | .types grouped members => .types grouped (members.map (Sibling.down (TypeSpec.down k) k))
  | .function name => .function name
  | .method receiver name => .method (TypeExpr.downOf k receiver) name

/-- Top-level siblings `k` lines further down. -/
def SourceFile.down (k : Nat) (file : SourceFile) : SourceFile :=
  file.map (Sibling.down (Declaration.down k) k)

/-- Two parts of files that differ in nothing but the number of their first row. -/
def Moved (xs ys : SourceFile) : Prop := ∃ i k, SourceFile.down i xs = SourceFile.down k ys

theorem Sibling.rows_down {α : Type} (f : α → α) (k : Nat) (s : Sibling α) :
    (s.down f k).rows = s.rows.down k := by
  cases s <;> rfl

end DocSearch.Go

namespace DocSearch.Doc

open Go Text

variable {α : Type}

/-! ## Rows count only among each other -/

/-- A comment `k` lines further down. -/
def downComment (k : Nat) (c : Comment) : Comment := (c.1, c.2.down k)

theorem docText_down (k : Nat) (group : List Comment) :
    docText (group.map (downComment k)) = docText group := by
  simp [docText, downComment, Function.comp_def]

theorem commentRun_down (f : α → α) (k : Nat) (ss : List (Sibling α)) :
    commentRun (ss.map (Sibling.down f k)) = (commentRun ss).map (downComment k) := by
  induction ss with
  | nil => rfl
  | cons s ss ih =>
    cases s with
    | comment text rows =>
      simp only [List.map_cons, Sibling.down, commentRun, ih]
      rfl
    | semicolon | mark | node => rfl

theorem leadRun_down (k : Nat) (cs : List Comment) (first : Bool) (row : Nat) :
    leadRun first (row + k) (cs.map (downComment k)) =
      (leadRun first row cs).map (downComment k) := by
  induction cs generalizing first row with
  | nil => rfl
  | cons c cs ih =>
    obtain ⟨text, rows⟩ := c
    have hcond : (rows.last + k + 1 < row + k || (first && rows.last + k + 1 != row + k)) =
        (rows.last + 1 < row || (first && rows.last + 1 != row)) := by
      have hrow : rows.last + k + 1 = rows.last + 1 + k := by omega
      rw [Bool.eq_iff_iff, hrow]
      simp
    simp only [List.map_cons, downComment, leadRun, Rows.down, hcond]
    split_ifs
    · rfl
    · rw [ih]
      rfl

theorem leadGroup_down (f : α → α) (k : Nat) (before : List (Sibling α)) (row : Nat) :
    leadGroup (before.map (Sibling.down f k)) (row + k) =
      (leadGroup before row).map (downComment k) := by
  unfold leadGroup
  simp only [commentRun_down, leadRun_down, List.length_map, List.length_reverse, ← List.map_drop,
    ← List.map_reverse]
  cases before.drop (commentRun before).length with
  | nil => rfl
  | cons s rest =>
    have hrows : ∀ c : Comment, (downComment k c).2.first == (s.down f k).rows.last ↔
        c.2.first == s.rows.last := by
      intro c
      simp [downComment, Sibling.rows_down, Rows.down]
    simp only [List.map_cons]
    split_ifs
    · rw [List.dropWhile_map]
      congr 2
      funext c
      exact Bool.eq_iff_iff.2 (hrows c)
    · rfl

theorem lineGroup_down (f : α → α) (k row : Nat) (ss : List (Sibling α)) :
    lineGroup (row + k) (ss.map (Sibling.down f k)) =
      (lineGroup row ss).map (downComment k) := by
  induction ss with
  | nil => rfl
  | cons s ss ih =>
    have hcond : ((s.down f k).rows.first != row + k) = (s.rows.first != row) := by
      rw [Bool.eq_iff_iff, Sibling.rows_down]
      simp [Rows.down]
    simp only [List.map_cons, lineGroup, hcond]
    split_ifs
    · rfl
    · cases s with
      | comment text rows =>
        simp only [Sibling.down, ih]
        rfl
      | semicolon rows => exact ih
      | mark | node => rfl

theorem memberDoc_down (f : α → α) (k : Nat) (rows : Rows) (before behind : List (Sibling α)) :
    memberDoc (rows.down k) (before.map (Sibling.down f k)) (behind.map (Sibling.down f k)) =
      memberDoc rows before behind := by
  simp only [memberDoc, Rows.down, leadGroup_down, lineGroup_down, docText_down]

theorem nodesIn_down (f : α → α) (k : Nat) (before ss : List (Sibling α)) :
    nodesIn (before.map (Sibling.down f k)) (ss.map (Sibling.down f k)) =
      (nodesIn before ss).map fun x =>
        (f x.1, x.2.1.down k, x.2.2.1.map (Sibling.down f k), x.2.2.2.map (Sibling.down f k)) := by
  induction ss generalizing before with
  | nil => rfl
  | cons s ss ih =>
    have htail := ih (s :: before)
    cases s with
    | node value rows =>
      simp only [List.map_cons, Sibling.down, nodesIn] at htail ⊢
      rw [htail]
    | comment | semicolon | mark => exact htail

theorem memberChunks_down (parent : String) (k : Nat) (t : TypeExpr) :
    memberChunks parent (t.down k) = memberChunks parent t := by
  cases t with
  | struct fields =>
    have hnodes := nodesIn_down id k [] fields
    simp only [TypeExpr.down, memberChunks, List.map_nil] at hnodes ⊢
    rw [hnodes, List.map_map]
    refine List.map_congr_left fun x _ => ?_
    simp only [Function.comp_apply, memberDoc_down, id]
  | interface elements =>
    have hnodes := nodesIn_down id k [] elements
    simp only [TypeExpr.down, memberChunks, List.map_nil] at hnodes ⊢
    rw [hnodes, List.map_map]
    refine List.map_congr_left fun x _ => ?_
    simp only [Function.comp_apply, memberDoc_down, id]
  | _ => rfl

theorem typeKind_down (k : Nat) (t : TypeExpr) : typeKind (t.down k) = typeKind t := by
  cases t <;> rfl

theorem receiverName_down (k : Nat) (receiver : Option TypeExpr) :
    receiverName (TypeExpr.downOf k receiver) = receiverName receiver := by
  cases receiver with
  | none => rfl
  | some t =>
    cases t with
    | pointer plain target =>
      cases plain with
      | false => rfl
      | true =>
        cases target with
        | none => rfl
        | some target => cases target <;> rfl
    | _ => rfl

/-- The nodes among siblings, each with its lead group. -/
def led (ss : List (Sibling α)) : List (α × List Comment) :=
  (nodesIn [] ss).map fun x => (x.1, leadGroup x.2.2.1 x.2.1.first)

theorem led_down (f : α → α) (k : Nat) (ss : List (Sibling α)) :
    led (ss.map (Sibling.down f k)) =
      (led ss).map fun x => (f x.1, x.2.map (downComment k)) := by
  have hnodes := nodesIn_down f k [] ss
  rw [List.map_nil] at hnodes
  unfold led
  rw [hnodes, List.map_map, List.map_map]
  refine List.map_congr_left fun x _ => ?_
  simp only [Function.comp_apply, Rows.down, leadGroup_down]

theorem siblingChunks_eq_led (package filename : String) (file : SourceFile) :
    siblingChunks package filename file =
      (led file).flatMap fun x => declarationChunks package filename x.2 x.1 := by
  rw [led, List.flatMap_map]
  rfl

/-- The name in a package clause, with the lead group of the clause. -/
def clauseOf? : Declaration × List Comment → Option (String × List Comment)
  | (.package name, group) => some (name, group)
  | _ => none

theorem packageClause?_eq_led (file : SourceFile) :
    packageClause? file = (led file).findSome? clauseOf? := by
  rw [led, List.findSome?_map]
  unfold packageClause?
  congr 1
  funext ⟨d, rows, before, behind⟩
  cases d <;> rfl

theorem typeChunks_eq_led (package filename : String) (group : List Comment) (grouped : Bool)
    (specs : List (Sibling TypeSpec)) :
    typeChunks package filename group grouped specs =
      (led specs).filterMap fun x =>
        if isExported x.1.name then
          some (.mk (typeKind x.1.type) x.1.name
            (docText (if group.isEmpty && grouped then x.2 else group)) package filename
            (memberChunks x.1.name x.1.type))
        else none := by
  rw [led, List.filterMap_map]
  rfl

section

variable (package filename : String)

theorem typeChunks_down (k : Nat) (group : List Comment) (grouped : Bool)
    (specs : List (Sibling TypeSpec)) :
    typeChunks package filename (group.map (downComment k)) grouped
        (specs.map (Sibling.down (TypeSpec.down k) k)) =
      typeChunks package filename group grouped specs := by
  simp only [typeChunks_eq_led, led_down, List.filterMap_map]
  refine List.filterMap_congr fun x _ => ?_
  simp only [Function.comp_apply, TypeSpec.down, typeKind_down, memberChunks_down,
    List.isEmpty_map, ← apply_ite (List.map (downComment k)), docText_down]

theorem functionChunk?_down (k : Nat) (name symbol : String) (group : List Comment) :
    functionChunk? package filename name symbol (group.map (downComment k)) =
      functionChunk? package filename name symbol group := by
  simp only [functionChunk?, List.isEmpty_map, docText_down]

theorem declarationChunks_down (k : Nat) (group : List Comment) (d : Declaration) :
    declarationChunks package filename (group.map (downComment k)) (d.down k) =
      declarationChunks package filename group d := by
  cases d with
  | package name => rfl
  | types grouped members => exact typeChunks_down package filename k group grouped members
  | function name => simp only [Declaration.down, declarationChunks, functionChunk?_down]
  | method receiver name =>
    simp only [Declaration.down, declarationChunks, functionChunk?_down, receiverName_down]

/-- **Moving a file down changes none of its chunks.** -/
theorem siblingChunks_down (k : Nat) (file : SourceFile) :
    siblingChunks package filename (SourceFile.down k file) =
      siblingChunks package filename file := by
  simp only [siblingChunks_eq_led, SourceFile.down, led_down, List.flatMap_map,
    declarationChunks_down]

theorem siblingChunks_of_moved {xs ys : SourceFile} (h : Moved xs ys) :
    siblingChunks package filename xs = siblingChunks package filename ys := by
  obtain ⟨i, k, heq⟩ := h
  rw [← siblingChunks_down package filename i, heq, siblingChunks_down]

/-- The package of a file and the chunk of its package clause. -/
def packageHead? (file : SourceFile) : Option (String × Option Chunk) :=
  (packageClause? file).map fun clause => (clause.1, packageChunk? clause.1 filename clause.2)

theorem packageHead?_down (k : Nat) (file : SourceFile) :
    packageHead? filename (SourceFile.down k file) = packageHead? filename file := by
  have hclause : clauseOf? ∘ (fun x : Declaration × List Comment =>
        (x.1.down k, x.2.map (downComment k))) =
      Option.map (fun clause => (clause.1, clause.2.map (downComment k))) ∘ clauseOf? := by
    funext ⟨d, group⟩
    cases d <;> rfl
  unfold packageHead?
  rw [packageClause?_eq_led, packageClause?_eq_led, SourceFile.down, led_down,
    List.findSome?_map, hclause, ← List.map_findSome?, Option.map_map]
  refine congrArg (Option.map · _) (funext fun clause => ?_)
  simp only [Function.comp_apply, packageChunk?, List.isEmpty_map, docText_down]

theorem packageHead?_of_moved {xs ys : SourceFile} (h : Moved xs ys) :
    packageHead? filename xs = packageHead? filename ys := by
  obtain ⟨i, k, heq⟩ := h
  rw [← packageHead?_down filename i, heq, packageHead?_down]

end

/-! ## Nothing is seen across a blank line -/

/-- A comment among siblings. -/
def asSibling (c : Comment) : Sibling α := .comment c.1 c.2

/-- The row where siblings begin that are given nearest first, with something on row `row` behind
them. -/
def topRow (before : List (Sibling α)) (row : Nat) : Nat :=
  (before.getLast?.map (·.rows.first)).getD row

/-- Whether a line is free between two parts of a file. -/
def Spaced (xs ys : List (Sibling α)) : Prop :=
  ∀ x ∈ xs.getLast?, ∀ y ∈ ys.head?, x.rows.last + 1 < y.rows.first

instance (xs ys : List (Sibling α)) : Decidable (Spaced xs ys) :=
  inferInstanceAs (Decidable (∀ x ∈ xs.getLast?, ∀ y ∈ ys.head?, x.rows.last + 1 < y.rows.first))

theorem commentRun_append (cs : List Comment) (ss : List (Sibling α)) :
    commentRun (cs.map asSibling ++ ss) = cs ++ commentRun ss := by
  induction cs with
  | nil => rfl
  | cons c cs ih =>
    simp only [List.map_cons, List.cons_append, asSibling, commentRun]
    exact congrArg (c :: ·) ih

/-- Siblings are a run of comments and then, if there are more, something else. -/
theorem exists_run (ss : List (Sibling α)) :
    ∃ (cs : List Comment) (rest : List (Sibling α)),
      ss = cs.map asSibling ++ rest ∧ commentRun rest = [] := by
  induction ss with
  | nil => exact ⟨[], [], rfl, rfl⟩
  | cons s ss ih =>
    cases s with
    | comment text rows =>
      obtain ⟨cs, rest, rfl, hrest⟩ := ih
      exact ⟨(text, rows) :: cs, rest, rfl, hrest⟩
    | semicolon | mark | node => exact ⟨[], _, rfl, rfl⟩

/-- The lead group behind a run of comments and something else. -/
theorem leadGroup_run (cs : List Comment) {rest : List (Sibling α)} (hrest : commentRun rest = [])
    (row : Nat) :
    leadGroup (cs.map asSibling ++ rest) row =
      match rest with
      | s :: _ =>
        if (leadRun true row cs).reverse.length == cs.length then
          (leadRun true row cs).reverse.dropWhile fun c => c.2.first == s.rows.last
        else (leadRun true row cs).reverse
      | [] => (leadRun true row cs).reverse := by
  have hdrop : (cs.map asSibling ++ rest).drop cs.length = rest := by
    rw [← List.length_map (asSibling (α := α)), List.drop_left]
  unfold leadGroup
  rw [commentRun_append, hrest, List.append_nil, hdrop]
  cases rest <;> rfl

theorem leadRun_starts (first : Bool) (row : Nat) (cs : List Comment) :
    leadRun first row cs <+: cs := by
  induction cs generalizing first row with
  | nil => exact List.prefix_refl _
  | cons c cs ih =>
    rw [leadRun]
    split_ifs
    · exact List.nil_prefix
    · exact List.cons_prefix_cons.2 ⟨rfl, ih _ _⟩

/-- A comment that is too far up ends the run. -/
theorem leadRun_append (first : Bool) (row : Nat) (cs ds : List Comment)
    (h : ∀ d ∈ ds.head?, d.2.last + 1 < (cs.getLast?.map (·.2.first)).getD row) :
    leadRun first row (cs ++ ds) = leadRun first row cs := by
  induction cs generalizing first row with
  | nil =>
    cases ds with
    | nil => rfl
    | cons d ds =>
      have hfar : d.2.last + 1 < row := h d rfl
      simp [leadRun, hfar]
  | cons c cs ih =>
    simp only [List.cons_append, leadRun]
    split_ifs
    · rfl
    · refine congrArg _ (ih _ _ fun d hd => ?_)
      have hfar := h d hd
      rw [List.getLast?_cons] at hfar
      cases hlast : cs.getLast? <;> simpa [hlast] using hfar

/-- **What stands behind a blank line has the lead group that it has without the part before the
line.** -/
theorem leadGroup_append {before earlier : List (Sibling α)} {row : Nat}
    (h : ∀ s ∈ earlier.head?, s.rows.last + 1 < topRow before row) :
    leadGroup (before ++ earlier) row = leadGroup before row := by
  obtain ⟨cs, rest, rfl, hrest⟩ := exists_run before
  cases rest with
  | cons s rest =>
    -- The run ends before the blank line is reached.
    have hrest' : commentRun (s :: rest ++ earlier) = [] := by
      cases s with
      | comment => cases hrest
      | semicolon | mark | node => rfl
    rw [List.append_assoc, leadGroup_run cs hrest', leadGroup_run cs hrest]
    rfl
  | nil =>
    have htop : topRow (cs.map (asSibling (α := α)) ++ []) row =
        (cs.getLast?.map (·.2.first)).getD row := by
      rw [topRow, List.append_nil, List.getLast?_map, Option.map_map]
      rfl
    rw [htop] at h
    obtain ⟨ds, rest, rfl, hrest⟩ := exists_run earlier
    have hrun : leadRun true row (cs ++ ds) = leadRun true row cs := by
      refine leadRun_append true row cs ds fun d hd => ?_
      refine h (asSibling d) ?_
      cases ds with
      | nil => cases hd
      | cons e ds =>
        obtain rfl := Option.some.inj hd
        rfl
    have hshort : (leadRun true row cs).length ≤ cs.length := (leadRun_starts _ _ _).length_le
    rw [leadGroup_run cs rfl, List.append_nil, ← List.append_assoc, ← List.map_append,
      leadGroup_run (cs ++ ds) hrest, hrun]
    cases rest with
    | nil => rfl
    | cons s rest =>
      dsimp only
      split_ifs with hall
      swap
      · rfl
      rw [beq_iff_eq, List.length_reverse, List.length_append] at hall
      -- The whole run is taken only if the thing above the blank line is no comment.
      obtain rfl : ds = [] := List.eq_nil_of_length_eq_zero (by omega)
      have hwhole : leadRun true row cs = cs :=
        (leadRun_starts _ _ _).eq_of_length (by simpa using hall)
      rw [hwhole]
      cases hcs : cs.reverse with
      | nil => rfl
      | cons c others =>
        have hlast : cs.getLast? = some c := by
          rw [← List.head?_reverse, hcs]
          rfl
        have hfar : s.rows.last + 1 < c.2.first := by simpa [hlast] using h s rfl
        refine List.dropWhile_cons_of_neg ?_
        simp only [beq_iff_eq]
        omega

/-! ## Parts of a file -/

/-- Siblings that stand farther up come last among those before a node. -/
theorem nodesIn_earlier (earlier before ss : List (Sibling α)) :
    nodesIn (before ++ earlier) ss =
      (nodesIn before ss).map fun x => (x.1, x.2.1, x.2.2.1 ++ earlier, x.2.2.2) := by
  induction ss generalizing before with
  | nil => rfl
  | cons s ss ih =>
    have htail := ih (s :: before)
    cases s with
    | node value rows =>
      rw [List.cons_append] at htail
      simp only [nodesIn, htail, List.map_cons]
    | comment | semicolon | mark => exact htail

theorem nodesIn_append (before xs ys : List (Sibling α)) :
    nodesIn before (xs ++ ys) =
      ((nodesIn before xs).map fun x => (x.1, x.2.1, x.2.2.1, x.2.2.2 ++ ys)) ++
        nodesIn (xs.reverse ++ before) ys := by
  induction xs generalizing before with
  | nil => rfl
  | cons x xs ih =>
    have htail := ih (x :: before)
    rw [List.reverse_cons, List.append_assoc]
    cases x with
    | node value rows => simpa [nodesIn] using htail
    | comment | semicolon | mark => exact htail

/-- A node stands between the siblings before it and those behind it. -/
theorem eq_of_mem_nodesIn {before ss : List (Sibling α)}
    {x : α × Rows × List (Sibling α) × List (Sibling α)} (h : x ∈ nodesIn before ss) :
    x.2.2.1.reverse ++ .node x.1 x.2.1 :: x.2.2.2 = before.reverse ++ ss := by
  induction ss generalizing before with
  | nil => cases h
  | cons s ss ih =>
    have htail : x ∈ nodesIn (s :: before) ss →
        x.2.2.1.reverse ++ .node x.1 x.2.1 :: x.2.2.2 = before.reverse ++ s :: ss := by
      intro hx
      simpa using ih hx
    cases s with
    | node value rows =>
      rcases List.mem_cons.1 h with rfl | hrest
      · rfl
      · exact htail hrest
    | comment | semicolon | mark => exact htail h

/-- A node behind a blank line has its own lead group. -/
theorem leadGroup_of_spaced {xs ys : List (Sibling α)} (h : Spaced xs ys)
    {x : α × Rows × List (Sibling α) × List (Sibling α)} (hx : x ∈ nodesIn [] ys) :
    leadGroup (x.2.2.1 ++ xs.reverse) x.2.1.first = leadGroup x.2.2.1 x.2.1.first := by
  have hys : x.2.2.1.reverse ++ .node x.1 x.2.1 :: x.2.2.2 = ys := eq_of_mem_nodesIn hx
  refine leadGroup_append fun s hs => ?_
  rw [List.head?_reverse] at hs
  have htop : ∃ y ∈ ys.head?, y.rows.first = topRow x.2.2.1 x.2.1.first := by
    rw [← hys, topRow, ← List.head?_reverse]
    cases x.2.2.1.reverse with
    | nil => exact ⟨_, rfl, rfl⟩
    | cons y ys => exact ⟨_, rfl, rfl⟩
  obtain ⟨y, hy, hfirst⟩ := htop
  rw [← hfirst]
  exact h s hs y hy

/-- **Nodes on both sides of a blank line** are led by what leads them on their own side. -/
theorem led_append {xs ys : List (Sibling α)} (h : Spaced xs ys) :
    led (xs ++ ys) = led xs ++ led ys := by
  have hearlier := nodesIn_earlier xs.reverse [] ys
  rw [List.nil_append] at hearlier
  unfold led
  rw [nodesIn_append, List.append_nil, hearlier, List.map_append, List.map_map, List.map_map]
  refine congrArg _ (List.map_congr_left fun x hx => ?_)
  simp only [Function.comp_apply, leadGroup_of_spaced h hx]

section

variable (package filename : String)

theorem siblingChunks_append {xs ys : SourceFile} (h : Spaced xs ys) :
    siblingChunks package filename (xs ++ ys) =
      siblingChunks package filename xs ++ siblingChunks package filename ys := by
  simp only [siblingChunks_eq_led, led_append h, List.flatMap_append]

theorem packageHead?_append {xs ys : SourceFile} (h : Spaced xs ys) :
    packageHead? filename (xs ++ ys) =
      (packageHead? filename xs).or (packageHead? filename ys) := by
  simp only [packageHead?, packageClause?_eq_led, led_append h, List.findSome?_append,
    Option.map_or]

end

/-! ## Files made of blocks -/

/-- What a file yields: the chunk of its package clause and those of its declarations. -/
theorem extract_eq_ok_iff {filename package : String} {file : SourceFile} {chunks : List Chunk} :
    extract filename file = .ok (package, chunks) ↔
      ∃ head, packageHead? filename file = some (package, head) ∧
        chunks = head.toList ++ siblingChunks package filename file := by
  unfold extract packageHead?
  cases packageClause? file with
  | none => simp
  | some clause =>
    obtain ⟨name, group⟩ := clause
    simp only [Except.ok.injEq, Prod.mk.injEq, Option.map_some, Option.some.injEq]
    constructor
    · rintro ⟨rfl, rfl⟩
      exact ⟨_, ⟨rfl, rfl⟩, rfl⟩
    · rintro ⟨_, ⟨rfl, rfl⟩, rfl⟩
      exact ⟨rfl, rfl⟩

/-- A file that is made of three blocks, with a blank line between any two that are not empty. -/
structure Parted (file front block behind : SourceFile) : Prop where
  eq : file = front ++ block ++ behind
  above : Spaced front (block ++ behind)
  below : Spaced (front ++ block) behind

section

variable (package filename : String) {file front block behind : SourceFile}

theorem Parted.spaced (h : Parted file front block behind) : Spaced front block := by
  intro x hx y hy
  refine h.above x hx y ?_
  cases block with
  | nil => cases hy
  | cons z block => exact hy

theorem Parted.siblingChunks_eq (h : Parted file front block behind) :
    siblingChunks package filename file =
      siblingChunks package filename front ++ siblingChunks package filename block ++
        siblingChunks package filename behind := by
  rw [h.eq, siblingChunks_append package filename h.below,
    siblingChunks_append package filename h.spaced]

theorem Parted.packageHead?_eq (h : Parted file front block behind)
    (hblock : packageClause? block = none) :
    packageHead? filename file =
      (packageHead? filename front).or (packageHead? filename behind) := by
  have hnone : packageHead? filename block = none := by
    rw [packageHead?, hblock]
    rfl
  rw [h.eq, packageHead?_append filename h.below, packageHead?_append filename h.spaced, hnone,
    Option.or_none]

end

/-- A package clause and nothing else. -/
def bareClause (package : String) (rows : Rows) : SourceFile := [.node (.package package) rows]

theorem extract_bareClause (package filename : String) {rows : Rows} {ys : SourceFile}
    (h : Spaced (bareClause package rows) ys) :
    extract filename (bareClause package rows ++ ys) =
      .ok (package, siblingChunks package filename ys) := by
  refine extract_eq_ok_iff.2 ⟨none, ?_, ?_⟩
  · rw [packageHead?_append filename h]
    rfl
  · rw [siblingChunks_append package filename h]
    rfl

/-- The chunks of a file made of blocks. -/
theorem Parted.extract_eq {package filename : String} {head : Option Chunk}
    {file front block behind : SourceFile} (h : Parted file front block behind)
    (hhead : packageHead? filename file = some (package, head)) :
    extract filename file =
      .ok (package, head.toList ++ siblingChunks package filename front ++
        siblingChunks package filename block ++ siblingChunks package filename behind) := by
  refine extract_eq_ok_iff.2 ⟨head, hhead, ?_⟩
  simp only [h.siblingChunks_eq, List.append_assoc]

/-- **A blank line separates the parts of any file**, whoever has read it: what follows the line
yields the chunks that it yields in a file of its own, and blocks that are edited, put in or taken
out leave those around them as they are. -/
theorem extract_separates {xs ys : SourceFile} (hspaced : Spaced xs ys)
    (hclause : (packageClause? xs).isSome) (filename : String) :
    ∃ package chunks, extract filename xs = .ok (package, chunks) ∧
      (∀ zs rows, Moved ys zs → Spaced (bareClause package rows) zs →
        ∃ others, extract filename (bareClause package rows ++ zs) = .ok (package, others) ∧
          extract filename (xs ++ ys) = .ok (package, chunks ++ others)) ∧
      ∀ {file' front block behind front' block' behind'},
        Parted (xs ++ ys) front block behind → Parted file' front' block' behind' →
        Moved front front' → Moved behind behind' →
        ∃ head above below,
          above = siblingChunks package filename front ∧
          below = siblingChunks package filename behind ∧
          extract filename (xs ++ ys) =
            .ok (package, head ++ above ++ siblingChunks package filename block ++ below) ∧
          (∀ group, packageClause? file' = some (package, group) →
            ∃ head', extract filename file' =
              .ok (package, head' ++ above ++ siblingChunks package filename block' ++ below)) ∧
          (packageClause? block = none → packageClause? block' = none →
            extract filename file' =
              .ok (package, head ++ above ++ siblingChunks package filename block' ++ below)) := by
  obtain ⟨⟨package, group⟩, hxs⟩ := Option.isSome_iff_exists.1 hclause
  have hhead : packageHead? filename xs =
      some (package, packageChunk? package filename group) := by
    rw [packageHead?, hxs]
    rfl
  have hwhole : packageHead? filename (xs ++ ys) =
      some (package, packageChunk? package filename group) := by
    rw [packageHead?_append filename hspaced, hhead]
    rfl
  refine ⟨package, _, extract_eq_ok_iff.2 ⟨_, hhead, rfl⟩, ?_, ?_⟩
  · intro zs rows hzs hrows
    refine ⟨_, extract_bareClause package filename hrows, extract_eq_ok_iff.2 ⟨_, hwhole, ?_⟩⟩
    rw [siblingChunks_append _ _ hspaced, siblingChunks_of_moved _ _ hzs, List.append_assoc]
  · intro file' front block behind front' block' behind' hparted hparted' hfront hbehind
    have hchunks : ∀ head, packageHead? filename file' = some (package, head) →
        extract filename file' =
          .ok (package, head.toList ++ siblingChunks package filename front ++
            siblingChunks package filename block' ++ siblingChunks package filename behind) := by
      intro head hhead'
      rw [siblingChunks_of_moved _ _ hfront, siblingChunks_of_moved _ _ hbehind]
      exact hparted'.extract_eq hhead'
    refine ⟨_, _, _, rfl, rfl, hparted.extract_eq hwhole, ?_, ?_⟩
    · intro group' hgroup'
      refine ⟨_, hchunks (packageChunk? package filename group') ?_⟩
      rw [packageHead?, hgroup']
      rfl
    · intro hblock hblock'
      refine hchunks _ ?_
      rw [hparted'.packageHead?_eq filename hblock', ← packageHead?_of_moved filename hfront,
        ← packageHead?_of_moved filename hbehind, ← hparted.packageHead?_eq filename hblock, hwhole]

/-! ## Sources -/

theorem parseSource_of_ofText? {source : Bytes} {file : SourceFile}
    (hfile : SourceFile.ofText? (Utf8.decodeLossy source) = some file) (filename : String) :
    parseSource source filename = extract filename file := by
  rw [parseSource, hfile]

/-- **A blank line separates.** In a file whose package clause stands above a blank line, what
follows the line yields the chunks that it yields in a file of its own, from whatever row on, and
what precedes it those that it yields alone. So a file of the same package in which a block was
edited, put in or taken out has the chunks of the blocks around it as before, wherever these now
stand; and it is of the same package if the clause was not touched. -/
theorem blank_line_separates {source : Bytes} {xs ys : SourceFile}
    (hfile : SourceFile.ofText? (Utf8.decodeLossy source) = some (xs ++ ys))
    (hspaced : Spaced xs ys) (hclause : (packageClause? xs).isSome) (filename : String) :
    ∃ package chunks, extract filename xs = .ok (package, chunks) ∧
      (∀ zs rows, Moved ys zs → Spaced (bareClause package rows) zs →
        ∃ others, extract filename (bareClause package rows ++ zs) = .ok (package, others) ∧
          parseSource source filename = .ok (package, chunks ++ others)) ∧
      ∀ {source' file' front block behind front' block' behind'},
        SourceFile.ofText? (Utf8.decodeLossy source') = some file' →
        Parted (xs ++ ys) front block behind → Parted file' front' block' behind' →
        Moved front front' → Moved behind behind' →
        ∃ head above below,
          above = siblingChunks package filename front ∧
          below = siblingChunks package filename behind ∧
          parseSource source filename =
            .ok (package, head ++ above ++ siblingChunks package filename block ++ below) ∧
          (∀ group, packageClause? file' = some (package, group) →
            ∃ head', parseSource source' filename =
              .ok (package, head' ++ above ++ siblingChunks package filename block' ++ below)) ∧
          (packageClause? block = none → packageClause? block' = none →
            parseSource source' filename =
              .ok (package, head ++ above ++ siblingChunks package filename block' ++ below)) := by
  obtain ⟨package, chunks, hfront, halone, hblocks⟩ := extract_separates hspaced hclause filename
  refine ⟨package, chunks, hfront, ?_, ?_⟩
  · rw [parseSource_of_ofText? hfile]
    exact halone
  · intro source' file' front block behind front' block' behind' hfile' hparted hparted'
    rw [parseSource_of_ofText? hfile, parseSource_of_ofText? hfile']
    exact hblocks hparted hparted'

/-- Two functions with a blank line between them. -/
def twoBlocks : Bytes :=
  Utf8.encode "package p\n\n// F does.\nfunc F() \x7b\x7d\n\n// G does.\nfunc G() \x7b\x7d\n"

/-- The second function has its chunk in any file that has nothing else below a blank line. -/
theorem second_block_stands_alone :
    ∃ file chunks others, SourceFile.ofText? (Utf8.decodeLossy twoBlocks) = some file ∧
      extract "p.go" (file.take 3) = .ok ("p", chunks) ∧
      extract "p.go" (bareClause "p" ⟨0, 0⟩ ++ file.drop 3) = .ok ("p", others) ∧
      parseSource twoBlocks "p.go" = .ok ("p", chunks ++ others) ∧
      chunks.map Chunk.symbol = ["F"] ∧ others.map Chunk.symbol = ["G"] := by
  obtain ⟨file, name, all, hfile, hparse, hall⟩ := exists_file twoBlocks "p.go"
    (fun file chunks => Spaced (file.take 3) (file.drop 3) ∧
      Spaced (bareClause "p" ⟨0, 0⟩) (file.drop 3) ∧ (packageClause? (file.take 3)).isSome ∧
      ((extract "p.go" (file.take 3)).toOption.any fun r =>
        r.1 = "p" ∧ r.2.map Chunk.symbol = ["F"]) ∧
      chunks.map Chunk.symbol = ["F", "G"])
    (by decide +kernel)
  obtain ⟨hspaced, hbelow, hclause, hfront, hsymbols⟩ := of_decide_eq_true hall
  rw [← List.take_append_drop 3 file] at hfile
  obtain ⟨package, chunks, hextract, hblocks, -⟩ :=
    blank_line_separates hfile hspaced hclause "p.go"
  rw [hextract] at hfront
  obtain ⟨rfl, hF⟩ := of_decide_eq_true hfront
  obtain ⟨others, hothers, hwhole⟩ := hblocks (file.drop 3) ⟨0, 0⟩ ⟨0, 0, rfl⟩ hbelow
  obtain ⟨-, rfl⟩ := Prod.mk.inj (Except.ok.inj (hparse.symm.trans hwhole))
  rw [List.take_append_drop] at hfile
  refine ⟨file, chunks, others, hfile, hextract, hothers, hwhole, hF, ?_⟩
  simpa [hF] using hsymbols

end DocSearch.Doc
