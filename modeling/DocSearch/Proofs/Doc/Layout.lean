import DocSearch.Proofs.Doc.Items

/-!
# The layout of a rendering

**One line for each node.** The rendering of a chunk is made of the lines of its nodes in pre-order,
each further in by two blanks for every level (`render_eq_intercalate`).

**No line breaks inside a line.** A documentation text is put on one line. A kind or a symbol is made
of words, which have no line breaks, and of the texts of types, in which blanks are collapsed. This
holds of any tree that is made of lexemes (`oneLined_of_extract`). So the lines of a rendering are
the lines of its nodes.
-/

namespace DocSearch

open Text

/-! ## The nodes of a chunk -/

mutual

/-- The nodes of a chunk in pre-order with their levels, the chunk itself on the given one. -/
def Chunk.nodes (level : Nat) : Chunk → List (Nat × Chunk)
  | .mk kind symbol doc package filename members =>
    (level, .mk kind symbol doc package filename members) :: nodesOf (level + 1) members

/-- The nodes of several chunks on one level. -/
def nodesOf (level : Nat) : List Chunk → List (Nat × Chunk)
  | [] => []
  | c :: cs => c.nodes level ++ nodesOf level cs

end

/-- An indent and two blanks for every level. -/
def levelIndent (indent : String) (level : Nat) : String :=
  indent ++ String.ofList (List.replicate (2 * level) ' ')

/-- The line of a node on its level. -/
def levelLine (indent : String) (x : Nat × Chunk) : String :=
  levelIndent indent x.1 ++ x.2.kind ++ " " ++ x.2.symbol ++ ": " ++ oneLine x.2.doc

/-- The kinds and symbols of a chunk and all its members are without line breaks. -/
def Chunk.OneLined (c : Chunk) : Prop :=
  ∀ x ∈ c.nodes 0, '\n' ∉ x.2.kind.toList ∧ '\n' ∉ x.2.symbol.toList

theorem mem_nodesOf {level : Nat} {cs : List Chunk} {x : Nat × Chunk} :
    x ∈ nodesOf level cs ↔ ∃ c ∈ cs, x ∈ c.nodes level := by
  induction cs with
  | nil => simp [nodesOf]
  | cons c cs ih => simp [nodesOf, ih]

/-- A node some levels further in. -/
def deeper (levels : Nat) (x : Nat × Chunk) : Nat × Chunk := (x.1 + levels, x.2)

mutual

theorem nodes_eq_map : ∀ (c : Chunk) (level : Nat), c.nodes level = (c.nodes 0).map (deeper level)
  | .mk kind symbol doc package filename members, level => by
    rw [Chunk.nodes, Chunk.nodes, List.map_cons, nodesOf_eq_map members (level + 1),
      nodesOf_eq_map members (0 + 1), List.map_map]
    congr 2
    · exact (Nat.zero_add level).symm
    · funext x
      simp [deeper, Nat.add_comm, Nat.add_left_comm]

theorem nodesOf_eq_map : ∀ (cs : List Chunk) (level : Nat),
    nodesOf level cs = (nodesOf 0 cs).map (deeper level)
  | [], _ => rfl
  | c :: cs, level => by
    rw [nodesOf, nodesOf, List.map_append, nodes_eq_map c level, nodesOf_eq_map cs level]

end

/-! ## One line for each node -/

theorem levelIndent_zero (indent : String) : levelIndent indent 0 = indent := by
  simp [levelIndent]

theorem levelIndent_succ (indent : String) (level : Nat) :
    levelIndent indent level ++ "  " = levelIndent indent (level + 1) := by
  rw [← String.toList_inj]
  simp [levelIndent, Nat.mul_add, List.replicate_add]

theorem intercalate_cons (sep s : String) (ss : List String) :
    sep.intercalate (s :: ss) = s ++ String.join (ss.map (sep ++ ·)) := by
  induction ss generalizing s with
  | nil => simp
  | cons t ss ih =>
    rw [String.intercalate_cons_cons, ih]
    simp [String.append_assoc]

mutual

theorem render_levelIndent (indent : String) : ∀ (c : Chunk) (level : Nat),
    c.render (levelIndent indent level) =
      "\n".intercalate ((c.nodes level).map (levelLine indent))
  | .mk kind symbol doc package filename members, level => by
    rw [Chunk.render, Chunk.nodes, List.map_cons, intercalate_cons, levelIndent_succ,
      renderMembers_levelIndent indent members (level + 1)]
    rfl

theorem renderMembers_levelIndent (indent : String) : ∀ (cs : List Chunk) (level : Nat),
    renderMembers (levelIndent indent level) cs =
      String.join (((nodesOf level cs).map (levelLine indent)).map ("\n" ++ ·))
  | [], _ => rfl
  | c :: cs, level => by
    obtain ⟨x, xs, hnodes⟩ : ∃ x xs, c.nodes level = x :: xs := by
      cases c
      exact ⟨_, _, rfl⟩
    rw [renderMembers, nodesOf, List.map_append, List.map_append, String.join_append,
      render_levelIndent indent c level, renderMembers_levelIndent indent cs level, hnodes,
      List.map_cons, intercalate_cons]
    simp [String.append_assoc]

end

/-- **A rendering is made of the lines of its nodes.** -/
theorem render_eq_intercalate (c : Chunk) (indent : String) :
    c.render indent = "\n".intercalate ((c.nodes 0).map (levelLine indent)) := by
  rw [← render_levelIndent indent c 0, levelIndent_zero]

theorem levelLine_eq (indent : String) (x : Nat × Chunk) :
    levelLine indent x = indent ++ levelLine "" x := by
  simp [levelLine, levelIndent, String.append_assoc]

/-! ## No line breaks inside a line -/

theorem mem_of_mem_trim {s : String} {c : Char} (h : c ∈ (trim s).toList) : c ∈ s.toList := by
  rw [trim, String.toList_ofList, trimBy, dropEnd, List.mem_reverse] at h
  exact (List.dropWhile_suffix _).subset (List.mem_reverse.1 ((List.dropWhile_suffix _).subset h))

theorem newline_not_mem_oneLine (doc : String) : '\n' ∉ (oneLine doc).toList := by
  intro h
  have hmap := mem_of_mem_trim h
  rw [String.toList_ofList] at hmap
  obtain ⟨c, -, hc⟩ := List.mem_map.1 hmap
  split_ifs at hc with hnewline
  · cases hc
  · exact hnewline (beq_iff_eq.2 hc)

namespace Chunk.OneLined

variable {c : Chunk}

theorem newline_not_mem_levelLine (h : c.OneLined) :
    ∀ x ∈ c.nodes 0, '\n' ∉ (levelLine "" x).toList := by
  intro x hx
  obtain ⟨hkind, hsymbol⟩ := h x hx
  simp [levelLine, levelIndent, hkind, hsymbol, newline_not_mem_oneLine]

/-- The lines of the text of a chunk. -/
theorem splitOn_text (h : c.OneLined) :
    c.text.toList.splitOn '\n' = ((c.nodes 0).map (levelLine "")).map String.toList := by
  have hne : ((c.nodes 0).map (levelLine "")).map String.toList ≠ [] := by
    cases c
    exact List.cons_ne_nil _ _
  rw [Chunk.text, render_eq_intercalate, String.toList_intercalate]
  refine List.splitOn_intercalate '\n' (fun l hl => ?_) hne
  obtain ⟨x, hx, rfl⟩ := List.mem_map.1 (List.map_map ▸ hl)
  exact h.newline_not_mem_levelLine x hx

/-- Below the first line all lines begin with two blanks. -/
theorem starts_of_mem_tail (h : c.OneLined) :
    ∀ l ∈ (c.text.toList.splitOn '\n').tail, [' ', ' '] <+: l := by
  rw [h.splitOn_text]
  obtain ⟨kind, symbol, doc, package, filename, members⟩ := c
  intro l hl
  obtain ⟨s, hs, rfl⟩ := List.mem_map.1 hl
  obtain ⟨x, hx, rfl⟩ := List.mem_map.1 hs
  have hdeep : x ∈ nodesOf 1 members := hx
  rw [nodesOf_eq_map] at hdeep
  obtain ⟨y, -, rfl⟩ := List.mem_map.1 hdeep
  have hblanks : List.replicate (2 * (y.1 + 1)) ' ' = ' ' :: ' ' :: List.replicate (2 * y.1) ' ' :=
    rfl
  simp [levelLine, levelIndent, deeper, hblanks]

/-- Another indent only puts itself before each line. -/
theorem render_eq (h : c.OneLined) (indent : String) :
    c.render indent = "\n".intercalate
      ((c.text.toList.splitOn '\n').map fun l => indent ++ String.ofList l) := by
  rw [render_eq_intercalate, h.splitOn_text, List.map_map, List.map_map]
  congr 2
  funext x
  rw [Function.comp_apply, Function.comp_apply, String.ofList_toList, ← levelLine_eq]

end Chunk.OneLined

theorem Chunk.oneLined_mk {kind symbol doc package filename : String} {members : List Chunk}
    (hkind : '\n' ∉ kind.toList) (hsymbol : '\n' ∉ symbol.toList)
    (hmembers : ∀ m ∈ members, m.OneLined) :
    (Chunk.mk kind symbol doc package filename members).OneLined := by
  intro x hx
  rw [Chunk.nodes] at hx
  rcases List.mem_cons.1 hx with rfl | hx
  · exact ⟨hkind, hsymbol⟩
  · obtain ⟨m, hm, hx⟩ := mem_nodesOf.1 hx
    rw [nodes_eq_map] at hx
    obtain ⟨y, hy, rfl⟩ := List.mem_map.1 hx
    exact hmembers m hm y hy

end DocSearch

namespace DocSearch.Doc

open Go Text

/-! ## What kinds and symbols are made of -/

theorem newline_not_mem_squeezeBlanks (cs : List Char) : '\n' ∉ squeezeBlanks cs := by
  fun_induction squeezeBlanks cs with
  | case1 => simp
  | case2 c hblank => decide
  | case3 c hblank d cs hd ih => exact ih
  | case4 c hblank d cs hd ih => simpa using ih
  | case5 c cs hblank ih =>
    have hc : '\n' ≠ c := by
      rintro rfl
      exact hblank (by decide)
    simp [hc, ih]

theorem newline_not_mem_collapse (s : String) : '\n' ∉ (collapse s).toList := by
  intro h
  have htrim : collapse s = trim (String.ofList (squeezeBlanks s.toList)) := by
    rw [collapse, trim, String.toList_ofList]
  rw [htrim] at h
  have hsqueezed := mem_of_mem_trim h
  rw [String.toList_ofList] at hsqueezed
  exact newline_not_mem_squeezeBlanks _ hsqueezed

theorem newline_not_mem_join {sep : String} {ss : List String} (hsep : '\n' ∉ sep.toList)
    (hss : ∀ s ∈ ss, '\n' ∉ s.toList) : '\n' ∉ (join sep ss).toList := by
  cases ss with
  | nil => simp [join]
  | cons s ss =>
    rw [join, intercalate_cons]
    simpa [hsep] using hss

theorem newline_not_mem_nameOf {cs : List Node} (h : Spelled (lexemesOf cs)) :
    '\n' ∉ (nameOf cs).toList :=
  (isWord_firstName h).not_mem (by decide)

theorem newline_not_mem_typeKind {t : TypeExpr}
    (h : ∀ name, baseName t = some name → '\n' ∉ name.toList) : '\n' ∉ (typeKind t).toList := by
  cases t with
  | named name => simpa [typeKind] using h name rfl
  | _ => simp [typeKind]

theorem newline_not_mem_lastType {cs : List Node} (h : Spelled (lexemesOf cs)) :
    '\n' ∉ (typeKind (((Node.lastType cs).map Node.typeExpr).getD .other)).toList := by
  cases htype : Node.lastType cs with
  | none => simp [typeKind]
  | some n =>
    have hn := h.of_subset (lexemes_subset (mem_of_lastType htype))
    refine newline_not_mem_typeKind fun name hname => ?_
    exact (isWord_baseName n hn name hname).not_mem (by decide)

theorem newline_not_mem_field {cs : List Node} (h : Spelled (lexemesOf cs)) {f : Field}
    (hf : Node.field? .field cs = some f) :
    '\n' ∉ f.type.toList ∧ ∀ name ∈ f.names, '\n' ∉ name.toList := by
  obtain rfl := Option.some.inj hf
  refine ⟨?_, fun name hname => (isWord_of_mem_names h name hname).not_mem (by decide)⟩
  dsimp only
  split_ifs
  · simpa using newline_not_mem_collapse _
  · exact newline_not_mem_collapse _

theorem oneLined_of_memberOf {parent : String} (hparent : '\n' ∉ parent.toList) {n : Node}
    (hn : Spelled n.lexemes) {m : Chunk} (h : MemberOf parent n m) : m.OneLined := by
  cases h with
  | field doc hf =>
    obtain ⟨htype, hnames⟩ := newline_not_mem_field hn hf
    refine Chunk.oneLined_mk htype ?_ (by simp)
    split_ifs
    · simpa using htype
    · simpa [hparent] using newline_not_mem_join (by decide) hnames
  | method cs doc =>
    refine Chunk.oneLined_mk (by decide) ?_ (by simp)
    simpa [hparent] using newline_not_mem_nameOf hn
  | types cs doc =>
    refine Chunk.oneLined_mk (by decide) ?_ (by simp)
    simpa using newline_not_mem_collapse _

theorem spelled_getElem? {tree : List Node} (h : Spelled (lexemesOf tree)) {i : Nat} {label : Label}
    {cs : List Node} (hi : tree[i]? = some (.branch label cs)) : Spelled (lexemesOf cs) :=
  spelled_branch h (List.mem_of_getElem? hi)

theorem exists_of_forall₂ {α β : Type} {R : α → β → Prop} {xs : List α} {ys : List β}
    (h : List.Forall₂ R xs ys) : ∀ y ∈ ys, ∃ x ∈ xs, R x y := by
  induction h with
  | nil => simp
  | cons hxy _ ih =>
    intro z hz
    rcases List.mem_cons.1 hz with rfl | hz
    · exact ⟨_, List.mem_cons_self, hxy⟩
    · obtain ⟨x, hx, hR⟩ := ih z hz
      exact ⟨x, List.mem_cons_of_mem _ hx, hR⟩

theorem spelled_memberNodes {cs : List Node} (h : Spelled (lexemesOf cs)) :
    ∀ n ∈ memberNodes (Node.lastType cs), Spelled n.lexemes := by
  intro n hn
  cases htype : Node.lastType cs with
  | none =>
    rw [htype] at hn
    cases hn
  | some type =>
    rw [htype] at hn
    have hmem := mem_of_lastType htype
    unfold memberNodes at hn
    split at hn
    · next ds heq =>
      obtain rfl := Option.some.inj heq
      obtain ⟨list, hlist, hfield⟩ := List.mem_flatMap.1 (List.mem_filter.1 hn).1
      split at hfield
      · exact (spelled_branch (spelled_branch h hmem) hlist).of_subset (lexemes_subset hfield)
      · cases hfield
    · next ds heq =>
      obtain rfl := Option.some.inj heq
      exact (spelled_branch h hmem).of_subset (lexemes_subset (List.mem_filter.1 hn).1)
    · cases hn

theorem oneLined_of_chunkAt {tree : List Node} {package filename : String}
    (htree : Spelled (lexemesOf tree)) {p : List Nat} {c : Chunk}
    (h : ChunkAt tree package filename p c) : c.OneLined := by
  cases h with
  | type hcs hds hmembers =>
    have hspec := spelled_getElem? (spelled_getElem? htree hcs) hds
    have hname := newline_not_mem_nameOf hspec
    refine Chunk.oneLined_mk (newline_not_mem_lastType hspec) hname fun m hm => ?_
    obtain ⟨n, hn, hmember⟩ := exists_of_forall₂ hmembers m hm
    exact oneLined_of_memberOf hname (spelled_memberNodes hspec n hn) hmember
  | function hcs =>
    have hfunction := spelled_getElem? htree hcs
    exact Chunk.oneLined_mk (by decide) (newline_not_mem_nameOf hfunction) (by simp)
  | method hcs =>
    have hmethod := spelled_getElem? htree hcs
    have hreceiver : '\n' ∉ (receiverName (Node.receiver _)).toList :=
      not_mem_receiverName (by decide) fun base hbase =>
        (isWord_receiver hmethod hbase).not_mem (by decide)
    refine Chunk.oneLined_mk (by decide) ?_ (by simp)
    simp [hreceiver, newline_not_mem_nameOf hmethod]

/-- **No kind and no symbol of a chunk has a line break**, whichever tree it comes from, as long as
the tree is made of lexemes. -/
theorem oneLined_of_extract {tree : List Node} (hspelled : Spelled (lexemesOf tree))
    {filename package : String} {chunks : List Chunk}
    (h : extract filename (Node.siblings Node.declaration? tree) = .ok (package, chunks)) :
    ∀ c ∈ chunks, c.OneLined := by
  obtain ⟨i, cs, head, rest, items, hcs, -, rfl, rfl, hhead, -, -, hmatch⟩ := extract_matches h
  intro c hc
  rcases List.mem_append.1 hc with hfront | hrest
  · rw [hhead] at hfront
    split_ifs at hfront
    · cases hfront
    · obtain rfl := List.mem_singleton.1 hfront
      have hname := newline_not_mem_nameOf (spelled_getElem? hspelled hcs)
      exact Chunk.oneLined_mk (by decide) hname (by simp)
  · obtain ⟨p, -, hchunk⟩ := exists_of_forall₂ hmatch c hrest
    exact oneLined_of_chunkAt hspelled hchunk

theorem oneLined_of_parseSource {source : Bytes} {filename package : String} {chunks : List Chunk}
    (h : parseSource source filename = .ok (package, chunks)) : ∀ c ∈ chunks, c.OneLined := by
  obtain ⟨tree, htree, hextract⟩ := exists_tree h
  exact oneLined_of_extract (spelled_forest htree) hextract

/-- **A rendering has one line for each node.** It is made of the lines of the nodes in pre-order. No
kind and no symbol of a parsed chunk has a line break, so the lines of its text are those of its
nodes, all but the first begin with two blanks, and another indent only stands before each line. -/
theorem rendering_has_line_per_node :
    (∀ (c : Chunk) (indent : String),
      c.render indent = join "\n" ((c.nodes 0).map (levelLine indent))) ∧
    ∀ {source : Bytes} {filename package : String} {chunks : List Chunk},
      parseSource source filename = .ok (package, chunks) → ∀ c ∈ chunks,
        c.OneLined ∧
        c.text.toList.splitOn '\n' = ((c.nodes 0).map (levelLine "")).map String.toList ∧
        (∀ l ∈ (c.text.toList.splitOn '\n').tail, [' ', ' '] <+: l) ∧
        ∀ indent, c.render indent =
          join "\n" ((c.text.toList.splitOn '\n').map fun l => indent ++ String.ofList l) := by
  refine ⟨render_eq_intercalate, fun h c hc => ?_⟩
  have hlined := oneLined_of_parseSource h c hc
  exact ⟨hlined, hlined.splitOn_text, hlined.starts_of_mem_tail, hlined.render_eq⟩

/-- A struct with a field whose type goes over several lines and holds a comment and a string with a
line break, and with an embedded pointer. -/
def nestedSource : Bytes :=
  Utf8.encode ("package p\n\n// T is\n// a type.\ntype T struct \x7b\n\t// A is.\n" ++
    "\tA struct \x7b // x\n\t\tB [len(\x60a\nb\x60)]int\n\t\x7d\n\t*U\n\x7d\n")

/-- Its rendering has three lines, and an indent stands before each of them. -/
theorem rendering_has_line_per_node_nested :
    ∃ package chunks c, parseSource nestedSource "p.go" = .ok (package, chunks) ∧ c ∈ chunks ∧
      c.text = "struct T: T is a type.\n" ++
        "  struct \x7b // x B [len(\x60a b\x60)]int \x7d T.A: A is.\n  *U embedded *U: " ∧
      (c.nodes 0).length = 3 ∧ (c.text.toList.splitOn '\n').length = 3 ∧
      c.render "> " = "> struct T: T is a type.\n" ++
        ">   struct \x7b // x B [len(\x60a b\x60)]int \x7d T.A: A is.\n>   *U embedded *U: " := by
  obtain ⟨file, package, chunks, -, hparse, hall⟩ := exists_file nestedSource "p.go"
    (fun _ chunks => chunks.any fun c => (c.nodes 0).length = 3 ∧
      c.text = "struct T: T is a type.\n" ++
        "  struct \x7b // x B [len(\x60a b\x60)]int \x7d T.A: A is.\n  *U embedded *U: ")
    (by decide +kernel)
  obtain ⟨c, hc, hshape⟩ := List.any_eq_true.1 hall
  obtain ⟨hnodes, htext⟩ := of_decide_eq_true hshape
  obtain ⟨-, hlines, -, hindent⟩ := rendering_has_line_per_node.2 hparse c hc
  refine ⟨package, chunks, c, hparse, hc, htext, hnodes, ?_, ?_⟩
  · rw [hlines, List.length_map, List.length_map, hnodes]
  · rw [hindent, htext]
    decide +kernel

end DocSearch.Doc
