import Mathlib.Data.List.Forall2
import DocSearch.Proofs.Doc.Blocks

/-!
# Every item has its chunk

The chunks of a file are read off its outline, and the outline is read off the syntax tree, where
things may be missed without any error.

**Places.** A place is the way down to a node: a top-level node is at `[i]`, and what is inside it
is at `[i, j]`. Smaller places come first in the source.

**`chunks_match_items`** The chunks of a file, apart from that of its package clause, stand one to
one and in order for the places of its tree that deserve one (`Deserves`). The tree may be any
(`extract_matches`).
-/

namespace DocSearch.Doc

open Go Text

variable {α : Type}

/-! ## Lead groups in a tree -/

/-- The lead group of the `i`-th of some nodes. -/
def leadAt (nodes : List Node) (i : Nat) : List Comment :=
  leadGroup (Node.siblings (fun _ _ => (none : Option Unit)) (nodes.take i)).reverse
    ((nodes[i]?.map fun n => n.rows.first).getD 0)

/-- A sibling as comments see it. -/
def bystander : Sibling α → Sibling Unit
  | .comment text rows => .comment text rows
  | .semicolon rows => .semicolon rows
  | .mark rows | .node _ rows => .mark rows

theorem commentRun_bystander (ss : List (Sibling α)) :
    commentRun (ss.map bystander) = commentRun ss := by
  induction ss with
  | nil => rfl
  | cons s ss ih =>
    cases s with
    | comment text rows =>
      simp only [List.map_cons, bystander, commentRun]
      exact congrArg _ ih
    | semicolon | mark | node => rfl

theorem leadGroup_bystander (before : List (Sibling α)) (row : Nat) :
    leadGroup (before.map bystander) row = leadGroup before row := by
  have hrows : ∀ s : Sibling α, (bystander s).rows = s.rows := by
    intro s
    cases s <;> rfl
  unfold leadGroup
  simp only [commentRun_bystander, ← List.map_drop]
  cases before.drop (commentRun before).length with
  | nil => rfl
  | cons s rest => simp only [List.map_cons, hrows]

theorem siblings_bystander (f : Label → List Node → Option α) (nodes : List Node) :
    (Node.siblings f nodes).map bystander =
      Node.siblings (fun _ _ => (none : Option Unit)) nodes := by
  unfold Node.siblings
  rw [List.map_map]
  refine List.map_congr_left fun n _ => ?_
  cases n with
  | leaf l =>
    dsimp only [Function.comp_apply]
    split_ifs <;> rfl
  | branch label cs =>
    dsimp only [Function.comp_apply]
    cases f label cs <;> rfl

theorem leadGroup_siblings (f : Label → List Node → Option α) (front : List Node) (n : Node)
    (back : List Node) :
    leadGroup (Node.siblings f front).reverse n.rows.first =
      leadAt (front ++ n :: back) front.length := by
  rw [← leadGroup_bystander, List.map_reverse, siblings_bystander, leadAt, List.take_left,
    List.getElem?_append_right (Nat.le_refl _), Nat.sub_self]
  rfl

/-! ## Nodes of interest by their places -/

/-- Whether a node is one of those that `f` looks for. -/
def isSought (f : Label → List Node → Option α) : Node → Bool
  | .leaf _ => false
  | .branch label cs => (f label cs).isSome

theorem exists_of_isSought {f : Label → List Node → Option α} {n : Node}
    (h : isSought f n = true) :
    ∃ label cs value, n = .branch label cs ∧ f label cs = some value := by
  cases n with
  | leaf l => cases h
  | branch label cs =>
    obtain ⟨value, hvalue⟩ := Option.isSome_iff_exists.1 h
    exact ⟨label, cs, value, rfl, hvalue⟩

/-- A node that nobody looks for is passed over. -/
theorem nodesIn_passed {f : Label → List Node → Option α} {n : Node} (h : isSought f n = false)
    (before : List (Sibling α)) (nodes : List Node) :
    nodesIn before (Node.siblings f (n :: nodes)) =
      nodesIn (Node.siblings f [n] ++ before) (Node.siblings f nodes) := by
  cases n with
  | leaf l =>
    simp only [Node.siblings, List.map_cons, List.map_nil, List.cons_append, List.nil_append]
    split_ifs <;> rfl
  | branch label cs =>
    have hnone : f label cs = none := by simpa [isSought] using h
    simp only [Node.siblings, List.map_cons, List.map_nil, List.cons_append, List.nil_append, hnone]
    rfl

theorem nodesIn_sought {f : Label → List Node → Option α} {label : Label} {cs : List Node}
    {value : α} (h : f label cs = some value) (before : List (Sibling α)) (nodes : List Node) :
    nodesIn before (Node.siblings f (.branch label cs :: nodes)) =
      (value, (Node.branch label cs).rows, before, Node.siblings f nodes) ::
        nodesIn (Node.siblings f [.branch label cs] ++ before) (Node.siblings f nodes) := by
  simp only [Node.siblings, List.map_cons, List.map_nil, List.cons_append, List.nil_append, h]
  rfl

/-- What `f` finds at the `i`-th of some nodes, with the lead group. -/
def FoundAt (f : Label → List Node → Option α) (nodes : List Node) (i : Nat)
    (x : α × List Comment) : Prop :=
  ∃ label cs, nodes[i]? = some (.branch label cs) ∧ f label cs = some x.1 ∧ x.2 = leadAt nodes i

/-- **Each node of interest is found once, in its place.** -/
theorem led_siblings (f : Label → List Node → Option α) (nodes : List Node) :
    List.Forall₂ (FoundAt f nodes) (nodes.findIdxs (isSought f)) (led (Node.siblings f nodes)) := by
  suffices hrest : ∀ front back : List Node, front ++ back = nodes →
      List.Forall₂ (FoundAt f nodes) (back.findIdxs (isSought f) front.length)
        ((nodesIn (Node.siblings f front).reverse (Node.siblings f back)).map fun x =>
          (x.1, leadGroup x.2.2.1 x.2.1.first)) from hrest [] nodes rfl
  intro front back hnodes
  induction back generalizing front with
  | nil => exact List.Forall₂.nil
  | cons n back ih =>
    have htail := ih (front ++ [n]) (by simp [hnodes])
    have hbefore : (Node.siblings f (front ++ [n])).reverse =
        Node.siblings f [n] ++ (Node.siblings f front).reverse := by
      simp [Node.siblings]
    rw [List.length_append, List.length_singleton, hbefore] at htail
    rw [List.findIdxs_cons]
    cases hsought : isSought f n with
    | false =>
      rw [nodesIn_passed hsought]
      exact htail
    | true =>
      obtain ⟨label, cs, value, rfl, hvalue⟩ := exists_of_isSought hsought
      rw [nodesIn_sought hvalue]
      refine List.Forall₂.cons ⟨label, cs, ?_, hvalue, ?_⟩ htail
      · simp [← hnodes]
      · rw [← hnodes]
        exact leadGroup_siblings f front (.branch label cs) back

/-! ## What deserves a chunk -/

/-- The name in a node. -/
def nameOf (children : List Node) : String := (Node.names children).head?.getD ""

/-- The places in a tree that deserve a chunk: exported types in top-level declarations, and
exported functions and methods that are documented. -/
inductive Deserves (tree : List Node) : List Nat → Prop where
  | type {i j : Nat} {cs ds : List Node} :
    tree[i]? = some (.branch .typeDeclaration cs) → cs[j]? = some (.branch .typeSpec ds) →
      isExported (nameOf ds) = true → Deserves tree [i, j]
  | function {i : Nat} {cs : List Node} :
    tree[i]? = some (.branch .function cs) → isExported (nameOf cs) = true →
      leadAt tree i ≠ [] → Deserves tree [i]
  | method {i : Nat} {cs : List Node} :
    tree[i]? = some (.branch .method cs) → isExported (nameOf cs) = true →
      leadAt tree i ≠ [] → Deserves tree [i]

/-- Whether a node has one of some labels. -/
def hasLabel (labels : List Label) : Node → Bool
  | .leaf _ => false
  | .branch label _ => labels.contains label

/-- The nodes that are the members of a type. -/
def memberNodes : Option Node → List Node
  | some (.branch .structType cs) => (Node.fieldNodes cs).filter (hasLabel [.field])
  | some (.branch .interfaceType cs) => cs.filter (hasLabel [.methodElement, .typeElement])
  | _ => []

/-- The chunk of a member of the type `parent`. -/
inductive MemberOf (parent : String) : Node → Chunk → Prop where
  | field {cs : List Node} {f : Field} (doc : String) :
    Node.field? .field cs = some f → MemberOf parent (.branch .field cs) (.mk f.type
      (if f.names.isEmpty then "embedded " ++ f.type else parent ++ "." ++ join ", " f.names)
      doc "" "" [])
  | method (cs : List Node) (doc : String) : MemberOf parent (.branch .methodElement cs)
      (.mk "method" (parent ++ "." ++ nameOf cs) doc "" "" [])
  | types (cs : List Node) (doc : String) : MemberOf parent (.branch .typeElement cs)
      (.mk "method" ("embedded " ++ collapse (Node.branch .typeElement cs).text) doc "" "" [])

/-- The chunk of what stands at a place. -/
inductive ChunkAt (tree : List Node) (package filename : String) : List Nat → Chunk → Prop where
  | type {i j : Nat} {cs ds : List Node} {members : List Chunk} :
    tree[i]? = some (.branch .typeDeclaration cs) → cs[j]? = some (.branch .typeSpec ds) →
      List.Forall₂ (MemberOf (nameOf ds)) (memberNodes (Node.lastType ds)) members →
      ChunkAt tree package filename [i, j] (.mk
        (typeKind (((Node.lastType ds).map Node.typeExpr).getD .other)) (nameOf ds)
        (docText (if (leadAt tree i).isEmpty && cs.any (Node.isSign "(") then leadAt cs j
          else leadAt tree i))
        package filename members)
  | function {i : Nat} {cs : List Node} : tree[i]? = some (.branch .function cs) →
      ChunkAt tree package filename [i] (.mk "function" (nameOf cs) (docText (leadAt tree i))
        package filename [])
  | method {i : Nat} {cs : List Node} : tree[i]? = some (.branch .method cs) →
      ChunkAt tree package filename [i] (.mk "function"
        (receiverName (Node.receiver cs) ++ "." ++ nameOf cs) (docText (leadAt tree i)) package
        filename [])

/-! ## Members -/

theorem nodesIn_siblings (f : Label → List Node → Option α) (before : List (Sibling α))
    (nodes : List Node) :
    List.Forall₂ (fun n x => ∃ label cs, n = .branch label cs ∧ f label cs = some x.1)
      (nodes.filter (isSought f)) (nodesIn before (Node.siblings f nodes)) := by
  induction nodes generalizing before with
  | nil => exact List.Forall₂.nil
  | cons n nodes ih =>
    rw [List.filter_cons]
    cases hsought : isSought f n with
    | false =>
      rw [nodesIn_passed hsought]
      exact ih _
    | true =>
      obtain ⟨label, cs, value, rfl, hvalue⟩ := exists_of_isSought hsought
      rw [nodesIn_sought hvalue]
      exact List.Forall₂.cons ⟨label, cs, rfl, hvalue⟩ (ih _)

theorem isSought_field? : isSought Node.field? = hasLabel [.field] := by
  funext n
  cases n with
  | leaf l => rfl
  | branch label cs => cases label <;> rfl

theorem isSought_element? : isSought Node.element? = hasLabel [.methodElement, .typeElement] := by
  funext n
  cases n with
  | leaf l => rfl
  | branch label cs => cases label <;> rfl

/-- **The members of a type have their chunks**, one to one and in order. -/
theorem memberChunks_match (parent : String) (type : Option Node) :
    List.Forall₂ (MemberOf parent) (memberNodes type)
      (memberChunks parent ((type.map Node.typeExpr).getD .other)) := by
  cases type with
  | none => exact List.Forall₂.nil
  | some n =>
    cases n with
    | leaf l => exact List.Forall₂.nil
    | branch label cs =>
      cases label with
      | structType =>
        rw [memberNodes, ← isSought_field?]
        refine List.forall₂_map_right_iff.2 ((nodesIn_siblings _ _ _).imp ?_)
        rintro _ x ⟨label, ds, rfl, hfield⟩
        have hlabel : label = .field := by
          by_contra hne
          simp [Node.field?, hne] at hfield
        subst hlabel
        exact .field _ hfield
      | interfaceType =>
        rw [memberNodes, ← isSought_element?]
        refine List.forall₂_map_right_iff.2 ((nodesIn_siblings _ _ _).imp ?_)
        rintro _ ⟨e, rows, before, behind⟩ ⟨label, ds, rfl, helement⟩
        cases label with
        | methodElement =>
          obtain rfl := Option.some.inj helement
          exact .method _ _
        | typeElement =>
          obtain rfl := Option.some.inj helement
          exact .types _ _
        | _ => cases helement
      | _ => exact List.Forall₂.nil

/-! ## Places -/

/-- The places inside a type declaration. -/
def typePlaces (i : Nat) (cs : List Node) : List (List Nat) :=
  (cs.findIdxs (isSought Node.typeSpec?)).filterMap fun j =>
    if (cs[j]?.any fun
      | .branch _ ds => isExported (nameOf ds)
      | .leaf _ => false) = true then some [i, j] else none

/-- The places at and below the `i`-th of the top-level nodes. -/
def placesAt (tree : List Node) (i : Nat) : List (List Nat) :=
  match tree[i]? with
  | some (.branch .typeDeclaration cs) => typePlaces i cs
  | some (.branch .function cs) | some (.branch .method cs) =>
    if isExported (nameOf cs) && !(leadAt tree i).isEmpty then [[i]] else []
  | _ => []

/-- The places of a tree. -/
def places (tree : List Node) : List (List Nat) :=
  (tree.findIdxs (isSought Node.declaration?)).flatMap (placesAt tree)

theorem typeSpec?_eq_some {label : Label} {ds : List Node} {spec : TypeSpec}
    (h : Node.typeSpec? label ds = some spec) : label = .typeSpec ∧
      spec = ⟨nameOf ds, ((Node.lastType ds).map Node.typeExpr).getD .other⟩ := by
  unfold Node.typeSpec? at h
  split_ifs at h with hlabel
  exact ⟨eq_of_beq hlabel, (Option.some.inj h).symm⟩

theorem mem_typePlaces {i : Nat} {cs : List Node} {p : List Nat} :
    p ∈ typePlaces i cs ↔
      ∃ j ds, p = [i, j] ∧ cs[j]? = some (.branch .typeSpec ds) ∧
        isExported (nameOf ds) = true := by
  unfold typePlaces
  simp only [List.mem_filterMap, List.mem_findIdxs_iff_exists_getElem_pos,
    Option.ite_none_right_eq_some, Option.some.injEq]
  constructor
  · rintro ⟨j, ⟨hj, hsought⟩, hexported, rfl⟩
    rw [List.getElem?_eq_getElem hj] at hexported
    cases hn : cs[j] with
    | leaf l => simp [hn] at hexported
    | branch label ds =>
      rw [hn] at hsought hexported
      obtain ⟨spec, hspec⟩ := Option.isSome_iff_exists.1 hsought
      obtain ⟨rfl, -⟩ := typeSpec?_eq_some hspec
      exact ⟨j, ds, rfl, by rw [List.getElem?_eq_getElem hj, hn], by simpa using hexported⟩
  · rintro ⟨j, ds, rfl, hds, hexported⟩
    obtain ⟨hj, hn⟩ := List.getElem?_eq_some_iff.1 hds
    refine ⟨j, ⟨hj, ?_⟩, ?_, rfl⟩
    · rw [hn]
      rfl
    · rw [hds]
      simpa using hexported

theorem mem_documented {i : Nat} {name : String} {lead : List Comment} {p : List Nat} :
    p ∈ (if isExported name && !lead.isEmpty then [[i]] else []) ↔
      isExported name = true ∧ lead ≠ [] ∧ p = [i] := by
  simp [List.mem_ite_nil_right, and_assoc]

theorem mem_placesAt {tree : List Node} {i : Nat} {p : List Nat} :
    p ∈ placesAt tree i ↔ Deserves tree p ∧ p.head? = some i := by
  constructor
  · intro h
    unfold placesAt at h
    split at h
    · next cs hcs =>
      obtain ⟨j, ds, rfl, hds, hexported⟩ := mem_typePlaces.1 h
      exact ⟨.type hcs hds hexported, rfl⟩
    · next cs hcs =>
      obtain ⟨hexported, hlead, rfl⟩ := mem_documented.1 h
      exact ⟨.function hcs hexported hlead, rfl⟩
    · next cs hcs =>
      obtain ⟨hexported, hlead, rfl⟩ := mem_documented.1 h
      exact ⟨.method hcs hexported hlead, rfl⟩
    · cases h
  · rintro ⟨h, hhead⟩
    cases h with
    | type hcs hds hexported =>
      obtain rfl := Option.some.inj hhead
      rw [placesAt, hcs]
      exact mem_typePlaces.2 ⟨_, _, rfl, hds, hexported⟩
    | function hcs hexported hlead | method hcs hexported hlead =>
      obtain rfl := Option.some.inj hhead
      rw [placesAt, hcs]
      exact mem_documented.2 ⟨hexported, hlead, rfl⟩

theorem mem_places {tree : List Node} {p : List Nat} : p ∈ places tree ↔ Deserves tree p := by
  unfold places
  simp only [List.mem_flatMap, mem_placesAt, List.mem_findIdxs_iff_exists_getElem_pos]
  constructor
  · rintro ⟨i, -, h, -⟩
    exact h
  · intro h
    have hsought : ∀ {i : Nat} {label : Label} {cs : List Node},
        tree[i]? = some (.branch label cs) → (Node.declaration? label cs).isSome →
        ∃ hi : i < tree.length, isSought Node.declaration? tree[i] = true := by
      intro i label cs hcs hsome
      obtain ⟨hi, hn⟩ := List.getElem?_eq_some_iff.1 hcs
      exact ⟨hi, by rw [hn]; exact hsome⟩
    cases h with
    | type hcs hds hexported => exact ⟨_, hsought hcs rfl, .type hcs hds hexported, rfl⟩
    | function hcs hexported hlead =>
      exact ⟨_, hsought hcs rfl, .function hcs hexported hlead, rfl⟩
    | method hcs hexported hlead => exact ⟨_, hsought hcs rfl, .method hcs hexported hlead, rfl⟩

theorem pairwise_places (tree : List Node) : (places tree).Pairwise (· < ·) := by
  refine List.pairwise_flatMap.2 ⟨fun i _ => ?_, ?_⟩
  · unfold placesAt
    split
    · refine List.pairwise_filterMap.2 (List.pairwise_findIdxs.imp fun hlt p hp q hq => ?_)
      rw [Option.ite_none_right_eq_some] at hp hq
      obtain ⟨-, hp⟩ := hp
      obtain ⟨-, hq⟩ := hq
      obtain rfl := Option.some.inj hp
      obtain rfl := Option.some.inj hq
      exact List.cons_lt_cons_iff.2 (.inr ⟨rfl, List.cons_lt_cons_iff.2 (.inl hlt)⟩)
    · split_ifs <;> simp
    · split_ifs <;> simp
    · exact List.Pairwise.nil
  · refine List.pairwise_findIdxs.imp fun {i k} hlt p hp q hq => ?_
    obtain ⟨-, hp⟩ := mem_placesAt.1 hp
    obtain ⟨-, hq⟩ := mem_placesAt.1 hq
    obtain ⟨p', rfl⟩ := List.head?_eq_some_iff.1 hp
    obtain ⟨q', rfl⟩ := List.head?_eq_some_iff.1 hq
    exact List.cons_lt_cons_iff.2 (.inl hlt)

/-! ## Chunks in their places -/

section

variable (package filename : String) {tree : List Node} {i : Nat}

theorem typeChunks_match {cs : List Node} (hcs : tree[i]? = some (.branch .typeDeclaration cs)) :
    List.Forall₂ (ChunkAt tree package filename) (typePlaces i cs)
      (typeChunks package filename (leadAt tree i) (cs.any (Node.isSign "("))
        (Node.siblings Node.typeSpec? cs)) := by
  rw [typeChunks_eq_led]
  refine List.rel_filterMap ?_ (led_siblings Node.typeSpec? cs)
  rintro j ⟨spec, lead⟩ ⟨label, ds, hds, hspec, rfl⟩
  obtain ⟨rfl, rfl⟩ := typeSpec?_eq_some hspec
  by_cases hexported : isExported (nameOf ds) = true
  · simp only [hds, Option.any_some, hexported, if_true]
    exact .some (.type hcs hds (memberChunks_match _ _))
  · simp only [hds, Option.any_some, hexported]
    exact .none

theorem functionChunk?_match {name symbol : String}
    (hchunk : ChunkAt tree package filename [i]
      (.mk "function" symbol (docText (leadAt tree i)) package filename [])) :
    List.Forall₂ (ChunkAt tree package filename)
      (if isExported name && !(leadAt tree i).isEmpty then [[i]] else [])
      (functionChunk? package filename name symbol (leadAt tree i)).toList := by
  unfold functionChunk?
  split_ifs
  · exact .cons hchunk .nil
  · exact .nil

/-- The chunks of a top-level node stand for the places at and below it. -/
theorem declarationChunks_match {x : Declaration × List Comment}
    (h : FoundAt Node.declaration? tree i x) :
    List.Forall₂ (ChunkAt tree package filename) (placesAt tree i)
      (declarationChunks package filename x.2 x.1) := by
  obtain ⟨d, lead⟩ := x
  obtain ⟨label, cs, hcs, hd, rfl⟩ := h
  unfold placesAt
  cases label with
  | package =>
    obtain rfl := Option.some.inj hd
    simp only [hcs]
    exact .nil
  | typeDeclaration =>
    obtain rfl := Option.some.inj hd
    simp only [hcs]
    exact typeChunks_match package filename hcs
  | function =>
    obtain rfl := Option.some.inj hd
    simp only [hcs]
    exact functionChunk?_match package filename (.function hcs)
  | method =>
    obtain rfl := Option.some.inj hd
    simp only [hcs]
    exact functionChunk?_match package filename (.method hcs)
  | _ => cases hd

theorem siblingChunks_match (tree : List Node) :
    List.Forall₂ (ChunkAt tree package filename) (places tree)
      (siblingChunks package filename (Node.siblings Node.declaration? tree)) := by
  rw [siblingChunks_eq_led]
  exact List.rel_flatMap (led_siblings Node.declaration? tree) fun i x hx =>
    declarationChunks_match package filename hx

end

/-! ## The package clause -/

/-- The package clause at a place. -/
def clauseAt? (tree : List Node) (i : Nat) : Option (String × List Comment) :=
  match tree[i]? with
  | some (.branch .package cs) => some (nameOf cs, leadAt tree i)
  | _ => none

theorem clauseOf?_of_foundAt {tree : List Node} {i : Nat} {x : Declaration × List Comment}
    (h : FoundAt Node.declaration? tree i x) : clauseOf? x = clauseAt? tree i := by
  obtain ⟨d, lead⟩ := x
  obtain ⟨label, cs, hcs, hd, rfl⟩ := h
  unfold clauseAt?
  cases label with
  | package | typeDeclaration | function | method =>
    obtain rfl := Option.some.inj hd
    simp only [hcs]
    rfl
  | _ => cases hd

theorem packageClause?_siblings (tree : List Node) :
    packageClause? (Node.siblings Node.declaration? tree) =
      (tree.findIdxs (isSought Node.declaration?)).findSome? (clauseAt? tree) := by
  rw [packageClause?_eq_led]
  have hall := led_siblings Node.declaration? tree
  generalize tree.findIdxs (isSought Node.declaration?) = is at hall ⊢
  generalize led (Node.siblings Node.declaration? tree) = xs at hall ⊢
  induction hall with
  | nil => rfl
  | cons hx _ ih => rw [List.findSome?_cons, List.findSome?_cons, clauseOf?_of_foundAt hx, ih]

/-- The package clause of a file is the first one in its tree. -/
theorem exists_clause {tree : List Node} {package : String} {group : List Comment}
    (h : packageClause? (Node.siblings Node.declaration? tree) = some (package, group)) :
    ∃ i cs, tree[i]? = some (.branch .package cs) ∧ package = nameOf cs ∧ group = leadAt tree i ∧
      ∀ k < i, ∀ ds, tree[k]? ≠ some (.branch .package ds) := by
  rw [packageClause?_siblings, List.findSome?_eq_some_iff] at h
  obtain ⟨front, i, back, hsplit, hi, hfront⟩ := h
  have hsorted : (front ++ i :: back).Pairwise (· < ·) := hsplit ▸ List.pairwise_findIdxs
  obtain ⟨-, hback, -⟩ := List.pairwise_append.1 hsorted
  have hfirst : ∀ k < i, ∀ ds, tree[k]? ≠ some (.branch .package ds) := by
    intro k hk ds hds
    obtain ⟨hlt, hn⟩ := List.getElem?_eq_some_iff.1 hds
    have hmem : k ∈ front ++ i :: back := by
      rw [← hsplit]
      exact List.mem_findIdxs_iff_exists_getElem_pos.2 ⟨hlt, by rw [hn]; rfl⟩
    rcases List.mem_append.1 hmem with hmem | hmem
    · have hnone := hfront k hmem
      rw [clauseAt?, hds] at hnone
      cases hnone
    · rcases List.mem_cons.1 hmem with rfl | hmem
      · omega
      · have := (List.pairwise_cons.1 hback).1 k hmem
        omega
  unfold clauseAt? at hi
  split at hi
  · next cs hcs =>
    obtain ⟨rfl, rfl⟩ := Prod.mk.inj (Option.some.inj hi)
    exact ⟨i, cs, hcs, rfl, rfl, hfirst⟩
  · cases hi

/-! ## Files -/

/-- **The chunks of any tree**, whoever has read it: one for the package clause, if that is
documented, and then one for each place that deserves one, in order. -/
theorem extract_matches {tree : List Node} {filename package : String} {chunks : List Chunk}
    (h : extract filename (Node.siblings Node.declaration? tree) = .ok (package, chunks)) :
    ∃ i cs head rest items, tree[i]? = some (.branch .package cs) ∧
      (∀ k < i, ∀ ds, tree[k]? ≠ some (.branch .package ds)) ∧
      package = nameOf cs ∧ chunks = head ++ rest ∧
      head = (if leadAt tree i = [] then []
        else [.mk "package" package (docText (leadAt tree i)) package filename []]) ∧
      items.Pairwise (· < ·) ∧ (∀ p, p ∈ items ↔ Deserves tree p) ∧
      List.Forall₂ (ChunkAt tree package filename) items rest := by
  obtain ⟨head, hhead, rfl⟩ := extract_eq_ok_iff.1 h
  obtain ⟨⟨name, group⟩, hclause, heq⟩ := Option.map_eq_some_iff.1 hhead
  obtain ⟨rfl, rfl⟩ := Prod.mk.inj heq
  obtain ⟨i, cs, hcs, rfl, rfl, hfirst⟩ := exists_clause hclause
  refine ⟨i, cs, _, _, places tree, hcs, hfirst, rfl, rfl, ?_, pairwise_places tree,
    fun p => mem_places, siblingChunks_match _ filename tree⟩
  unfold packageChunk?
  simp only [List.isEmpty_iff]
  split_ifs <;> rfl

/-- A source that is accepted has a tree. -/
theorem exists_tree {source : Bytes} {filename : String} {r : String × List Chunk}
    (h : parseSource source filename = .ok r) :
    ∃ tree, forest? (Utf8.decodeLossy source) = some tree ∧
      extract filename (Node.siblings Node.declaration? tree) = .ok r := by
  unfold parseSource at h
  rw [ofText?_eq] at h
  cases htree : forest? (Utf8.decodeLossy source) with
  | none =>
    rw [htree] at h
    cases h
  | some tree =>
    rw [htree] at h
    exact ⟨tree, rfl, h⟩

/-- **Every item has its chunk, and every chunk its item.** The chunks of a file are one for its
package clause, if that is documented, and then one for each place of its tree that deserves one, in
source order. -/
theorem chunks_match_items {source : Bytes} {filename package : String} {chunks : List Chunk}
    (h : parseSource source filename = .ok (package, chunks)) :
    ∃ tree i cs head rest items, forest? (Utf8.decodeLossy source) = some tree ∧
      tree[i]? = some (.branch .package cs) ∧
      (∀ k < i, ∀ ds, tree[k]? ≠ some (.branch .package ds)) ∧
      package = nameOf cs ∧ chunks = head ++ rest ∧
      head = (if leadAt tree i = [] then []
        else [.mk "package" package (docText (leadAt tree i)) package filename []]) ∧
      items.Pairwise (· < ·) ∧ (∀ p, p ∈ items ↔ Deserves tree p) ∧
      List.Forall₂ (ChunkAt tree package filename) items rest := by
  obtain ⟨tree, htree, hextract⟩ := exists_tree h
  obtain ⟨i, cs, head, rest, items, hmatches⟩ := extract_matches hextract
  exact ⟨tree, i, cs, head, rest, items, htree, hmatches⟩

/-- A documented package with a group of types, a function without documentation and a method. -/
def shapes : Bytes :=
  Utf8.encode ("// Package p is documented.\npackage p\n\ntype (\n\tT struct \x7b\n" ++
    "\t\tA, B int\n\t\t*U\n\t\x7d\n\tu = int\n\tI interface\x7b M() \x7d\n)\n\nfunc F() \x7b\x7d\n\n" ++
    "// M does.\nfunc (t *T) M() \x7b type V int \x7d\n")

/-- The alias is not exported, the function has no documentation, and the last type is inside a
method: none of them deserves a chunk. -/
theorem shapes_match_items :
    ∃ package chunks tree head rest items, parseSource shapes "p.go" = .ok (package, chunks) ∧
      chunks.map Chunk.symbol = ["p", "T", "I", "*T.M"] ∧
      (chunks.flatMap Chunk.members).map Chunk.symbol = ["T.A, B", "embedded *U", "I.M"] ∧
      forest? (Utf8.decodeLossy shapes) = some tree ∧ chunks = head ++ rest ∧
      (∀ p, p ∈ items ↔ Deserves tree p) ∧
      List.Forall₂ (ChunkAt tree package "p.go") items rest := by
  obtain ⟨file, package, chunks, -, hparse, hall⟩ := exists_file shapes "p.go"
    (fun _ chunks => chunks.map Chunk.symbol = ["p", "T", "I", "*T.M"] ∧
      (chunks.flatMap Chunk.members).map Chunk.symbol = ["T.A, B", "embedded *U", "I.M"])
    (by decide +kernel)
  obtain ⟨hsymbols, hmembers⟩ := of_decide_eq_true hall
  obtain ⟨tree, -, -, head, rest, items, htree, -, -, -, hchunks, -, -, hitems, hmatch⟩ :=
    chunks_match_items hparse
  exact ⟨package, chunks, tree, head, rest, items, hparse, hsymbols, hmembers, htree, hchunks,
    hitems, hmatch⟩

end DocSearch.Doc
