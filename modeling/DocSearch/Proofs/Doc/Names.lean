import DocSearch.Doc.Extract
import DocSearch.Proofs.Go.Reading

/-!
# Names in declarations

A declaration names types, a function, or a method of a type. All of these names come from the text
(`named_of_ofText?`): they are words, without the stop between a type and its method and without the
star of a pointer.
-/

namespace DocSearch.Doc

open Go Text

/-! ## What a declaration names -/

mutual

/-- The name of a type without the parentheses, stars and type arguments around it. -/
def baseName : TypeExpr → Option String
  | .named name => some name
  | .generic base => baseNameOf base
  | .pointer _ target => baseNameOf target
  | .parenthesized inner => baseNameOf inner
  | _ => none

/-- The same for a type that may be missing. -/
def baseNameOf : Option TypeExpr → Option String
  | none => none
  | some t => baseName t

end

/-- The names that a declaration gives to types and functions. -/
def ownNames : Declaration → List String
  | .types _ specs => (nodesIn [] specs).map (·.1.name)
  | .function name => [name]
  | _ => []

/-- The base type of a method's receiver and the name of the method, if there is such a type. -/
def ownMethod? : Declaration → Option (String × String)
  | .method receiver name => (baseNameOf receiver).map (·, name)
  | _ => none

/-! ## Names are words -/

/-- All names in a declaration are words. -/
structure Named (d : Declaration) : Prop where
  own : ∀ name ∈ ownNames d, IsWord name.toList
  method : ∀ receiver name, d = .method receiver name → IsWord name.toList
  base : ∀ receiver name, d = .method receiver name → ∀ base, baseNameOf receiver = some base →
    IsWord base.toList

theorem isWord_empty : IsWord "".toList := by
  intro c hc
  cases hc

theorem isWord_of_mem_names {children : List Node} (h : Spelled (lexemesOf children)) :
    ∀ name ∈ Node.names children, IsWord name.toList := by
  intro name hname
  obtain ⟨n, hn, heq⟩ := List.mem_filterMap.1 hname
  cases n with
  | branch label cs => cases heq
  | leaf l =>
    dsimp only at heq
    split at heq
    · next hkind =>
      obtain rfl := Option.some.inj heq
      rw [String.toList_ofList]
      exact h l (lexemes_subset hn (List.mem_singleton_self l)) (beq_iff_eq.1 hkind)
    · cases heq

theorem isWord_firstName {children : List Node} (h : Spelled (lexemesOf children)) :
    IsWord ((Node.names children).head?.getD "").toList := by
  cases hname : (Node.names children).head? with
  | none => exact isWord_empty
  | some name => exact isWord_of_mem_names h name (List.mem_of_head? hname)

mutual

theorem isWord_baseName : ∀ n : Node, Spelled n.lexemes → ∀ base,
    baseName n.typeExpr = some base → IsWord base.toList
  | .leaf l, _, base, hbase => by
    cases hbase
  | .branch label children, h, base, hbase => by
    cases label with
    | namedType =>
      obtain rfl := Option.some.inj hbase
      exact isWord_firstName h
    | genericType | pointerType | parenthesizedType => exact isWord_baseNameOf children h base hbase
    | _ => cases hbase

theorem isWord_baseNameOf : ∀ ns : List Node, Spelled (lexemesOf ns) → ∀ base,
    baseNameOf (Node.innerType ns) = some base → IsWord base.toList
  | [], _, base, hbase => by
    cases hbase
  | .leaf l :: ns, h, base, hbase =>
    isWord_baseNameOf ns (h.of_subset (List.subset_append_right _ _)) base hbase
  | .branch label cs :: ns, h, base, hbase => by
    rw [Node.innerType] at hbase
    split at hbase
    · have hnode := h.of_subset (List.subset_append_left _ _)
      exact isWord_baseName (.branch label cs) hnode base hbase
    · exact isWord_baseNameOf ns (h.of_subset (List.subset_append_right _ _)) base hbase

end

/-! ## Names among siblings -/

theorem mem_of_mem_nodesIn {α : Type} {ss : List (Sibling α)} :
    ∀ {before : List (Sibling α)} {x}, x ∈ nodesIn before ss → .node x.1 x.2.1 ∈ ss := by
  induction ss with
  | nil =>
    intro before x hx
    cases hx
  | cons s ss ih =>
    intro before x hx
    cases s with
    | node value rows =>
      rcases List.mem_cons.1 hx with rfl | hrest
      · exact List.mem_cons_self
      · exact List.mem_cons_of_mem _ (ih hrest)
    | comment | semicolon | mark => exact List.mem_cons_of_mem _ (ih hx)

/-- What stands among siblings stands for a branch. -/
theorem exists_branch {α : Type} {f : Label → List Node → Option α} {children : List Node}
    {value : α} {rows : Rows} (h : .node value rows ∈ Node.siblings f children) :
    ∃ label cs, .branch label cs ∈ children ∧ f label cs = some value := by
  obtain ⟨n, hn, heq⟩ := List.mem_map.1 h
  cases n with
  | leaf l =>
    dsimp only at heq
    split_ifs at heq
  | branch label cs =>
    dsimp only at heq
    split at heq
    · next v hv =>
      obtain ⟨rfl, -⟩ := Sibling.node.inj heq
      exact ⟨label, cs, hn, hv⟩
    · cases heq

theorem spelled_branch {label : Label} {cs children : List Node} (h : Spelled (lexemesOf children))
    (hmem : .branch label cs ∈ children) : Spelled (lexemesOf cs) :=
  h.of_subset (lexemes_subset hmem)

theorem mem_of_lastType {cs : List Node} {n : Node} (h : Node.lastType cs = some n) : n ∈ cs :=
  List.mem_reverse.1 (List.mem_of_find?_eq_some h)

/-! ## Declarations -/

theorem isWord_receiver {children : List Node} (h : Spelled (lexemesOf children)) {base : String}
    (hbase : baseNameOf (Node.receiver children) = some base) : IsWord base.toList := by
  cases hreceiver : Node.receiver children with
  | none =>
    rw [hreceiver] at hbase
    cases hbase
  | some t =>
    rw [hreceiver] at hbase
    obtain ⟨ps, hps, hrest⟩ := Option.bind_eq_some_iff.1 hreceiver
    obtain ⟨cs, hcs, htype⟩ := Option.bind_eq_some_iff.1 hrest
    obtain ⟨n, hn, rfl⟩ := Option.map_eq_some_iff.1 htype
    obtain ⟨list, hlist, hisList⟩ := List.exists_of_findSome?_eq_some hps
    obtain ⟨parameter, hparameter, hisParameter⟩ := List.exists_of_findSome?_eq_some hcs
    have hspelled : Spelled (lexemesOf cs) := by
      split at hisList
      · obtain rfl := Option.some.inj hisList
        split at hisParameter
        · obtain rfl := Option.some.inj hisParameter
          exact spelled_branch (spelled_branch h hlist) hparameter
        · cases hisParameter
      · cases hisList
    exact isWord_baseName n (hspelled.of_subset (lexemes_subset (mem_of_lastType hn))) base hbase

theorem isWord_typeSpec {label : Label} {children : List Node} (h : Spelled (lexemesOf children))
    {spec : TypeSpec} (hspec : Node.typeSpec? label children = some spec) :
    IsWord spec.name.toList := by
  unfold Node.typeSpec? at hspec
  split_ifs at hspec
  obtain rfl := Option.some.inj hspec
  exact isWord_firstName h

theorem named_declaration {label : Label} {children : List Node} (h : Spelled (lexemesOf children))
    {d : Declaration} (hd : Node.declaration? label children = some d) : Named d := by
  cases label with
  | package =>
    obtain rfl := Option.some.inj hd
    exact ⟨nofun, nofun, nofun⟩
  | typeDeclaration =>
    obtain rfl := Option.some.inj hd
    refine ⟨fun name hname => ?_, nofun, nofun⟩
    obtain ⟨x, hx, rfl⟩ := List.mem_map.1 hname
    obtain ⟨label, cs, hmem, hspec⟩ := exists_branch (mem_of_mem_nodesIn hx)
    exact isWord_typeSpec (spelled_branch h hmem) hspec
  | function =>
    obtain rfl := Option.some.inj hd
    refine ⟨fun name hname => ?_, nofun, nofun⟩
    rw [List.mem_singleton.1 hname]
    exact isWord_firstName h
  | method =>
    obtain rfl := Option.some.inj hd
    refine ⟨nofun, fun receiver name heq => ?_, fun receiver name heq base hbase => ?_⟩
    · obtain ⟨-, rfl⟩ := Declaration.method.inj heq
      exact isWord_firstName h
    · obtain ⟨rfl, -⟩ := Declaration.method.inj heq
      exact isWord_receiver h hbase
  | _ => cases hd

/-- **The names of a source text are words.** -/
theorem named_of_ofText? {source : List Char} {file : SourceFile}
    (h : SourceFile.ofText? source = some file) : ∀ x ∈ nodesIn [] file, Named x.1 := by
  rw [ofText?_eq] at h
  obtain ⟨nodes, hnodes, rfl⟩ := Option.map_eq_some_iff.1 h
  intro x hx
  obtain ⟨label, cs, hmem, hd⟩ := exists_branch (mem_of_mem_nodesIn hx)
  exact named_declaration (spelled_branch (spelled_forest hnodes) hmem) hd

end DocSearch.Doc
