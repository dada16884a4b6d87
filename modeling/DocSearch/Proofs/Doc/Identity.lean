import Mathlib.Data.List.Nodup
import DocSearch.Proofs.Doc.Names

/-!
# Which chunks of a file have one identity

All chunks of a file have its package and its name, so symbol and kind tell them apart. A type or a
function has its name for a symbol and a method the name of its type in front of its own, with a
stop between them that no name has. But a receiver that is more than a type name, perhaps with a
star, is left out, and then the symbol tells of the method's name alone.

**`nodup_identity_iff`** Where no two types or functions have one name, and no two methods of one
type, all chunks of a file have different identities exactly if no two methods whose receiver is
left out have one name.
-/

namespace DocSearch.Doc

open Go Text

/-! ## What a file declares -/

/-- The names of the types and functions of a file. -/
def topNames (file : SourceFile) : List String := (nodesIn [] file).flatMap fun x => ownNames x.1

/-- The methods of a file, each with the base type of its receiver. Methods without one are not
among them. -/
def topMethods (file : SourceFile) : List (String × String) :=
  (nodesIn [] file).filterMap fun x => ownMethod? x.1

/-- The lead group of a node. -/
def leadOf (x : Declaration × Rows × List (Sibling Declaration) × List (Sibling Declaration)) :
    List Comment :=
  leadGroup x.2.2.1 x.2.1.first

/-- The name of a method that has a chunk, if its receiver is left out there. -/
def bareMethod? (group : List Comment) : Declaration → Option String
  | .method receiver name =>
    if receiverName receiver = "" ∧ isExported name = true ∧ group ≠ [] then some name else none
  | _ => none

/-- The names of the methods of a file that have a chunk without their receiver. -/
def bareMethods (file : SourceFile) : List String :=
  (nodesIn [] file).filterMap fun x => bareMethod? (leadOf x) x.1

/-! ## Symbols -/

/-- What stands in front of a method's name is nothing, or a base type with or without a star. -/
theorem receiverName_cases (receiver : Option TypeExpr) :
    receiverName receiver = "" ∨ ∃ base, baseNameOf receiver = some base ∧
      (receiverName receiver = base ∨ receiverName receiver = "*" ++ base) := by
  unfold receiverName
  split
  · exact .inr ⟨_, rfl, .inl rfl⟩
  · exact .inr ⟨_, rfl, .inr rfl⟩
  · exact .inl rfl

theorem not_mem_receiverName {receiver : Option TypeExpr} {c : Char} (hc : c ≠ '*')
    (h : ∀ base, baseNameOf receiver = some base → c ∉ base.toList) :
    c ∉ (receiverName receiver).toList := by
  rcases receiverName_cases receiver with hempty | ⟨base, hbase, hname | hname⟩
  · simp [hempty]
  · rw [hname]
    exact h base hbase
  · rw [hname, String.toList_append]
    simpa [hc] using h base hbase

/-- A receiver that is not left out tells its base type. -/
theorem baseNameOf_of_receiverName {r r' : Option TypeExpr}
    (hr : ∀ base, baseNameOf r = some base → IsWord base.toList)
    (hr' : ∀ base, baseNameOf r' = some base → IsWord base.toList)
    (hne : receiverName r ≠ "") (heq : receiverName r = receiverName r') :
    ∃ base, baseNameOf r = some base ∧ baseNameOf r' = some base := by
  have hstar : ∀ b b' : String, IsWord b.toList → b ≠ "*" ++ b' := by
    rintro _ b' hb rfl
    exact hb.not_mem (c := '*') (by decide) (by rw [String.toList_append]; simp)
  obtain ⟨b, hb, hname⟩ := (receiverName_cases r).resolve_left hne
  obtain ⟨b', hb', hname'⟩ := (receiverName_cases r').resolve_left (heq ▸ hne)
  refine ⟨b, hb, ?_⟩
  rcases hname with hname | hname <;> rcases hname' with hname' | hname' <;>
    rw [hname, hname'] at heq
  · rw [hb', heq]
  · exact absurd heq (hstar b b' (hr b hb))
  · exact absurd heq.symm (hstar b' b (hr' b' hb'))
  · rw [hb', String.append_right_inj _ |>.1 heq]

/-- The symbol of a method tells its receiver from its name: there is one stop in it. -/
theorem symbol_inj {r r' name name' : String} (hr : '.' ∉ r.toList) (hname : '.' ∉ name.toList)
    (heq : r' ++ "." ++ name' = r ++ "." ++ name) : r' = r ∧ name' = name := by
  have hlists := congrArg String.toList heq.symm
  simp only [String.toList_append, List.append_assoc] at hlists
  obtain ⟨hfront, -, hback⟩ := (List.append_cons_inj_of_notMem hr hname).1 hlists
  exact ⟨(String.toList_inj.1 hfront).symm, (String.toList_inj.1 hback).symm⟩

/-- What stands in front of a method's name has no stop. -/
theorem Named.receiver {receiver : Option TypeExpr} {name : String}
    (h : Named (.method receiver name)) : '.' ∉ (receiverName receiver).toList :=
  not_mem_receiverName (by decide) fun base hbase =>
    (h.base receiver name rfl base hbase).not_mem (by decide)

/-! ## Chunks of a declaration -/

theorem typeKind_ne_package (t : TypeExpr) : typeKind t ≠ "package" := by
  cases t with
  | named name =>
    intro heq
    have hlists := congrArg String.toList heq
    rw [typeKind, String.toList_append] at hlists
    cases hlists
  | _ => simp [typeKind]

theorem functionChunk?_eq_some_iff {package filename name symbol : String} {group : List Comment}
    {c : Chunk} :
    functionChunk? package filename name symbol group = some c ↔
      isExported name = true ∧ group ≠ [] ∧
        c = .mk "function" symbol (docText group) package filename [] := by
  rw [functionChunk?, Option.ite_none_right_eq_some]
  simp only [Bool.and_eq_true, Bool.not_eq_true', List.isEmpty_eq_false_iff, Option.some.injEq,
    and_assoc]
  exact and_congr_right fun _ => and_congr_right fun _ => eq_comm

theorem bareMethod?_eq_some_iff {group : List Comment} {d : Declaration} {name : String} :
    bareMethod? group d = some name ↔ ∃ receiver, d = .method receiver name ∧
      receiverName receiver = "" ∧ isExported name = true ∧ group ≠ [] := by
  cases d with
  | method receiver name' =>
    rw [bareMethod?, Option.ite_none_right_eq_some]
    constructor
    · rintro ⟨hbare, hname⟩
      obtain rfl := Option.some.inj hname
      exact ⟨receiver, rfl, hbare⟩
    · rintro ⟨receiver', heq, hbare⟩
      obtain ⟨rfl, rfl⟩ := Declaration.method.inj heq
      exact ⟨hbare, rfl⟩
  | _ => simp [bareMethod?]

/-- A chunk of a declaration: that of a type or a function, or that of a method. -/
theorem of_mem_declarationChunks {package filename : String} {group : List Comment}
    {d : Declaration} {c : Chunk} (h : c ∈ declarationChunks package filename group d) :
    c.kind ≠ "package" ∧
      (c.symbol ∈ ownNames d ∨ ∃ receiver name, d = .method receiver name ∧
        c.symbol = receiverName receiver ++ "." ++ name ∧
        isExported name = true ∧ group ≠ []) := by
  cases d with
  | package name => cases h
  | types grouped specs =>
    obtain ⟨⟨spec, rows, before, behind⟩, hmem, hspec⟩ := List.mem_filterMap.1 h
    dsimp only at hspec
    split at hspec
    · obtain rfl := Option.some.inj hspec
      exact ⟨typeKind_ne_package _, .inl (List.mem_map_of_mem hmem)⟩
    · cases hspec
  | function name =>
    obtain ⟨-, -, rfl⟩ := functionChunk?_eq_some_iff.1 (Option.mem_toList.1 h)
    exact ⟨by simp [Chunk.kind], .inl (List.mem_singleton_self name)⟩
  | method receiver name =>
    obtain ⟨hexported, hgroup, rfl⟩ := functionChunk?_eq_some_iff.1 (Option.mem_toList.1 h)
    exact ⟨by simp [Chunk.kind], .inr ⟨receiver, name, rfl, rfl, hexported, hgroup⟩⟩

/-- The chunk of a method whose receiver is left out. -/
theorem mem_declarationChunks_of_bare {group : List Comment} {d : Declaration} {name : String}
    (package filename : String) (h : bareMethod? group d = some name) :
    .mk "function" ("" ++ "." ++ name) (docText group) package filename [] ∈
      declarationChunks package filename group d := by
  obtain ⟨receiver, rfl, hreceiver, hexported, hgroup⟩ := bareMethod?_eq_some_iff.1 h
  rw [declarationChunks, hreceiver, Option.mem_toList]
  exact functionChunk?_eq_some_iff.2 ⟨hexported, hgroup, rfl⟩

theorem pairwise_toList (o : Option Chunk) :
    o.toList.Pairwise fun c c' => c.identity ≠ c'.identity := by
  cases o with
  | none => exact List.Pairwise.nil
  | some c => exact List.pairwise_singleton _ c

/-- Chunks of one type declaration have different identities, and no other declaration has more than
one chunk. -/
theorem pairwise_declarationChunks (package filename : String) (group : List Comment)
    {d : Declaration} (h : (ownNames d).Nodup) :
    (declarationChunks package filename group d).Pairwise fun c c' => c.identity ≠ c'.identity := by
  cases d with
  | package name => exact List.Pairwise.nil
  | function name => exact pairwise_toList _
  | method receiver name => exact pairwise_toList _
  | types grouped specs =>
    refine List.pairwise_filterMap.2 ((List.pairwise_map.1 h).imp fun hne c hc c' hc' heq => ?_)
    dsimp only at hc hc'
    split at hc
    · split at hc'
      · obtain rfl := Option.some.inj hc
        obtain rfl := Option.some.inj hc'
        exact hne (Identity.mk.inj heq).2.2.1
      · cases hc'
    · cases hc

/-! ## Chunks of two declarations -/

/-- **Two declarations apart**: their chunks have different identities, unless they are methods of
one name whose receivers are left out. -/
theorem apart_iff (package filename : String) (group group' : List Comment) {d d' : Declaration}
    (hd : Named d) (hd' : Named d') (hown : (ownNames d).Disjoint (ownNames d'))
    (hmethod : ∀ m, ownMethod? d = some m → ∀ m', ownMethod? d' = some m' → m ≠ m') :
    (∀ c ∈ declarationChunks package filename group d,
      ∀ c' ∈ declarationChunks package filename group' d', c.identity ≠ c'.identity) ↔
    ∀ name, bareMethod? group d = some name → ∀ name', bareMethod? group' d' = some name' →
      name ≠ name' := by
  have hsplit : ∀ {e : Declaration}, Named e → ∀ {r : Option TypeExpr} {name symbol : String},
      symbol ∈ ownNames e → symbol ≠ receiverName r ++ "." ++ name := by
    rintro e he r name symbol hsymbol rfl
    refine (he.own _ hsymbol).not_mem (c := '.') (by decide) ?_
    simp only [String.toList_append, List.mem_append]
    exact .inl (.inr (List.mem_singleton_self _))
  constructor
  · rintro h name hname name' hname' rfl
    exact h _ (mem_declarationChunks_of_bare package filename hname)
      _ (mem_declarationChunks_of_bare package filename hname') rfl
  · intro h c hc c' hc' heq
    obtain ⟨-, hc⟩ := of_mem_declarationChunks hc
    obtain ⟨-, hc'⟩ := of_mem_declarationChunks hc'
    have hsymbol : c.symbol = c'.symbol := (Identity.mk.inj heq).2.2.1
    rcases hc with hc | ⟨r, name, rfl, hc, hexported, hgroup⟩ <;>
      rcases hc' with hc' | ⟨r', name', rfl, hc', hexported', hgroup'⟩
    · exact hown hc (hsymbol ▸ hc')
    · exact hsplit hd hc (hsymbol.trans hc')
    · exact hsplit hd' hc' (hsymbol.symm.trans hc)
    · -- Two methods with one symbol have one name, and what stands in front of it is the same.
      have hstop : '.' ∉ name'.toList := (hd'.method r' name' rfl).not_mem (by decide)
      obtain ⟨hreceiver, rfl⟩ :=
        symbol_inj hd'.receiver hstop (hc.symm.trans (hsymbol.trans hc'))
      by_cases hempty : receiverName r = ""
      · exact h name (bareMethod?_eq_some_iff.2 ⟨r, rfl, hempty, hexported, hgroup⟩) name
          (bareMethod?_eq_some_iff.2 ⟨r', rfl, hreceiver ▸ hempty, hexported, hgroup'⟩) rfl
      · obtain ⟨base, hbase, hbase'⟩ := baseNameOf_of_receiverName (hd.base r name rfl)
          (hd'.base r' name rfl) hempty hreceiver
        exact hmethod (base, name) (by simp [ownMethod?, hbase]) (base, name)
          (by simp [ownMethod?, hbase']) rfl

/-! ## Chunks of a file -/

theorem siblingChunks_eq (package filename : String) (file : SourceFile) :
    siblingChunks package filename file =
      (nodesIn [] file).flatMap fun x => declarationChunks package filename (leadOf x) x.1 := rfl

/-- The chunks of a file: perhaps one of the package, and those of the declarations. -/
theorem parseSource_eq_ok {source : Bytes} {filename package : String} {chunks : List Chunk}
    {file : SourceFile} (hfile : SourceFile.ofText? (Utf8.decodeLossy source) = some file)
    (h : parseSource source filename = .ok (package, chunks)) :
    ∃ group, chunks = (packageChunk? package filename group).toList ++
      siblingChunks package filename file := by
  rw [parseSource, hfile] at h
  dsimp only at h
  unfold extract at h
  split at h
  · cases h
  · obtain ⟨rfl, rfl⟩ := Prod.mk.inj (Except.ok.inj h)
    exact ⟨_, rfl⟩

/-- A file and its chunks are told by what can be computed of them. -/
theorem exists_file (source : Bytes) (filename : String) (P : SourceFile → List Chunk → Bool)
    (h : ((SourceFile.ofText? (Utf8.decodeLossy source)).any fun file =>
      match extract filename file with
      | .ok r => P file r.2
      | .error _ => false) = true) :
    ∃ file package chunks, SourceFile.ofText? (Utf8.decodeLossy source) = some file ∧
      parseSource source filename = .ok (package, chunks) ∧ P file chunks = true := by
  obtain ⟨file, hfile, hchunks⟩ := (Option.any_eq_true _ _).1 h
  cases hextract : extract filename file with
  | error e =>
    rw [hextract] at hchunks
    cases hchunks
  | ok r =>
    rw [hextract] at hchunks
    refine ⟨file, r.1, r.2, hfile, ?_, hchunks⟩
    rw [parseSource, hfile]
    exact hextract

/-- **When the chunks of a file have different identities**, in a file whose types and functions
have different names, and so have the methods of each type. -/
theorem nodup_identity_iff {source : Bytes} {filename package : String} {chunks : List Chunk}
    {file : SourceFile} (hfile : SourceFile.ofText? (Utf8.decodeLossy source) = some file)
    (h : parseSource source filename = .ok (package, chunks)) (hnames : (topNames file).Nodup)
    (hmethods : (topMethods file).Nodup) :
    (chunks.map Chunk.identity).Nodup ↔ (bareMethods file).Nodup := by
  obtain ⟨group, rfl⟩ := parseSource_eq_ok hfile h
  obtain ⟨hown, hdisjoint⟩ := List.nodup_flatMap.1 hnames
  have hapart := hdisjoint.and (List.pairwise_filterMap.1 hmethods)
  have hnamed := named_of_ofText? hfile
  have hsiblings : (siblingChunks package filename file).Pairwise
      (fun c c' => c.identity ≠ c'.identity) ↔ (bareMethods file).Nodup := by
    rw [siblingChunks_eq, List.pairwise_flatMap, bareMethods, List.nodup_iff_pairwise_ne,
      List.pairwise_filterMap]
    have hiff := hapart.imp_of_mem fun {x y} hx hy h =>
      apart_iff package filename (leadOf x) (leadOf y) (hnamed x hx) (hnamed y hy) h.1 h.2
    constructor
    · rintro ⟨-, hchunks⟩
      exact hiff.imp₂ (fun x y h => h.1) hchunks
    · intro hbare
      exact ⟨fun x hx => pairwise_declarationChunks package filename _ (hown x hx),
        hiff.imp₂ (fun x y h => h.2) hbare⟩
  rw [List.nodup_iff_pairwise_ne, List.pairwise_map, List.pairwise_append, ← hsiblings]
  refine ⟨fun hall => hall.2.1, fun hall => ⟨pairwise_toList _, hall, fun c hc c' hc' heq => ?_⟩⟩
  -- No type and no function is of the kind of a package.
  obtain ⟨x, -, hx⟩ := List.mem_flatMap.1 hc'
  obtain ⟨hkind, -⟩ := of_mem_declarationChunks hx
  rw [Option.mem_toList, packageChunk?] at hc
  split at hc
  · cases hc
  · obtain rfl := Option.some.inj hc
    exact hkind (Identity.mk.inj heq).2.2.2.symm

end DocSearch.Doc
