import Mathlib.Data.List.Basic
import DocSearch.Proofs.Go.Reading

/-!
# No construct ends in a comment

A comment stands in front of the lexeme behind it. So what is read off a stream ends in a lexeme
that is no comment (`Reads.closed`), and a comment behind a construct stands beside it: it is neither
the last child of the construct nor of anything inside (`closed_forest`).
-/

namespace DocSearch.Go

/-! ## Inside of nodes -/

/-- A node is one of some nodes, or it is inside one of them. -/
inductive Inside (n : Node) : List Node → Prop where
  | mem {ns : List Node} : n ∈ ns → Inside n ns
  | within {ns cs : List Node} {label : Label} : .branch label cs ∈ ns → Inside n cs → Inside n ns

theorem Inside.mono {n : Node} {ns ms : List Node} (h : Inside n ns) (hsub : ns ⊆ ms) :
    Inside n ms := by
  cases h with
  | mem hn => exact .mem (hsub hn)
  | within hbranch hcs => exact .within (hsub hbranch) hcs

theorem inside_append {n : Node} {ns ms : List Node} (h : Inside n (ns ++ ms)) :
    Inside n ns ∨ Inside n ms := by
  cases h with
  | mem hn => exact (List.mem_append.1 hn).imp .mem .mem
  | within hbranch hcs =>
    exact (List.mem_append.1 hbranch).imp (fun h => .within h hcs) (fun h => .within h hcs)

/-- There is nothing inside of leaves. -/
theorem mem_of_inside_leaves {n : Node} {ls : List Lexeme} (h : Inside n (ls.map .leaf)) :
    ∃ l ∈ ls, n = .leaf l := by
  cases h with
  | mem hn =>
    obtain ⟨l, hl, rfl⟩ := List.mem_map.1 hn
    exact ⟨l, hl, rfl⟩
  | within hbranch =>
    obtain ⟨l, -, hl⟩ := List.mem_map.1 hbranch
    cases hl

/-! ## Closed constructs -/

/-- Nodes that do not end in a comment. -/
def Closed (ns : List Node) : Prop := ∀ n ∈ ns.getLast?, n.isComment = false

theorem closed_nil : Closed [] := nofun

theorem Closed.append {ns ms : List Node} (hns : Closed ns) (hms : Closed ms) :
    Closed (ns ++ ms) := by
  by_cases hne : ms = []
  · rwa [hne, List.append_nil]
  · unfold Closed
    rwa [List.getLast?_append_of_ne_nil ns hne]

theorem Closed.of_suffix {ns ms : List Node} (h : Closed ms) (hsuffix : ns <:+ ms) : Closed ns := by
  obtain ⟨front, rfl⟩ := hsuffix
  by_cases hne : ns = []
  · rw [hne]
    exact closed_nil
  · unfold Closed at h
    rwa [List.getLast?_append_of_ne_nil front hne] at h

theorem closed_concat {ns : List Node} {n : Node} (h : n.isComment = false) :
    Closed (ns ++ [n]) := by
  intro m hm
  rw [List.getLast?_concat] at hm
  obtain rfl := Option.some.inj hm
  exact h

/-- Nodes that are closed, at this level and at each one inside. -/
def DeepClosed (ns : List Node) : Prop :=
  Closed ns ∧ ∀ label cs, Inside (.branch label cs) ns → Closed cs

/-- A label closes what it is put on; the comments in front stay outside. -/
theorem DeepClosed.labelled {ns : List Node} (h : DeepClosed ns) (label : Label) :
    DeepClosed (labelled label ns) := by
  refine ⟨closed_concat rfl, fun label' cs hcs => ?_⟩
  have hrest : ns.dropWhile Node.isComment <:+ ns := List.dropWhile_suffix _
  rcases inside_append hcs with hfront | hbranch
  · exact h.2 label' cs (hfront.mono (List.takeWhile_prefix _).subset)
  cases hbranch with
  | mem hmem =>
    obtain ⟨rfl, rfl⟩ := Node.branch.inj (List.mem_singleton.1 hmem)
    exact h.1.of_suffix hrest
  | within hmem hinside =>
    obtain ⟨rfl, rfl⟩ := Node.branch.inj (List.mem_singleton.1 hmem)
    exact h.2 label' cs (hinside.mono hrest.subset)

/-! ## What is read is closed -/

/-- Steps end in lexemes that are no comments. -/
theorem kind_of_mem_steps {comments : List Lexeme} {newLine : Bool} {ls : List Lexeme} {s : Step}
    (hs : s ∈ steps comments newLine ls) : s.lexeme.kind ≠ .comment := by
  induction ls generalizing comments newLine with
  | nil => cases hs
  | cons l ls ih =>
    rw [steps] at hs
    split_ifs at hs with hcomment
    · exact ih hs
    · rcases List.mem_cons.1 hs with rfl | hs
      · exact fun hkind => hcomment (beq_iff_eq.2 hkind)
      · exact ih hs

theorem Reads.suffix {input rest : List Step} {nodes : List Node} (h : Reads input nodes rest) :
    rest <:+ input := by
  induction h with
  | nothing input => exact List.suffix_refl input
  | step s rest => exact List.suffix_cons s rest
  | append _ _ ih ih' => exact ih'.trans ih
  | labelled _ _ ih => exact ih

/-- **What is read ends in no comment**, nor does anything inside. -/
theorem Reads.closed {input rest : List Step} {nodes : List Node} (h : Reads input nodes rest)
    (hinput : ∀ s ∈ input, s.lexeme.kind ≠ .comment) : DeepClosed nodes := by
  induction h with
  | nothing input =>
    refine ⟨closed_nil, fun label cs hcs => ?_⟩
    obtain ⟨l, hl, -⟩ := @mem_of_inside_leaves _ [] hcs
    cases hl
  | step s rest =>
    refine ⟨closed_concat (beq_eq_false_iff_ne.2 (hinput s List.mem_cons_self)), ?_⟩
    intro label cs hcs
    have hleaves : s.nodes = (s.comments ++ [s.lexeme]).map .leaf := by
      rw [Step.nodes, List.map_append, List.map_singleton]
    rw [hleaves] at hcs
    obtain ⟨l, -, hl⟩ := mem_of_inside_leaves hcs
    cases hl
  | append hfirst _ ih ih' =>
    have hnodes := ih hinput
    have hnodes' := ih' fun s hs => hinput s (hfirst.suffix.subset hs)
    refine ⟨hnodes.1.append hnodes'.1, fun label cs hcs => ?_⟩
    exact (inside_append hcs).elim (hnodes.2 label cs) (hnodes'.2 label cs)
  | labelled label _ ih => exact (ih hinput).labelled label

/-- **No construct of a text ends in a comment.** -/
theorem closed_forest {source : List Char} {tree : List Node} (h : forest? source = some tree) :
    DeepClosed tree := by
  obtain ⟨ls, -, hnodes⟩ := Option.bind_eq_some_iff.1 h
  exact (reads_of_recognise hnodes).closed fun s hs => kind_of_mem_steps hs

end DocSearch.Go
