import Mathlib.Data.List.TakeWhile
import Mathlib.Tactic.SplitIfs
import DocSearch.Go.Outline

/-!
# What is read is what is written

**Readings.** Whatever its grammar is, a form is read in one of four ways (`Reads`,
`isReader_read`), and what holds of every reading is shown by induction over them.

**Nothing is lost.** The lexemes of what is read, followed by those of the rest, are the lexemes of
the stream. So the leaves of a file, one after the other, are lexemes of its text
(`lexemesOf_recognise`).

**Identifiers are words.** A lexeme is an identifier only where a letter begins it and letters and
digits go on (`extent?_identifier`). Together, the identifiers in the forest of a text are words
(`spelled_forest`).
-/

namespace DocSearch.Go

open Text

/-! ## Lexemes -/

/-- A text of letters, digits and underscores. -/
def IsWord (cs : List Char) : Prop := ∀ c ∈ cs, continuesIdentifier c = true

theorem IsWord.not_mem {cs : List Char} (h : IsWord cs) {c : Char}
    (hc : continuesIdentifier c = false) : c ∉ cs := by
  intro hmem
  rw [h c hmem] at hc
  cases hc

/-- The identifiers among lexemes are words. -/
def Spelled (ls : List Lexeme) : Prop := ∀ l ∈ ls, l.kind = .identifier → IsWord l.text

theorem Spelled.of_subset {ls ms : List Lexeme} (h : Spelled ms) (hsub : ls ⊆ ms) : Spelled ls :=
  fun l hl => h l (hsub hl)

/-- What begins with a letter and is an identifier or a keyword goes on as far as it can; nothing
else is an identifier. -/
theorem extent?_identifier {c : Char} {cs : List Char} {n : Nat}
    (h : extent? c cs = some (.identifier, n)) :
    beginsIdentifier c = true ∧ n = (cs.takeWhile continuesIdentifier).length := by
  unfold extent? at h
  by_cases hbegins : beginsIdentifier c = true
  · rw [if_pos hbegins] at h
    obtain ⟨-, hn⟩ := Prod.mk.inj (Option.some.inj h)
    exact ⟨hbegins, hn.symm⟩
  · -- Every other kind of lexeme has its own extent, and none of them is an identifier.
    rw [if_neg hbegins] at h
    repeat' split at h
    all_goals simp at h
    -- What begins with a digit and is no number is an operator.
    split at h <;> simp at h

theorem spelled_lexemesFrom {row : Nat} {gap cs : List Char} {ls : List Lexeme}
    (h : lexemesFrom row gap cs = some ls) : Spelled ls := by
  fun_induction lexemesFrom row gap cs generalizing ls
  case case1 row gap =>
    obtain rfl := Option.some.inj h
    intro l hl hkind
    rw [List.mem_singleton.1 hl] at hkind
    cases hkind
  case case2 row gap c cs hblank ih => exact ih h
  case case3 row gap c cs hblank hnone => cases h
  case case4 row gap c cs hblank kind n hsome text last ih =>
    obtain ⟨rest, hrest, rfl⟩ := Option.map_eq_some_iff.1 h
    refine List.forall_mem_cons.2 ⟨fun hkind => ?_, ih hrest⟩
    obtain rfl : kind = .identifier := hkind
    obtain ⟨hbegins, rfl⟩ := extent?_identifier hsome
    intro d hd
    rcases List.mem_cons.1 hd with rfl | htaken
    · rw [continuesIdentifier, hbegins, Bool.true_or, Bool.true_or]
    · rw [← List.prefix_iff_eq_take.1 (List.takeWhile_prefix _)] at htaken
      exact List.mem_takeWhile_imp htaken

theorem spelled_lexemes? {source : List Char} {ls : List Lexeme} (h : lexemes? source = some ls) :
    Spelled ls := by
  have hcheck : ∀ cs, lexemes?.check cs = some ls → Spelled ls := by
    intro cs hcs
    unfold lexemes?.check at hcs
    split_ifs at hcs
    exact spelled_lexemesFrom hcs
  unfold lexemes? at h
  split at h <;> exact hcheck _ h

/-! ## The lexemes of a stream -/

/-- The lexemes of a step: its comments and then the lexeme itself. -/
def Step.lexemes (s : Step) : List Lexeme := s.comments ++ [s.lexeme]

/-- All lexemes of a stream. -/
def streamLexemes (input : List Step) : List Lexeme := input.flatMap Step.lexemes

@[simp] theorem streamLexemes_nil : streamLexemes [] = [] := rfl

@[simp] theorem streamLexemes_cons (s : Step) (input : List Step) :
    streamLexemes (s :: input) = s.lexemes ++ streamLexemes input := rfl

/-- The stream of some lexemes has them all, except for comments that nothing follows. -/
theorem streamLexemes_steps (comments : List Lexeme) (newLine : Bool) (ls : List Lexeme) :
    ∃ behind, streamLexemes (steps comments newLine ls) ++ behind = comments.reverse ++ ls := by
  induction ls generalizing comments newLine with
  | nil => exact ⟨comments.reverse, by simp [steps]⟩
  | cons l ls ih =>
    rw [steps]
    split_ifs with hcomment
    · obtain ⟨behind, h⟩ := ih (l :: comments) (newLine || l.gap.contains '\n')
      exact ⟨behind, by rw [h]; simp⟩
    · obtain ⟨behind, h⟩ := ih [] false
      refine ⟨behind, ?_⟩
      rw [streamLexemes_cons, List.append_assoc, h, Step.lexemes]
      simp

/-! ## The lexemes of nodes -/

@[simp] theorem lexemesOf_append (ns ms : List Node) :
    lexemesOf (ns ++ ms) = lexemesOf ns ++ lexemesOf ms := by
  induction ns with
  | nil => rfl
  | cons n ns ih => rw [List.cons_append, lexemesOf, lexemesOf, ih, List.append_assoc]

theorem lexemesOf_nodes (s : Step) : lexemesOf s.nodes = s.lexemes := by
  have hleaves : ∀ ls : List Lexeme, lexemesOf (ls.map .leaf) = ls := by
    intro ls
    induction ls with
    | nil => rfl
    | cons l ls ih => rw [List.map_cons, lexemesOf, Node.lexemes, ih, List.singleton_append]
  rw [Step.nodes, lexemesOf_append, hleaves]
  rfl

theorem lexemesOf_labelled (label : Label) (ns : List Node) :
    lexemesOf (labelled label ns) = lexemesOf ns := by
  rw [labelled, lexemesOf_append]
  simp only [lexemesOf, Node.lexemes, List.append_nil]
  rw [← lexemesOf_append, List.takeWhile_append_dropWhile]

theorem lexemes_subset {n : Node} {ns : List Node} (h : n ∈ ns) : n.lexemes ⊆ lexemesOf ns := by
  induction ns with
  | nil => cases h
  | cons m ms ih =>
    rw [lexemesOf]
    rcases List.mem_cons.1 h with rfl | hms
    · exact List.subset_append_left _ _
    · exact List.Subset.trans (ih hms) (List.subset_append_right _ _)

/-! ## Readings -/

/-- What can be read off a stream, and what is left: nothing, a step, two readings one after the
other, and a reading under a label. -/
inductive Reads : List Step → List Node → List Step → Prop where
  | nothing (input : List Step) : Reads input [] input
  | step (s : Step) (rest : List Step) : Reads (s :: rest) s.nodes rest
  | append {input middle rest : List Step} {nodes nodes' : List Node} :
    Reads input nodes middle → Reads middle nodes' rest → Reads input (nodes ++ nodes') rest
  | labelled {input rest : List Step} {nodes : List Node} (label : Label) :
    Reads input nodes rest → Reads input (Go.labelled label nodes) rest

/-- A reader of the stream, as the forms are. -/
abbrev Reader := List Step → Option (List Node × List Step)

/-- Whether a reader does nothing but to read. -/
def IsReader (read : Reader) : Prop :=
  ∀ input nodes rest, read input = some (nodes, rest) → Reads input nodes rest

theorem isReader_readStep (p : Lexeme → Bool) : IsReader (readStep p) := by
  intro input nodes rest h
  cases input with
  | nil => cases h
  | cons s input =>
    rw [readStep] at h
    split_ifs at h
    obtain ⟨rfl, rfl⟩ := Prod.mk.inj (Option.some.inj h)
    exact .step s input

/-- A reader that takes nothing off the stream and has no nodes. -/
theorem isReader_nothing {read : Reader} (h : ∀ input r, read input = some r → r = ([], input)) :
    IsReader read := by
  intro input nodes rest hread
  obtain ⟨rfl, rfl⟩ := Prod.mk.inj (h input _ hread)
  exact .nothing rest

theorem IsReader.repeated {read : Reader} (h : IsReader read) {start : List Step} (n : Nat)
    {acc : List Node} {input : List Step} (hacc : Reads start acc.reverse input) :
    Reads start (repeated read n acc input).1 (repeated read n acc input).2 := by
  induction n generalizing acc input with
  | zero => exact hacc
  | succ n ih =>
    rw [Go.repeated]
    rcases hread : read input with _ | ⟨nodes, rest⟩
    · exact hacc
    · refine ih ?_
      rw [List.reverse_append, List.reverse_reverse]
      exact hacc.append (h input nodes rest hread)

/-- Readers one after the other. -/
theorem reads_foldlM {α : Type} {read : α → Reader} (h : ∀ a, IsReader (read a)) (as : List α)
    {start : List Step} :
    ∀ {acc nodes : List Node} {input rest : List Step}, Reads start acc input →
      as.foldlM (fun r a => (read a r.2).map fun r' => (r.1 ++ r'.1, r'.2)) (acc, input) =
        some (nodes, rest) → Reads start nodes rest := by
  induction as with
  | nil =>
    intro acc nodes input rest hacc hread
    obtain ⟨rfl, rfl⟩ := Prod.mk.inj (Option.some.inj hread)
    exact hacc
  | cons a as ih =>
    intro acc nodes input rest hacc hread
    rw [List.foldlM_cons] at hread
    obtain ⟨⟨nodes', rest'⟩, hfirst, hothers⟩ := Option.bind_eq_some_iff.1 hread
    obtain ⟨⟨nodes'', rest''⟩, ha, hr⟩ := Option.map_eq_some_iff.1 hfirst
    obtain ⟨rfl, rfl⟩ := Prod.mk.inj hr
    exact ih (hacc.append (h a _ _ _ ha)) hothers

/-- **Every form is read that way.** -/
theorem isReader_read (grammar : Rule → Form) (fuel : Nat) (ctx : Context) (f : Form) :
    IsReader (Form.read grammar fuel ctx f) := by
  induction fuel generalizing ctx f with
  | zero =>
    intro input nodes rest h
    cases h
  | succ fuel ih =>
    cases f with
    | kind x | word x | name x | sign x =>
      intro input nodes rest h
      rw [Form.read] at h
      exact isReader_readStep _ _ _ _ h
    | rule r => exact ih ctx (grammar r)
    | seq fs =>
      intro input nodes rest h
      exact reads_foldlM (ih ctx) fs (.nothing input) h
    | alt fs =>
      intro input nodes rest h
      obtain ⟨g, -, hg⟩ := List.exists_of_findSome?_eq_some h
      exact ih ctx g _ _ _ hg
    | opt g =>
      intro input nodes rest h
      rcases Option.or_eq_some_iff.1 h with hg | ⟨-, hnothing⟩
      · exact ih ctx g _ _ _ hg
      · obtain ⟨rfl, rfl⟩ := Prod.mk.inj (Option.some.inj hnothing)
        exact .nothing input
    | many g =>
      intro input nodes rest h
      have hstart : Reads input ([] : List Node).reverse input := .nothing input
      have hrepeated := (ih ctx g).repeated input.length hstart
      rw [Option.some.inj h] at hrepeated
      exact hrepeated
    | node label g =>
      intro input nodes rest h
      obtain ⟨⟨nodes', rest'⟩, hg, hr⟩ := Option.map_eq_some_iff.1 h
      obtain ⟨rfl, rfl⟩ := Prod.mk.inj hr
      exact .labelled label (ih ctx g _ _ _ hg)
    | free g => exact ih ⟨false, false⟩ g
    | headed g => exact ih ⟨false, true⟩ g
    | lined g => exact ih ⟨true, false⟩ g
    | joined g =>
      intro input nodes rest h
      rw [Form.read] at h
      split_ifs at h
      exact ih ctx g _ _ _ h
    | unheaded g =>
      intro input nodes rest h
      rw [Form.read] at h
      split_ifs at h
      exact ih ctx g _ _ _ h
    | ahead g =>
      refine isReader_nothing fun input r h => ?_
      obtain ⟨_, -, hr⟩ := Option.map_eq_some_iff.1 h
      exact hr.symm
    | absent g =>
      refine isReader_nothing fun input r h => ?_
      rw [Form.read] at h
      split at h
      · cases h
      · exact (Option.some.inj h).symm
    | terminator =>
      intro input nodes rest h
      rw [Form.read] at h
      split_ifs at h
      · obtain ⟨rfl, rfl⟩ := Prod.mk.inj (Option.some.inj h)
        exact .nothing input
      · exact isReader_readStep _ _ _ _ h

theorem reads_of_recognise {grammar : Rule → Form} {r : Rule} {input : List Step}
    {nodes : List Node} (h : recognise grammar r input = some nodes) : Reads input nodes [] := by
  unfold recognise at h
  split at h
  · next nodes' hread =>
    obtain rfl := Option.some.inj h
    exact isReader_read _ _ _ _ _ _ _ hread
  · cases h

/-- **Nothing is lost in a reading.** The lexemes of what is read, followed by those of the rest,
are all that there were. -/
theorem Reads.lexemesOf_append {input rest : List Step} {nodes : List Node}
    (h : Reads input nodes rest) :
    lexemesOf nodes ++ streamLexemes rest = streamLexemes input := by
  induction h with
  | nothing input => rfl
  | step s rest => rw [lexemesOf_nodes, streamLexemes_cons]
  | append _ _ ih ih' => rw [Go.lexemesOf_append, List.append_assoc, ih', ih]
  | labelled label _ ih => rw [lexemesOf_labelled, ih]

/-- **The leaves of a forest are the lexemes of the stream**, one after the other. -/
theorem lexemesOf_recognise {grammar : Rule → Form} {r : Rule} {input : List Step}
    {nodes : List Node} (h : recognise grammar r input = some nodes) :
    lexemesOf nodes = streamLexemes input := by
  have hwhole := (reads_of_recognise h).lexemesOf_append
  rwa [streamLexemes_nil, List.append_nil] at hwhole

/-- The forest of a text, as its outline is made of it. -/
def forest? (source : List Char) : Option (List Node) :=
  (lexemes? source).bind fun ls => recognise grammar .file (steps [] false ls)

theorem ofText?_eq (source : List Char) :
    SourceFile.ofText? source = (forest? source).map (Node.siblings Node.declaration?) := by
  unfold SourceFile.ofText? forest?
  cases lexemes? source with
  | none => rfl
  | some ls =>
    cases h : recognise grammar .file (steps [] false ls) with
    | none => simp [h]
    | some nodes => simp [h]

/-- **The identifiers in the forest of a text are words.** -/
theorem spelled_forest {source : List Char} {nodes : List Node} (h : forest? source = some nodes) :
    Spelled (lexemesOf nodes) := by
  obtain ⟨ls, hls, hnodes⟩ := Option.bind_eq_some_iff.1 h
  obtain ⟨behind, hsteps⟩ := streamLexemes_steps [] false ls
  rw [lexemesOf_recognise hnodes]
  refine (spelled_lexemes? hls).of_subset fun l hl => ?_
  rw [← List.nil_append ls]
  exact hsteps ▸ List.mem_append_left behind hl

end DocSearch.Go
