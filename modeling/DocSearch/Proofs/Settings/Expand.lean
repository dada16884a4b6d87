import DocSearch.Settings.Expand
import DocSearch.Proofs.Text.Trim
import Mathlib.Data.List.Basic
import Mathlib.Tactic.Push

/-!
# Expansion is one pass

What a reference to a variable is can be said without a scanner: `${NAME}` or `${NAME:-DEFAULT}`
(`IsReference`). A text is cut at its leftmost references (`Cuts`): going from left to right, a
reference is taken as a whole where one begins, and a character where none does.

**One way to cut.** A text has no other cut than the one that the scanner makes (`cuts_iff`), since
at most one reference begins at a place (`begun?_eq_some_iff`). What replaces a reference is never
looked at, so the result depends on no variable but those named in the text.

**At every depth.** A part of a value is found by the places that lead to it through lists and
mappings (`part?`). Expansion leads to the same parts, expanded (`part?_expand`).

The main result is `expansion_is_one_pass`.
-/

namespace DocSearch.Settings

open Text

/-! ## References -/

/-- The name of a variable: not empty, without closing braces and colons. -/
structure IsVariable (name : List Char) : Prop where
  nonempty : name ≠ []
  plain : ∀ c ∈ name, c ≠ '\x7d' ∧ c ≠ ':'

/-- The references, with the name and the default that they give. -/
inductive IsReference : (text name default : List Char) → Prop
  | bare {name : List Char} (hname : IsVariable name) :
    IsReference ("$\x7b".toList ++ name ++ ['\x7d']) name []
  | withDefault {name default : List Char} (hname : IsVariable name) (hdefault : '\x7d' ∉ default) :
    IsReference ("$\x7b".toList ++ name ++ ":-".toList ++ default ++ ['\x7d']) name default

/-- A text cut at its leftmost references. -/
inductive Cuts : List Char → List Piece → Prop
  | nil : Cuts [] []
  | reference {text name default rest : List Char} {ps : List Piece}
    (href : IsReference text name default) (hrest : Cuts rest ps) :
    Cuts (text ++ rest) (.reference name default :: ps)
  | char {c : Char} {cs : List Char} {ps : List Piece}
    (hnone : ∀ text name default, IsReference text name default → ¬ text <+: c :: cs)
    (hrest : Cuts cs ps) : Cuts (c :: cs) (.char c :: ps)

/-! ## At most one reference begins at a place -/

section Runs

variable {p : Char → Bool} {cs run rest : List Char} {stop : Char}

theorem takeWhile_append_stop (hrun : ∀ c ∈ run, p c = true) (hstop : p stop = false) :
    (run ++ stop :: rest).takeWhile p = run := by
  rw [List.takeWhile_append_of_pos hrun, List.takeWhile_cons_of_neg (by simp [hstop]),
    List.append_nil]

/-- What follows the run at the front begins with a character outside the class. -/
theorem eq_of_drop_takeWhile (h : cs.drop (cs.takeWhile p).length = stop :: rest) :
    cs = cs.takeWhile p ++ stop :: rest ∧ p stop = false := by
  have hdrop : cs.dropWhile p = stop :: rest := by
    rw [← h]
    calc cs.dropWhile p
        = (cs.takeWhile p ++ cs.dropWhile p).drop (cs.takeWhile p).length := List.drop_left.symm
      _ = cs.drop (cs.takeWhile p).length := by rw [List.takeWhile_append_dropWhile]
  have hhead := List.head?_dropWhile_not p cs
  rw [hdrop] at hhead
  refine ⟨?_, hhead⟩
  rw [← hdrop, List.takeWhile_append_dropWhile]

end Runs

theorem IsVariable.passes {name : List Char} (h : IsVariable name) :
    ∀ c ∈ name, (c != '\x7d' && c != ':') = true := by
  intro c hc
  obtain ⟨hbrace, hcolon⟩ := h.plain c hc
  simp [hbrace, hcolon]

theorem isVariable_takeWhile {cs : List Char}
    (h : (cs.takeWhile fun c => c != '\x7d' && c != ':').isEmpty = false) :
    IsVariable (cs.takeWhile fun c => c != '\x7d' && c != ':') := by
  refine ⟨List.isEmpty_eq_false_iff.1 h, fun c hc => ?_⟩
  simpa using List.mem_takeWhile_imp hc

/-- **What the scanner takes for a reference** behind `${`. -/
theorem reference?_eq_some_iff {cs rest : List Char} {p : Piece} :
    reference? cs = some (p, rest) ↔ ∃ name, IsVariable name ∧
      (p = .reference name [] ∧ cs = name ++ '\x7d' :: rest ∨
        ∃ default, '\x7d' ∉ default ∧ p = .reference name default ∧
          cs = name ++ ':' :: '-' :: (default ++ '\x7d' :: rest)) := by
  constructor
  · intro h
    unfold reference? at h
    dsimp only at h
    split_ifs at h with hempty
    refine ⟨_, isVariable_takeWhile (Bool.not_eq_true _ ▸ hempty), ?_⟩
    split at h
    next rest' hdrop =>
      obtain ⟨rfl, rfl⟩ := Prod.mk.inj (Option.some.inj h)
      exact .inl ⟨rfl, (eq_of_drop_takeWhile hdrop).1⟩
    next more hdrop =>
      split at h
      next stop rest' hdrop' =>
        obtain ⟨rfl, rfl⟩ := Prod.mk.inj (Option.some.inj h)
        obtain ⟨hmore, hstop⟩ := eq_of_drop_takeWhile hdrop'
        obtain rfl : stop = '\x7d' := by simpa using hstop
        refine .inr ⟨_, fun hmem => ?_, rfl, ?_⟩
        · have := List.mem_takeWhile_imp hmem
          simp at this
        · rw [← hmore]
          exact (eq_of_drop_takeWhile hdrop).1
      next => cases h
    next => cases h
  · rintro ⟨name, hname, h⟩
    have hempty : name.isEmpty = false := by simpa using hname.nonempty
    unfold reference?
    dsimp only
    rcases h with ⟨rfl, rfl⟩ | ⟨default, hdefault, rfl, rfl⟩
    · rw [takeWhile_append_stop hname.passes rfl, hempty, List.drop_left]
      rfl
    · rw [takeWhile_append_stop hname.passes rfl, hempty, List.drop_left]
      have hkeep : ∀ c ∈ default, (c != '\x7d') = true := by
        intro c hc
        rw [bne_iff_ne]
        rintro rfl
        exact hdefault hc
      simp only [Bool.false_eq_true, if_false]
      rw [takeWhile_append_stop hkeep rfl, List.drop_left]

/-- The reference that begins a text, and the rest. -/
def begun? (c : Char) (cs : List Char) : Option (Piece × List Char) :=
  if c == '$' then (after? ['\x7b'] cs).bind reference? else none

/-- **What begins a text** is a reference that the text begins with. -/
theorem begun?_eq_some_iff {c : Char} {cs rest : List Char} {p : Piece} :
    begun? c cs = some (p, rest) ↔ ∃ text name default, IsReference text name default ∧
      c :: cs = text ++ rest ∧ p = .reference name default := by
  constructor
  · intro h
    unfold begun? at h
    split_ifs at h with hc
    obtain ⟨more, hmore, hp⟩ := Option.bind_eq_some_iff.1 h
    rw [beq_iff_eq.1 hc, after?_eq_some_iff.1 hmore]
    obtain ⟨name, hname, ⟨rfl, rfl⟩ | ⟨default, hdefault, rfl, rfl⟩⟩ := reference?_eq_some_iff.1 hp
    · exact ⟨_, _, _, .bare hname, by simp, rfl⟩
    · exact ⟨_, _, _, .withDefault hname hdefault, by simp, rfl⟩
  · rintro ⟨text, name, default, href, htext, rfl⟩
    cases href with
    | bare hname =>
      obtain ⟨rfl, rfl⟩ := List.cons.inj htext
      exact reference?_eq_some_iff.2 ⟨name, hname, .inl ⟨rfl, by simp⟩⟩
    | withDefault hname hdefault =>
      obtain ⟨rfl, rfl⟩ := List.cons.inj htext
      exact reference?_eq_some_iff.2 ⟨name, hname, .inr ⟨default, hdefault, rfl, by simp⟩⟩

theorem begun?_eq_none_iff {c : Char} {cs : List Char} :
    begun? c cs = none ↔
      ∀ text name default, IsReference text name default → ¬ text <+: c :: cs := by
  rw [← not_iff_not, ← ne_eq, Option.ne_none_iff_exists']
  push Not
  constructor
  · rintro ⟨⟨p, rest⟩, h⟩
    obtain ⟨text, name, default, href, htext, -⟩ := begun?_eq_some_iff.1 h
    exact ⟨text, name, default, href, rest, htext.symm⟩
  · rintro ⟨text, name, default, href, rest, htext⟩
    exact ⟨_, begun?_eq_some_iff.2 ⟨text, name, default, href, htext.symm, rfl⟩⟩

/-! ## One way to cut -/

theorem IsReference.ne_nil {text name default : List Char} (h : IsReference text name default) :
    text ≠ [] := by
  cases h <;> simp

theorem cutWithin_cons (fuel : Nat) (c : Char) (cs : List Char) :
    cutWithin (fuel + 1) (c :: cs) =
      match begun? c cs with
      | some (p, rest) => p :: cutWithin fuel rest
      | none => .char c :: cutWithin fuel cs := rfl

/-- The scanner cuts at the leftmost references, given a step for each character. -/
theorem cuts_cutWithin {fuel : Nat} {cs : List Char} (h : cs.length ≤ fuel) :
    Cuts cs (cutWithin fuel cs) := by
  induction fuel generalizing cs with
  | zero =>
    obtain rfl := List.length_eq_zero_iff.1 (Nat.le_zero.1 h)
    exact .nil
  | succ fuel ih =>
    cases cs with
    | nil => exact .nil
    | cons c cs =>
      rw [cutWithin_cons]
      cases hbegun : begun? c cs with
      | none => exact .char (begun?_eq_none_iff.1 hbegun) (ih (Nat.le_of_succ_le_succ h))
      | some found =>
        obtain ⟨p, rest⟩ := found
        obtain ⟨text, name, default, href, htext, rfl⟩ := begun?_eq_some_iff.1 hbegun
        have hlength := congrArg List.length htext
        have hpos := List.length_pos_of_ne_nil href.ne_nil
        rw [List.length_append] at hlength
        rw [htext]
        exact .reference href (ih (by omega))

/-- Whatever way a text is cut at its leftmost references, the scanner cuts it that way. -/
theorem Cuts.eq_cutWithin {cs : List Char} {ps : List Piece} (h : Cuts cs ps) {fuel : Nat}
    (hfuel : cs.length ≤ fuel) : cutWithin fuel cs = ps := by
  induction h generalizing fuel with
  | nil => cases fuel <;> rfl
  | @reference text name default rest ps href _ ih =>
    obtain ⟨c, text, rfl⟩ := List.exists_cons_of_ne_nil href.ne_nil
    have hbegun : begun? c (text ++ rest) = some (.reference name default, rest) :=
      begun?_eq_some_iff.2 ⟨_, _, _, href, rfl, rfl⟩
    rw [List.cons_append, List.length_cons, List.length_append] at hfuel
    obtain ⟨fuel, rfl⟩ : ∃ n, fuel = n + 1 := ⟨fuel - 1, by omega⟩
    rw [List.cons_append, cutWithin_cons, hbegun]
    exact congrArg _ (ih (by omega))
  | @char c cs ps hnone _ ih =>
    rw [List.length_cons] at hfuel
    obtain ⟨fuel, rfl⟩ : ∃ n, fuel = n + 1 := ⟨fuel - 1, by omega⟩
    rw [cutWithin_cons, begun?_eq_none_iff.2 hnone]
    exact congrArg _ (ih (by omega))

/-- **A text is cut in one way** at its leftmost references. -/
theorem cuts_iff {cs : List Char} {ps : List Piece} : Cuts cs ps ↔ ps = pieces cs :=
  ⟨fun h => (h.eq_cutWithin le_rfl).symm, fun h => h ▸ cuts_cutWithin le_rfl⟩

/-! ## What replaces the pieces -/

/-- The variables that the pieces of a text name have the same values. -/
def AgreeOn (ps : List Piece) (env env' : Environment) : Prop :=
  ∀ name default, .reference name default ∈ ps →
    env.lookup (String.ofList name) = env'.lookup (String.ofList name)

theorem Piece.expand_congr {env env' : Environment} {ps : List Piece} (h : AgreeOn ps env env')
    {p : Piece} (hp : p ∈ ps) : p.expand env = p.expand env' := by
  cases p with
  | char c => rfl
  | reference name default => rw [Piece.expand, Piece.expand, h name default hp]

theorem expandText_congr {env env' : Environment} {s : String}
    (h : AgreeOn (pieces s.toList) env env') : expandText env s = expandText env' s :=
  congrArg String.ofList (List.flatMap_congr fun _ hp => Piece.expand_congr h hp)

/-! ## Values -/

/-- The part of a value at a path: an item of a list, or the value of an entry of a mapping, and so
on. -/
def part? : (path : List Nat) → Value → Option Value
  | [], v => some v
  | i :: path, .list items => items[i]?.bind (part? path)
  | i :: path, .map entries => entries[i]?.bind fun e => part? path e.2
  | _ :: _, _ => none

/-- What expansion makes of a part of a value: a text is expanded, a list keeps its length and a
mapping its keys with their order, and everything else stays what it is. -/
def Expanded (env : Environment) : (before after : Option Value) → Prop
  | some (.text s), after => after = some (.text (expandText env s))
  | some (.list items), after =>
    ∃ items', after = some (.list items') ∧ items'.length = items.length
  | some (.map entries), after =>
    ∃ entries', after = some (.map entries') ∧ entries'.map (·.1) = entries.map (·.1)
  | before, after => after = before

theorem expandAll_eq_map (env : Environment) (vs : List Value) :
    expandAll env vs = vs.map (expand env) := by
  induction vs with
  | nil => rw [expandAll, List.map_nil]
  | cons v vs ih => rw [expandAll, ih, List.map_cons]

theorem expandEntries_eq_map (env : Environment) (es : List (Value × Value)) :
    expandEntries env es = es.map fun e => (e.1, expand env e.2) := by
  induction es with
  | nil => rw [expandEntries, List.map_nil]
  | cons e es ih =>
    obtain ⟨k, v⟩ := e
    rw [expandEntries, ih, List.map_cons]

/-- **The parts of an expanded value** are the expanded parts. -/
theorem part?_expand (env : Environment) (path : List Nat) (v : Value) :
    part? path (expand env v) = (part? path v).map (expand env) := by
  induction path generalizing v with
  | nil => rfl
  | cons i path ih =>
    cases v with
    | list items =>
      rw [expand, expandAll_eq_map, part?, part?, List.getElem?_map]
      cases items[i]? with
      | none => rfl
      | some item => exact ih item
    | map entries =>
      rw [expand, expandEntries_eq_map, part?, part?, List.getElem?_map]
      cases entries[i]? with
      | none => rfl
      | some e => exact ih e.2
    | _ => simp [expand, part?]

theorem expanded_expand (env : Environment) (v : Option Value) :
    Expanded env v (v.map (expand env)) := by
  match v with
  | none => rfl
  | some (.text s) => simp [Expanded, expand]
  | some (.list items) => exact ⟨_, by rw [Option.map_some, expand], by simp [expandAll_eq_map]⟩
  | some (.map entries) =>
    exact ⟨_, by rw [Option.map_some, expand], by simp [expandEntries_eq_map, Function.comp_def]⟩
  | some .null | some (.bool _) | some (.int _) | some (.float _) | some (.bytes _)
  | some (.day _) | some (.time _) | some (.pair _ _) | some (.set _) =>
    simp [Expanded, expand]

/-- **Expansion is one exact pass.** A text is cut in one way at its leftmost references. What
stands between them is kept, and each reference is replaced by the value of its variable, or by its
default if the variable is not set; variables that no reference names do not matter. Of a value, every
text at any depth of lists and mappings is expanded, and nothing else is changed. All this is said of
texts without surrogates. -/
theorem expansion_is_one_pass (env : Environment) (s : String) (v : Value) :
    (∃ ps, (∀ qs, Cuts s.toList qs ↔ qs = ps) ∧
      (expandText env s).toList = ps.flatMap (Piece.expand env) ∧
      ∀ env', AgreeOn ps env env' → expandText env' s = expandText env s) ∧
    ∀ path, Expanded env (part? path v) (part? path (expand env v)) := by
  refine ⟨⟨pieces s.toList, fun _ => cuts_iff, String.toList_ofList, fun env' h => ?_⟩,
    fun path => ?_⟩
  · exact (expandText_congr h).symm
  · rw [part?_expand]
    exact expanded_expand env (part? path v)

/-- What a variable holds is not expanded, and a reference without its end is kept. -/
example : expandText [("A", "$\x7bB\x7d"), ("B", "b")] "$$\x7bA\x7d$\x7bB:-" =
    "$$\x7bB\x7d$\x7bB:-" := by decide +kernel

end DocSearch.Settings
