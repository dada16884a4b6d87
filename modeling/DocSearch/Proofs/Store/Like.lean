import DocSearch.Proofs.Store.Below
import Mathlib.Data.List.DropRight

/-!
# What a text is like

`Like` is the meaning of the patterns of a database, told by rules: a percent sign stands for any
text, an underscore for any one character, a character behind a backslash for itself, and a pattern
speaks of the whole text. The matcher decides it on every pattern in which no backslash is the last
character (`fits_iff_like`).

**Escaping is exact.** A root may hold the three characters that patterns give a meaning to. They
are escaped one after the other, the backslash first, so no backslash that was put in is escaped
again (`escapePattern_eq_escaped`). The slashes at the end go behind escaping, which makes no
difference, and then the pattern for what lies below a root says just that
(`like_patternBelow_iff`).
-/

namespace DocSearch.Store

open Text

/-! ## The meaning of patterns -/

/-- The texts that are like a pattern. -/
inductive Like : List Char → List Char → Prop where
  | nil : Like [] []
  | any {p cs : List Char} (front : List Char) : Like p cs → Like ('%' :: p) (front ++ cs)
  | one {p cs : List Char} (c : Char) : Like p cs → Like ('_' :: p) (c :: cs)
  | escaped {p cs : List Char} (c : Char) : Like p cs → Like ('\\' :: c :: p) (c :: cs)
  | plain {p cs : List Char} {c : Char} :
      c ≠ '%' → c ≠ '_' → c ≠ '\\' → Like p cs → Like (c :: p) (c :: cs)

/-- The patterns in which a character stands behind every backslash that escapes. -/
inductive Complete : List Char → Prop where
  | nil : Complete []
  | escaped {p : List Char} (c : Char) : Complete p → Complete ('\\' :: c :: p)
  | cons {p : List Char} {c : Char} : c ≠ '\\' → Complete p → Complete (c :: p)

theorem like_nil_iff {cs : List Char} : Like [] cs ↔ cs = [] := by
  constructor
  · intro h
    cases h
    rfl
  · intro h
    subst h
    exact .nil

theorem like_any_iff {p cs : List Char} :
    Like ('%' :: p) cs ↔ ∃ front tail, cs = front ++ tail ∧ Like p tail := by
  constructor
  · intro h
    generalize hq : '%' :: p = q at h
    cases h with
    | any front h =>
      obtain ⟨-, rfl⟩ := List.cons.inj hq
      exact ⟨front, _, rfl, h⟩
    | plain hpercent => exact absurd (List.cons.inj hq).1.symm hpercent
    | _ => simp at hq
  · intro h
    obtain ⟨front, tail, rfl, htail⟩ := h
    exact .any front htail

theorem like_one_iff {p cs : List Char} :
    Like ('_' :: p) cs ↔ ∃ c tail, cs = c :: tail ∧ Like p tail := by
  constructor
  · intro h
    generalize hq : '_' :: p = q at h
    cases h with
    | one c h =>
      obtain ⟨-, rfl⟩ := List.cons.inj hq
      exact ⟨c, _, rfl, h⟩
    | plain _ hunderscore => exact absurd (List.cons.inj hq).1.symm hunderscore
    | _ => simp at hq
  · intro h
    obtain ⟨c, tail, rfl, htail⟩ := h
    exact .one c htail

theorem like_escaped_iff {e : Char} {p cs : List Char} :
    Like ('\\' :: e :: p) cs ↔ ∃ tail, cs = e :: tail ∧ Like p tail := by
  constructor
  · intro h
    generalize hq : '\\' :: e :: p = q at h
    cases h with
    | escaped c h =>
      obtain ⟨-, hq⟩ := List.cons.inj hq
      obtain ⟨rfl, rfl⟩ := List.cons.inj hq
      exact ⟨_, rfl, h⟩
    | plain _ _ hbackslash => exact absurd (List.cons.inj hq).1.symm hbackslash
    | _ => simp at hq
  · intro h
    obtain ⟨tail, rfl, htail⟩ := h
    exact .escaped e htail

theorem like_plain_iff {e : Char} {p cs : List Char} (hpercent : e ≠ '%') (hunderscore : e ≠ '_')
    (hbackslash : e ≠ '\\') : Like (e :: p) cs ↔ ∃ tail, cs = e :: tail ∧ Like p tail := by
  constructor
  · intro h
    generalize hq : e :: p = q at h
    cases h with
    | nil => exact absurd hq (List.cons_ne_nil e p)
    | any => exact absurd (List.cons.inj hq).1 hpercent
    | one => exact absurd (List.cons.inj hq).1 hunderscore
    | escaped => exact absurd (List.cons.inj hq).1 hbackslash
    | plain _ _ _ h =>
      obtain ⟨rfl, rfl⟩ := List.cons.inj hq
      exact ⟨_, rfl, h⟩
  · intro h
    obtain ⟨tail, rfl, htail⟩ := h
    exact .plain hpercent hunderscore hbackslash htail

/-! ## The matcher -/

theorem fitsTail_iff {p cs : List Char} :
    fits.fitsTail p cs = true ↔ ∃ front tail, cs = front ++ tail ∧ fits p tail = true := by
  induction cs with
  | nil =>
    rw [fits.fitsTail]
    constructor
    · intro h
      exact ⟨[], [], rfl, h⟩
    · intro h
      obtain ⟨front, tail, hcs, htail⟩ := h
      obtain ⟨-, rfl⟩ := List.append_eq_nil_iff.1 hcs.symm
      exact htail
  | cons c cs ih =>
    rw [fits.fitsTail, Bool.or_eq_true, ih]
    constructor
    · intro h
      rcases h with h | ⟨front, tail, rfl, htail⟩
      · exact ⟨[], c :: cs, rfl, h⟩
      · exact ⟨c :: front, tail, rfl, htail⟩
    · intro h
      obtain ⟨front, tail, hcs, htail⟩ := h
      cases front with
      | nil => exact .inl (hcs ▸ htail)
      | cons d front => exact .inr ⟨front, tail, (List.cons.inj hcs).2, htail⟩

theorem fits_underscore (c : Char) (p cs : List Char) :
    fits ('_' :: p) (c :: cs) = fits p cs := by rw [fits]

/-- **The matcher decides what is like a pattern**, unless the pattern ends in the middle of an
escape. -/
theorem fits_iff_like {p : List Char} (hp : Complete p) (cs : List Char) :
    fits p cs = true ↔ Like p cs := by
  induction hp generalizing cs with
  | nil => rw [like_nil_iff, fits, List.isEmpty_iff]
  | @escaped p e hp ih =>
    rw [like_escaped_iff]
    cases cs with
    | nil => simp [fits_nil_of_ne]
    | cons c cs => simp [fits_backslash, ih, eq_comm (a := e)]
  | @cons p e hbackslash hp ih =>
    by_cases hpercent : e = '%'
    · subst hpercent
      rw [like_any_iff, fits, fitsTail_iff]
      simp [ih]
    by_cases hunderscore : e = '_'
    · subst hunderscore
      rw [like_one_iff]
      cases cs with
      | nil => simp [fits_nil_of_ne]
      | cons c cs => simp [fits_underscore, ih]
    · have hplain : ¬ (e == '\\' || e == '%' || e == '_') = true := by
        simp [hbackslash, hpercent, hunderscore]
      rw [like_plain_iff hpercent hunderscore hbackslash]
      cases cs with
      | nil => simp [fits_nil_of_ne hpercent]
      | cons c cs => simp [fits_plain hplain, ih, eq_comm (a := e)]

/-! ## Escaping -/

/-- A text with a backslash put in front of every `c`. -/
def escaped (c : Char) (cs : List Char) : List Char :=
  cs.flatMap fun d => if d = c then ['\\', c] else [d]

/-- **Escaping one character after the other is escaping all at once**, if the backslash comes
first. -/
theorem escapePattern_eq_escaped (cs : List Char) :
    escapePattern cs = escaped '_' (escaped '%' (escaped '\\' cs)) := by
  induction cs with
  | nil => rfl
  | cons c cs ih =>
    have happend (d : Char) (xs ys : List Char) :
        escaped d (xs ++ ys) = escaped d xs ++ escaped d ys := List.flatMap_append
    have hhead : escaped '_' (escaped '%' (escaped '\\' [c])) = escapePattern [c] := by
      by_cases hbackslash : c = '\\'
      · subst hbackslash
        decide
      by_cases hpercent : c = '%'
      · subst hpercent
        decide
      by_cases hunderscore : c = '_'
      · subst hunderscore
        decide
      · simp [escaped, escapePattern, hbackslash, hpercent, hunderscore]
    rw [← List.singleton_append, escapePattern_append, happend, happend, happend, hhead, ih]

theorem complete_escapePattern {p : List Char} (hp : Complete p) (cs : List Char) :
    Complete (escapePattern cs ++ p) := by
  induction cs with
  | nil => exact hp
  | cons c cs ih =>
    rw [escapePattern]
    split_ifs with hc
    · exact .escaped c ih
    · refine .cons ?_ ih
      rintro rfl
      exact hc rfl

/-- No pattern for what lies below a root ends in the middle of an escape. -/
theorem complete_patternBelow (root : String) : Complete (patternBelow root).toList := by
  have hslash : Complete ['/', '%'] := .cons (by decide) (.cons (by decide) .nil)
  rw [patternBelow, String.toList_ofList, patternChars, dropEnd_escapePattern]
  exact complete_escapePattern hslash _

theorem toList_patternBelow (root : String) :
    (patternBelow root).toList =
      (escaped '_' (escaped '%' (escaped '\\' root.toList))).rdropWhile (· == '/') ++
        ['/', '%'] := by
  rw [patternBelow, String.toList_ofList, patternChars, escapePattern_eq_escaped]
  rfl

/-- **What is like the pattern for a root is what lies below it.** -/
theorem like_patternBelow_iff {root file : String} :
    Like (patternBelow root).toList file.toList ↔ Below root file := by
  rw [← fits_iff_like (complete_patternBelow root), fits_below_iff]

end DocSearch.Store
