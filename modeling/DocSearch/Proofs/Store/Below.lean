import DocSearch.Proofs.Store.Writing
import Mathlib.Data.List.Induction
import Mathlib.Tactic.SplitIfs

/-!
# What lies below a root

Pruning finds the rows below a root by a pattern. The pattern means what it is meant to mean: a file
fits it exactly if it begins with the root, without slashes at its end, and a slash
(`fits_below_iff`).
-/

namespace DocSearch.Store

open Text

/-! ## Patterns -/

theorem fits_nil_of_ne {e : Char} (he : e ≠ '%') (p : List Char) : fits (e :: p) [] = false := by
  rw [fits.eq_def]
  split <;> simp_all

theorem fits_backslash (e c : Char) (p cs : List Char) :
    fits ('\\' :: e :: p) (c :: cs) = (e == c && fits p cs) := by rw [fits]

theorem fits_plain {e : Char} (he : ¬ (e == '\\' || e == '%' || e == '_') = true) (c : Char)
    (p cs : List Char) : fits (e :: p) (c :: cs) = (e == c && fits p cs) := by
  simp only [Bool.or_eq_true, beq_iff_eq, not_or] at he
  obtain ⟨⟨hbackslash, hpercent⟩, hunderscore⟩ := he
  rw [fits] <;> simp_all

/-- A text fits an escaped text and a pattern behind it if it begins with the text and what is left
fits the pattern. -/
theorem fits_escapePattern (text rest cs : List Char) :
    fits (escapePattern text ++ rest) cs = true ↔
      ∃ tail, cs = text ++ tail ∧ fits rest tail = true := by
  induction text generalizing cs with
  | nil => simp [escapePattern]
  | cons c text ih =>
    have hstep : fits (escapePattern (c :: text) ++ rest) cs = true ↔
        ∃ cs', cs = c :: cs' ∧ fits (escapePattern text ++ rest) cs' = true := by
      rw [escapePattern]
      split_ifs with hc
      · cases cs with
        | nil => simp [fits_nil_of_ne]
        | cons d cs => simp [fits_backslash, eq_comm (a := c)]
      · cases cs with
        | nil =>
          have hpercent : c ≠ '%' := by
            rintro rfl
            exact hc rfl
          simp [fits_nil_of_ne hpercent]
        | cons d cs => simp [fits_plain hc, eq_comm (a := c)]
    rw [hstep]
    constructor
    · rintro ⟨cs', rfl, h⟩
      obtain ⟨tail, rfl, htail⟩ := (ih cs').1 h
      exact ⟨tail, rfl, htail⟩
    · rintro ⟨tail, rfl, htail⟩
      exact ⟨text ++ tail, rfl, (ih _).2 ⟨tail, rfl, htail⟩⟩

/-- Any text fits the pattern for any text. -/
theorem fits_any (cs : List Char) : fits ['%'] cs = true := by
  rw [fits]
  induction cs with
  | nil => simp [fits.fitsTail, fits]
  | cons c cs ih => rw [fits.fitsTail, ih, Bool.or_true]

theorem escapePattern_append (a b : List Char) :
    escapePattern (a ++ b) = escapePattern a ++ escapePattern b := by
  induction a with
  | nil => rfl
  | cons c a ih =>
    rw [List.cons_append, escapePattern, escapePattern, ih]
    split_ifs <;> rfl

theorem dropEnd_append_singleton (p : Char → Bool) (cs : List Char) (c : Char) :
    dropEnd p (cs ++ [c]) = if p c then dropEnd p cs else cs ++ [c] := by
  cases h : p c <;> simp [dropEnd, h]

/-- Slashes at the end go before or behind escaping alike. -/
theorem dropEnd_escapePattern (cs : List Char) :
    dropEnd (· == '/') (escapePattern cs) = escapePattern (dropEnd (· == '/') cs) := by
  induction cs using List.reverseRecOn with
  | nil => rfl
  | append_singleton cs c ih =>
    rw [escapePattern_append, dropEnd_append_singleton]
    by_cases hc : c = '/'
    · subst hc
      simp only [beq_self_eq_true, if_true]
      rw [← ih]
      exact dropEnd_append_singleton _ _ '/'
    · have hlast : escapePattern cs ++ escapePattern [c] =
          (escapePattern cs ++ (escapePattern [c]).dropLast) ++ [c] := by
        rw [List.append_assoc]
        congr 1
        rw [escapePattern]
        split_ifs <;> rfl
      have hslash : (c == '/') = false := beq_false_of_ne hc
      rw [hslash, hlast, dropEnd_append_singleton, hslash, ← hlast]
      simp [escapePattern_append]

/-! ## Roots -/

/-- A file below a root: its path begins with the root, without slashes at its end, and a slash. -/
def Below (root file : String) : Prop :=
  ∃ rest, file.toList = dropEnd (· == '/') root.toList ++ '/' :: rest

/-- A file at a root or below it. -/
def AtOrBelow (root file : String) : Prop := file = root ∨ Below root file

/-- **The pattern for what lies below a root means just that.** -/
theorem fits_below_iff (root file : String) :
    fits (patternBelow root).toList file.toList = true ↔ Below root file := by
  rw [patternBelow, String.toList_ofList, patternChars, dropEnd_escapePattern,
    show ['/', '%'] = escapePattern ['/'] ++ ['%'] from rfl, ← List.append_assoc,
    ← escapePattern_append, fits_escapePattern]
  simp [Below, fits_any]

/-! ## Stale rows -/

theorem mem_sortedIds {ids : List Int} {id : Int} : id ∈ sortedIds ids ↔ id ∈ ids := by
  rw [sortedIds, List.mem_eraseDups, List.mem_mergeSort]

/-- A row is stale if its file is at or below the root and its id is not to be kept. -/
theorem isStale_iff (root : String) (ids : List Int) (c : Int × Record) :
    Tables.isStale root (patternBelow root) (sortedIds ids) c = true ↔
      AtOrBelow root c.2.filename ∧ c.1 ∉ ids := by
  have hkept : (sortedIds ids).contains c.1 = true ↔ c.1 ∈ ids := by
    rw [List.contains_iff_mem, mem_sortedIds]
  rw [Tables.isStale, Bool.and_eq_true, Bool.or_eq_true, fits_below_iff, beq_iff_eq,
    Bool.not_eq_true', ← Bool.not_eq_true, hkept]
  rfl

namespace Tables

variable {t : Tables} {ids : List Int} (kept : Identity → Prop) (root : String) {i : Identity}

omit i in
/-- Nothing goes where every row is to be kept. -/
theorem prune_of_told (pattern : String) (h : ∀ c ∈ t.chunks, c.1 ∈ ids) :
    (t.prune root pattern (sortedIds ids)).2 = t := by
  have hstale : ∀ c ∈ t.chunks, isStale root pattern (sortedIds ids) c = false := by
    intro c hc
    simp [isStale, mem_sortedIds.2 (h c hc)]
  have hnone : t.chunks.filter (isStale root pattern (sortedIds ids)) = [] := by
    simpa [List.filter_eq_nil_iff] using hstale
  have hall : t.chunks.filter (fun c => !isStale root pattern (sortedIds ids) c) = t.chunks := by
    simpa [List.filter_eq_self] using hstale
  simp [prune, hnone, hall]

/-- What is at or below the root and not to be kept goes. -/
theorem holding?_prune_gone (hs : t.Sound) (hids : ∀ c ∈ t.chunks, c.1 ∈ ids ↔ kept c.2.identity)
    (hi : AtOrBelow root i.filename) (hkept : ¬ kept i) :
    (t.prune root (patternBelow root) (sortedIds ids)).2.holding? i = none := by
  rw [holding?_prune root _ _ hs]
  split_ifs with hstale
  · rfl
  · rw [holding?_eq_none_iff]
    by_contra hrow
    obtain ⟨c, hc⟩ := Option.ne_none_iff_exists'.1 hrow
    obtain ⟨hmem, rfl⟩ := (row?_eq_some_iff hs).1 hc
    rw [hc, Option.any_some, isStale_iff, hids c hmem] at hstale
    exact hstale ⟨hi, hkept⟩

/-- Anything else stays. -/
theorem holding?_prune_kept (hs : t.Sound) (hids : ∀ c ∈ t.chunks, c.1 ∈ ids ↔ kept c.2.identity)
    (hi : AtOrBelow root i.filename → kept i) :
    (t.prune root (patternBelow root) (sortedIds ids)).2.holding? i = t.holding? i := by
  rw [holding?_prune root _ _ hs, if_neg]
  intro hstale
  obtain ⟨c, hc, hany⟩ := (Option.any_eq_true _ _).1 hstale
  obtain ⟨hmem, rfl⟩ := (row?_eq_some_iff hs).1 hc
  obtain ⟨hbelow, hid⟩ := (isStale_iff _ _ _).1 hany
  exact hid ((hids c hmem).2 (hi hbelow))

end Tables

end DocSearch.Store
