import DocSearch.Text.Trim
import Mathlib.Data.List.TakeWhile
import Mathlib.Tactic.SplitIfs

/-!
# What cutting a text finds

A text is trimmed at both ends, or cut at the first occurrence of a piece or at the last occurrence
of a character. What is trimmed or cut off makes up the text again with what is left, and the same
cut is made whatever else stands behind.
-/

namespace DocSearch.Text

/-! ## Ends -/

/-- A text is left alone if it neither begins nor ends with a character of the class. -/
theorem trimBy_of_ends {p : Char → Bool} {cs : List Char}
    (hfront : ∀ c, cs.head? = some c → p c = false)
    (hback : ∀ c, cs.getLast? = some c → p c = false) : trimBy p cs = cs := by
  have hkeep : ∀ ds : List Char, (∀ c, ds.head? = some c → p c = false) → ds.dropWhile p = ds := by
    intro ds hds
    cases ds with
    | nil => rfl
    | cons d ds => exact List.dropWhile_cons_of_neg (by simp [hds d rfl])
  rw [trimBy, dropEnd, hkeep cs hfront,
    hkeep cs.reverse fun c hc => hback c (by rwa [List.head?_reverse] at hc), List.reverse_reverse]

/-- Where nothing is to be cut off, nothing is. -/
theorem trimBy_of_forall {p : Char → Bool} {cs : List Char} (h : ∀ c ∈ cs, p c = false) :
    trimBy p cs = cs :=
  trimBy_of_ends (fun c hc => h c (List.mem_of_mem_head? hc))
    fun c hc => h c (List.mem_of_mem_getLast? hc)

/-- Characters of the class on both sides are taken off a text without any. -/
theorem trimBy_enclosed {p : Char → Bool} {a b : Char} {cs : List Char} (ha : p a = true)
    (hb : p b = true) (hne : cs ≠ []) (h : ∀ c ∈ cs, p c = false) :
    trimBy p (a :: cs ++ [b]) = cs := by
  obtain ⟨c, ds, rfl⟩ := List.exists_cons_of_ne_nil hne
  have hfront : (a :: c :: ds ++ [b]).dropWhile p = c :: ds ++ [b] := by
    rw [List.cons_append, List.dropWhile_cons_of_pos ha]
    exact List.dropWhile_cons_of_neg (by simp [h c List.mem_cons_self])
  have hwhole := trimBy_of_forall h
  rw [trimBy, List.dropWhile_cons_of_neg (by simp [h c List.mem_cons_self])] at hwhole
  rw [trimBy, hfront, dropEnd, List.reverse_append, List.reverse_singleton, List.singleton_append,
    List.dropWhile_cons_of_pos hb]
  exact hwhole

/-- Trimming leaves nothing but characters of the text. -/
theorem mem_of_mem_trimBy {p : Char → Bool} {cs : List Char} {c : Char} (h : c ∈ trimBy p cs) :
    c ∈ cs := by
  have hrev := (List.dropWhile_suffix p).subset (List.mem_reverse.1 h)
  exact (List.dropWhile_suffix p).subset (List.mem_reverse.1 hrev)

/-- **What trimming cuts off** are characters of the class, and none is left at either end. -/
theorem exists_ends_of_trimBy (p : Char → Bool) (cs : List Char) :
    ∃ lead trail, cs = lead ++ trimBy p cs ++ trail ∧ (∀ c ∈ lead, p c = true) ∧
      (∀ c ∈ trail, p c = true) ∧ (∀ c, (trimBy p cs).head? = some c → p c = false) ∧
      ∀ c, (trimBy p cs).getLast? = some c → p c = false := by
  have hfront : ∀ (ds : List Char) {c : Char}, (ds.dropWhile p).head? = some c → p c = false := by
    intro ds c hc
    have := List.head?_dropWhile_not p ds
    rwa [hc] at this
  have hwhole : trimBy p cs ++ ((cs.dropWhile p).reverse.takeWhile p).reverse = cs.dropWhile p := by
    rw [trimBy, dropEnd, ← List.reverse_append, List.takeWhile_append_dropWhile,
      List.reverse_reverse]
  refine ⟨cs.takeWhile p, ((cs.dropWhile p).reverse.takeWhile p).reverse, ?_, ?_, ?_, ?_, ?_⟩
  · rw [List.append_assoc, hwhole, List.takeWhile_append_dropWhile]
  · exact fun c hc => List.mem_takeWhile_imp hc
  · exact fun c hc => List.mem_takeWhile_imp (List.mem_reverse.1 hc)
  · intro c hc
    refine hfront cs ?_
    rw [← hwhole, List.head?_append, hc]
    rfl
  · intro c hc
    rw [trimBy, dropEnd, List.getLast?_reverse] at hc
    exact hfront _ hc

/-! ## The first occurrence of a piece -/

theorem after?_append {α : Type} [BEq α] [LawfulBEq α] (p cs : List α) :
    after? p (p ++ cs) = some cs := by
  induction p with
  | nil => rfl
  | cons a p ih => simpa [after?] using ih

theorem after?_eq_some_iff {p cs rest : List Char} : after? p cs = some rest ↔ cs = p ++ rest := by
  refine ⟨fun h => ?_, fun h => h ▸ after?_append p rest⟩
  induction p generalizing cs with
  | nil => exact Option.some.inj h
  | cons a p ih =>
    cases cs with
    | nil => cases h
    | cons c cs =>
      rw [after?] at h
      split_ifs at h with hac
      rw [beq_iff_eq.1 hac, ih h, List.cons_append]

/-- A piece that a long enough text does not begin with is not found when the text goes on. -/
theorem after?_append_eq_none {p cs : List Char} (h : after? p cs = none)
    (hlength : p.length ≤ cs.length) (x : List Char) : after? p (cs ++ x) = none := by
  by_contra hne
  obtain ⟨rest, hrest⟩ := Option.ne_none_iff_exists'.1 hne
  have hprefix : p <+: cs := List.prefix_of_prefix_length_le
    ⟨rest, (after?_eq_some_iff.1 hrest).symm⟩ (List.prefix_append cs x) hlength
  obtain ⟨r, rfl⟩ := hprefix
  rw [after?_append] at h
  cases h

theorem eq_of_cut? {p cs l r : List Char} (h : cut? p cs = some (l, r)) : cs = l ++ p ++ r := by
  induction cs generalizing l with
  | nil =>
    rw [cut?] at h
    split_ifs at h with hp
    obtain ⟨rfl, rfl⟩ := Prod.mk.inj (Option.some.inj h)
    rw [List.isEmpty_iff.1 hp]
    rfl
  | cons c cs ih =>
    rw [cut?] at h
    split at h
    next rest hrest =>
      obtain ⟨rfl, rfl⟩ := Prod.mk.inj (Option.some.inj h)
      exact after?_eq_some_iff.1 hrest
    next =>
      obtain ⟨⟨l', r'⟩, hcut, hlr⟩ := Option.map_eq_some_iff.1 h
      obtain ⟨rfl, rfl⟩ := Prod.mk.inj hlr
      rw [ih hcut]
      rfl

/-- **The first occurrence** of a piece stays the first whatever comes behind it. -/
theorem cut?_append {p cs l r : List Char} (hp : p ≠ []) (h : cut? p cs = some (l, r))
    (x : List Char) : cut? p (l ++ p ++ x) = some (l, x) := by
  induction cs generalizing l with
  | nil =>
    rw [cut?] at h
    split_ifs at h with hempty
    exact absurd (List.isEmpty_iff.1 hempty) hp
  | cons c cs ih =>
    have hcs := eq_of_cut? h
    rw [cut?] at h
    split at h
    next rest hrest =>
      obtain ⟨rfl, rfl⟩ := Prod.mk.inj (Option.some.inj h)
      obtain ⟨a, p, rfl⟩ := List.exists_cons_of_ne_nil hp
      rw [List.nil_append, List.cons_append, cut?, ← List.cons_append, after?_append]
    next hnone =>
      obtain ⟨⟨l', r'⟩, hcut, hlr⟩ := Option.map_eq_some_iff.1 h
      obtain ⟨rfl, rfl⟩ := Prod.mk.inj hlr
      -- The piece is not at the front, and what follows it cannot bring it there.
      have hfront : after? p (c :: l' ++ p) = none := by
        by_contra hne
        obtain ⟨rest, hrest⟩ := Option.ne_none_iff_exists'.1 hne
        rw [hcs, after?_eq_some_iff.1 hrest, List.append_assoc, after?_append] at hnone
        cases hnone
      have hnot := after?_append_eq_none hfront
        (by rw [List.length_append]; exact Nat.le_add_left _ _) x
      rw [List.cons_append, List.cons_append] at hnot ⊢
      rw [cut?, hnot, ih hcut]
      rfl

/-- A piece is found where it stands, if its first character stands nowhere before. -/
theorem cut?_of_not_mem {a : Char} {l : List Char} (h : a ∉ l) (p r : List Char) :
    cut? (a :: p) (l ++ a :: p ++ r) = some (l, r) := by
  induction l with
  | nil => rw [List.nil_append, List.cons_append, cut?, ← List.cons_append, after?_append]
  | cons c l ih =>
    rw [List.mem_cons, not_or] at h
    have hfront : after? (a :: p) (c :: (l ++ a :: p ++ r)) = none := by
      rw [after?, if_neg (by simpa using h.1)]
    rw [List.cons_append, List.cons_append, cut?, hfront, ih h.2]
    rfl

/-! ## The last occurrence of a character -/

theorem cutLast?_append {sep : Char} {r : List Char} (hr : sep ∉ r) (l : List Char) :
    cutLast? sep (l ++ sep :: r) = some (l, r) := by
  have hrev : (l ++ sep :: r).reverse = r.reverse ++ sep :: l.reverse := by simp
  have hkeep : ∀ c ∈ r.reverse, (c != sep) = true := by
    intro c hc
    rw [bne_iff_ne]
    rintro rfl
    exact hr (List.mem_reverse.1 hc)
  unfold cutLast?
  dsimp only
  rw [hrev, List.dropWhile_append_of_pos hkeep, List.takeWhile_append_of_pos hkeep]
  simp

end DocSearch.Text
