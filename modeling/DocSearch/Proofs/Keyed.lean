import Mathlib.Data.List.Nodup

/-!
# Lists with keys

What is said here about lists whose items have different keys serves the tables of the store and the
entries of a folder alike.
-/

namespace DocSearch.Keyed

variable {α κ : Type}

section Lookup

variable [BEq κ] [LawfulBEq κ] {l : List (κ × α)} {k : κ} {a : α}

theorem lookup_cons_self : ((k, a) :: l).lookup k = some a := by
  rw [List.lookup_cons, beq_self_eq_true]

theorem lookup_cons_of_ne {e : κ × α} (h : k ≠ e.1) : (e :: l).lookup k = l.lookup k := by
  rw [List.lookup_cons, beq_false_of_ne h]

theorem mem_of_lookup (h : l.lookup k = some a) : (k, a) ∈ l := by
  induction l with
  | nil => cases h
  | cons e l ih =>
    by_cases hk : k = e.1
    · subst hk
      rw [lookup_cons_self] at h
      obtain rfl := Option.some.inj h
      exact List.mem_cons_self
    · rw [lookup_cons_of_ne hk] at h
      exact List.mem_cons_of_mem _ (ih h)

theorem lookup_of_mem (hl : (l.map (·.1)).Nodup) (h : (k, a) ∈ l) : l.lookup k = some a := by
  induction l with
  | nil => cases h
  | cons e l ih =>
    rw [List.map_cons, List.nodup_cons] at hl
    rcases List.mem_cons.1 h with rfl | h
    · exact lookup_cons_self
    · have hk : k ≠ e.1 := by
        rintro rfl
        exact hl.1 (List.mem_map.2 ⟨_, h, rfl⟩)
      rw [lookup_cons_of_ne hk, ih hl.2 h]

theorem isSome_lookup_iff : (l.lookup k).isSome = true ↔ k ∈ l.map (·.1) := by
  induction l with
  | nil => simp
  | cons e l ih =>
    by_cases hk : k = e.1
    · subst hk
      rw [lookup_cons_self]
      simp
    · rw [lookup_cons_of_ne hk, ih, List.map_cons, List.mem_cons]
      simp [hk]

theorem lookup_eq_some_iff (hl : (l.map (·.1)).Nodup) : l.lookup k = some a ↔ (k, a) ∈ l :=
  ⟨mem_of_lookup, lookup_of_mem hl⟩

end Lookup

/-- What has a key is found by it, and is all that has it. -/
theorem filter_eq_toList_find? [DecidableEq κ] (key : α → κ) {l : List α} (hl : (l.map key).Nodup)
    (k : κ) : (l.filter fun a => key a = k) = (l.find? fun a => key a = k).toList := by
  induction l with
  | nil => rfl
  | cons a l ih =>
    rw [List.map_cons, List.nodup_cons] at hl
    by_cases ha : key a = k
    · have hnone : (l.filter fun a => key a = k) = [] := by
        rw [List.filter_eq_nil_iff]
        intro b hb hbk
        exact hl.1 (List.mem_map.2 ⟨b, hb, by rw [of_decide_eq_true hbk, ha]⟩)
      simp [ha, hnone]
    · simp [ha, ih hl.2]

/-- Lists with the same keys in the same order are equal if a key stands for the same item in
both. -/
theorem eq_of_map_eq (key : α → κ) {l m : List α} (hkeys : l.map key = m.map key)
    (h : ∀ a ∈ l, ∀ b ∈ m, key a = key b → a = b) : l = m := by
  induction l generalizing m with
  | nil => simpa [eq_comm] using hkeys
  | cons a l ih =>
    cases m with
    | nil => simp at hkeys
    | cons b m =>
      obtain ⟨hab, hlm⟩ := List.cons.inj hkeys
      rw [h a List.mem_cons_self b List.mem_cons_self hab, ih hlm fun c hc d hd =>
        h c (List.mem_cons_of_mem _ hc) d (List.mem_cons_of_mem _ hd)]

end DocSearch.Keyed
