import DocSearch.Value
import DocSearch.Proofs.Keyed
import Mathlib.Tactic.SplitIfs

/-!
# Entries of mappings

A mapping is a list of entries with different keys (`Apart`). A text as a key is the same as no
other key, so that what stands under a text is found whatever other keys there are, and putting an
entry under a key changes what is found under that key alone (`lookup_putEntry`).
-/

namespace DocSearch.Value

variable {es : List (Value × Value)} {k v : Value} {t : String}

/-! ## Keys that are texts -/

theorem sameKey_text_iff : sameKey k (.text t) = true ↔ k = .text t := by
  cases k <;> simp [sameKey, numeric?]

theorem text_sameKey_iff : sameKey (.text t) k = true ↔ .text t = k := by
  cases k <;> simp [sameKey, numeric?]

theorem lookup_cons (t : String) (e : Value × Value) (es : List (Value × Value)) :
    lookup t (e :: es) = if sameKey e.1 (.text t) then some e.2 else lookup t es := by
  obtain ⟨k, v⟩ := e
  cases k <;> simp [lookup, sameKey, numeric?]

theorem lookup_cons_self (t : String) (v : Value) (es : List (Value × Value)) :
    lookup t ((.text t, v) :: es) = some v := by
  rw [lookup_cons, if_pos (sameKey_text_iff.2 rfl)]

theorem lookup_cons_of_ne {e : Value × Value} (h : e.1 ≠ .text t) :
    lookup t (e :: es) = lookup t es := by
  rw [lookup_cons, if_neg (mt sameKey_text_iff.1 h)]

theorem mem_of_lookup (h : lookup t es = some v) : (.text t, v) ∈ es := by
  induction es with
  | nil => cases h
  | cons e es ih =>
    by_cases hkey : e.1 = .text t
    · obtain ⟨k, w⟩ := e
      subst hkey
      rw [lookup_cons_self] at h
      exact Option.some.inj h ▸ List.mem_cons_self
    · rw [lookup_cons_of_ne hkey] at h
      exact List.mem_cons_of_mem _ (ih h)

/-- Changing values leaves the keys under which they are found. -/
theorem lookup_map (f : Value → Value) (t : String) (es : List (Value × Value)) :
    lookup t (es.map fun e => (e.1, f e.2)) = (lookup t es).map f := by
  induction es with
  | nil => rfl
  | cons e es ih =>
    rw [List.map_cons, lookup_cons, lookup_cons, ih]
    split_ifs <;> rfl

theorem lookup_fields (t : String) (fields : List (String × Value)) :
    lookup t (fields.map fun f => (.text f.1, f.2)) = fields.lookup t := by
  induction fields with
  | nil => rfl
  | cons f fields ih =>
    by_cases hkey : t = f.1
    · obtain ⟨k, v⟩ := f
      subst hkey
      rw [List.map_cons, lookup_cons_self, Keyed.lookup_cons_self]
    · have hne : Value.text f.1 ≠ .text t := fun h => hkey (Value.text.inj h).symm
      rw [List.map_cons, lookup_cons_of_ne hne, ih, Keyed.lookup_cons_of_ne hkey]

/-! ## Different keys -/

/-- Entries no two of which have the same key. -/
def Apart (es : List (Value × Value)) : Prop := es.Pairwise fun a b => sameKey a.1 b.1 = false

theorem Apart.lookup_of_mem (h : Apart es) (hmem : (.text t, v) ∈ es) : lookup t es = some v := by
  induction es with
  | nil => cases hmem
  | cons e es ih =>
    obtain ⟨hfront, hrest⟩ := List.pairwise_cons.1 h
    rcases List.mem_cons.1 hmem with rfl | hmem
    · exact lookup_cons_self _ _ _
    · have hkey : e.1 ≠ .text t := by
        intro hkey
        have hapart := hfront _ hmem
        rw [hkey, sameKey_text_iff.2 rfl] at hapart
        cases hapart
      rw [lookup_cons_of_ne hkey, ih hrest hmem]

theorem Apart.lookup_eq_none {d : Value × Value} (h : Apart (d :: es)) (hkey : d.1 = .text t) :
    lookup t es = none := by
  by_contra hne
  obtain ⟨v, hv⟩ := Option.ne_none_iff_exists'.1 hne
  have hapart := (List.pairwise_cons.1 h).1 _ (mem_of_lookup hv)
  rw [hkey, sameKey_text_iff.2 rfl] at hapart
  cases hapart

/-- Leaving out entries by their values leaves out what is found under their keys. -/
theorem Apart.lookup_filter (h : Apart es) (p : Value → Bool) (t : String) :
    lookup t (es.filter fun e => p e.2) = (lookup t es).filter p := by
  induction es with
  | nil => rfl
  | cons e es ih =>
    have hrest := ih (List.pairwise_cons.1 h).2
    by_cases hkey : e.1 = .text t
    · have hnone := h.lookup_eq_none hkey
      obtain ⟨k, v⟩ := e
      subst hkey
      rw [lookup_cons_self]
      by_cases hp : p v = true
      · rw [List.filter_cons, if_pos hp, lookup_cons_self, Option.filter_some, if_pos hp]
      · rw [List.filter_cons, if_neg hp, hrest, hnone, Option.filter_some, if_neg hp]
        rfl
    · rw [lookup_cons_of_ne hkey, ← hrest]
      by_cases hp : p e.2 = true
      · rw [List.filter_cons, if_pos hp, lookup_cons_of_ne hkey]
      · rw [List.filter_cons, if_neg hp]

theorem Apart.of_map_eq {fs : List (Value × Value)} (h : Apart es)
    (hkeys : fs.map (·.1) = es.map (·.1)) : Apart fs := by
  have hpairs : ∀ l : List (Value × Value),
      Apart l ↔ (l.map (·.1)).Pairwise fun a b => sameKey a b = false := fun l => by
    rw [List.pairwise_map]
    rfl
  rw [hpairs] at h ⊢
  rwa [hkeys]

theorem apart_fields {fields : List (String × Value)} (h : (fields.map (·.1)).Nodup) :
    Apart (fields.map fun f => (.text f.1, f.2)) := by
  rw [Apart, List.pairwise_map]
  refine (List.pairwise_map.1 h).imp fun hne => ?_
  rw [← Bool.not_eq_true, sameKey_text_iff]
  exact fun hkey => hne (Value.text.inj hkey)

/-! ## Putting an entry -/

theorem putEntry_cons (k v : Value) (e : Value × Value) (es : List (Value × Value)) :
    putEntry k v (e :: es) =
      if sameKey e.1 k then (e.1, v) :: es else e :: putEntry k v es := rfl

/-- **Putting an entry** changes what is found under its key, and nothing else. -/
theorem lookup_putEntry (t : String) (k v : Value) (es : List (Value × Value)) :
    lookup t (putEntry k v es) = if sameKey k (.text t) then some v else lookup t es := by
  induction es with
  | nil => exact lookup_cons t (k, v) []
  | cons e es ih =>
    rw [putEntry_cons]
    by_cases hk : k = .text t
    · subst hk
      rw [if_pos (sameKey_text_iff.2 rfl)] at ih ⊢
      split_ifs with hsame
      · rw [lookup_cons, if_pos hsame]
      · rw [lookup_cons, if_neg hsame, ih]
    · rw [if_neg (mt sameKey_text_iff.1 hk)] at ih ⊢
      split_ifs with hsame
      · have hkey : e.1 ≠ .text t := fun hkey =>
          hk (text_sameKey_iff.1 (hkey ▸ hsame)).symm
        rw [lookup_cons, lookup_cons, if_neg (mt sameKey_text_iff.1 hkey),
          if_neg (mt sameKey_text_iff.1 hkey)]
      · rw [lookup_cons, lookup_cons, ih]

/-- What is there after an entry is put: old entries, perhaps with the new value, or the new one. -/
theorem mem_putEntry {e : Value × Value} (h : e ∈ putEntry k v es) :
    e ∈ es ∨ e.2 = v ∧ (e.1 = k ∨ e.1 ∈ es.map (·.1)) := by
  induction es with
  | nil =>
    obtain rfl := List.mem_singleton.1 h
    exact .inr ⟨rfl, .inl rfl⟩
  | cons d es ih =>
    rw [putEntry_cons] at h
    split_ifs at h with hsame
    · rcases List.mem_cons.1 h with rfl | h
      · exact .inr ⟨rfl, .inr List.mem_cons_self⟩
      · exact .inl (List.mem_cons_of_mem _ h)
    · rcases List.mem_cons.1 h with rfl | h
      · exact .inl List.mem_cons_self
      · rcases ih h with hold | ⟨hv, hk | hk⟩
        · exact .inl (List.mem_cons_of_mem _ hold)
        · exact .inr ⟨hv, .inl hk⟩
        · exact .inr ⟨hv, .inr (List.mem_cons_of_mem _ hk)⟩

theorem Apart.putEntry (h : Apart es) (k v : Value) : Apart (putEntry k v es) := by
  induction es with
  | nil => exact List.pairwise_singleton _ _
  | cons e es ih =>
    obtain ⟨hfront, hrest⟩ := List.pairwise_cons.1 h
    rw [putEntry_cons]
    split_ifs with hsame
    · exact List.pairwise_cons.2 ⟨hfront, hrest⟩
    · refine List.pairwise_cons.2 ⟨fun d hd => ?_, ih hrest⟩
      rcases mem_putEntry hd with hold | ⟨-, hk | hk⟩
      · exact hfront d hold
      · rw [hk]
        simpa using hsame
      · obtain ⟨d', hd', hk⟩ := List.mem_map.1 hk
        rw [← hk]
        exact hfront d' hd'

/-- **Putting entries one after the other** keeps the keys different, and the values are those that
were there or were put. -/
theorem Apart.putEntries (h : Apart es) (new : List (Value × Value)) :
    Apart (new.foldl (fun m (k, v) => Value.putEntry k v m) es) ∧
      ∀ e ∈ new.foldl (fun m (k, v) => Value.putEntry k v m) es, e ∈ es ∨ ∃ k, (k, e.2) ∈ new := by
  induction new generalizing es with
  | nil => exact ⟨h, fun _ he => .inl he⟩
  | cons d new ih =>
    obtain ⟨hapart, hvalues⟩ := ih (h.putEntry d.1 d.2)
    refine ⟨hapart, fun e he => ?_⟩
    rcases hvalues e he with hput | ⟨k, hk⟩
    · rcases mem_putEntry hput with hold | ⟨hv, -⟩
      · exact .inl hold
      · exact .inr ⟨d.1, hv ▸ List.mem_cons_self⟩
    · exact .inr ⟨k, List.mem_cons_of_mem _ hk⟩

/-- Under a key that is there, an entry is put in its place. -/
theorem keys_putEntry (h : ∃ e ∈ es, sameKey e.1 k = true) :
    (putEntry k v es).map (·.1) = es.map (·.1) := by
  induction es with
  | nil => simp at h
  | cons e es ih =>
    rw [putEntry_cons]
    split_ifs with hsame
    · rfl
    · obtain ⟨d, hd, hkey⟩ := h
      rcases List.mem_cons.1 hd with rfl | hd
      · exact absurd hkey hsame
      · rw [List.map_cons, ih ⟨d, hd, hkey⟩, List.map_cons]

/-- Keys that are there stay. -/
theorem keys_subset_putEntry : es.map (·.1) ⊆ (putEntry k v es).map (·.1) := by
  induction es with
  | nil => exact List.nil_subset _
  | cons e es ih =>
    rw [putEntry_cons]
    split_ifs
    · exact fun _ h => h
    · exact List.cons_subset_cons _ ih

/-- An entry that is put is there, under its key or the same one. -/
theorem exists_key_putEntry (k v : Value) (es : List (Value × Value)) :
    ∃ k' ∈ (putEntry k v es).map (·.1), k' = k ∨ sameKey k' k = true := by
  induction es with
  | nil => exact ⟨k, List.mem_cons_self, .inl rfl⟩
  | cons e es ih =>
    rw [putEntry_cons]
    split_ifs with hsame
    · exact ⟨e.1, List.mem_cons_self, .inr hsame⟩
    · obtain ⟨k', hk', hkey⟩ := ih
      exact ⟨k', List.mem_cons_of_mem _ hk', hkey⟩

end DocSearch.Value
