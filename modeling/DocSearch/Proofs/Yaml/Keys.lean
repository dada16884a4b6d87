import DocSearch.Yaml.Document
import DocSearch.Proofs.Entries

/-!
# No key stands twice in a document

A mapping of a document is built entry by entry, and a later entry under a key takes the place of
the earlier one. So the mapping that a document is has different keys, and so have the mappings right
below it (`keyedOnce_of_read`).
-/

namespace DocSearch.Yaml

open Value

/-- Entries with different keys, whose values that are mappings have different keys as well. -/
structure KeyedOnce (es : List (Value × Value)) : Prop where
  apart : Apart es
  below : ∀ e ∈ es, ∀ fs, e.2 = .map fs → Apart fs

/-! ## Results -/

theorem exists_of_map {ε α β : Type} {f : α → β} {r : Except ε α} {b : β} (h : r.map f = .ok b) :
    ∃ a, r = .ok a ∧ f a = b := by
  match r, h with
  | .ok a, h => exact ⟨a, rfl, Except.ok.inj h⟩

theorem exists_of_bind {ε α β : Type} {r : Except ε α} {f : α → Except ε β} {b : β}
    (h : (r >>= f) = .ok b) : ∃ a, r = .ok a ∧ f a = .ok b := by
  match r, h with
  | .ok a, h => exact ⟨a, rfl, h⟩

namespace Node

theorem both_eq_ok {α β : Type} {a : Built α} {b : Built β} {p : α × β} (h : both a b = .ok p) :
    a = .ok p.1 ∧ b = .ok p.2 := by
  match a, b, h with
  | .ok a, .ok b, h => exact Except.ok.inj h ▸ ⟨rfl, rfl⟩

theorem all_eq_ok {α : Type} {bs : List (Built α)} {as : List α} (h : all bs = .ok as) :
    bs = as.map .ok := by
  induction bs generalizing as with
  | nil => exact Except.ok.inj h ▸ rfl
  | cons b bs ih =>
    rw [all] at h
    cases hboth : both b (all bs) with
    | error e =>
      rw [hboth] at h
      cases h
    | ok p =>
      rw [hboth] at h
      obtain ⟨hb, hbs⟩ := both_eq_ok hboth
      obtain rfl := Except.ok.inj h
      rw [hb, ih hbs]
      rfl

/-! ## What is no mapping -/

theorem readTime_ne_map (cs : List Char) (es : List (Value × Value)) :
    readTime cs ≠ .ok (.map es) := by
  intro h
  unfold readTime at h
  split at h
  next => cases h
  next =>
    split at h
    next =>
      obtain ⟨_, _, h⟩ := exists_of_bind h
      cases h
    next =>
      obtain ⟨_, _, h⟩ := exists_of_bind h
      obtain ⟨_, _, h⟩ := exists_of_bind h
      obtain ⟨_, _, h⟩ := exists_of_bind h
      cases h

theorem scalarValue_ne_map (tag : Tag) (cs : List Char) (es : List (Value × Value)) :
    scalarValue tag cs ≠ .ok (.map es) := by
  intro h
  unfold scalarValue at h
  cases tag with
  | time => exact readTime_ne_map cs es h
  | truth | int | float =>
    obtain ⟨_, _, hv⟩ := exists_of_map h
    cases hv
  | binary =>
    dsimp only at h
    split_ifs at h
    split at h <;> cases h
  | _ => cases h

/-- Neither a scalar nor a misplaced tag gives a mapping. -/
theorem placed_ne_map {tag : Tag} {cs : List Char} {es : List (Value × Value)}
    {place : Error → Nat × Error} {e : Nat × Error} :
    (if isScalarTag tag then (scalarValue tag cs).mapError place else .error e) ≠
      .ok (.map es) := by
  intro h
  split_ifs at h
  cases hv : scalarValue tag cs with
  | error e =>
    rw [hv] at h
    cases h
  | ok v =>
    rw [hv] at h
    exact scalarValue_ne_map tag cs es (Except.ok.inj h ▸ hv)

/-! ## Mappings -/

/-- **What a mapping is built from**: it has different keys, and its values are built themselves. -/
theorem build_map {depth fuel : Nat} {n : Node} {es : List (Value × Value)}
    (h : build depth fuel n = .ok (.map es)) :
    Apart es ∧ ∀ e ∈ es, ∃ fuel' n', build (depth + 1) fuel' n' = .ok e.2 := by
  cases fuel with
  | zero => cases h
  | succ fuel =>
    cases n with
    | cycle => cases h
    | scalar tag text => exact absurd h placed_ne_map
    | list tag items =>
      cases tag with
      | list | pairs | orderedPairs =>
        obtain ⟨_, _, hv⟩ := exists_of_map h
        cases hv
      | _ => cases h
    | map tag entries =>
      cases tag with
      | map =>
        obtain ⟨pairs, hpairs, hes⟩ := exists_of_map h
        obtain rfl := Value.map.inj hes
        dsimp only at hpairs
        split at hpairs
        next => cases hpairs
        next entries _ =>
          obtain ⟨hapart, hvalues⟩ := Apart.putEntries .nil pairs
          refine ⟨hapart, fun e he => ?_⟩
          obtain ⟨k, hk⟩ := (hvalues e he).resolve_left List.not_mem_nil
          have hbuilt : (Except.ok (k, e.2) : Built _) ∈ pairs.map .ok := List.mem_map_of_mem hk
          rw [← all_eq_ok hpairs] at hbuilt
          obtain ⟨⟨nk, nv⟩, -, hboth⟩ := List.mem_map.1 hbuilt
          exact ⟨fuel, nv, (both_eq_ok hboth).2⟩
      | set =>
        obtain ⟨_, _, hv⟩ := exists_of_map h
        cases hv
      | _ =>
        simp only [build] at h
        split at h
        next => exact absurd h placed_ne_map
        next => cases h

end Node

/-- **No key stands twice** in a document that is a mapping, nor in a mapping right below it. -/
theorem keyedOnce_of_read {cs : List Char} {d : Document} {es : List (Value × Value)}
    (h : read cs = .ok d) (hvalue : d.value = .map es) : KeyedOnce es := by
  unfold read at h
  dsimp only at h
  split_ifs at h
  · cases h
  · obtain ⟨node, -, h⟩ := exists_of_bind h
    cases node with
    | none =>
      obtain rfl := Except.ok.inj h
      cases hvalue
    | some n =>
      dsimp only at h
      split at h
      next v hbuild =>
        obtain rfl := Except.ok.inj h
        obtain rfl : v = .map es := hvalue
        obtain ⟨hapart, hbuilt⟩ := Node.build_map hbuild
        refine ⟨hapart, fun e he fs hfs => ?_⟩
        obtain ⟨fuel, m, hm⟩ := hbuilt e he
        rw [hfs] at hm
        exact (Node.build_map hm).1
      next => cases h

end DocSearch.Yaml
