import DocSearch.Cancel
import Mathlib.Tactic.SplitIfs

/-!
# Tripping a child

Every forest that is made of fresh tokens, children and trips `LooksBack`: the ancestors of a token
are not younger than the token. So nothing that is done to a child is seen by the tokens that were
there before it, while the child sees what happens to its parent (`trip?_cancel_child`).
-/

namespace DocSearch.TokenForest

variable {f : TokenForest} {t u : TokenId}

/-- Whether the ancestors of each token are at most as young as the token. -/
def LooksBack (f : TokenForest) : Prop :=
  ∀ (i : TokenId) (k : Token), f.tokens[i]? = some k → ∀ j ∈ k.lineage, j ≤ i

/-! ## Forests look back -/

theorem looksBack_empty : LooksBack empty := by
  intro i k h
  cases h

/-- A token that is added last may have any of the others as ancestors. -/
theorem LooksBack.snoc (hf : f.LooksBack) {lineage : List TokenId} {trip : Trip}
    (h : ∀ j ∈ lineage, j ≤ f.tokens.length) : LooksBack ⟨f.tokens ++ [⟨lineage, trip⟩]⟩ := by
  intro i k hk j hj
  rcases Nat.lt_or_ge i f.tokens.length with hi | hi
  · rw [List.getElem?_append_left hi] at hk
    exact hf i k hk j hj
  · rw [List.getElem?_append_right hi, List.getElem?_singleton] at hk
    split_ifs at hk with hlast
    obtain rfl := Option.some.inj hk
    exact Nat.le_trans (h j hj) hi

theorem LooksBack.fresh (hf : f.LooksBack) : f.fresh.1.LooksBack := by
  refine hf.snoc fun j hj => ?_
  obtain rfl := List.mem_singleton.1 hj
  exact Nat.le_refl _

theorem LooksBack.child (hf : f.LooksBack) (t : TokenId) : (f.child t).1.LooksBack := by
  refine hf.snoc fun j hj => ?_
  rcases List.mem_cons.1 hj with rfl | hj
  · exact Nat.le_refl _
  · cases ht : f.tokens[t]? with
    | none =>
      rw [ht] at hj
      cases hj
    | some k =>
      rw [ht] at hj
      have hlt : t < f.tokens.length := (List.getElem?_eq_some_iff.1 ht).1
      exact Nat.le_trans (hf t k ht j hj) (Nat.le_of_lt hlt)

theorem LooksBack.cancel (hf : f.LooksBack) (t : TokenId) (reason : Option String) :
    (f.cancel t reason).LooksBack := by
  unfold TokenForest.cancel
  split
  · exact hf
  · rintro i k hk j hj
    simp only [List.getElem?_map, Option.map_eq_some_iff] at hk
    obtain ⟨k', hk', rfl⟩ := hk
    refine hf i k' hk' j ?_
    split_ifs at hj <;> exact hj

/-! ## Tripping -/

/-- A trip is not seen by tokens that are older. -/
theorem trip?_cancel_of_lt (hf : f.LooksBack) (h : t < u) (reason : Option String) :
    (f.cancel u reason).trip? t = f.trip? t := by
  unfold TokenForest.cancel
  split
  · rfl
  · rw [trip?, trip?, List.getElem?_map]
    cases hk : f.tokens[t]? with
    | none => rfl
    | some k =>
      have hnot : u ∉ k.lineage := by
        intro hu
        exact Nat.not_le.2 h (hf t k hk u hu)
      simp [hnot]

theorem trip?_cancel_self {lineage : List TokenId} {trip : Trip}
    (h : f.tokens[u]? = some ⟨u :: lineage, trip⟩) (reason : Option String) :
    (f.cancel u reason).trip? u = trip.cancel reason := by
  have htrip : f.trip? u = trip := by rw [trip?, h]; rfl
  unfold TokenForest.cancel
  rw [htrip]
  cases trip with
  | some r => exact htrip
  | none => simp [trip?, h]

/-- Tripping a child: the parent's reason counts if it was there before, and all other tokens are
as they were. -/
theorem trip?_cancel_child (hf : f.LooksBack) (t : TokenId) (reason : Option String) :
    ((f.child t).1.cancel (f.child t).2 reason).trip? (f.child t).2 =
        (f.trip? t).cancel reason ∧
      ∀ u < f.tokens.length,
        ((f.child t).1.cancel (f.child t).2 reason).trip? u = f.trip? u := by
  constructor
  · have hchild : (f.child t).1.tokens[(f.child t).2]? =
        some ⟨(f.child t).2 :: ((f.tokens[t]?).map (·.lineage)).getD [], f.trip? t⟩ := by
      simp [TokenForest.child]
    exact trip?_cancel_self hchild reason
  · intro u hu
    have holder : ((f.child t).1.cancel (f.child t).2 reason).trip? u = (f.child t).1.trip? u :=
      trip?_cancel_of_lt (hf.child t) hu reason
    rw [holder, trip?, trip?, TokenForest.child, List.getElem?_append_left hu]

end DocSearch.TokenForest
