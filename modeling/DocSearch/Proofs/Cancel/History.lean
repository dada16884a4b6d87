import DocSearch.Cancel
import Mathlib.Tactic.SplitIfs
import Mathlib.Data.List.Induction
import Mathlib.Tactic.Push

/-!
# Histories of tokens

Tokens are made and tripped by calls, one after the other. The calls alone say what each token
should report (`Earliest`): the reason of the first trip, in time, of the token itself or of one of
its ancestors, no matter which of these calls came before the token was made.

A representation of tokens `Reports` a history when its tokens say just that. One law for each call
is enough to keep it so: a new token is not tripped, a child begins as its parent stands, and a trip
reaches those below that are not tripped yet (`Reports.fresh`, `Reports.child`, `Reports.cancel`).
-/

namespace DocSearch

/-- A call: a new token, a child of a token, or a trip. -/
inductive TokenCall where
  | fresh
  | child (t : TokenId)
  | cancel (t : TokenId) (reason : Option String)
deriving Repr, DecidableEq

namespace TokenCall

/-- The token that a call is made on. -/
def target? : TokenCall → Option TokenId
  | .fresh => none
  | .child t | .cancel t _ => some t

/-- The tokens that a call makes, one at most, each given by its parent. -/
def made : TokenCall → List (Option TokenId)
  | .fresh => [none]
  | .child t => [some t]
  | .cancel _ _ => []

end TokenCall

namespace TokenHistory

variable {calls : List TokenCall} {ps qs : List (Option TokenId)} {c : TokenCall}
  {p t u v : TokenId} {r : String} {trips : TokenId → Trip}

/-- The parents of the tokens in the order of their creation. -/
def parents (calls : List TokenCall) : List (Option TokenId) := calls.flatMap TokenCall.made

/-- Whether each call is made on a token that is there by then, `n` of them from the start. -/
def ProperFrom (n : Nat) : List TokenCall → Prop
  | [] => True
  | c :: cs => (∀ t, c.target? = some t → t < n) ∧ ProperFrom (n + c.made.length) cs

/-- Whether each call is made on a token that is there by then. -/
def Proper (calls : List TokenCall) : Prop := ProperFrom 0 calls

/-- `Ancestor ps u t`: where the tokens have the parents `ps`, the token `u` is `t` or above it. -/
inductive Ancestor (ps : List (Option TokenId)) : TokenId → TokenId → Prop
  | self (t : TokenId) : Ancestor ps t t
  | up {u p t : TokenId} : ps[t]? = some (some p) → Ancestor ps u p → Ancestor ps u t

/-- The reason that a trip gives to a token. -/
def givenReason : Option String → String
  | none => defaultReason
  | some r => if r = "" then defaultReason else r

/-- Whether a call trips `t` or a token above it. -/
def Hits (ps : List (Option TokenId)) (t : TokenId) (c : TokenCall) : Prop :=
  ∃ u reason, c = .cancel u reason ∧ Ancestor ps u t

/-- Whether the earliest call that trips `t` or a token above it gives the reason `r`. -/
def EarliestIn (ps : List (Option TokenId)) (calls : List TokenCall) (t : TokenId) (r : String) :
    Prop :=
  ∃ before u reason after, calls = before ++ .cancel u reason :: after ∧ Ancestor ps u t ∧
    (∀ c ∈ before, ¬ Hits ps t c) ∧ r = givenReason reason

/-- Whether the earliest call of a history that trips `t` or a token above it, as they are in the
end, gives the reason `r`. -/
def Earliest (calls : List TokenCall) (t : TokenId) (r : String) : Prop :=
  EarliestIn (parents calls) calls t r

/-! ## Parents -/

@[simp] theorem parents_append (calls more : List TokenCall) :
    parents (calls ++ more) = parents calls ++ parents more :=
  List.flatMap_append

@[simp] theorem parents_singleton (c : TokenCall) : parents [c] = c.made := by
  simp [parents]

theorem properFrom_append {n : Nat} {more : List TokenCall} :
    ProperFrom n (calls ++ more) ↔
      ProperFrom n calls ∧ ProperFrom (n + (parents calls).length) more := by
  induction calls generalizing n with
  | nil => simp [ProperFrom, parents]
  | cons c cs ih =>
    simp only [List.cons_append, ProperFrom, ih, parents, List.flatMap_cons, List.length_append]
    rw [and_assoc, Nat.add_assoc]

theorem proper_concat :
    Proper (calls ++ [c]) ↔
      Proper calls ∧ ∀ t, c.target? = some t → t < (parents calls).length := by
  simp [Proper, properFrom_append, ProperFrom]

theorem Proper.of_append {more : List TokenCall} (h : Proper (calls ++ more)) : Proper calls :=
  (properFrom_append.1 h).1

theorem parent_concat_iff {par : Option TokenId} :
    (ps ++ [par])[t]? = some (some p) ↔
      ps[t]? = some (some p) ∨ t = ps.length ∧ par = some p := by
  rcases Nat.lt_trichotomy t ps.length with ht | rfl | ht
  · simp [List.getElem?_append_left ht, Nat.ne_of_lt ht]
  · simp
  · have hlength : (ps ++ [par]).length ≤ t := by
      rw [List.length_append]
      exact ht
    simp [List.getElem?_eq_none hlength, List.getElem?_eq_none (Nat.le_of_lt ht),
      Nat.ne_of_gt ht]

/-- A parent is older than its child. -/
theorem Proper.parent_lt (h : Proper calls) (hp : (parents calls)[t]? = some (some p)) : p < t := by
  induction calls using List.reverseRecOn generalizing t with
  | nil => simp [parents] at hp
  | append_singleton calls c ih =>
    obtain ⟨hcalls, htarget⟩ := proper_concat.1 h
    rw [parents_append, parents_singleton] at hp
    rcases Nat.lt_or_ge t (parents calls).length with ht | ht
    · rw [List.getElem?_append_left ht] at hp
      exact ih hcalls hp
    · -- The token is the one that `c` makes.
      rw [List.getElem?_append_right ht] at hp
      have hmem := List.mem_of_getElem? hp
      cases c with
      | fresh => simp [TokenCall.made] at hmem
      | child q =>
        obtain rfl : p = q := by simpa [TokenCall.made] using hmem
        exact Nat.lt_of_lt_of_le (htarget p rfl) ht
      | cancel => simp [TokenCall.made] at hmem

/-! ## Ancestors -/

theorem Ancestor.le (h : Proper calls) (hu : Ancestor (parents calls) u t) : u ≤ t := by
  induction hu with
  | self => exact Nat.le_refl _
  | up hp _ ih => exact Nat.le_trans ih (Nat.le_of_lt (h.parent_lt hp))

theorem Ancestor.trans (hu : Ancestor ps u v) (hv : Ancestor ps v t) : Ancestor ps u t := by
  induction hv with
  | self => exact hu
  | up hp _ ih => exact .up hp ih

/-- What is below a token that is there is there itself. -/
theorem Ancestor.lt (ht : Ancestor ps u t) (hu : u < ps.length) : t < ps.length := by
  cases ht with
  | self => exact hu
  | up hp _ => exact (List.getElem?_eq_some_iff.1 hp).1

theorem Ancestor.mono (hu : Ancestor ps u t) (qs : List (Option TokenId)) :
    Ancestor (ps ++ qs) u t := by
  induction hu with
  | self => exact .self _
  | up hp _ ih =>
    have hlt := (List.getElem?_eq_some_iff.1 hp).1
    exact .up (by rw [List.getElem?_append_left hlt]; exact hp) ih

/-- Tokens that are added later are above none that were there. -/
theorem ancestor_append_iff (h : Proper calls) (ht : t < (parents calls).length) :
    Ancestor (parents calls ++ qs) u t ↔ Ancestor (parents calls) u t := by
  refine ⟨fun hu => ?_, fun hu => hu.mono qs⟩
  induction hu with
  | self => exact .self _
  | up hp _ ih =>
    rw [List.getElem?_append_left ht] at hp
    exact .up hp (ih (Nat.lt_trans (h.parent_lt hp) ht))

/-- The ancestors of a token that has just been made as a child. -/
theorem ancestor_child_iff (h : Proper calls) (hp : p < (parents calls).length) :
    Ancestor (parents calls ++ [some p]) u (parents calls).length ↔
      u = (parents calls).length ∨ Ancestor (parents calls) u p := by
  have hnew : (parents calls ++ [some p])[(parents calls).length]? = some (some p) := by simp
  constructor
  · intro hu
    cases hu with
    | self => exact .inl rfl
    | up hq hu =>
      obtain rfl : _ = p := by simpa [hnew] using hq.symm
      exact .inr ((ancestor_append_iff h hp).1 hu)
  · rintro (rfl | hu)
    · exact .self _
    · exact .up hnew (hu.mono _)

/-! ## The earliest call -/

theorem hits_cancel {reason : Option String} : Hits ps t (.cancel u reason) ↔ Ancestor ps u t := by
  constructor
  · rintro ⟨v, q, heq, hv⟩
    obtain ⟨rfl, rfl⟩ := TokenCall.cancel.inj heq
    exact hv
  · exact fun hu => ⟨u, reason, rfl, hu⟩

/-- A call at the end counts only if no call before it does. -/
theorem earliestIn_concat :
    EarliestIn ps (calls ++ [c]) t r ↔
      EarliestIn ps calls t r ∨ (∀ d ∈ calls, ¬ Hits ps t d) ∧
        ∃ u reason, c = .cancel u reason ∧ Ancestor ps u t ∧ r = givenReason reason := by
  constructor
  · rintro ⟨before, u, reason, after, heq, hu, hfirst, hr⟩
    rcases List.eq_nil_or_concat after with rfl | ⟨after, d, rfl⟩
    · obtain ⟨rfl, hlast⟩ := List.append_inj' heq rfl
      exact .inr ⟨hfirst, u, reason, List.singleton_inj.1 hlast, hu, hr⟩
    · rw [List.concat_eq_append, ← List.cons_append, ← List.append_assoc] at heq
      obtain ⟨rfl, -⟩ := List.append_inj' heq rfl
      exact .inl ⟨before, u, reason, after, rfl, hu, hfirst, hr⟩
  · rintro (⟨before, u, reason, after, rfl, hu, hfirst, hr⟩ | ⟨hnone, u, reason, rfl, hu, hr⟩)
    · exact ⟨before, u, reason, after ++ [c], by simp, hu, hfirst, hr⟩
    · exact ⟨calls, u, reason, [], rfl, hu, hnone, hr⟩

theorem exists_earliestIn_iff : (∃ r, EarliestIn ps calls t r) ↔ ∃ c ∈ calls, Hits ps t c := by
  induction calls using List.reverseRecOn with
  | nil => simp [EarliestIn]
  | append_singleton calls c ih =>
    constructor
    · rintro ⟨r, before, u, reason, after, heq, hu, -, -⟩
      exact ⟨.cancel u reason, by simp [heq], u, reason, rfl, hu⟩
    · rintro ⟨d, hd, hhits⟩
      by_cases hnone : ∃ d ∈ calls, Hits ps t d
      · obtain ⟨r, hr⟩ := ih.2 hnone
        exact ⟨r, earliestIn_concat.2 (.inl hr)⟩
      · -- Then the call that hits is the one at the end.
        push Not at hnone
        obtain rfl : d = c := by
          rcases List.mem_append.1 hd with hd | hd
          · exact absurd hhits (hnone d hd)
          · exact List.mem_singleton.1 hd
        obtain ⟨u, reason, rfl, hu⟩ := hhits
        exact ⟨_, earliestIn_concat.2 (.inr ⟨hnone, u, reason, rfl, hu, rfl⟩)⟩

theorem earliestIn_congr {ps' : List (Option TokenId)} {t' : TokenId}
    (h : ∀ c ∈ calls, (Hits ps t c ↔ Hits ps' t' c)) :
    EarliestIn ps calls t r ↔ EarliestIn ps' calls t' r := by
  have hmono : ∀ {ps ps' : List (Option TokenId)} {t t' : TokenId},
      (∀ c ∈ calls, (Hits ps t c ↔ Hits ps' t' c)) → EarliestIn ps calls t r →
        EarliestIn ps' calls t' r := by
    rintro ps ps' t t' h ⟨before, u, reason, after, rfl, hu, hfirst, hr⟩
    refine ⟨before, u, reason, after, rfl, ?_, fun c hc hhits => ?_, hr⟩
    · exact hits_cancel.1 ((h (.cancel u reason) (by simp)).1 (hits_cancel.2 hu))
    · exact hfirst c hc ((h c (by simp [hc])).2 hhits)
  exact ⟨hmono h, hmono fun c hc => (h c hc).symm⟩

/-! ## Reports -/

/-- Whether tokens that are tripped as `trips` says report what the history asks for. -/
def Reports (calls : List TokenCall) (trips : TokenId → Trip) : Prop :=
  ∀ t r, trips t = some r ↔ Earliest calls t r

theorem Reports.exists_iff (h : Reports calls trips) :
    (∃ r, trips t = some r) ↔ ∃ c ∈ calls, Hits (parents calls) t c := by
  rw [← exists_earliestIn_iff]
  exact exists_congr (h t)

theorem Reports.eq_none_iff (h : Reports calls trips) :
    trips t = none ↔ ∀ c ∈ calls, ¬ Hits (parents calls) t c := by
  rw [Option.eq_none_iff_forall_ne_some, ← not_exists, h.exists_iff]
  simp

/-- What trips an ancestor trips the token. -/
theorem Reports.ne_none_of_ancestor (h : Reports calls trips) (hu : Ancestor (parents calls) u t)
    (hnone : trips t = none) : trips u = none := by
  rw [h.eq_none_iff] at hnone ⊢
  rintro c hc ⟨v, reason, rfl, hv⟩
  exact hnone _ hc (hits_cancel.2 (hv.trans hu))

theorem reports_empty : Reports [] fun _ => none := by
  intro t r
  simp [Earliest, EarliestIn]

/-- Trips are made on the tokens that are there by then. -/
theorem Proper.lt_of_cancel (h : Proper calls) {reason : Option String}
    (hc : .cancel u reason ∈ calls) : u < (parents calls).length := by
  induction calls using List.reverseRecOn with
  | nil => cases hc
  | append_singleton calls d ih =>
    obtain ⟨hcalls, htarget⟩ := proper_concat.1 h
    rw [parents_append, List.length_append]
    rcases List.mem_append.1 hc with hc | hc
    · exact Nat.lt_add_right _ (ih hcalls hc)
    · obtain rfl := List.mem_singleton.1 hc
      exact Nat.lt_add_right _ (htarget u rfl)

/-- Nothing above a token without a parent was tripped, as long as the token was not there. -/
theorem Proper.not_hits_root (h : Proper calls) (ht : (parents calls).length ≤ t)
    (hroot : ∀ p, ps[t]? ≠ some (some p)) : ∀ c ∈ calls, ¬ Hits ps t c := by
  rintro c hc ⟨u, reason, rfl, hu⟩
  cases hu with
  | self => exact Nat.not_lt.2 ht (h.lt_of_cancel hc)
  | up hp _ => exact hroot _ hp

theorem Reports.eq_none_of_le (h : Reports calls trips) (hproper : Proper calls)
    (ht : (parents calls).length ≤ t) : trips t = none := by
  refine h.eq_none_iff.2 (hproper.not_hits_root ht fun p hp => ?_)
  rw [List.getElem?_eq_none ht] at hp
  cases hp

/-- A call that makes a token adds no trip. -/
theorem earliest_made_iff (hc : c.made ≠ []) :
    Earliest (calls ++ [c]) t r ↔ EarliestIn (parents calls ++ c.made) calls t r := by
  rw [Earliest, earliestIn_concat, parents_append, parents_singleton]
  refine or_iff_left ?_
  rintro ⟨-, u, reason, rfl, -⟩
  exact hc rfl

/-- A call that makes a token changes nothing for those that were there. -/
theorem earliest_made_of_lt (h : Proper calls) (hc : c.made ≠ [])
    (ht : t < (parents calls).length) : Earliest (calls ++ [c]) t r ↔ Earliest calls t r := by
  rw [earliest_made_iff hc]
  refine earliestIn_congr fun d _ => ?_
  simp only [Hits, ancestor_append_iff h ht]

/-- Nor does it trip a token that was not there and has no parent even then. -/
theorem not_earliest_root (h : Proper calls) (hc : c.made ≠ [])
    (ht : (parents calls).length ≤ t) (hroot : ∀ p, (parents calls ++ c.made)[t]? ≠ some (some p)) :
    ¬ Earliest (calls ++ [c]) t r := by
  rw [earliest_made_iff hc]
  intro hr
  obtain ⟨d, hd, hhits⟩ := exists_earliestIn_iff.1 ⟨r, hr⟩
  exact h.not_hits_root ht hroot d hd hhits

/-- **A new token is not tripped.** -/
theorem Reports.fresh (h : Reports calls trips) (hproper : Proper calls) :
    Reports (calls ++ [.fresh]) trips := by
  have hmade : TokenCall.made .fresh ≠ [] := by simp [TokenCall.made]
  intro t r
  rcases Nat.lt_or_ge t (parents calls).length with ht | ht
  · rw [earliest_made_of_lt hproper hmade ht]
    exact h t r
  · have hroot : ∀ p, (parents calls ++ TokenCall.made .fresh)[t]? ≠ some (some p) := by
      intro p hp
      rw [List.getElem?_append_right ht] at hp
      simpa [TokenCall.made] using List.mem_of_getElem? hp
    simp [h.eq_none_of_le hproper ht, not_earliest_root hproper hmade ht hroot]

/-- **A child begins as its parent stands.** -/
theorem Reports.child (h : Reports calls trips) (hproper : Proper calls)
    (hp : p < (parents calls).length) {trips' : TokenId → Trip}
    (hnew : trips' (parents calls).length = trips p)
    (hrest : ∀ t, t ≠ (parents calls).length → trips' t = trips t) :
    Reports (calls ++ [.child p]) trips' := by
  have hmade : TokenCall.made (.child p) ≠ [] := by simp [TokenCall.made]
  intro t r
  rcases Nat.lt_trichotomy t (parents calls).length with ht | rfl | ht
  · rw [hrest t (Nat.ne_of_lt ht), earliest_made_of_lt hproper hmade ht]
    exact h t r
  · rw [hnew, earliest_made_iff hmade, h p r]
    refine earliestIn_congr fun c hc => ?_
    constructor
    · rintro ⟨u, reason, rfl, hu⟩
      exact hits_cancel.2 ((ancestor_child_iff hproper hp).2 (.inr hu))
    · rintro ⟨u, reason, rfl, hu⟩
      rcases (ancestor_child_iff hproper hp).1 hu with rfl | hu
      · exact absurd (hproper.lt_of_cancel hc) (Nat.lt_irrefl _)
      · exact hits_cancel.2 hu
  · -- There is no such token yet.
    have hroot : ∀ q, (parents calls ++ TokenCall.made (.child p))[t]? ≠ some (some q) := by
      intro q hq
      have hlength : (parents calls ++ TokenCall.made (.child p)).length ≤ t := by
        simp only [TokenCall.made, List.length_append, List.length_singleton]
        omega
      rw [List.getElem?_eq_none hlength] at hq
      cases hq
    have hle := Nat.le_of_lt ht
    simp [hrest t (Nat.ne_of_gt ht), h.eq_none_of_le hproper hle,
      not_earliest_root hproper hmade hle hroot]

/-- **A trip reaches what is below and not tripped yet**, and nothing else. -/
theorem Reports.cancel (h : Reports calls trips) {reason : Option String} {trips' : TokenId → Trip}
    (hbelow : ∀ t, trips t = none → Ancestor (parents calls) u t →
      trips' t = some (givenReason reason))
    (hrest : ∀ t, trips t = none → ¬ Ancestor (parents calls) u t → trips' t = none)
    (hkept : ∀ t r, trips t = some r → trips' t = some r) :
    Reports (calls ++ [.cancel u reason]) trips' := by
  intro t r
  have hparents : parents (calls ++ [.cancel u reason]) = parents calls := by
    simp [TokenCall.made]
  rw [Earliest, earliestIn_concat, hparents]
  cases htrip : trips t with
  | some q =>
    have hhit : ¬ ∀ c ∈ calls, ¬ Hits (parents calls) t c := by
      rw [← h.eq_none_iff, htrip]
      simp
    have hearliest : EarliestIn (parents calls) calls t r ↔ q = r := by
      rw [← Option.some_inj, ← htrip]
      exact (h t r).symm
    rw [hkept t q htrip, Option.some_inj, hearliest]
    simp [hhit]
  | none =>
    have hnone : ¬ EarliestIn (parents calls) calls t r := by
      intro hr
      rw [(h t r).2 hr] at htrip
      cases htrip
    have hfirst := h.eq_none_iff.1 htrip
    by_cases hu : Ancestor (parents calls) u t
    · rw [hbelow t htrip hu, Option.some_inj]
      constructor
      · rintro rfl
        exact .inr ⟨hfirst, u, reason, rfl, hu, rfl⟩
      · rintro (hr | ⟨-, v, q, heq, -, rfl⟩)
        · exact absurd hr hnone
        · obtain ⟨-, rfl⟩ := TokenCall.cancel.inj heq
          rfl
    · rw [hrest t htrip hu]
      refine iff_of_false (by simp) ?_
      rintro (hr | ⟨-, v, q, heq, hv, -⟩)
      · exact hnone hr
      · obtain ⟨rfl, -⟩ := TokenCall.cancel.inj heq
        exact hu hv

end TokenHistory

end DocSearch
