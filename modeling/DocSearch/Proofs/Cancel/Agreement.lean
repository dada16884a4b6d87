import DocSearch.Proofs.Cancel.Spread

/-!
# What tokens report

`TokenForest` trips a token and all that have it in their lineage in one step; a `TokenGraph` passes
the trip on from token to child. Behind every history both report the same, which is what the calls
alone ask for (**`check_reports_earliest`**): a token is tripped exactly if it or one of its
ancestors was, it gives the reason of the first of these trips from then on, and a trip is not seen
by the ancestors and siblings of its token.
-/

namespace DocSearch

open TokenHistory

variable {calls : List TokenCall} {p t u : TokenId} {r : String}

/-! ## Lineages -/

namespace TokenForest

variable {f : TokenForest}

/-- The forest behind a call. -/
def run (f : TokenForest) : TokenCall → TokenForest
  | .fresh => f.fresh.1
  | .child t => (f.child t).1
  | .cancel t reason => f.cancel t reason

/-- The forest behind a history. -/
def after (calls : List TokenCall) : TokenForest := calls.foldl run empty

theorem after_concat (calls : List TokenCall) (c : TokenCall) :
    after (calls ++ [c]) = (after calls).run c := by
  simp [after]

/-- What a forest holds behind a history: every token with its ancestors, tripped as the history
asks. -/
structure Follows (calls : List TokenCall) (f : TokenForest) : Prop where
  size : f.tokens.length = (parents calls).length
  reports : Reports calls f.trip?
  lineage : ∀ (t : TokenId) (k : Token), f.tokens[t]? = some k →
    ∀ u, u ∈ k.lineage ↔ Ancestor (parents calls) u t

theorem follows_empty : Follows [] empty where
  size := rfl
  reports := reports_empty
  lineage := by
    intro t k hk
    cases hk

theorem trip?_concat (f : TokenForest) (k : Token) (u : TokenId) :
    trip? ⟨f.tokens ++ [k]⟩ u = if u = f.tokens.length then k.trip else f.trip? u := by
  rcases Nat.lt_trichotomy u f.tokens.length with hu | rfl | hu
  · rw [trip?, trip?, List.getElem?_append_left hu, if_neg (Nat.ne_of_lt hu)]
  · simp [trip?]
  · have hlength : (f.tokens ++ [k]).length ≤ u := by
      rw [List.length_append]
      exact hu
    rw [trip?, trip?, List.getElem?_eq_none hlength, if_neg (Nat.ne_of_gt hu),
      List.getElem?_eq_none (Nat.le_of_lt hu)]

/-- A forest with one token more. -/
theorem Follows.grown {c : TokenCall} {par : Option TokenId} {k : Token} (h : Follows calls f)
    (hcalls : Proper calls) (hmade : c.made = [par])
    (hreports : Reports (calls ++ [c]) (trip? ⟨f.tokens ++ [k]⟩))
    (hnew : ∀ u, u ∈ k.lineage ↔ Ancestor (parents calls ++ [par]) u (parents calls).length) :
    Follows (calls ++ [c]) ⟨f.tokens ++ [k]⟩ := by
  have hparents : parents (calls ++ [c]) = parents calls ++ [par] := by
    simp [hmade]
  refine ⟨by simp [hparents, h.size], hreports, fun t k' hk' u => ?_⟩
  rw [hparents]
  rcases Nat.lt_or_ge t f.tokens.length with ht | ht
  · rw [List.getElem?_append_left ht] at hk'
    rw [h.lineage t k' hk', ancestor_append_iff hcalls (h.size ▸ ht)]
  · have hlt := (List.getElem?_eq_some_iff.1 hk').1
    rw [List.length_append] at hlt
    obtain rfl : t = f.tokens.length := Nat.le_antisymm (Nat.le_of_lt_succ hlt) ht
    rw [List.getElem?_concat_length] at hk'
    rw [← Option.some.inj hk', h.size]
    exact hnew u

theorem Follows.fresh (h : Follows calls f) (hcalls : Proper calls) :
    Follows (calls ++ [.fresh]) f.fresh.1 := by
  refine h.grown hcalls rfl ?_ fun u => ?_
  · have htrip : trip? f.fresh.1 = f.trip? := by
      funext u
      rw [TokenForest.fresh, trip?_concat]
      split_ifs with hu
      · rw [trip?, hu, List.getElem?_eq_none (Nat.le_refl _)]
        rfl
      · rfl
    have hreports := h.reports.fresh hcalls
    rw [← htrip] at hreports
    exact hreports
  · rw [List.mem_singleton, h.size]
    constructor
    · rintro rfl
      exact .self _
    · intro hu
      cases hu with
      | self => rfl
      | up hp _ => simp at hp

theorem Follows.child (h : Follows calls f) (hcalls : Proper calls)
    (hp : p < (parents calls).length) : Follows (calls ++ [.child p]) (f.child p).1 := by
  refine h.grown hcalls rfl ?_ fun u => ?_
  · refine h.reports.child hcalls hp ?_ fun u hu => ?_
    · rw [trip?_concat, if_pos h.size.symm]
    · rw [trip?_concat, if_neg (h.size ▸ hu)]
  · obtain ⟨k, hk⟩ : ∃ k, f.tokens[p]? = some k := ⟨_, List.getElem?_eq_getElem (h.size ▸ hp)⟩
    rw [ancestor_child_iff hcalls hp, List.mem_cons, hk, h.size, ← h.lineage p k hk]
    rfl

theorem trip?_cancel (hu : f.trip? u = none) (reason : Option String) (t : TokenId) :
    (f.cancel u reason).trip? t = (f.tokens[t]?).bind fun k =>
      if u ∈ k.lineage ∧ k.trip = none then some (givenReason reason) else k.trip := by
  rw [TokenForest.cancel, hu, trip?, List.getElem?_map]
  cases f.tokens[t]? with
  | none => rfl
  | some k =>
    by_cases hmem : u ∈ k.lineage <;> cases htrip : k.trip <;>
      simp [hmem, htrip, TokenGraph.cancel_none]

theorem lineage_cancel (f : TokenForest) (u : TokenId) (reason : Option String) :
    (f.cancel u reason).tokens.map (·.lineage) = f.tokens.map (·.lineage) := by
  unfold TokenForest.cancel
  split
  · rfl
  · rw [List.map_map]
    refine List.map_congr_left fun k _ => ?_
    simp only [Function.comp_apply]
    split_ifs <;> rfl

theorem Follows.cancel (h : Follows calls f) (hu : u < (parents calls).length)
    (reason : Option String) : Follows (calls ++ [.cancel u reason]) (f.cancel u reason) := by
  have hparents : parents (calls ++ [.cancel u reason]) = parents calls := by
    simp [TokenCall.made]
  have hlineage := lineage_cancel f u reason
  refine ⟨?_, ?_, fun t k hk v => ?_⟩
  · have hlength := congrArg List.length hlineage
    rw [List.length_map, List.length_map] at hlength
    rw [hlength, hparents, h.size]
  · cases htrip : f.trip? u with
    | some r =>
      -- Everything below is tripped already.
      have hsame : f.cancel u reason = f := by
        rw [TokenForest.cancel, htrip]
      rw [hsame]
      refine h.reports.cancel (fun t hnone hut => ?_) (fun t hnone _ => hnone) (fun t r hr => hr)
      rw [h.reports.ne_none_of_ancestor hut hnone] at htrip
      cases htrip
    | none =>
      have hcancel := trip?_cancel htrip reason
      refine h.reports.cancel (fun t hnone hut => ?_) (fun t hnone hut => ?_) (fun t r hr => ?_)
      · obtain ⟨k, hk⟩ : ∃ k, f.tokens[t]? = some k :=
          ⟨_, List.getElem?_eq_getElem (h.size ▸ hut.lt hu)⟩
        have hmem : u ∈ k.lineage := (h.lineage t k hk u).2 hut
        rw [trip?, hk, Option.bind_some] at hnone
        rw [hcancel, hk, Option.bind_some, if_pos ⟨hmem, hnone⟩]
      · rw [hcancel]
        rw [trip?] at hnone
        cases hk : f.tokens[t]? with
        | none => rfl
        | some k =>
          have hmem : u ∉ k.lineage := fun hmem => hut ((h.lineage t k hk u).1 hmem)
          rw [hk, Option.bind_some] at hnone
          rw [Option.bind_some, if_neg fun hand => hmem hand.1, hnone]
      · obtain ⟨k, hk, hkr⟩ := Option.bind_eq_some_iff.1 hr
        rw [hcancel, hk, Option.bind_some, hkr, if_neg (by simp)]
  · have hsome : (f.tokens.map (·.lineage))[t]? = some k.lineage := by
      rw [← hlineage, List.getElem?_map, hk]
      rfl
    rw [List.getElem?_map] at hsome
    obtain ⟨k', hk', heq⟩ := Option.map_eq_some_iff.1 hsome
    rw [hparents, ← heq]
    exact h.lineage t k' hk' v

theorem follows_after (h : Proper calls) : Follows calls (after calls) := by
  induction calls using List.reverseRecOn with
  | nil => exact follows_empty
  | append_singleton calls c ih =>
    obtain ⟨hcalls, htarget⟩ := proper_concat.1 h
    rw [after_concat]
    cases c with
    | fresh => exact (ih hcalls).fresh hcalls
    | child p => exact (ih hcalls).child hcalls (htarget p rfl)
    | cancel u reason => exact (ih hcalls).cancel (htarget u rfl) reason

end TokenForest

/-! ## Both report the same -/

namespace TokenHistory

/-- Neither the ancestors of a token nor its siblings are below it. -/
theorem not_ancestor_of_kin (h : Proper calls) (hne : t ≠ u)
    (hkin : Ancestor (parents calls) t u ∨
      ∃ p, (parents calls)[t]? = some (some p) ∧ (parents calls)[u]? = some (some p)) :
    ¬ Ancestor (parents calls) u t := by
  intro hu
  have hle := hu.le h
  rcases hkin with ht | ⟨p, htp, hup⟩
  · exact hne (Nat.le_antisymm (ht.le h) hle)
  · -- An ancestor of `t` other than `t` is `p` or above it, but `p` is older than `u`.
    cases hu with
    | self => exact hne rfl
    | up hq hu =>
      obtain rfl : p = _ := by simpa [htp] using hq
      exact Nat.not_lt.2 (hu.le h) (h.parent_lt hup)

/-- What a token reports it goes on to report. -/
theorem Earliest.append {more : List TokenCall} (h : Proper (calls ++ more))
    (ht : t < (parents calls).length) (hr : Earliest calls t r) : Earliest (calls ++ more) t r := by
  have hcalls := h.of_append
  obtain ⟨before, u, reason, after, heq, hu, hfirst, hr⟩ := hr
  refine ⟨before, u, reason, after ++ more, ?_, ?_, fun c hc => ?_, hr⟩
  · rw [heq, List.append_assoc, List.cons_append]
  · rw [parents_append]
    exact hu.mono _
  · rintro ⟨v, q, rfl, hv⟩
    rw [parents_append, ancestor_append_iff hcalls ht] at hv
    exact hfirst _ hc (hits_cancel.2 hv)

end TokenHistory

namespace TokenGraph

theorem check_eq_error_iff {g : TokenGraph} {e : RunError} :
    g.check t = .error e ↔ ∃ r, e = .cancelled r ∧ g.trip? t = some r := by
  unfold check
  cases g.trip? t with
  | none => simp
  | some r => simp [eq_comm]

/-- **A token reports the earliest trip above it.** Behind every history, a token is tripped exactly
if it or one of its ancestors was tripped, before or after the token was made; its check fails with
the reason of the first of these calls, and with that reason ever after; a trip of a token that is
not above it, such as a sibling's or a descendant's, is not seen. The forest, which keeps lineages
in place of children, says the same of every token. -/
theorem check_reports_earliest (h : Proper calls) (ht : t < (parents calls).length) :
    ((after calls).isCancelled t = true ↔
      ∃ u reason, .cancel u reason ∈ calls ∧ Ancestor (parents calls) u t) ∧
    (∀ e, (after calls).check t = .error e ↔ ∃ r, e = .cancelled r ∧ Earliest calls t r) ∧
    (∀ more r, Proper (calls ++ more) → (after calls).check t = .error (.cancelled r) →
      (after (calls ++ more)).check t = .error (.cancelled r)) ∧
    (∀ u reason, u < (parents calls).length → ¬ Ancestor (parents calls) u t →
      (after (calls ++ [.cancel u reason])).check t = (after calls).check t) ∧
    (∀ u, t ≠ u → (Ancestor (parents calls) t u ∨
        ∃ p, (parents calls)[t]? = some (some p) ∧ (parents calls)[u]? = some (some p)) →
      ¬ Ancestor (parents calls) u t) ∧
    (TokenForest.after calls).trip? t = (after calls).trip? t := by
  have hreports := (follows_after h).reports
  have hcheck : ∀ e, (after calls).check t = .error e ↔
      ∃ r, e = .cancelled r ∧ Earliest calls t r := by
    intro e
    simp only [check_eq_error_iff, hreports t]
  refine ⟨?_, hcheck, fun more r hmore hr => ?_, fun u reason hu hut => ?_,
    fun u hne => not_ancestor_of_kin h hne, ?_⟩
  · rw [isCancelled, Option.isSome_iff_exists, hreports.exists_iff]
    constructor
    · rintro ⟨c, hc, u, reason, rfl, hu⟩
      exact ⟨u, reason, hc, hu⟩
    · rintro ⟨u, reason, hc, hu⟩
      exact ⟨_, hc, u, reason, rfl, hu⟩
  · obtain ⟨q, heq, hq⟩ := check_eq_error_iff.1 hr
    have hlater := ((follows_after hmore).reports t q).2 (((hreports t q).1 hq).append hmore ht)
    exact check_eq_error_iff.2 ⟨q, heq, hlater⟩
  · have hsame : (after (calls ++ [.cancel u reason])).trip? t = (after calls).trip? t := by
      have hunreached : ¬ Reach (after calls) [u] t := fun hreach =>
        hut (((follows_after h).reach_iff h).1 hreach).2
      rw [after_concat, trip?, trip?]
      exact congrArg (Option.bind · _) ((spread_cancel _ u reason).rest t hunreached)
    rw [check, check, hsame]
  · refine Option.ext fun r => ?_
    rw [hreports t r]
    exact (TokenForest.follows_after h).reports t r

/-- A family that is tripped from the middle and then from the top, with a child that comes late. -/
def family : List TokenCall :=
  [.fresh, .child 0, .child 1, .cancel 1 (some "stop"), .cancel 0 none, .child 0]

/-- The grandchild keeps the reason that its parent was given, and the late child has the default
one. -/
theorem check_reports_earliest_family :
    Proper family ∧ (parents family).length = 4 ∧
      (TokenGraph.after family).check 2 = .error (.cancelled "stop") ∧
      (TokenGraph.after family).check 3 = .error (.cancelled "operation cancelled") := by
  have hproper : Proper family := by
    simp [Proper, ProperFrom, family, TokenCall.target?, TokenCall.made]
  have hstop : Earliest family 2 "stop" :=
    ⟨[.fresh, .child 0, .child 1], 1, some "stop", [.cancel 0 none, .child 0], rfl,
      .up rfl (.self 1), by simp [Hits], by decide⟩
  have hdefault : Earliest family 3 "operation cancelled" := by
    refine ⟨[.fresh, .child 0, .child 1, .cancel 1 (some "stop")], 0, none, [.child 0], rfl,
      .up rfl (.self 0), ?_, rfl⟩
    -- The other trip was one of a sibling.
    have hsibling : ¬ Ancestor (parents family) 1 3 :=
      not_ancestor_of_kin hproper (by decide) (.inr ⟨0, rfl, rfl⟩)
    simpa [Hits] using hsibling
  obtain ⟨-, hcheck, -⟩ := check_reports_earliest hproper (t := 2) (by decide)
  obtain ⟨-, hlate, -⟩ := check_reports_earliest hproper (t := 3) (by decide)
  exact ⟨hproper, rfl, (hcheck _).2 ⟨_, rfl, hstop⟩, (hlate _).2 ⟨_, rfl, hdefault⟩⟩

end TokenGraph

end DocSearch
