import DocSearch.Cancel.Spread
import DocSearch.Proofs.Cancel.History
import Mathlib.Tactic.SplitIfs

/-!
# What a trip reaches

A trip goes down from token to child, and past no token that is tripped (`Reach`). What it reaches is
tripped with its reason and has nobody left to tell, and everything else stays as it was
(`spread_cancelAll`), in whatever order the tokens are taken.
-/

namespace DocSearch

open TokenHistory

namespace TokenGraph

variable {g g₁ g₂ : TokenGraph} {t u v : TokenId} {ts us : List TokenId} {reason : Option String}
  {text : String}

/-! ## One token -/

theorem isLive_iff : g.isLive t = true ↔ ∃ cs, g.nodes[t]? = some ⟨none, cs⟩ := by
  constructor
  · intro h
    obtain ⟨⟨trip, cs⟩, hk, hlive⟩ := (Option.any_eq_true _ _).1 h
    obtain rfl := Option.isNone_iff_eq_none.1 hlive
    exact ⟨cs, hk⟩
  · rintro ⟨cs, hk⟩
    rw [isLive, hk]
    rfl

theorem children_of_node {trip : Trip} {cs : List TokenId} (h : g.nodes[t]? = some ⟨trip, cs⟩) :
    g.children t = cs := by
  rw [children, h]
  rfl

theorem trip?_of_node {trip : Trip} {cs : List TokenId} (h : g.nodes[t]? = some ⟨trip, cs⟩) :
    g.trip? t = trip := by
  rw [trip?, h]
  rfl

theorem isLive_congr (h : g₁.nodes[t]? = g₂.nodes[t]?) : g₁.isLive t = g₂.isLive t := by
  rw [isLive, isLive, h]

theorem children_congr (h : g₁.nodes[t]? = g₂.nodes[t]?) : g₁.children t = g₂.children t := by
  rw [children, children, h]

theorem cancel_none (reason : Option String) :
    Trip.cancel reason none = some (givenReason reason) := by
  cases reason with
  | none => rfl
  | some r =>
    by_cases hr : r = ""
    · subst hr
      rfl
    · simp [Trip.cancel, givenReason, hr]

theorem givenReason_ne_empty (reason : Option String) : givenReason reason ≠ "" := by
  cases reason with
  | none => decide
  | some r =>
    rw [givenReason]
    split_ifs with hr
    · decide
    · exact hr

theorem givenReason_given (reason : Option String) :
    givenReason (some (givenReason reason)) = givenReason reason := by
  rw [givenReason, if_neg (givenReason_ne_empty reason)]

/-- The token that is tripped by itself, and the others. -/
theorem nodes_trip (h : g.isLive t = true) (reason : Option String) (u : TokenId) :
    (g.trip t reason).nodes[u]? =
      if u = t then some ⟨some (givenReason reason), []⟩ else g.nodes[u]? := by
  obtain ⟨cs, hk⟩ := isLive_iff.1 h
  rw [trip, List.getElem?_modify]
  by_cases hu : u = t
  · subst hu
    simp [hk, cancel_none]
  · simp [hu, Ne.symm hu]

/-! ## Reach -/

/-- The tokens that are reached from `ts` by way of tokens that are not tripped. -/
inductive Reach (g : TokenGraph) (ts : List TokenId) : TokenId → Prop
  | root {t : TokenId} : t ∈ ts → g.isLive t = true → Reach g ts t
  | down {t u : TokenId} : Reach g ts t → u ∈ g.children t → g.isLive u = true → Reach g ts u

theorem Reach.isLive (h : Reach g ts u) : g.isLive u = true := by
  cases h with
  | root _ hlive => exact hlive
  | down _ _ hlive => exact hlive

theorem Reach.mono (h : Reach g ts u) (hsub : ts ⊆ us) : Reach g us u := by
  induction h with
  | root hmem hlive => exact .root (hsub hmem) hlive
  | down _ hchild hlive ih => exact .down ih hchild hlive

/-- What becomes of a graph when a trip with the reason `text` spreads from `ts`. -/
structure Spread (g : TokenGraph) (ts : List TokenId) (text : String) (g' : TokenGraph) : Prop where
  reached : ∀ u, Reach g ts u → g'.nodes[u]? = some ⟨some text, []⟩
  rest : ∀ u, ¬ Reach g ts u → g'.nodes[u]? = g.nodes[u]?

/-- Where nothing is left to trip, nothing changes. -/
theorem spread_dead (h : ∀ t ∈ ts, g.isLive t ≠ true) (text : String) : Spread g ts text g := by
  have hnone : ∀ u, ¬ Reach g ts u := by
    intro u hu
    induction hu with
    | root hmem hlive => exact h _ hmem hlive
    | down _ _ _ ih => exact ih
  exact ⟨fun u hu => absurd hu (hnone u), fun _ _ => rfl⟩

theorem Spread.isLive_iff (h : Spread g ts text g₁) :
    g₁.isLive u = true ↔ g.isLive u = true ∧ ¬ Reach g ts u := by
  by_cases hu : Reach g ts u
  · have hdead : g₁.isLive u = false := by
      rw [TokenGraph.isLive, h.reached u hu]
      rfl
    simp [hdead, hu]
  · simp [isLive_congr (h.rest u hu), hu]

theorem Spread.length_nodes (h : Spread g ts text g₁) : g₁.nodes.length = g.nodes.length := by
  have hiff : ∀ u, g₁.nodes.length ≤ u ↔ g.nodes.length ≤ u := by
    intro u
    rw [← List.getElem?_eq_none_iff, ← List.getElem?_eq_none_iff]
    by_cases hu : Reach g ts u
    · obtain ⟨cs, hk⟩ := TokenGraph.isLive_iff.1 hu.isLive
      simp [h.reached u hu, hk]
    · rw [h.rest u hu]
  exact Nat.le_antisymm ((hiff _).2 (Nat.le_refl _)) ((hiff _).1 (Nat.le_refl _))

/-- **One trip after another** with the same reason is one trip of both. -/
theorem Spread.append (h₁ : Spread g ts text g₁) (h₂ : Spread g₁ us text g₂) :
    Spread g (ts ++ us) text g₂ := by
  -- A token that the second trip reaches was out of reach for the first one.
  have hback : ∀ u, Reach g₁ us u → Reach g (ts ++ us) u := by
    intro u hu
    induction hu with
    | root hmem hlive => exact .root (List.mem_append_right ts hmem) (h₁.isLive_iff.1 hlive).1
    | down ht hchild hlive ih =>
      have hsame := h₁.rest _ (h₁.isLive_iff.1 ht.isLive).2
      rw [children_congr hsame] at hchild
      exact .down ih hchild (h₁.isLive_iff.1 hlive).1
  have hforth : ∀ u, Reach g (ts ++ us) u → Reach g ts u ∨ Reach g₁ us u := by
    intro u hu
    induction hu with
    | @root u hmem hlive =>
      by_cases hts : Reach g ts u
      · exact .inl hts
      · rcases List.mem_append.1 hmem with hmem | hmem
        · exact absurd (.root hmem hlive) hts
        · exact .inr (.root hmem (h₁.isLive_iff.2 ⟨hlive, hts⟩))
    | @down t u _ hchild hlive ih =>
      by_cases hts : Reach g ts u
      · exact .inl hts
      · rcases ih with ht | ht
        · exact absurd (.down ht hchild hlive) hts
        · have hsame := h₁.rest t (h₁.isLive_iff.1 ht.isLive).2
          rw [← children_congr hsame] at hchild
          exact .inr (.down ht hchild (h₁.isLive_iff.2 ⟨hlive, hts⟩))
  constructor
  · intro u hu
    by_cases hus : Reach g₁ us u
    · exact h₂.reached u hus
    · rcases hforth u hu with hts | hus'
      · rw [h₂.rest u hus, h₁.reached u hts]
      · exact absurd hus' hus
  · intro u hu
    rw [h₂.rest u fun hus => hu (hback u hus),
      h₁.rest u fun hts => hu (hts.mono (List.subset_append_left ts us))]

/-- A token that is tripped passes the trip on to its children. -/
theorem Spread.of_children (hlive : g.isLive t = true)
    (h : Spread (g.trip t reason) (g.children t) (givenReason reason) g₁) :
    Spread g [t] (givenReason reason) g₁ := by
  have hsame : ∀ u, u ≠ t → (g.trip t reason).nodes[u]? = g.nodes[u]? := by
    intro u hu
    rw [nodes_trip hlive, if_neg hu]
  have hdead : (g.trip t reason).isLive t = false := by
    rw [isLive, nodes_trip hlive, if_pos rfl]
    rfl
  have hne : ∀ u, (g.trip t reason).isLive u = true → u ≠ t := by
    rintro u hu rfl
    rw [hdead] at hu
    cases hu
  have hback : ∀ u, Reach (g.trip t reason) (g.children t) u → Reach g [t] u := by
    intro u hu
    induction hu with
    | @root u hmem hu =>
      rw [isLive_congr (hsame u (hne u hu))] at hu
      exact .down (.root (List.mem_singleton.2 rfl) hlive) hmem hu
    | @down v u hv hchild hu ih =>
      rw [isLive_congr (hsame u (hne u hu))] at hu
      rw [children_congr (hsame v (hne v hv.isLive))] at hchild
      exact .down ih hchild hu
  have hforth : ∀ u, Reach g [t] u → u = t ∨ Reach (g.trip t reason) (g.children t) u := by
    intro u hu
    induction hu with
    | root hmem _ => exact .inl (List.mem_singleton.1 hmem)
    | @down v u _ hchild hu ih =>
      by_cases hut : u = t
      · exact .inl hut
      · rw [← isLive_congr (hsame u hut)] at hu
        rcases ih with rfl | hv
        · exact .inr (.root hchild hu)
        · rw [← children_congr (hsame v (hne v hv.isLive))] at hchild
          exact .inr (.down hv hchild hu)
  constructor
  · intro u hu
    by_cases hbelow : Reach (g.trip t reason) (g.children t) u
    · exact h.reached u hbelow
    · rcases hforth u hu with rfl | hbelow'
      · rw [h.rest u hbelow, nodes_trip hlive, if_pos rfl]
      · exact absurd hbelow' hbelow
  · intro u hu
    have hut : u ≠ t := by
      rintro rfl
      exact hu (.root (List.mem_singleton.2 rfl) hlive)
    rw [h.rest u fun hbelow => hu (hback u hbelow), hsame u hut]

theorem cancelAll_live (h : g.isLive t = true) (reason : Option String) (ts : List TokenId) :
    (g.cancelAll reason (t :: ts)).val =
      (((g.trip t reason).cancelAll ((g.trip t reason).trip? t) (g.children t)).val.cancelAll
        reason ts).val := by
  rw [cancelAll, dif_pos h]

theorem cancelAll_dead (h : g.isLive t ≠ true) (reason : Option String) (ts : List TokenId) :
    (g.cancelAll reason (t :: ts)).val = (g.cancelAll reason ts).val := by
  rw [cancelAll, dif_neg h]

/-- **A trip spreads** to all that it reaches. -/
theorem spread_cancelAll (g : TokenGraph) (reason : Option String) (ts : List TokenId) :
    Spread g ts (givenReason reason) (g.cancelAll reason ts).val := by
  induction g, reason, ts using cancelAll.induct with
  | case1 g reason =>
    rw [cancelAll]
    exact spread_dead (by simp) _
  | case2 g reason t ts hlive _ _ _ _ _ _ ihbelow _ _ ihothers =>
    have htrip : (g.trip t reason).trip? t = some (givenReason reason) := by
      rw [trip?, nodes_trip hlive, if_pos rfl]
      rfl
    rw [htrip, givenReason_given] at ihbelow
    rw [cancelAll_live hlive, htrip]
    rw [htrip] at ihothers
    exact (Spread.of_children hlive ihbelow).append ihothers
  | case3 g reason t ts hdead ih =>
    rw [cancelAll_dead hdead]
    have hnone : ∀ u ∈ [t], g.isLive u ≠ true := fun u hu => List.mem_singleton.1 hu ▸ hdead
    exact (spread_dead hnone _).append ih

/-- **A trip of one token** spreads to all that it reaches. -/
theorem spread_cancel (g : TokenGraph) (t : TokenId) (reason : Option String) :
    Spread g [t] (givenReason reason) (g.cancel t reason) :=
  spread_cancelAll g reason [t]

/-! ## Histories -/

/-- The graph behind a call. -/
def run (g : TokenGraph) : TokenCall → TokenGraph
  | .fresh => g.fresh.1
  | .child t => (g.child t).1
  | .cancel t reason => g.cancel t reason

/-- The graph behind a history. -/
def after (calls : List TokenCall) : TokenGraph := calls.foldl run empty

theorem after_concat (calls : List TokenCall) (c : TokenCall) :
    after (calls ++ [c]) = (after calls).run c := by
  simp [after]

/-- What a graph holds behind a history: every token, tripped as the history asks, and for each that
is not tripped all its children. -/
structure Follows (calls : List TokenCall) (g : TokenGraph) : Prop where
  size : g.nodes.length = (parents calls).length
  reports : Reports calls g.trip?
  children : ∀ p, g.isLive p = true →
    ∀ t, t ∈ g.children p ↔ (parents calls)[t]? = some (some p)

variable {calls : List TokenCall} {p : TokenId}

theorem isLive_iff_trip? : g.isLive t = true ↔ t < g.nodes.length ∧ g.trip? t = none := by
  constructor
  · intro h
    obtain ⟨cs, hk⟩ := isLive_iff.1 h
    exact ⟨(List.getElem?_eq_some_iff.1 hk).1, trip?_of_node hk⟩
  · rintro ⟨ht, htrip⟩
    have hk : g.nodes[t]? = some g.nodes[t] := List.getElem?_eq_getElem ht
    rw [trip?, hk] at htrip
    rw [isLive, hk]
    exact Option.isNone_iff_eq_none.2 htrip

theorem follows_empty : Follows [] empty where
  size := rfl
  reports := reports_empty
  children := by
    intro p hp
    cases hp

/-- From a token that is not tripped, a trip reaches what is below it and not tripped. -/
theorem Follows.reach_iff (h : Follows calls g) (hproper : Proper calls) :
    Reach g [u] t ↔ g.isLive t = true ∧ Ancestor (parents calls) u t := by
  constructor
  · intro ht
    induction ht with
    | root hmem hlive =>
      rw [List.mem_singleton.1 hmem] at hlive ⊢
      exact ⟨hlive, .self u⟩
    | @down v t hv hchild hlive ih =>
      exact ⟨hlive, .up ((h.children v hv.isLive t).1 hchild) ih.2⟩
  · rintro ⟨hlive, hu⟩
    induction hu with
    | self => exact .root (List.mem_singleton.2 rfl) hlive
    | @up p t hp _ ih =>
      obtain ⟨ht, htrip⟩ := isLive_iff_trip?.1 hlive
      have hparent : g.isLive p = true := by
        have hnone : g.trip? p = none := h.reports.ne_none_of_ancestor (.up hp (.self p)) htrip
        exact isLive_iff_trip?.2 ⟨Nat.lt_trans (hproper.parent_lt hp) ht, hnone⟩
      exact .down (ih hparent) ((h.children p hparent t).2 hp) hlive

theorem Follows.cancel (h : Follows calls g) (hproper : Proper calls)
    (hu : u < (parents calls).length) (reason : Option String) :
    Follows (calls ++ [.cancel u reason]) (g.cancel u reason) := by
  have hspread := spread_cancel g u reason
  have hparents : parents (calls ++ [.cancel u reason]) = parents calls := by
    simp [TokenCall.made]
  have hkept : ∀ t, ¬ Reach g [u] t → (g.cancel u reason).trip? t = g.trip? t := by
    intro t ht
    rw [trip?, trip?, hspread.rest t ht]
  refine ⟨?_, ?_, ?_⟩
  · rw [hspread.length_nodes, hparents, h.size]
  · refine h.reports.cancel (fun t hnone hut => ?_) (fun t hnone hut => ?_) (fun t r hr => ?_)
    · have hlive : g.isLive t = true := isLive_iff_trip?.2 ⟨h.size ▸ hut.lt hu, hnone⟩
      exact trip?_of_node (hspread.reached t ((h.reach_iff hproper).2 ⟨hlive, hut⟩))
    · rw [hkept t fun hreach => hut ((h.reach_iff hproper).1 hreach).2, hnone]
    · have hdead : ¬ Reach g [u] t := by
        intro hreach
        rw [(isLive_iff_trip?.1 hreach.isLive).2] at hr
        cases hr
      rw [hkept t hdead, hr]
  · intro p hp t
    obtain ⟨hlive, hreach⟩ := hspread.isLive_iff.1 hp
    rw [hparents, children_congr (hspread.rest p hreach)]
    exact h.children p hlive t

theorem nodes_fresh (g : TokenGraph) (u : TokenId) :
    g.fresh.1.nodes[u]? = if u = g.nodes.length then some ⟨none, []⟩ else g.nodes[u]? := by
  rcases Nat.lt_trichotomy u g.nodes.length with hu | rfl | hu
  · rw [fresh, List.getElem?_append_left hu, if_neg (Nat.ne_of_lt hu)]
  · simp [fresh]
  · have hlength : g.fresh.1.nodes.length ≤ u := by
      rw [fresh, List.length_append]
      exact hu
    rw [List.getElem?_eq_none hlength, if_neg (Nat.ne_of_gt hu),
      List.getElem?_eq_none (Nat.le_of_lt hu)]

theorem nodes_child_live {cs : List TokenId} (hk : g.nodes[t]? = some ⟨none, cs⟩) (u : TokenId) :
    (g.child t).1.nodes[u]? =
      if u = g.nodes.length then some ⟨none, []⟩
      else if u = t then some ⟨none, cs ++ [g.nodes.length]⟩ else g.nodes[u]? := by
  have ht : t < g.nodes.length := (List.getElem?_eq_some_iff.1 hk).1
  have hchild : (g.child t).1 = ⟨g.fresh.1.nodes.modify t fun k =>
      { k with children := k.children ++ [g.nodes.length] }⟩ := by
    rw [child, trip?_of_node hk]
    rfl
  rw [hchild, List.getElem?_modify, nodes_fresh]
  by_cases hu : u = t
  · subst hu
    simp [Nat.ne_of_lt ht, hk]
  · simp [hu, Ne.symm hu]

theorem nodes_child_dead {r : String} (h : g.trip? t = some r) (hr : r ≠ "") (u : TokenId) :
    (g.child t).1.nodes[u]? =
      if u = g.nodes.length then some ⟨some r, []⟩ else g.nodes[u]? := by
  have hchild : (g.child t).1 = g.fresh.1.cancel g.nodes.length (some r) := by
    rw [child, h]
    rfl
  have hgiven : givenReason (some r) = r := if_neg hr
  have hnew : g.fresh.1.nodes[g.nodes.length]? = some ⟨none, []⟩ := by
    rw [nodes_fresh, if_pos rfl]
  -- The new token has no children, so the trip reaches nothing else.
  have hreach : ∀ u, Reach g.fresh.1 [g.nodes.length] u ↔ u = g.nodes.length := by
    intro u
    constructor
    · intro hu
      induction hu with
      | root hmem _ => exact List.mem_singleton.1 hmem
      | down _ hmem _ ih =>
        rw [ih, children_of_node hnew] at hmem
        cases hmem
    · rintro rfl
      exact .root (List.mem_singleton.2 rfl) (isLive_iff.2 ⟨[], hnew⟩)
  have hspread := spread_cancel g.fresh.1 g.nodes.length (some r)
  rw [hchild]
  by_cases hu : u = g.nodes.length
  · rw [hspread.reached u ((hreach u).2 hu), hgiven, if_pos hu]
  · rw [hspread.rest u fun h => hu ((hreach u).1 h), nodes_fresh, if_neg hu, if_neg hu]

/-- A graph with one token more, which has no children and is perhaps kept by its parent. -/
theorem Follows.grown {g' : TokenGraph} {c : TokenCall} {par : Option TokenId} {trip : Trip}
    (h : Follows calls g) (hproper : Proper (calls ++ [c])) (hmade : c.made = [par])
    (hreports : Reports (calls ++ [c]) g'.trip?)
    (hnew : g'.nodes[g.nodes.length]? = some ⟨trip, []⟩)
    (hrest : g'.nodes.length = g.nodes.length + 1)
    (hold : ∀ p < g.nodes.length, g'.isLive p = true → g.isLive p = true ∧
      ∀ t, t ∈ g'.children p ↔ t ∈ g.children p ∨ t = g.nodes.length ∧ par = some p) :
    Follows (calls ++ [c]) g' := by
  have hparents : parents (calls ++ [c]) = parents calls ++ [par] := by
    simp [hmade]
  refine ⟨by simp [hrest, hparents, h.size], hreports, fun p hp t => ?_⟩
  have hlt := (isLive_iff_trip?.1 hp).1
  rw [hrest] at hlt
  rcases Nat.lt_succ_iff_lt_or_eq.1 hlt with hlt | rfl
  · obtain ⟨hlive, hchildren⟩ := hold p hlt hp
    rw [hchildren, h.children p hlive, hparents, parent_concat_iff, h.size]
  · -- The new token is nobody's parent.
    rw [children_of_node hnew]
    refine iff_of_false (by simp) fun hparent => ?_
    have holder := hproper.parent_lt hparent
    have hthere := (List.getElem?_eq_some_iff.1 hparent).1
    rw [hparents, List.length_append, List.length_singleton, ← h.size] at hthere
    exact Nat.not_lt.2 holder hthere

theorem Follows.fresh (h : Follows calls g) (hproper : Proper (calls ++ [.fresh])) :
    Follows (calls ++ [.fresh]) g.fresh.1 := by
  have htrip : g.fresh.1.trip? = g.trip? := by
    funext u
    rw [trip?, trip?, nodes_fresh]
    split_ifs with hu
    · rw [hu, List.getElem?_eq_none (Nat.le_refl _)]
      rfl
    · rfl
  refine h.grown hproper rfl ?_ (by rw [nodes_fresh, if_pos rfl]) (by simp [TokenGraph.fresh])
    fun p hp hlive => ?_
  · rw [htrip]
    exact h.reports.fresh hproper.of_append
  · have hsame : g.fresh.1.nodes[p]? = g.nodes[p]? := by
      rw [nodes_fresh, if_neg (Nat.ne_of_lt hp)]
    rw [isLive_congr hsame] at hlive
    rw [children_congr hsame]
    exact ⟨hlive, by simp⟩

theorem Follows.child (h : Follows calls g) (hproper : Proper (calls ++ [.child p])) :
    Follows (calls ++ [.child p]) (g.child p).1 := by
  obtain ⟨hcalls, htarget⟩ := proper_concat.1 hproper
  have hp : p < (parents calls).length := htarget p rfl
  -- The new token stands as its parent does, and the others as before.
  have hreports {r : Trip} {cs : List TokenId} (hr : g.trip? p = r)
      (hnew : (g.child p).1.nodes[g.nodes.length]? = some ⟨r, cs⟩)
      (hrest : ∀ u, u ≠ g.nodes.length → (g.child p).1.trip? u = g.trip? u) :
      Reports (calls ++ [.child p]) (g.child p).1.trip? := by
    rw [h.size] at hnew hrest
    refine h.reports.child hcalls hp ?_ hrest
    rw [trip?_of_node hnew, hr]
  cases htrip : g.trip? p with
  | none =>
    obtain ⟨cs, hk⟩ := isLive_iff.1 (isLive_iff_trip?.2 ⟨h.size ▸ hp, htrip⟩)
    have hnodes := nodes_child_live hk
    have hnew : (g.child p).1.nodes[g.nodes.length]? = some ⟨none, []⟩ := by
      rw [hnodes, if_pos rfl]
    have hself : p ≠ g.nodes.length := Nat.ne_of_lt (h.size ▸ hp)
    refine h.grown hproper rfl (hreports htrip hnew fun u hu => ?_) hnew ?_ fun q hq hlive => ?_
    · rw [trip?, trip?, hnodes, if_neg hu]
      split_ifs with hup
      · rw [hup, hk]
        rfl
      · rfl
    · rw [TokenGraph.child, htrip]
      simp [TokenGraph.fresh]
    · have hqnew : q ≠ g.nodes.length := Nat.ne_of_lt hq
      by_cases hqp : q = p
      · subst hqp
        refine ⟨isLive_iff.2 ⟨cs, hk⟩, fun t => ?_⟩
        have hkept : (g.child q).1.nodes[q]? = some ⟨none, cs ++ [g.nodes.length]⟩ := by
          rw [hnodes, if_neg hqnew, if_pos rfl]
        rw [children_of_node hkept, children_of_node hk]
        simp
      · have hsame : (g.child p).1.nodes[q]? = g.nodes[q]? := by
          rw [hnodes, if_neg hqnew, if_neg hqp]
        rw [isLive_congr hsame] at hlive
        rw [children_congr hsame]
        exact ⟨hlive, by simp [Ne.symm hqp]⟩
  | some r =>
    have hr : r ≠ "" := by
      obtain ⟨-, -, reason, -, -, -, -, rfl⟩ := (h.reports p r).1 htrip
      exact givenReason_ne_empty reason
    have hnodes := nodes_child_dead htrip hr
    have hnew : (g.child p).1.nodes[g.nodes.length]? = some ⟨some r, []⟩ := by
      rw [hnodes, if_pos rfl]
    refine h.grown hproper rfl (hreports htrip hnew fun u hu => ?_) hnew ?_ fun q hq hlive => ?_
    · rw [trip?, trip?, hnodes, if_neg hu]
    · have hlength := (spread_cancel g.fresh.1 g.nodes.length (some r)).length_nodes
      rw [TokenGraph.child, htrip]
      exact hlength.trans (by simp [TokenGraph.fresh])
    · have hsame : (g.child p).1.nodes[q]? = g.nodes[q]? := by
        rw [hnodes, if_neg (Nat.ne_of_lt hq)]
      rw [isLive_congr hsame] at hlive
      have hqp : p ≠ q := by
        rintro rfl
        rw [(isLive_iff_trip?.1 hlive).2] at htrip
        cases htrip
      rw [children_congr hsame]
      exact ⟨hlive, by simp [hqp]⟩

/-- **Behind every history** the graph holds what the calls ask for. -/
theorem follows_after (h : Proper calls) : Follows calls (after calls) := by
  induction calls using List.reverseRecOn with
  | nil => exact follows_empty
  | append_singleton calls c ih =>
    obtain ⟨hcalls, htarget⟩ := proper_concat.1 h
    rw [after_concat]
    cases c with
    | fresh => exact (ih hcalls).fresh h
    | child p => exact (ih hcalls).child h
    | cancel u reason => exact (ih hcalls).cancel hcalls (htarget u rfl) reason

end TokenGraph

end DocSearch
