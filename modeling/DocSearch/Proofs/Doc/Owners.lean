import DocSearch.Proofs.Doc.Lead
import DocSearch.Proofs.Go.Ends

/-!
# Every comment has one owner

Two searches that know nothing of each other give the comments of a level to the things in it, the
siblings that are neither comments nor semicolons. The search back from a thing stops at whatever is
no comment. The search ahead from its end passes over semicolons.

**Places.** Two comments may have the same text and the same rows, so comments are told apart by
their places: a sibling is at `[k]`, and the `j`-th child of the `i`-th one is at `[i, j]`.

**Where the searches meet.** Everything between a thing and a comment that the search ahead from it
takes ends on the row where the comment begins (`last_of_line`). The search back takes no comment
that begins where the nearest thing or semicolon above it ends (`first_ne_of_lead`). So no comment
has two owners (`comments_given_once`).

**Inside of a thing.** A line group begins with comments that the thing itself ends in. In a text
there are none, and what is taken among the siblings is the whole group (`memberDoc_of_forest`).
-/

namespace DocSearch.Doc

open Go

variable {α β : Type}

/-! ## Groups -/

/-- Whether a sibling can be documented: it is neither a comment nor a semicolon. -/
def isThing : Sibling α → Bool
  | .mark _ | .node _ _ => true
  | .comment _ _ | .semicolon _ => false

/-- The comment that a sibling is. -/
def comment? : Sibling α → Option Comment
  | .comment text rows => some (text, rows)
  | _ => none

/-- The rows of the `i`-th sibling. -/
def rowsAt (ss : List (Sibling α)) (i : Nat) : Rows := (ss[i]?.map (·.rows)).getD ⟨0, 0⟩

/-- The comments that the children of a thing end in and that begin on row `row`. -/
def innerGroup (row : Nat) (children : List (Sibling β)) : List Comment :=
  (commentRun children.reverse).reverse.filter fun c => c.2.first == row

/-- The groups of the `i`-th sibling. -/
inductive Group where
  | lead (i : Nat)
  | line (i : Nat)
deriving Repr, DecidableEq

/-- Whose group it is. -/
def Group.owner : Group → Nat
  | .lead i | .line i => i

/-- The comments of a group among siblings with some children. -/
def groupAt (ss : List (Sibling α)) (children : Nat → List (Sibling β)) : Group → List Comment
  | .lead i => leadGroup (ss.take i).reverse (rowsAt ss i).first
  | .line i =>
    innerGroup (rowsAt ss i).last (children i) ++
      lineGroup (rowsAt ss i).last (ss.drop (i + 1))

/-! ## Places -/

/-- Which of the `n` siblings from the `a`-th on satisfy `p`. -/
def placesOf (p : Sibling α → Bool) (ss : List (Sibling α)) (a n : Nat) : List Nat :=
  (List.range' a n).filter fun k => ss[k]?.any p

/-- Whether the search ahead from row `row` passes a sibling. -/
def trails (row : Nat) (s : Sibling α) : Bool := s.rows.first == row && !isThing s

theorem trails_iff {row : Nat} {s : Sibling α} :
    trails row s ↔ s.rows.first = row ∧ isThing s = false := by
  rw [trails, Bool.and_eq_true, beq_iff_eq, Bool.not_eq_true']

/-- The siblings that the search ahead from the `i`-th one passes. -/
def trailing (ss : List (Sibling α)) (i : Nat) : List (Sibling α) :=
  (ss.drop (i + 1)).takeWhile (trails (rowsAt ss i).last)

/-- The places of a lead group, which ends right above its owner. -/
def leadPlaces (ss : List (Sibling α)) (i : Nat) : List Nat :=
  let n := (leadGroup (ss.take i).reverse (rowsAt ss i).first).length
  placesOf Sibling.isComment ss (i - n) n

/-- The places of a line group behind its owner. -/
def linePlaces (ss : List (Sibling α)) (i : Nat) : List Nat :=
  placesOf Sibling.isComment ss (i + 1) (trailing ss i).length

/-- The places of the comments that children end in and that begin on row `row`. -/
def innerPlaces (row : Nat) (children : List (Sibling β)) : List Nat :=
  let n := (commentRun children.reverse).length
  placesOf (fun s => s.rows.first == row) children (children.length - n) n

/-- The places of a group. -/
def groupPlaces (ss : List (Sibling α)) (children : Nat → List (Sibling β)) :
    Group → List (List Nat)
  | .lead i => (leadPlaces ss i).map ([·])
  | .line i =>
    (innerPlaces (rowsAt ss i).last (children i)).map ([i, ·]) ++ (linePlaces ss i).map ([·])

/-- The comment at a place. -/
def commentAt (ss : List (Sibling α)) (children : Nat → List (Sibling β)) :
    List Nat → Option Comment
  | [k] => ss[k]?.bind comment?
  | [i, j] => (children i)[j]?.bind comment?
  | _ => none

/-- The comments around things are given out in source order, and none of them twice. -/
structure GivenOnce (ss : List (Sibling α)) (children : Nat → List (Sibling β)) : Prop where
  comments : ∀ g : Group, ss[g.owner]?.any isThing →
    (groupPlaces ss children g).map (commentAt ss children) = (groupAt ss children g).map some
  sorted : ∀ g : Group, (groupPlaces ss children g).Pairwise (· < ·)
  disjoint : ∀ g g' : Group, ss[g.owner]?.any isThing → ss[g'.owner]?.any isThing → g ≠ g' →
    (groupPlaces ss children g).Disjoint (groupPlaces ss children g')

/-! ## What is at the places -/

theorem mem_placesOf {p : Sibling α → Bool} {ss : List (Sibling α)} {a n k : Nat} :
    k ∈ placesOf p ss a n ↔ (a ≤ k ∧ k < a + n) ∧ ss[k]?.any p := by
  rw [placesOf, List.mem_filter, List.mem_range'_1]

theorem pairwise_placesOf (p : Sibling α → Bool) (ss : List (Sibling α)) (a n : Nat) :
    (placesOf p ss a n).Pairwise (· < ·) :=
  List.pairwise_lt_range' _ |>.filter _

theorem map_placesOf (p : Sibling α → Bool) (ss : List (Sibling α)) (a n : Nat) :
    (placesOf p ss a n).map (ss[·]?) = (((ss.drop a).take n).filter p).map some := by
  induction n generalizing a with
  | zero => rfl
  | succ n ih =>
    have hrest := ih (a + 1)
    unfold placesOf at hrest ⊢
    rw [List.range'_succ, List.filter_cons]
    by_cases ha : a < ss.length
    · rw [List.drop_eq_getElem_cons ha, List.take_succ_cons, List.filter_cons,
        List.getElem?_eq_getElem ha, Option.any_some]
      split_ifs
      · rw [List.map_cons, List.map_cons, hrest, List.getElem?_eq_getElem ha]
      · exact hrest
    · have hnone : ss[a]? = none := List.getElem?_eq_none (Nat.le_of_not_lt ha)
      rw [hnone, Option.any_none, if_neg Bool.false_ne_true, hrest,
        List.drop_eq_nil_of_le (by omega), List.drop_eq_nil_of_le (by omega), List.take_nil,
        List.take_nil]

theorem comments_placesOf (p : Sibling α → Bool) (ss : List (Sibling α)) (a n : Nat) :
    (placesOf p ss a n).map (fun k => ss[k]?.bind comment?) =
      (((ss.drop a).take n).filter p).map comment? := by
  have hmap := congrArg (List.map fun s? : Option (Sibling α) => s?.bind comment?)
    (map_placesOf p ss a n)
  rw [List.map_map, List.map_map] at hmap
  exact hmap

theorem map_comment?_asSibling (cs : List Comment) :
    (cs.map (asSibling (α := α))).map comment? = cs.map some := by
  rw [List.map_map]
  rfl

/-! ## Lead groups -/

theorem leadGroup_suffix (front : List (Sibling α)) (row : Nat) :
    leadGroup front.reverse row <:+ (scan front).comments := by
  rw [leadGroup_eq_of_scan]
  split_ifs
  · exact List.dropWhile_suffix _
  · exact lastGroup_suffix _ _

/-- The search back takes no comment that begins beside the thing above. -/
theorem beside_of_mem_leadGroup {front behind : List (Sibling α)} (h : InOrder (front ++ behind))
    {row : Nat} {c : Comment} (hc : c ∈ leadGroup front.reverse row) :
    (scan front).beside c = false := by
  have hsorted := sorted_scan h
  have hothers : ∀ d ∈ (scan front).parted.2, (scan front).beside d = false := by
    intro d hd
    unfold Scanned.Sorted at hsorted
    unfold Scanned.beside
    unfold Scanned.parted at hd
    cases hthing : (scan front).thing? with
    | none => rfl
    | some r =>
      rw [hthing] at hsorted hd
      exact beq_eq_false_iff_ne.2 (lt_first_of_gather hsorted d hd).ne'
  rw [leadGroup_eq_of_scan] at hc
  split_ifs at hc with hwhole
  · rw [Scanned.dropWhile_beside hsorted] at hc
    rcases List.mem_append.1 hc with hstray | hother
    · simpa [Scanned.strays] using (List.mem_filter.1 hstray).2
    · exact hothers c hother
  · rw [← (scan front).parted_append] at hwhole hc
    rw [lastGroup_behind (scan front).isChain_parted _ hwhole] at hc
    exact hothers c ((lastGroup_suffix _ _).subset hc)

/-- A lead group stands right above its owner. -/
theorem leadGroup_siblings_suffix (front : List (Sibling α)) (row : Nat) :
    (leadGroup front.reverse row).map asSibling <:+ front := by
  obtain ⟨rest, hfront, -, -⟩ := exists_scan front
  have hcomments : (scan front).comments.map asSibling <:+ front :=
    ⟨rest.reverse, hfront.symm⟩
  exact ((leadGroup_suffix front row).map asSibling).trans hcomments

theorem lead_window {ss : List (Sibling α)} {i : Nat} (hi : i < ss.length) (row : Nat) :
    let group := leadGroup (ss.take i).reverse row
    group.length ≤ i ∧ (ss.drop (i - group.length)).take group.length = group.map asSibling := by
  intro group
  have hlength : (ss.take i).length = i := List.length_take_of_le hi.le
  have hsuffix : group.map asSibling <:+ ss.take i := leadGroup_siblings_suffix _ row
  have hle : group.length ≤ i := by
    have := hsuffix.length_le
    rwa [List.length_map, hlength] at this
  refine ⟨hle, ?_⟩
  have heq := List.suffix_iff_eq_drop.1 hsuffix
  rw [List.length_map, hlength, List.drop_take, Nat.sub_sub_self hle] at heq
  exact heq.symm

/-- From a comment that leads a thing down to the thing there are only comments of its group. -/
theorem exists_of_mem_leadPlaces {ss : List (Sibling α)} {i k : Nat} (hi : i < ss.length)
    (hk : k ∈ leadPlaces ss i) :
    k < i ∧ ∀ j, k ≤ j → j < i →
      ∃ c ∈ leadGroup (ss.take i).reverse (rowsAt ss i).first, ss[j]? = some (asSibling c) := by
  obtain ⟨hle, hwindow⟩ := lead_window hi (rowsAt ss i).first
  obtain ⟨⟨hak, hka⟩, -⟩ := mem_placesOf.1 hk
  generalize leadGroup (ss.take i).reverse (rowsAt ss i).first = group at *
  refine ⟨by omega, fun j hkj hji => ?_⟩
  have hj : j - (i - group.length) < group.length := by omega
  refine ⟨group[j - (i - group.length)], List.getElem_mem hj, ?_⟩
  have hget := congrArg (·[j - (i - group.length)]?) hwindow
  rw [List.getElem?_take_of_lt hj, List.getElem?_drop, List.getElem?_map,
    List.getElem?_eq_getElem hj, Nat.add_sub_of_le (hak.trans hkj)] at hget
  exact hget

/-- Of the siblings that are no comments a scan remembers the nearest. -/
theorem exists_nearest {front : List (Sibling α)} {m : Nat} {s : Sibling α}
    (hm : front[m]? = some s) (hs : s.isComment = false) :
    ∃ t s', m ≤ t ∧ front[t]? = some s' ∧ s'.isComment = false ∧
      (scan front).thing? = some s'.rows.last := by
  obtain ⟨rest, hfront, hrest, hthing⟩ := exists_scan front
  generalize (scan front).comments = cs at hfront
  have hmrest : m < rest.length := by
    by_contra hle
    rw [hfront, List.getElem?_append_right (by simpa using hle), List.getElem?_map] at hm
    obtain ⟨d, -, rfl⟩ := Option.map_eq_some_iff.1 hm
    cases hs
  cases rest with
  | nil => cases hmrest
  | cons s' rest =>
    have hcomment : s'.isComment = false := by
      cases s' with
      | comment => cases hrest
      | semicolon | mark | node => rfl
    refine ⟨rest.length, s', Nat.le_of_lt_succ hmrest, ?_, hcomment, hthing⟩
    rw [hfront]
    simp

/-- **The search back takes no comment that begins where the nearest thing above it ends.** -/
theorem first_ne_of_lead {ss : List (Sibling α)} (h : InOrder ss) {i k m : Nat} {s : Sibling α}
    (hi : i < ss.length) (hk : k ∈ leadPlaces ss i) (hm : ss[m]? = some s)
    (hs : s.isComment = false) (hmk : m < k) :
    ∃ t s' c, m ≤ t ∧ t < k ∧ ss[t]? = some s' ∧ ss[k]? = some (asSibling c) ∧
      c.2.first ≠ s'.rows.last := by
  obtain ⟨hki, hcomments⟩ := exists_of_mem_leadPlaces hi hk
  obtain ⟨c, hc, hkc⟩ := hcomments k le_rfl hki
  have hbeside : (scan (ss.take i)).beside c = false := by
    rw [← List.take_append_drop i ss] at h
    exact beside_of_mem_leadGroup h hc
  rw [← List.getElem?_take_of_lt (hmk.trans hki)] at hm
  obtain ⟨t, s', hmt, ht, hcomment, hthing⟩ := exists_nearest hm hs
  rw [List.getElem?_take, Option.ite_none_right_eq_some] at ht
  obtain ⟨hti, ht⟩ := ht
  refine ⟨t, s', c, hmt, ?_, ht, hkc, ?_⟩
  · -- From `k` on there are only comments.
    by_contra hkt
    obtain ⟨d, -, hd⟩ := hcomments t (Nat.le_of_not_lt hkt) hti
    obtain rfl := Option.some.inj (ht.symm.trans hd)
    cases hcomment
  · rw [Scanned.beside, hthing] at hbeside
    exact beq_eq_false_iff_ne.1 hbeside

/-! ## Line groups -/

/-- What the search ahead takes is the line group. -/
theorem comments_takeWhile (row : Nat) (ss : List (Sibling α)) :
    ((ss.takeWhile (trails row)).filter Sibling.isComment).map comment? =
      (lineGroup row ss).map some := by
  induction ss with
  | nil => rfl
  | cons s ss ih =>
    by_cases hrow : s.rows.first = row
    · cases s with
      | comment text rows =>
        have htrails : trails row (.comment text rows : Sibling α) := trails_iff.2 ⟨hrow, rfl⟩
        rw [List.takeWhile_cons_of_pos htrails, List.filter_cons_of_pos rfl, List.map_cons, ih]
        simp [lineGroup, hrow, comment?]
      | semicolon rows => simpa [lineGroup, hrow, trails, isThing, Sibling.isComment] using ih
      | mark rows | node value rows => simp [lineGroup, trails, isThing]
    · simp [lineGroup, trails, hrow]

/-- From a thing down to a comment of its line group there are only siblings that the search ahead
passes. -/
theorem exists_of_mem_linePlaces {ss : List (Sibling α)} {i k : Nat} (hk : k ∈ linePlaces ss i) :
    i < k ∧ ∀ j, i < j → j ≤ k → ∃ s, ss[j]? = some s ∧ trails (rowsAt ss i).last s := by
  obtain ⟨⟨hik, hki⟩, -⟩ := mem_placesOf.1 hk
  refine ⟨hik, fun j hij hjk => ?_⟩
  have hj : j - (i + 1) < (trailing ss i).length := by omega
  obtain ⟨back, hback⟩ : trailing ss i <+: ss.drop (i + 1) := List.takeWhile_prefix _
  have hget : ss[j]? = some (trailing ss i)[j - (i + 1)] := by
    rw [← List.getElem?_eq_getElem hj, ← List.getElem?_append_left hj, hback, List.getElem?_drop,
      Nat.add_sub_of_le hij]
  exact ⟨_, hget, List.mem_takeWhile_imp (List.getElem_mem hj)⟩

theorem InOrder.last_le_first {ss : List (Sibling α)} (h : InOrder ss) {t : Nat}
    {s s' : Sibling α} (hs : ss[t]? = some s) (hs' : ss[t + 1]? = some s') :
    s.rows.last ≤ s'.rows.first := by
  obtain ⟨ht, rfl⟩ := List.getElem?_eq_some_iff.1 hs
  obtain ⟨ht', rfl⟩ := List.getElem?_eq_some_iff.1 hs'
  exact List.isChain_iff_getElem.1 h.sorted t ht'

/-- **Everything between a thing and a comment of its line group ends on the row where the thing
does.** -/
theorem last_of_line {ss : List (Sibling α)} (h : InOrder ss) {i k t : Nat} {s : Sibling α}
    (hk : k ∈ linePlaces ss i) (hit : i ≤ t) (htk : t < k) (hs : ss[t]? = some s) :
    s.rows.last = (rowsAt ss i).last := by
  obtain ⟨-, hpassed⟩ := exists_of_mem_linePlaces hk
  rcases hit.eq_or_lt with rfl | hit
  · rw [rowsAt, hs]
    rfl
  · obtain ⟨s₁, hs₁, htrails⟩ := hpassed t hit htk.le
    obtain rfl := Option.some.inj (hs.symm.trans hs₁)
    obtain ⟨s₂, hs₂, htrails₂⟩ := hpassed (t + 1) (by omega) htk
    have hnext := h.last_le_first hs hs₂
    have hupright := h.upright s (List.mem_of_getElem? hs)
    have hfirst := (trails_iff.1 htrails).1
    have hfirst₂ := (trails_iff.1 htrails₂).1
    omega

/-! ## Owners -/

section

variable {ss : List (Sibling α)} {i i' k : Nat}

theorem lt_length_of_thing (hi : ss[i]?.any isThing) : i < ss.length := by
  obtain ⟨s, hs, -⟩ := (Option.any_eq_true _ _).1 hi
  exact (List.getElem?_eq_some_iff.1 hs).1

/-- A comment leads no thing below another one, which would stand in the group. -/
theorem le_of_mem_leadPlaces (hi : ss[i]?.any isThing) (hi' : ss[i']?.any isThing)
    (hk : k ∈ leadPlaces ss i) (hk' : k ∈ leadPlaces ss i') : i ≤ i' := by
  by_contra hlt
  obtain ⟨-, hcomments⟩ := exists_of_mem_leadPlaces (lt_length_of_thing hi) hk
  obtain ⟨hki', -⟩ := exists_of_mem_leadPlaces (lt_length_of_thing hi') hk'
  obtain ⟨c, -, hc⟩ := hcomments i' hki'.le (Nat.lt_of_not_le hlt)
  rw [hc] at hi'
  cases hi'

/-- The search ahead passes no other thing. -/
theorem le_of_mem_linePlaces (hi' : ss[i']?.any isThing) (hk : k ∈ linePlaces ss i)
    (hk' : k ∈ linePlaces ss i') : i' ≤ i := by
  by_contra hlt
  obtain ⟨-, hpassed⟩ := exists_of_mem_linePlaces hk
  obtain ⟨hik', -⟩ := exists_of_mem_linePlaces hk'
  obtain ⟨s, hs, htrails⟩ := hpassed i' (Nat.lt_of_not_le hlt) hik'.le
  rw [hs, Option.any_some, (trails_iff.1 htrails).2] at hi'
  cases hi'

/-- The two searches have no comment in common. -/
theorem not_mem_linePlaces (h : InOrder ss) (hi : ss[i]?.any isThing) (hi' : ss[i']?.any isThing)
    (hk : k ∈ leadPlaces ss i) : k ∉ linePlaces ss i' := by
  intro hk'
  obtain ⟨hik', hpassed⟩ := exists_of_mem_linePlaces hk'
  obtain ⟨s, hs, hthing⟩ := (Option.any_eq_true _ _).1 hi'
  have hcomment : s.isComment = false := by
    cases s with
    | comment => cases hthing
    | semicolon | mark | node => rfl
  obtain ⟨t, s', c, hi't, htk, hs', hc, hne⟩ :=
    first_ne_of_lead h (lt_length_of_thing hi) hk hs hcomment hik'
  obtain ⟨d, hd, htrails⟩ := hpassed k hik' le_rfl
  obtain rfl := Option.some.inj (hc.symm.trans hd)
  exact hne ((trails_iff.1 htrails).1.trans (last_of_line h hk' hi't htk hs').symm)

end

section

variable {ss : List (Sibling α)} {children : Nat → List (Sibling β)} {i : Nat} {p : List Nat}

theorem mem_groupPlaces_lead :
    p ∈ groupPlaces ss children (.lead i) ↔ ∃ k ∈ leadPlaces ss i, [k] = p :=
  List.mem_map

theorem mem_groupPlaces_line : p ∈ groupPlaces ss children (.line i) ↔
    (∃ j ∈ innerPlaces (rowsAt ss i).last (children i), [i, j] = p) ∨
      ∃ k ∈ linePlaces ss i, [k] = p := by
  rw [groupPlaces, List.mem_append, List.mem_map, List.mem_map]

/-- **A place is in no two groups.** -/
theorem group_unique (h : InOrder ss) {g g' : Group} (hg : ss[g.owner]?.any isThing)
    (hg' : ss[g'.owner]?.any isThing) (hp : p ∈ groupPlaces ss children g)
    (hp' : p ∈ groupPlaces ss children g') : g = g' := by
  cases g with
  | lead i =>
    obtain ⟨k, hk, rfl⟩ := mem_groupPlaces_lead.1 hp
    cases g' with
    | lead i' =>
      obtain ⟨_, hk', heq⟩ := mem_groupPlaces_lead.1 hp'
      cases heq
      exact congrArg _ ((le_of_mem_leadPlaces hg hg' hk hk').antisymm
        (le_of_mem_leadPlaces hg' hg hk' hk))
    | line i' =>
      obtain ⟨_, -, heq⟩ | ⟨_, hk', heq⟩ := mem_groupPlaces_line.1 hp' <;> cases heq
      exact absurd hk' (not_mem_linePlaces h hg hg' hk)
  | line i =>
    obtain ⟨j, -, rfl⟩ | ⟨k, hk, rfl⟩ := mem_groupPlaces_line.1 hp
    · cases g' with
      | lead i' =>
        obtain ⟨_, -, heq⟩ := mem_groupPlaces_lead.1 hp'
        cases heq
      | line i' =>
        obtain ⟨_, -, heq⟩ | ⟨_, -, heq⟩ := mem_groupPlaces_line.1 hp' <;> cases heq
        rfl
    · cases g' with
      | lead i' =>
        obtain ⟨_, hk', heq⟩ := mem_groupPlaces_lead.1 hp'
        cases heq
        exact absurd hk (not_mem_linePlaces h hg' hg hk')
      | line i' =>
        obtain ⟨_, -, heq⟩ | ⟨_, hk', heq⟩ := mem_groupPlaces_line.1 hp' <;> cases heq
        exact congrArg _ ((le_of_mem_linePlaces hg hk' hk).antisymm
          (le_of_mem_linePlaces hg' hk hk'))

theorem pairwise_groupPlaces (g : Group) : (groupPlaces ss children g).Pairwise (· < ·) := by
  cases g with
  | lead i =>
    refine List.pairwise_map.2 ((pairwise_placesOf _ _ _ _).imp fun hlt => ?_)
    exact List.cons_lt_cons_iff.2 (.inl hlt)
  | line i =>
    refine List.pairwise_append.2 ⟨?_, ?_, ?_⟩
    · refine List.pairwise_map.2 ((pairwise_placesOf _ _ _ _).imp fun hlt => ?_)
      exact List.cons_lt_cons_iff.2 (.inr ⟨rfl, List.cons_lt_cons_iff.2 (.inl hlt)⟩)
    · refine List.pairwise_map.2 ((pairwise_placesOf _ _ _ _).imp fun hlt => ?_)
      exact List.cons_lt_cons_iff.2 (.inl hlt)
    · -- What is inside of the owner comes before what is behind it.
      intro p hp q hq
      obtain ⟨j, -, rfl⟩ := List.mem_map.1 hp
      obtain ⟨k, hk, rfl⟩ := List.mem_map.1 hq
      exact List.cons_lt_cons_iff.2 (.inl (exists_of_mem_linePlaces hk).1)

end

/-! ## Comments by their places -/

theorem comments_innerPlaces (row : Nat) (children : List (Sibling β)) :
    (innerPlaces row children).map (fun j => children[j]?.bind comment?) =
      (innerGroup row children).map some := by
  obtain ⟨cs, rest, hrun, hrest⟩ := exists_run children.reverse
  have hgroup : commentRun children.reverse = cs := by
    rw [hrun, commentRun_append, hrest, List.append_nil]
  obtain rfl : children = rest.reverse ++ cs.reverse.map asSibling := by
    rw [List.map_reverse, ← List.reverse_append, ← hrun, List.reverse_reverse]
  have hlength : (rest.reverse ++ cs.reverse.map asSibling).length - cs.length =
      rest.reverse.length := by
    simp
  have htake : (cs.reverse.map (asSibling (α := β))).take cs.length = cs.reverse.map asSibling :=
    List.take_of_length_le (by rw [List.length_map, List.length_reverse])
  unfold innerPlaces innerGroup
  rw [hgroup, comments_placesOf, hlength, List.drop_left, htake, List.filter_map,
    map_comment?_asSibling]
  rfl

theorem comments_leadPlaces {ss : List (Sibling α)} {i : Nat} (hi : i < ss.length) :
    (leadPlaces ss i).map (fun k => ss[k]?.bind comment?) =
      (leadGroup (ss.take i).reverse (rowsAt ss i).first).map some := by
  rw [leadPlaces, comments_placesOf, (lead_window hi _).2, List.filter_map, List.filter_eq_self.2]
  · exact map_comment?_asSibling _
  · exact fun _ _ => rfl

theorem comments_linePlaces (ss : List (Sibling α)) (i : Nat) :
    (linePlaces ss i).map (fun k => ss[k]?.bind comment?) =
      (lineGroup (rowsAt ss i).last (ss.drop (i + 1))).map some := by
  have hwindow : (ss.drop (i + 1)).take (trailing ss i).length = trailing ss i :=
    (List.prefix_iff_eq_take.1 (List.takeWhile_prefix _)).symm
  rw [linePlaces, comments_placesOf, hwindow, trailing, comments_takeWhile]

theorem comments_groupPlaces {ss : List (Sibling α)} (children : Nat → List (Sibling β))
    {g : Group} (hg : ss[g.owner]?.any isThing) :
    (groupPlaces ss children g).map (commentAt ss children) =
      (groupAt ss children g).map some := by
  cases g with
  | lead i =>
    rw [groupPlaces, List.map_map]
    exact comments_leadPlaces (lt_length_of_thing hg)
  | line i =>
    rw [groupPlaces, groupAt, List.map_append, List.map_append, List.map_map, List.map_map,
      ← comments_innerPlaces, ← comments_linePlaces]
    rfl

/-- **No comment documents two things.** Among siblings in source order, no comment is in two of the
lead and line groups of things, and every group has its comments in source order. -/
theorem comments_given_once {ss : List (Sibling α)} (h : InOrder ss)
    (children : Nat → List (Sibling β)) : GivenOnce ss children where
  comments g hg := comments_groupPlaces children hg
  sorted := pairwise_groupPlaces
  disjoint g g' hg hg' hne := by
    intro p hp hp'
    exact hne (group_unique h hg hg' hp hp')

/-- Two fields. Behind the first one stands a semicolon and then a comment that goes on to the next
row, where one more comment begins. -/
def crowdedFields : List (Sibling String) :=
  [.mark ⟨1, 1⟩, .node "A" ⟨2, 2⟩, .semicolon ⟨2, 2⟩, .comment "/* A\nends */" ⟨2, 3⟩,
    .comment "// B" ⟨3, 3⟩, .node "B" ⟨4, 4⟩, .mark ⟨5, 5⟩]

/-- What is inside of the first field ends in a comment. -/
def crowdedInside : Nat → List (Sibling Unit)
  | 1 => [.mark ⟨2, 2⟩, .comment "/* int */" ⟨2, 2⟩]
  | _ => []

/-- The first comment behind the semicolon documents the first field, and the second one, which is
adjacent to it, the second field. -/
theorem comments_given_once_crowded :
    InOrder crowdedFields ∧ groupPlaces crowdedFields crowdedInside (.line 1) = [[1, 1], [3]] ∧
      groupPlaces crowdedFields crowdedInside (.lead 5) = [[4]] ∧
      (groupPlaces crowdedFields crowdedInside (.line 1)).Disjoint
        (groupPlaces crowdedFields crowdedInside (.lead 5)) := by
  have horder : InOrder crowdedFields := by decide
  have hgiven := comments_given_once horder crowdedInside
  exact ⟨horder, by decide, by decide,
    hgiven.disjoint (.line 1) (.lead 5) rfl rfl (by decide)⟩

/-! ## The groups of a text -/

/-- The children of a node. -/
def childrenOf : Node → List Node
  | .leaf _ => []
  | .branch _ children => children

/-- What is inside of the `i`-th of some nodes. -/
def inside (nodes : List Node) (i : Nat) : List (Sibling Unit) :=
  Node.siblings (fun _ _ => none) ((nodes[i]?.map childrenOf).getD [])

/-- A construct that does not end in a comment has no line group of its own. -/
theorem innerGroup_siblings {cs : List Node} (h : Closed cs) (row : Nat)
    (f : Label → List Node → Option α) : innerGroup row (Node.siblings f cs) = [] := by
  have hrun : commentRun (Node.siblings f cs).reverse = [] := by
    rcases List.eq_nil_or_concat cs with rfl | ⟨front, n, rfl⟩
    · rfl
    have hn : n.isComment = false := h n (by simp)
    rw [Node.siblings, List.concat_eq_append, List.map_append, List.reverse_append]
    cases n with
    | leaf l =>
      have hkind : (l.kind == .comment) = false := hn
      simp only [List.map_cons, List.map_nil, List.reverse_singleton, List.singleton_append, hkind,
        Bool.false_eq_true, if_false]
      split_ifs <;> rfl
    | branch label cs =>
      simp only [List.map_cons, List.map_nil, List.reverse_singleton, List.singleton_append]
      cases f label cs <;> rfl
  rw [innerGroup, hrun]
  rfl

theorem innerGroup_inside {source : List Char} {tree : List Node} (h : forest? source = some tree)
    {nodes : List Node} (hnodes : ∀ n ∈ nodes, Inside n tree) (row i : Nat) :
    innerGroup row (inside nodes i) = [] := by
  refine innerGroup_siblings ?_ row _
  rcases hn : nodes[i]? with _ | _ | ⟨label, cs⟩
  · exact closed_nil
  · exact closed_nil
  · exact (closed_forest h).2 label cs (hnodes _ (List.mem_of_getElem? hn))

/-- **A member of a text is documented by its two groups.** There is nothing to be found inside of
it. -/
theorem memberDoc_of_forest {source : List Char} {tree : List Node}
    (h : forest? source = some tree) {nodes : List Node} (hnodes : ∀ n ∈ nodes, Inside n tree)
    (f : Label → List Node → Option α) {x : α × Rows × List (Sibling α) × List (Sibling α)}
    (hx : x ∈ nodesIn [] (Node.siblings f nodes)) :
    ∃ i, (Node.siblings f nodes)[i]? = some (.node x.1 x.2.1) ∧
      memberDoc x.2.1 x.2.2.1 x.2.2.2 =
        docText (groupAt (Node.siblings f nodes) (inside nodes) (.lead i)) ++
          docText (groupAt (Node.siblings f nodes) (inside nodes) (.line i)) := by
  obtain ⟨value, rows, before, behind⟩ := x
  have hsplit : before.reverse ++ .node value rows :: behind = Node.siblings f nodes :=
    eq_of_mem_nodesIn hx
  have hnode : (Node.siblings f nodes)[before.length]? = some (.node value rows) := by
    rw [← hsplit]
    simp
  have hrows : rowsAt (Node.siblings f nodes) before.length = rows := by
    rw [rowsAt, hnode]
    rfl
  have hbefore : ((Node.siblings f nodes).take before.length).reverse = before := by
    rw [← hsplit, ← List.length_reverse, List.take_left, List.reverse_reverse]
  have hbehind : (Node.siblings f nodes).drop (before.length + 1) = behind := by
    rw [← hsplit, ← List.length_reverse, List.drop_append]
    simp
  refine ⟨before.length, hnode, ?_⟩
  rw [groupAt, groupAt, hrows, hbefore, hbehind, innerGroup_inside h hnodes]
  rfl

end DocSearch.Doc
