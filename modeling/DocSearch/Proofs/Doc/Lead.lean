import Mathlib.Data.List.SplitBy
import DocSearch.Proofs.Doc.Blocks

/-!
# Lead groups and a scan forward

The search for the comments that lead a node goes back from the node. A scan that reads forward
finds lead groups in its own way: the comments behind a thing that begin no later than the group so
far ends *belong* to that thing, the remaining ones are cut into groups at every free line, and the
last group leads the node if it ends on the row right above.

**A common form.** Going back over all comments behind a thing stops where the forward cut makes the
last group of them (`leadRun_eq_lastGroup`).

**What goes wrong.** The two differ in how they leave out what belongs to the thing. The search back
takes comments off that begin on the last row of the thing, and a comment may belong to the thing
and begin further down, where a comment of several lines ends. Such comments stay in the lead group
if nothing separates the thing from the node (`leadGroup_eq_scan_iff`).
-/

namespace DocSearch.Doc

open Go Text

variable {α : Type}

/-! ## Scanning forward -/

/-- Siblings in source order: none ends before it begins, and none begins before the one ahead of it
ends. -/
structure InOrder (ss : List (Sibling α)) : Prop where
  upright : ∀ s ∈ ss, s.rows.first ≤ s.rows.last
  sorted : ss.IsChain fun s t => s.rows.last ≤ t.rows.first

instance (ss : List (Sibling α)) : Decidable (InOrder ss) :=
  decidable_of_iff ((∀ s ∈ ss, s.rows.first ≤ s.rows.last) ∧
      ss.IsChain fun s t => s.rows.last ≤ t.rows.first)
    ⟨fun h => ⟨h.1, h.2⟩, fun h => ⟨h.1, h.2⟩⟩

/-- What a scan has come by: the last row of the nearest thing that is no comment, if there was one,
and the comments behind that thing. -/
structure Scanned where
  thing? : Option Nat
  comments : List Comment

/-- Comes by one more sibling. -/
def Scanned.pass (seen : Scanned) : Sibling α → Scanned
  | .comment text rows => { seen with comments := seen.comments ++ [(text, rows)] }
  | .semicolon rows | .mark rows | .node _ rows => ⟨some rows.last, []⟩

/-- What a scan of siblings has come by at their end. -/
def scan (ss : List (Sibling α)) : Scanned := ss.foldl Scanned.pass ⟨none, []⟩

/-- Parts the comments that begin no later than the group so far ends, which is on row `row` at
first, from those behind them. -/
def gather (row : Nat) : List Comment → List Comment × List Comment
  | [] => ([], [])
  | c :: cs =>
    if c.2.first ≤ row then (c :: (gather c.2.last cs).1, (gather c.2.last cs).2) else ([], c :: cs)

namespace Scanned

/-- The comments that belong to the thing, and those behind them. -/
def parted (seen : Scanned) : List Comment × List Comment :=
  match seen.thing? with
  | some row => gather row seen.comments
  | none => ([], seen.comments)

/-- Whether a comment begins on the last row of the thing. -/
def beside (seen : Scanned) (c : Comment) : Bool := seen.thing?.any fun row => c.2.first == row

/-- The comments that belong to the thing and begin below it. -/
def strays (seen : Scanned) : List Comment := seen.parted.1.filter fun c => !seen.beside c

end Scanned

/-- Whether no line is free between a comment and the one behind it. -/
def near (c d : Comment) : Bool := d.2.first ≤ c.2.last + 1

/-- Comments that end on the row right above `row`, if there are any. -/
def EndsAbove (row : Nat) (cs : List Comment) : Prop := ∀ c ∈ cs.getLast?, c.2.last + 1 = row

instance (row : Nat) (cs : List Comment) : Decidable (EndsAbove row cs) :=
  inferInstanceAs (Decidable (∀ c ∈ cs.getLast?, c.2.last + 1 = row))

/-- The last group of comments between free lines, if it ends on the row right above `row`. -/
def lastGroup (row : Nat) (cs : List Comment) : List Comment :=
  let group := (cs.splitBy near).getLast?.getD []
  if EndsAbove row group then group else []

/-- The lead group of what begins on row `row` behind what a scan has come by. -/
def Scanned.lead (seen : Scanned) (row : Nat) : List Comment := lastGroup row seen.parted.2

/-- Comments without a free line from the first one on down to row `row`. -/
def Unbroken (row : Nat) (cs : List Comment) : Prop :=
  cs.IsChain (fun c d => near c d) ∧ EndsAbove row cs

instance (row : Nat) (cs : List Comment) : Decidable (Unbroken row cs) :=
  inferInstanceAs (Decidable (cs.IsChain (fun c d => near c d) ∧ EndsAbove row cs))

/-! ## The last group -/

/-- There is a last group: nothing separates its comments, and a free line separates it from what
is above. -/
theorem exists_lastGroup {cs : List Comment} (hne : cs ≠ []) :
    ∃ above group, cs = above ++ group ∧ group ≠ [] ∧ group.IsChain (fun c d => near c d) ∧
      ∀ c ∈ above.getLast?, ∀ d ∈ group.head?, near c d = false := by
  induction cs with
  | nil => exact absurd rfl hne
  | cons c cs ih =>
    rcases List.eq_nil_or_concat cs with rfl | ⟨front, last, hcs⟩
    · exact ⟨[], [c], rfl, List.cons_ne_nil _ _, List.isChain_singleton c, by simp⟩
    obtain ⟨above, group, rfl, hgroup, hchain, hgap⟩ := ih (by simp [hcs])
    cases above with
    | cons e above =>
      refine ⟨c :: e :: above, group, rfl, hgroup, hchain, ?_⟩
      rw [List.getLast?_cons_cons]
      exact hgap
    | nil =>
      -- The comment joins the group below it, or it stands above a free line.
      cases group with
      | nil => exact absurd rfl hgroup
      | cons d group =>
        cases hcd : near c d with
        | true =>
          exact ⟨[], c :: d :: group, rfl, List.cons_ne_nil _ _,
            List.isChain_cons_cons.2 ⟨hcd, hchain⟩, by simp⟩
        | false =>
          refine ⟨[c], d :: group, rfl, hgroup, hchain, ?_⟩
          intro x hx y hy
          obtain rfl := Option.some.inj hx
          obtain rfl := Option.some.inj hy
          exact hcd

theorem lastGroup_append {above group : List Comment} (hne : group ≠ [])
    (hchain : group.IsChain fun c d => near c d)
    (hgap : ∀ c ∈ above.getLast?, ∀ d ∈ group.head?, near c d = false) (row : Nat) :
    lastGroup row (above ++ group) = if EndsAbove row group then group else [] := by
  have hlast : ((above ++ group).splitBy near).getLast? = some group := by
    rw [List.splitBy_append hgap, List.splitBy_of_isChain hne hchain, List.getLast?_concat]
  unfold lastGroup
  rw [hlast]
  rfl

theorem lastGroup_of_isChain {cs : List Comment} (hchain : cs.IsChain fun c d => near c d)
    (row : Nat) : lastGroup row cs = if EndsAbove row cs then cs else [] := by
  by_cases hcs : cs = []
  · subst hcs
    rfl
  · have hgap : ∀ c ∈ ([] : List Comment).getLast?, ∀ d ∈ cs.head?, near c d = false := by simp
    exact lastGroup_append hcs hchain hgap row

theorem EndsAbove.append_iff {row : Nat} (cs : List Comment) {ds : List Comment} (hds : ds ≠ []) :
    EndsAbove row (cs ++ ds) ↔ EndsAbove row ds := by
  unfold EndsAbove
  rw [List.getLast?_append_of_ne_nil cs hds]

/-- Comments with no free line among them leave the last group of those behind them as it is, unless
all of them together are that group. -/
theorem lastGroup_behind {own : List Comment} (hown : own.IsChain fun c d => near c d)
    (others : List Comment) {row : Nat} (hbroken : ¬ Unbroken row (own ++ others)) :
    lastGroup row (own ++ others) = lastGroup row others := by
  by_cases hothers : others = []
  · subst hothers
    rw [List.append_nil] at hbroken ⊢
    rw [lastGroup_of_isChain hown, if_neg fun habove => hbroken ⟨hown, habove⟩]
    rfl
  obtain ⟨above, group, rfl, hgroup, hchain, hgap⟩ := exists_lastGroup hothers
  rw [lastGroup_append hgroup hchain hgap]
  cases above with
  | cons e above =>
    rw [← List.append_assoc]
    refine lastGroup_append hgroup hchain ?_ row
    rw [List.getLast?_append_of_ne_nil own (List.cons_ne_nil e above)]
    exact hgap
  | nil =>
    rw [List.nil_append] at hbroken ⊢
    by_cases hseam : ∀ c ∈ own.getLast?, ∀ d ∈ group.head?, near c d = false
    · exact lastGroup_append hgroup hchain hseam row
    · -- All the comments are one group, which therefore ends too far up.
      have hwhole : (own ++ group).IsChain fun c d => near c d := by
        refine List.isChain_append.2 ⟨hown, hchain, fun c hc d hd => ?_⟩
        push Not at hseam
        obtain ⟨c', hc', d', hd', hnear⟩ := hseam
        obtain rfl := Option.mem_unique hc hc'
        obtain rfl := Option.mem_unique hd hd'
        exact eq_true_of_ne_false hnear
      have habove : ¬ EndsAbove row (own ++ group) := fun habove => hbroken ⟨hwhole, habove⟩
      rw [lastGroup_of_isChain hwhole, if_neg habove,
        if_neg fun h => habove ((EndsAbove.append_iff own hgroup).2 h)]

theorem lastGroup_eq_self_iff {row : Nat} {cs : List Comment} :
    lastGroup row cs = cs ↔ Unbroken row cs := by
  constructor
  · intro h
    by_cases hcs : cs = []
    · subst hcs
      exact ⟨List.isChain_nil, by simp [EndsAbove]⟩
    obtain ⟨above, group, rfl, hgroup, hchain, hgap⟩ := exists_lastGroup hcs
    rw [lastGroup_append hgroup hchain hgap] at h
    split_ifs at h with habove
    · obtain rfl : above = [] := List.append_left_eq_self.1 h.symm
      exact ⟨hchain, habove⟩
    · exact absurd h.symm hcs
  · rintro ⟨hchain, habove⟩
    rw [lastGroup_of_isChain hchain, if_pos habove]

theorem lastGroup_suffix (row : Nat) (cs : List Comment) : lastGroup row cs <:+ cs := by
  by_cases hcs : cs = []
  · subst hcs
    exact List.suffix_refl _
  obtain ⟨above, group, rfl, hgroup, hchain, hgap⟩ := exists_lastGroup hcs
  rw [lastGroup_append hgroup hchain hgap]
  split_ifs
  · exact List.suffix_append _ _
  · exact List.nil_suffix

/-! ## Going back -/

/-- Going back takes all comments that nothing separates. -/
theorem leadRun_of_isChain {cs : List Comment} {row : Nat}
    (hrow : ∀ c ∈ cs.head?, row ≤ c.2.last + 1)
    (hchain : cs.IsChain fun d c => near c d) : leadRun false row cs = cs := by
  induction cs generalizing row with
  | nil => rfl
  | cons c cs ih =>
    obtain ⟨hnear, htail⟩ := List.isChain_cons.1 hchain
    have hc : ¬ c.2.last + 1 < row := Nat.not_lt.2 (hrow c rfl)
    have hrest : leadRun false c.2.first cs = cs :=
      ih (fun d hd => of_decide_eq_true (hnear d hd)) htail
    simp [leadRun, hc, hrest]

/-- The nearest comment has to end right above. -/
theorem leadRun_group {group : List Comment} (hchain : group.IsChain fun c d => near c d)
    (row : Nat) :
    leadRun true row group.reverse = (if EndsAbove row group then group else []).reverse := by
  rcases List.eq_nil_or_concat group with rfl | ⟨front, c, rfl⟩
  · rfl
  rw [List.concat_eq_append] at hchain ⊢
  have hflip : (c :: front.reverse).IsChain fun d c => near c d := by
    have := List.isChain_reverse.2 hchain
    rwa [List.reverse_append] at this
  obtain ⟨hnear, htail⟩ := List.isChain_cons.1 hflip
  have hrest : leadRun false c.2.first front.reverse = front.reverse :=
    leadRun_of_isChain (fun d hd => of_decide_eq_true (hnear d hd)) htail
  have habove : EndsAbove row (front ++ [c]) ↔ c.2.last + 1 = row := by
    simp [EndsAbove]
  rw [List.reverse_append, List.reverse_singleton, List.singleton_append, leadRun, hrest]
  by_cases hc : c.2.last + 1 = row
  · rw [if_pos (habove.2 hc), List.reverse_append]
    simp [hc]
  · rw [if_neg (mt habove.1 hc)]
    simp [hc]

/-- **The search back finds the last group.** -/
theorem leadRun_eq_lastGroup (row : Nat) (cs : List Comment) :
    leadRun true row cs.reverse = (lastGroup row cs).reverse := by
  by_cases hcs : cs = []
  · subst hcs
    rfl
  obtain ⟨above, group, rfl, hgroup, hchain, hgap⟩ := exists_lastGroup hcs
  rw [lastGroup_append hgroup hchain hgap, ← leadRun_group hchain, List.reverse_append]
  refine leadRun_append true row group.reverse above.reverse fun c hc => ?_
  rw [List.head?_reverse] at hc
  cases group with
  | nil => exact absurd rfl hgroup
  | cons d group =>
    have hfar : ¬ d.2.first ≤ c.2.last + 1 := of_decide_eq_false (hgap c hc d rfl)
    simpa using hfar

/-! ## What a scan comes by -/

theorem scan_append_comments (ss : List (Sibling α)) (cs : List Comment) :
    scan (ss ++ cs.map asSibling) = ⟨(scan ss).thing?, (scan ss).comments ++ cs⟩ := by
  induction cs generalizing ss with
  | nil => simp
  | cons c cs ih =>
    have hc : scan (ss ++ [asSibling c]) = ⟨(scan ss).thing?, (scan ss).comments ++ [c]⟩ := by
      simp [scan, asSibling, Scanned.pass]
    rw [List.map_cons, ← List.singleton_append, ← List.append_assoc, ih, hc, List.append_assoc,
      List.singleton_append]

/-- Siblings that end in no comment leave a scan with the last of them. -/
theorem scan_of_no_comment {rest : List (Sibling α)} (hrest : commentRun rest = []) :
    scan rest.reverse = ⟨rest.head?.map (·.rows.last), []⟩ := by
  cases rest with
  | nil => rfl
  | cons s rest =>
    rw [List.reverse_cons, scan, List.foldl_append]
    cases s with
    | comment => cases hrest
    | semicolon | mark | node => rfl

/-- Siblings are those up to a thing and the comments that a scan has come by behind it. -/
theorem exists_scan (front : List (Sibling α)) :
    ∃ rest, front = rest.reverse ++ (scan front).comments.map asSibling ∧
      commentRun rest = [] ∧ (scan front).thing? = rest.head?.map (·.rows.last) := by
  obtain ⟨cs, rest, hfront, hrest⟩ := exists_run front.reverse
  obtain rfl : front = rest.reverse ++ cs.reverse.map asSibling := by
    rw [List.map_reverse, ← List.reverse_append, ← hfront, List.reverse_reverse]
  refine ⟨rest, ?_, hrest, ?_⟩
  · rw [scan_append_comments, scan_of_no_comment hrest, List.nil_append]
  · rw [scan_append_comments, scan_of_no_comment hrest]

/-- **The search back, told by what a scan comes by.** It takes the last group, and from comments
that nothing separates from the node those at the front that begin beside the thing are taken
off. -/
theorem leadGroup_eq_of_scan (front : List (Sibling α)) (row : Nat) :
    leadGroup front.reverse row =
      if Unbroken row (scan front).comments then
        (scan front).comments.dropWhile (scan front).beside
      else lastGroup row (scan front).comments := by
  obtain ⟨rest, hfront, hrest, hthing⟩ := exists_scan front
  have hbeside : (scan front).beside =
      fun c => (rest.head?.map (·.rows.last)).any fun row => c.2.first == row := by
    funext c
    rw [Scanned.beside, hthing]
  have hwhole : (lastGroup row (scan front).comments).length == (scan front).comments.length ↔
      Unbroken row (scan front).comments := by
    rw [beq_iff_eq, ← lastGroup_eq_self_iff]
    exact ⟨(lastGroup_suffix row _).eq_of_length, congrArg List.length⟩
  rw [hbeside]
  generalize (scan front).comments = cs at *
  subst hfront
  rw [List.reverse_append, List.reverse_reverse, ← List.map_reverse, leadGroup_run _ hrest,
    leadRun_eq_lastGroup, List.reverse_reverse, List.length_reverse]
  have hself : Unbroken row cs → lastGroup row cs = cs := lastGroup_eq_self_iff.2
  cases rest with
  | nil =>
    change lastGroup row cs = _
    split_ifs with h
    · rw [hself h]
      cases cs <;> rfl
    · rfl
  | cons s rest =>
    simp only [hwhole]
    split_ifs with h
    · rw [hself h]
      rfl
    · rfl

/-! ## Comments in order -/

/-- Comments in source order, the first of them on row `row` or below. -/
def Falling (row : Nat) : List Comment → Prop
  | [] => True
  | c :: cs => row ≤ c.2.first ∧ c.2.first ≤ c.2.last ∧ Falling c.2.last cs

namespace Falling

variable {row : Nat} {cs : List Comment}

theorem mono {row' : Nat} (hrow : row' ≤ row) (h : Falling row cs) : Falling row' cs := by
  cases cs with
  | nil => trivial
  | cons c cs => exact ⟨hrow.trans h.1, h.2⟩

theorem le_first (h : Falling row cs) : ∀ c ∈ cs, row ≤ c.2.first := by
  induction cs generalizing row with
  | nil => simp
  | cons c cs ih =>
    obtain ⟨hc, hupright, hcs⟩ := h
    intro d hd
    rcases List.mem_cons.1 hd with rfl | hd
    · exact hc
    · exact ih (hcs.mono (hc.trans hupright)) d hd

/-- Behind a comment that begins below a row all comments do. -/
theorem lt_first (h : Falling row cs) (hhead : ∀ c ∈ cs.head?, row < c.2.first) :
    ∀ c ∈ cs, row < c.2.first := by
  cases cs with
  | nil => simp
  | cons c cs =>
    have hbelow : Falling (row + 1) (c :: cs) := ⟨hhead c rfl, h.2⟩
    exact hbelow.le_first

/-- The comments that begin on a row come first among those in order. -/
theorem dropWhile_eq_filter (h : Falling row cs) :
    cs.dropWhile (fun c => c.2.first == row) = cs.filter fun c => !(c.2.first == row) := by
  induction cs with
  | nil => rfl
  | cons c cs ih =>
    obtain ⟨hc, hupright, hcs⟩ := h
    by_cases hrow : c.2.first = row
    · have hcs' : Falling row cs := hcs.mono (hc.trans hupright)
      simpa [hrow] using ih hcs'
    · have hbelow : ∀ d ∈ c :: cs, row < d.2.first :=
        lt_first ⟨hc, hupright, hcs⟩ fun d hd => by
          obtain rfl := Option.some.inj hd
          exact Nat.lt_of_le_of_ne hc (Ne.symm hrow)
      rw [List.dropWhile_cons_of_neg (by simpa using hrow), eq_comm, List.filter_eq_self]
      intro d hd
      simpa using (hbelow d hd).ne'

end Falling

theorem falling_of_isChain {row : Nat} {cs : List Comment}
    (hupright : ∀ c ∈ cs, c.2.first ≤ c.2.last)
    (hchain : cs.IsChain fun c d => c.2.last ≤ d.2.first) (hrow : ∀ c ∈ cs.head?, row ≤ c.2.first) :
    Falling row cs := by
  induction cs generalizing row with
  | nil => trivial
  | cons c cs ih =>
    obtain ⟨hnext, htail⟩ := List.isChain_cons.1 hchain
    refine ⟨hrow c rfl, hupright c List.mem_cons_self, ih (fun d hd => ?_) htail hnext⟩
    exact hupright d (List.mem_cons_of_mem c hd)

/-- The comments that a scan of siblings in order has come by are in order. -/
theorem falling_of_inOrder {rest : List (Sibling α)} {cs : List Comment}
    (h : InOrder (rest.reverse ++ cs.map asSibling)) :
    Falling ((rest.head?.map (·.rows.last)).getD 0) cs := by
  obtain ⟨-, hcs, hseam⟩ := List.isChain_append.1 h.sorted
  refine falling_of_isChain (fun c hc => ?_) ((List.isChain_map asSibling).1 hcs) fun c hc => ?_
  · exact h.upright (asSibling c) (List.mem_append_right _ (List.mem_map_of_mem hc))
  · cases rest with
    | nil => exact Nat.zero_le _
    | cons s rest =>
      refine hseam s (by simp) (asSibling c) ?_
      rw [List.head?_map]
      exact Option.mem_map_of_mem asSibling hc

/-! ## What belongs to a thing -/

theorem gather_append (row : Nat) (cs : List Comment) :
    (gather row cs).1 ++ (gather row cs).2 = cs := by
  induction cs generalizing row with
  | nil => rfl
  | cons c cs ih =>
    rw [gather]
    split_ifs
    · exact congrArg (c :: ·) (ih c.2.last)
    · rfl

theorem first_le_of_gather {row : Nat} {cs : List Comment} :
    ∀ c ∈ (gather row cs).1.head?, c.2.first ≤ row := by
  cases cs with
  | nil => simp [gather]
  | cons c cs =>
    rw [gather]
    split_ifs with hc
    · intro d hd
      obtain rfl := Option.some.inj hd
      exact hc
    · simp

/-- What belongs to a thing is one group. -/
theorem isChain_gather (row : Nat) (cs : List Comment) :
    (gather row cs).1.IsChain fun c d => near c d := by
  induction cs generalizing row with
  | nil => exact List.isChain_nil
  | cons c cs ih =>
    rw [gather]
    split_ifs
    · refine List.isChain_cons.2 ⟨fun d hd => ?_, ih c.2.last⟩
      exact decide_eq_true (Nat.le_succ_of_le (first_le_of_gather d hd))
    · exact List.isChain_nil

/-- What does not belong to a thing begins below it. -/
theorem lt_first_of_gather {row : Nat} {cs : List Comment} (h : Falling row cs) :
    ∀ c ∈ (gather row cs).2, row < c.2.first := by
  induction cs generalizing row with
  | nil => simp [gather]
  | cons c cs ih =>
    rw [gather]
    split_ifs with hc
    · intro d hd
      exact (h.1.trans h.2.1).trans_lt (ih h.2.2 d hd)
    · refine h.lt_first fun d hd => ?_
      obtain rfl := Option.some.inj hd
      exact Nat.lt_of_not_le hc

namespace Scanned

/-- Comments in source order, the first of them where the thing ends or below. -/
def Sorted (seen : Scanned) : Prop := Falling (seen.thing?.getD 0) seen.comments

theorem parted_append (seen : Scanned) : seen.parted.1 ++ seen.parted.2 = seen.comments := by
  unfold parted
  cases seen.thing? with
  | none => rfl
  | some row => exact gather_append row seen.comments

theorem isChain_parted (seen : Scanned) : seen.parted.1.IsChain fun c d => near c d := by
  unfold parted
  cases seen.thing? with
  | none => exact List.isChain_nil
  | some row => exact isChain_gather row seen.comments

/-- Taking off the comments beside the thing leaves what belongs to it and begins below it, and all
that does not belong to it. -/
theorem dropWhile_beside {seen : Scanned} (h : seen.Sorted) :
    seen.comments.dropWhile seen.beside = seen.strays ++ seen.parted.2 := by
  obtain ⟨thing?, cs⟩ := seen
  cases thing? with
  | none => simp [beside, strays, parted]
  | some row =>
    have hcs : Falling row cs := h
    have hothers : (gather row cs).2.filter (fun c => !(c.2.first == row)) = (gather row cs).2 := by
      rw [List.filter_eq_self]
      intro c hc
      simpa using (lt_first_of_gather hcs c hc).ne'
    calc cs.dropWhile (fun c => c.2.first == row)
        = cs.filter fun c => !(c.2.first == row) := hcs.dropWhile_eq_filter
      _ = ((gather row cs).1 ++ (gather row cs).2).filter fun c => !(c.2.first == row) := by
          rw [gather_append]
      _ = (gather row cs).1.filter (fun c => !(c.2.first == row)) ++ (gather row cs).2 := by
          rw [List.filter_append, hothers]

end Scanned

theorem sorted_scan {front behind : List (Sibling α)} (h : InOrder (front ++ behind)) :
    (scan front).Sorted := by
  have hfront : InOrder front :=
    ⟨fun s hs => h.upright s (List.mem_append_left behind hs), (List.isChain_append.1 h.sorted).1⟩
  obtain ⟨rest, heq, -, hthing⟩ := exists_scan front
  rw [Scanned.Sorted, hthing]
  rw [heq] at hfront
  exact falling_of_inOrder hfront

/-! ## Both ways -/

theorem Unbroken.of_append {row : Nat} {own others : List Comment}
    (h : Unbroken row (own ++ others)) : Unbroken row others := by
  obtain ⟨hchain, habove⟩ := h
  refine ⟨(List.isChain_append.1 hchain).2.1, ?_⟩
  by_cases hothers : others = []
  · subst hothers
    simp [EndsAbove]
  · exact (EndsAbove.append_iff own hothers).1 habove

/-- **Going back and scanning forward.** In siblings in source order, the search back finds the lead
group of the scan forward and, in front of it, the comments that belong to the thing before the node
and begin below it, provided that no line is free between the thing and the node. So it finds the
lead group exactly if there is a free line or no such comment. -/
theorem leadGroup_eq_scan_iff {front behind : List (Sibling α)} {s : Sibling α}
    (h : InOrder (front ++ s :: behind)) :
    leadGroup front.reverse s.rows.first =
        (if Unbroken s.rows.first (scan front).comments then (scan front).strays else []) ++
          (scan front).lead s.rows.first ∧
      (leadGroup front.reverse s.rows.first = (scan front).lead s.rows.first ↔
        ¬ (Unbroken s.rows.first (scan front).comments ∧ (scan front).strays ≠ [])) := by
  have hback : leadGroup front.reverse s.rows.first =
      (if Unbroken s.rows.first (scan front).comments then (scan front).strays else []) ++
        (scan front).lead s.rows.first := by
    rw [leadGroup_eq_of_scan]
    have hparted := (scan front).parted_append
    split_ifs with hwhole
    · have hothers : Unbroken s.rows.first (scan front).parted.2 := by
        rw [← hparted] at hwhole
        exact hwhole.of_append
      rw [Scanned.dropWhile_beside (sorted_scan h), Scanned.lead, lastGroup_eq_self_iff.2 hothers]
    · rw [← hparted] at hwhole ⊢
      exact lastGroup_behind (scan front).isChain_parted _ hwhole
  refine ⟨hback, ?_⟩
  rw [hback, List.append_left_eq_self]
  split_ifs with hwhole
  · simp [hwhole]
  · simp [hwhole]

/-- A statement with two comments behind it and, below a free line, two more that overlap. -/
def trailed : List (Sibling Unit) :=
  [.mark ⟨2, 2⟩, .comment "/* a */" ⟨2, 2⟩, .comment "// b" ⟨2, 2⟩,
    .comment "/* c\nd */" ⟨4, 5⟩, .comment "// e" ⟨5, 5⟩]

/-- What follows is led by the comments below the free line. -/
theorem leadGroup_eq_scan_iff_trailed :
    InOrder (trailed ++ [.node () ⟨6, 7⟩]) ∧
      leadGroup trailed.reverse 6 = [("/* c\nd */", ⟨4, 5⟩), ("// e", ⟨5, 5⟩)] := by
  have hsorted : InOrder (trailed ++ [.node () ⟨6, 7⟩]) := by decide
  have hbroken : ¬ (Unbroken 6 (scan trailed).comments ∧ (scan trailed).strays ≠ []) := by decide
  exact ⟨hsorted, (leadGroup_eq_scan_iff hsorted).2.2 hbroken⟩

/-- A comment that begins where a comment of several lines behind a variable ends. -/
def straySource : Bytes :=
  Utf8.encode "package p\n\nvar x = 1 /* a\nb */ // c\n// d\nfunc F() \x7b\x7d\n"

/-- The function below has the comment in its documentation. A scan forward leaves the comment to
the variable. -/
theorem stray_comment_leads :
    ∃ file front function rows behind package chunks,
      SourceFile.ofText? (Utf8.decodeLossy straySource) = some file ∧ InOrder file ∧
      file = front ++ .node function rows :: behind ∧
      (leadGroup front.reverse rows.first).map (·.1) = ["// c", "// d"] ∧
      ((scan front).lead rows.first).map (·.1) = ["// d"] ∧
      parseSource straySource "p.go" = .ok (package, chunks) ∧
      chunks.map Chunk.doc = ["c\nd\n"] := by
  obtain ⟨file, package, chunks, hfile, hparse, hall⟩ := exists_file straySource "p.go"
    (fun file chunks => InOrder file ∧ chunks.map Chunk.doc = ["c\nd\n"] ∧
      (nodesIn [] file).any fun x =>
        (leadGroup x.2.2.1 x.2.1.first).map (·.1) = ["// c", "// d"] ∧
        ((scan x.2.2.1.reverse).lead x.2.1.first).map (·.1) = ["// d"])
    (by decide +kernel)
  obtain ⟨hsorted, hdoc, hany⟩ := of_decide_eq_true hall
  obtain ⟨⟨d, rows, before, behind⟩, hx, hgroups⟩ := List.any_eq_true.1 hany
  obtain ⟨hback, hforward⟩ := of_decide_eq_true hgroups
  refine ⟨file, before.reverse, d, rows, behind, package, chunks, hfile, hsorted,
    (eq_of_mem_nodesIn hx).symm, ?_, hforward, hparse, hdoc⟩
  rw [List.reverse_reverse]
  exact hback

end DocSearch.Doc
