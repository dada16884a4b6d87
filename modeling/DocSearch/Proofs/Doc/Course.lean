import DocSearch.Proofs.Doc.Preorder

/-!
# The course of a walk

A consumer pulls chunks from a walk one by one, and somebody may trip the token between any two of
them. **`Yields`** says what the consumer gets, which is a `Segment`: all chunks of each of the
first folders in pre-order, up to the first folder that cannot be listed, to the first one that is
reached when the token is tripped, or to the end.

A walk that is `Ahead` of some folders takes them one by one. It never visits more of them for one
chunk than there are, which is why the bound of `Walk.pull` does not show (`pullWithin_irrelevant`).
-/

namespace DocSearch.Doc

open Files

/-! ## One folder -/

/-- The chunks of the folder at a place; there are none if it cannot be read. -/
def own (disk : Disk) (p : Place) : List Chunk :=
  match parseFolder disk p with
  | .ok files => files.flatMap (·.chunks)
  | .error _ => []

theorem mapM_eq_error {α β ε : Type} {f : α → Except ε β} {l : List α} {a : α} {e : ε}
    (ha : a ∈ l) (h : f a = .error e) : ∃ e', l.mapM f = .error e' := by
  induction l with
  | nil => cases ha
  | cons b l ih =>
    rw [List.mapM_cons]
    cases hb : f b with
    | error e' => exact ⟨e', rfl⟩
    | ok _ =>
      rcases List.mem_cons.1 ha with rfl | ha
      · rw [h] at hb
        cases hb
      · obtain ⟨e', he'⟩ := ih ha
        exact ⟨e', by rw [he']; rfl⟩

/-- One file that cannot be parsed is enough for a folder to have no chunks. -/
theorem own_eq_nil {disk : Disk} {p : Place} {names : List String} {name : String} {e : FolderError}
    (hnames : sourceNames disk p = .ok names) (hname : name ∈ names)
    (hfile : parseFile disk (p.below name) = .error e) : own disk p = [] := by
  obtain ⟨e, he⟩ : ∃ e, (names.mapM fun n => parseFile disk (p.below n)) = .error e :=
    mapM_eq_error hname hfile
  have hfolder : parseFolder disk p = .error e := by
    rw [parseFolder, hnames]
    show ((names.mapM fun n => parseFile disk (p.below n)) >>= fun files => _) = _
    rw [he]
    rfl
  rw [own, hfolder]

/-- A folder that can be listed. -/
def Listable (disk : Disk) (p : Place) : Prop := ∃ entries, disk.list p = .ok entries

namespace Walk

variable {disk : Disk} {w : Walk} {p q : Place} {others ds : List Place}

theorem enter_tripped (reason : String) :
    enter disk (some reason) w p others = (w.close, .failed (.cancelled reason), []) := rfl

theorem enter_untripped (disk : Disk) (w : Walk) (p : Place) (others : List Place) :
    ∃ logs, enter disk none w p others =
      ({ w with stage := .behind p others }, .chunks (own disk p), logs) := by
  rw [enter, own]
  cases parseFolder disk p with
  | ok files => exact ⟨_, rfl⟩
  | error e => exact ⟨_, rfl⟩

/-! ## Steps -/

/-- A walk behind the folder at `p`, with the folders `ds` to come. -/
structure Ahead (disk : Disk) (w : Walk) (p : Place) (ds : List Place) : Prop where
  behind : ∃ entries others ds', w.stage = .behind p others ∧ Stands disk p entries ∧
    Coming disk w.exclude others ds' ∧
    ds = (subfolders w.exclude entries).flatMap
      (fun e => preorder w.exclude (p.below e.1) e.2) ++ ds'
  bounded : ds.length ≤ folderCount disk.top

theorem visit_unlisted (h : Ahead disk w p ds) {e : PathError} (he : disk.list p = .error e)
    (trip : Trip) : w.visit disk trip = (w.close, .failed (.unlisted p.path e), []) := by
  obtain ⟨entries, others, ds', hstage, -⟩ := h.behind
  rw [visit, hstage]
  simp only [folderNames, he]
  rfl

/-- Where the folder behind a walk can be listed, the places that it goes on with are known. -/
theorem visit_listed (htop : disk.top.Proper) (h : Ahead disk w p ds) (hlist : Listable disk p) :
    ∃ places, Coming disk w.exclude places ds ∧ ∀ trip, w.visit disk trip =
      match places with
      | [] => (w.close, .finished, [])
      | next :: others => enter disk trip w next others := by
  obtain ⟨entries, others, ds', hstage, hstands, hcoming, rfl⟩ := h.behind
  obtain ⟨es, hes⟩ := hlist
  refine ⟨_, coming_subfolders htop hstands hcoming, fun trip => ?_⟩
  rw [visit, hstage]
  simp only [folderNames_eq hstands hes, List.map_map]
  rfl

theorem visit_end (htop : disk.top.Proper) (h : Ahead disk w p []) (hlist : Listable disk p)
    (trip : Trip) : w.visit disk trip = (w.close, .finished, []) := by
  obtain ⟨places, hcoming, hvisit⟩ := visit_listed htop h hlist
  cases places with
  | nil => exact hvisit trip
  | cons q others =>
    generalize hds : ([] : List Place) = ds at hcoming
    cases hcoming
    rw [preorder_folder] at hds
    cases hds

/-- Where there are folders to come, the walk goes on with the first of them. -/
theorem visit_next (htop : disk.top.Proper) (h : Ahead disk w p (q :: ds))
    (hlist : Listable disk p) :
    ∃ others, (∀ trip, w.visit disk trip = enter disk trip w q others) ∧
      Ahead disk { w with stage := .behind q others } q ds := by
  obtain ⟨places, hcoming, hvisit⟩ := visit_listed htop h hlist
  have hbounded : ds.length ≤ folderCount disk.top := Nat.le_of_succ_le h.bounded
  generalize hds : q :: ds = ds₀ at hcoming
  cases hcoming with
  | nil => cases hds
  | @cons next entries others ds' hstands hrest =>
    rw [preorder_folder] at hds
    obtain ⟨rfl, rfl⟩ := List.cons.inj hds
    exact ⟨others, hvisit, ⟨entries, others, ds', rfl, hstands, hrest, rfl⟩, hbounded⟩

/-! ## Pulling -/

theorem Ahead.pend (h : Ahead disk w p ds) (cs : List Chunk) :
    Ahead disk { w with pending := cs } p ds := ⟨h.behind, h.bounded⟩

/-- The walk and what is pulled from it, without the lines for the log. -/
def pulled (r : Walk × Pull × List LogLine) : Walk × Pull := (r.1, r.2.1)

section

variable {trip : Trip} {logs more : List LogLine} {fuel : Nat} {w' : Walk}

theorem pulled_pending {c : Chunk} {cs : List Chunk} (hpending : w.pending = c :: cs) :
    pulled (pullWithin disk trip logs (fuel + 1) w) = ({ w with pending := cs }, .chunk c) := by
  rw [pullWithin, hpending]
  rfl

theorem pulled_finished (hpending : w.pending = [])
    (hvisit : w.visit disk trip = (w', .finished, more)) :
    pulled (pullWithin disk trip logs (fuel + 1) w) = (w', .finished) := by
  rw [pullWithin, hpending, hvisit]
  rfl

theorem pulled_failed {e : WalkError} (hpending : w.pending = [])
    (hvisit : w.visit disk trip = (w', .failed e, more)) :
    pulled (pullWithin disk trip logs (fuel + 1) w) = (w', .failed e) := by
  rw [pullWithin, hpending, hvisit]
  rfl

theorem pullWithin_chunks {cs : List Chunk} (hpending : w.pending = [])
    (hvisit : w.visit disk trip = (w', .chunks cs, more)) :
    pullWithin disk trip logs (fuel + 1) w =
      pullWithin disk trip (logs ++ more) fuel { w' with pending := cs } := by
  rw [pullWithin, hpending, hvisit]

end

theorem not_listable (h : ¬ Listable disk p) : ∃ e, disk.list p = .error e := by
  cases hlist : disk.list p with
  | ok entries => exact absurd ⟨entries, hlist⟩ h
  | error e => exact ⟨e, rfl⟩

/-- A visit ends the walk, or it brings the chunks of the next folder. -/
theorem visit_cases (htop : disk.top.Proper) (h : Ahead disk w p ds) (trip : Trip) :
    (∃ w' more, w.visit disk trip = (w', .finished, more)) ∨
      (∃ w' e more, w.visit disk trip = (w', .failed e, more)) ∨
      ∃ w' cs more q ds', w.visit disk trip = (w', .chunks cs, more) ∧ ds = q :: ds' ∧
        Ahead disk w' q ds' := by
  by_cases hlist : Listable disk p
  swap
  · obtain ⟨e, he⟩ := not_listable hlist
    exact .inr (.inl ⟨_, _, _, visit_unlisted h he trip⟩)
  cases ds with
  | nil => exact .inl ⟨_, _, visit_end htop h hlist trip⟩
  | cons q ds =>
    obtain ⟨others, hvisit, hahead⟩ := visit_next htop h hlist
    cases trip with
    | some reason => exact .inr (.inl ⟨_, _, _, hvisit (some reason)⟩)
    | none =>
      obtain ⟨more, henter⟩ := enter_untripped disk w q others
      exact .inr (.inr ⟨_, _, _, q, ds, (hvisit none).trans henter, rfl, hahead⟩)

/-- What is pulled does not depend on the number of folders that may be visited for it, as long as
there are more of them than are to come. -/
theorem pullWithin_irrelevant (htop : disk.top.Proper) (h : Ahead disk w p ds) (trip : Trip)
    {fuel fuel' : Nat} (hfuel : ds.length < fuel) (hfuel' : ds.length < fuel')
    (logs logs' : List LogLine) :
    pulled (pullWithin disk trip logs fuel w) = pulled (pullWithin disk trip logs' fuel' w) := by
  induction fuel generalizing w p ds fuel' logs logs' with
  | zero => exact absurd hfuel (Nat.not_lt_zero _)
  | succ fuel ih =>
    obtain ⟨fuel', rfl⟩ := Nat.exists_eq_succ_of_ne_zero (Nat.ne_zero_of_lt hfuel')
    cases hpending : w.pending with
    | cons c cs => rw [pulled_pending hpending, pulled_pending hpending]
    | nil =>
      obtain ⟨w', more, hvisit⟩ | ⟨w', e, more, hvisit⟩ | ⟨w', cs, more, q, ds', hvisit, rfl, h'⟩ :=
        visit_cases htop h trip
      · rw [pulled_finished hpending hvisit, pulled_finished hpending hvisit]
      · rw [pulled_failed hpending hvisit, pulled_failed hpending hvisit]
      · rw [pullWithin_chunks hpending hvisit, pullWithin_chunks hpending hvisit]
        exact ih (h'.pend cs) (Nat.lt_of_succ_lt_succ hfuel) (Nat.lt_of_succ_lt_succ hfuel') _ _

/-- A walk that visits a folder next gives what it gives with the chunks of this folder in hand. -/
theorem pulled_enter (htop : disk.top.Proper) (hpending : w.pending = [])
    (hvisit : ∀ trip, w.visit disk trip = enter disk trip w q others)
    (h : Ahead disk { w with stage := .behind q others } q ds) :
    pulled (w.pull disk none) =
      pulled (pull disk none { w with stage := .behind q others, pending := own disk q }) := by
  obtain ⟨more, henter⟩ := enter_untripped disk w q others
  have hbounded := h.bounded
  rw [pull, pullWithin_chunks hpending ((hvisit none).trans henter)]
  exact pullWithin_irrelevant htop (h.pend _) none (by omega) (by omega) _ _

end Walk

/-! ## Consumers -/

/-- What a consumer gets from a walk when it has received `n` chunks: further chunks, and the
failure at the end, if there is one. The token is in the state `token n` while `n` chunks are
received. -/
inductive Yields (disk : Disk) (token : Nat → Trip) :
    Walk → Nat → List Chunk → Option WalkError → Prop
  | chunk {w w' : Walk} {n : Nat} {c : Chunk} {cs : List Chunk} {ending : Option WalkError}
      (h : Walk.pulled (w.pull disk (token n)) = (w', .chunk c))
      (rest : Yields disk token w' (n + 1) cs ending) : Yields disk token w n (c :: cs) ending
  | finished {w w' : Walk} {n : Nat} (h : Walk.pulled (w.pull disk (token n)) = (w', .finished)) :
      Yields disk token w n [] none
  | failed {w w' : Walk} {n : Nat} {e : WalkError}
      (h : Walk.pulled (w.pull disk (token n)) = (w', .failed e)) :
      Yields disk token w n [] (some e)

variable {disk : Disk} {token : Nat → Trip}

theorem yields_congr {w w' : Walk} {n : Nat} {cs : List Chunk} {ending : Option WalkError}
    (h : Walk.pulled (w.pull disk (token n)) = Walk.pulled (w'.pull disk (token n)))
    (hw : Yields disk token w' n cs ending) : Yields disk token w n cs ending := by
  cases hw with
  | chunk hpull rest => exact .chunk (h.trans hpull) rest
  | finished hpull => exact .finished (h.trans hpull)
  | failed hpull => exact .failed (h.trans hpull)

/-- Chunks in hand come first. -/
theorem yields_pending {w : Walk} {n : Nat} {held cs : List Chunk} {ending : Option WalkError}
    (h : Yields disk token { w with pending := [] } (n + held.length) cs ending) :
    Yields disk token { w with pending := held } n (held ++ cs) ending := by
  induction held generalizing n with
  | nil => exact h
  | cons c held ih =>
    refine .chunk (Walk.pulled_pending (w := { w with pending := c :: held }) rfl) (ih ?_)
    rwa [Nat.add_assoc, Nat.add_comm 1]

/-- What a consumer gets is determined. -/
theorem yields_unique {w : Walk} {n : Nat} {cs cs' : List Chunk} {ending ending' : Option WalkError}
    (h : Yields disk token w n cs ending) (h' : Yields disk token w n cs' ending') :
    cs' = cs ∧ ending' = ending := by
  induction h generalizing cs' with
  | chunk hpull rest ih =>
    cases h' with
    | chunk hpull' rest' =>
      obtain ⟨rfl, hc⟩ := Prod.mk.inj (hpull.symm.trans hpull')
      obtain rfl := Walk.Pull.chunk.inj hc
      obtain ⟨rfl, rfl⟩ := ih rest'
      exact ⟨rfl, rfl⟩
    | finished hpull' => cases (Prod.mk.inj (hpull.symm.trans hpull')).2
    | failed hpull' => cases (Prod.mk.inj (hpull.symm.trans hpull')).2
  | finished hpull =>
    cases h' with
    | chunk hpull' rest' => cases (Prod.mk.inj (hpull.symm.trans hpull')).2
    | finished hpull' => exact ⟨rfl, rfl⟩
    | failed hpull' => cases (Prod.mk.inj (hpull.symm.trans hpull')).2
  | failed hpull =>
    cases h' with
    | chunk hpull' rest' => cases (Prod.mk.inj (hpull.symm.trans hpull')).2
    | finished hpull' => cases (Prod.mk.inj (hpull.symm.trans hpull')).2
    | failed hpull' =>
      obtain ⟨-, he⟩ := Prod.mk.inj (hpull.symm.trans hpull')
      obtain rfl := Walk.Pull.failed.inj he
      exact ⟨rfl, rfl⟩

/-! ## Segments -/

/-- The token was not tripped when any of the folders `done` was reached, that is, when all chunks
of those before it had been received. -/
def Untripped (disk : Disk) (token : Nat → Trip) (done : List Place) : Prop :=
  ∀ front p, front ++ [p] <+: done → token (front.flatMap (own disk)).length = none

theorem untripped_nil : Untripped disk token [] := by
  intro front p h
  simp at h

theorem Untripped.concat {done : List Place} (h : Untripped disk token done) {p : Place}
    (hp : token (done.flatMap (own disk)).length = none) : Untripped disk token (done ++ [p]) := by
  intro front q hprefix
  rcases List.prefix_concat_iff.1 hprefix with heq | hprefix
  · obtain ⟨rfl, -⟩ := List.append_inj' heq rfl
    exact hp
  · exact h front q hprefix

/-- What a walk over the folders `dirs` gives: the chunks of the first of them, and the failure at
the end, if there is one. -/
inductive Segment (disk : Disk) (token : Nat → Trip) (dirs : List Place) :
    List Chunk → Option WalkError → Prop
  /-- All folders can be listed and have been visited. -/
  | whole (hlist : ∀ p ∈ dirs, Listable disk p) (htoken : Untripped disk token dirs) :
      Segment disk token dirs (dirs.flatMap (own disk)) none
  /-- A folder has been visited, and then it could not be listed. -/
  | unlisted {front rest : List Place} {p : Place} {cause : PathError}
      (hdirs : dirs = front ++ p :: rest) (hlist : ∀ q ∈ front, Listable disk q)
      (hp : disk.list p = .error cause) (htoken : Untripped disk token (front ++ [p])) :
      Segment disk token dirs ((front ++ [p]).flatMap (own disk)) (some (.unlisted p.path cause))
  /-- A further folder was reached when the token was tripped. -/
  | cancelled {front rest : List Place} {p : Place} {reason : String}
      (hdirs : dirs = front ++ p :: rest) (hlist : ∀ q ∈ front, Listable disk q)
      (htoken : Untripped disk token front)
      (htrip : token (front.flatMap (own disk)).length = some reason) :
      Segment disk token dirs (front.flatMap (own disk)) (some (.cancelled reason))

section

variable {w : Walk} {front others ds : List Place} {q : Place}

theorem listable_concat (hfront : ∀ p ∈ front, Listable disk p) (hq : Listable disk q) :
    ∀ p ∈ front ++ [q], Listable disk p := by
  simpa [or_imp, forall_and] using ⟨hfront, hq⟩

/-- A walk that has visited `front` and reaches `q` next, with `ds` behind it, stops there, stops
behind it, or goes on from there. -/
theorem yields_reached (htop : disk.top.Proper) (hpending : w.pending = [])
    (hvisit : ∀ trip, w.visit disk trip = Walk.enter disk trip w q others)
    (hahead : Walk.Ahead disk { w with stage := .behind q others } q ds)
    (hfront : ∀ p ∈ front, Listable disk p) (htoken : Untripped disk token front)
    (hrest : Untripped disk token (front ++ [q]) → Listable disk q → ∃ cs ending,
      Yields disk token { w with stage := .behind q others, pending := [] }
        ((front ++ [q]).flatMap (own disk)).length cs ending ∧
      Segment disk token (front ++ q :: ds) ((front ++ [q]).flatMap (own disk) ++ cs) ending) :
    ∃ cs ending, Yields disk token w (front.flatMap (own disk)).length cs ending ∧
      Segment disk token (front ++ q :: ds) (front.flatMap (own disk) ++ cs) ending := by
  cases htrip : token (front.flatMap (own disk)).length with
  | some reason =>
    have hstop := (hvisit (some reason)).trans (Walk.enter_tripped reason)
    rw [← htrip] at hstop
    refine ⟨[], _, .failed (Walk.pulled_failed hpending hstop), ?_⟩
    rw [List.append_nil]
    exact .cancelled rfl hfront htoken htrip
  | none =>
    have htoken' : Untripped disk token (front ++ [q]) := htoken.concat htrip
    have hlength : ((front ++ [q]).flatMap (own disk)).length =
        (front.flatMap (own disk)).length + (own disk q).length := by simp
    have hsplit (cs : List Chunk) : (front ++ [q]).flatMap (own disk) ++ cs =
        front.flatMap (own disk) ++ (own disk q ++ cs) := by simp
    obtain ⟨cs, ending, hyields, hsegment⟩ : ∃ cs ending,
        Yields disk token { w with stage := .behind q others, pending := [] }
          ((front ++ [q]).flatMap (own disk)).length cs ending ∧
        Segment disk token (front ++ q :: ds) ((front ++ [q]).flatMap (own disk) ++ cs) ending := by
      by_cases hlist : Listable disk q
      · exact hrest htoken' hlist
      · obtain ⟨e, he⟩ := Walk.not_listable hlist
        refine ⟨[], _,
          .failed (Walk.pulled_failed rfl (Walk.visit_unlisted (hahead.pend []) he _)), ?_⟩
        rw [List.append_nil]
        exact .unlisted rfl hfront he htoken'
    rw [hlength] at hyields
    rw [hsplit] at hsegment
    have hheld := yields_pending (w := { w with stage := .behind q others }) hyields
    refine ⟨_, ending, yields_congr ?_ hheld, hsegment⟩
    rw [htrip]
    exact Walk.pulled_enter htop hpending hvisit hahead

/-- From a folder that is reached, a walk goes on to a segment of all. -/
theorem yields_segment (front : List Place) (htop : disk.top.Proper) (hpending : w.pending = [])
    (hvisit : ∀ trip, w.visit disk trip = Walk.enter disk trip w q others)
    (hahead : Walk.Ahead disk { w with stage := .behind q others } q ds)
    (hfront : ∀ p ∈ front, Listable disk p) (htoken : Untripped disk token front) :
    ∃ cs ending, Yields disk token w (front.flatMap (own disk)).length cs ending ∧
      Segment disk token (front ++ q :: ds) (front.flatMap (own disk) ++ cs) ending := by
  induction ds generalizing w q others front with
  | nil =>
    refine yields_reached htop hpending hvisit hahead hfront htoken fun htoken' hlist => ?_
    refine ⟨[], _,
      .finished (Walk.pulled_finished rfl (Walk.visit_end htop (hahead.pend []) hlist _)), ?_⟩
    rw [List.append_nil]
    exact .whole (listable_concat hfront hlist) htoken'
  | cons r ds ih =>
    refine yields_reached htop hpending hvisit hahead hfront htoken fun htoken' hlist => ?_
    obtain ⟨others', hvisit', hahead'⟩ := Walk.visit_next htop (hahead.pend []) hlist
    rw [List.append_cons front q (r :: ds)]
    exact ih _ rfl hvisit' hahead' (listable_concat hfront hlist) htoken'

end

/-! ## Walks -/

section

variable {root : String} {exclude : List String}

theorem visit_start_folder {entries : List (String × Entry)}
    (h : disk.entry ⟨normalise root, []⟩ false = .ok (.folder entries)) (trip : Trip) :
    (Walk.start root exclude).visit disk trip =
      Walk.enter disk trip (.start root exclude) ⟨normalise root, []⟩ [] := by
  rw [Walk.visit]
  simp only [Walk.start, h]

theorem visit_start_other {e : Entry} (h : disk.entry ⟨normalise root, []⟩ false = .ok e)
    (he : e.isFolder = false) (trip : Trip) :
    (Walk.start root exclude).visit disk trip =
      ((Walk.start root exclude).close, .finished, []) := by
  rw [Walk.visit]
  cases e with
  | folder entries => cases he
  | _ => simp only [Walk.start, h]

theorem visit_start_missing {cause : PathError}
    (h : disk.entry ⟨normalise root, []⟩ false = .error cause) (trip : Trip) :
    (Walk.start root exclude).visit disk trip =
      ((Walk.start root exclude).close, .failed (.unlisted (normalise root) cause), []) := by
  rw [Walk.visit]
  simp only [Walk.start, h]

/-- A walk that has visited the folder at its root is ahead of the others. -/
theorem ahead_start {entries : List (String × Entry)}
    (hstands : Stands disk ⟨normalise root, []⟩ entries) :
    Walk.Ahead disk { Walk.start root exclude with stage := .behind ⟨normalise root, []⟩ [] }
      ⟨normalise root, []⟩ ((subfolders exclude entries).flatMap
        fun e => preorder exclude (Place.below ⟨normalise root, []⟩ e.1) e.2) := by
  refine ⟨⟨entries, [], [], rfl, hstands, .nil, (List.append_nil _).symm⟩, ?_⟩
  obtain ⟨links, here, hat, -⟩ := hstands.onward
  have hlength : (preorder exclude ⟨normalise root, []⟩ (.folder entries)).length ≤
      folderCount (.folder entries) := length_preorder_le _ _
  rw [preorder_folder, List.length_cons] at hlength
  exact Nat.le_trans (Nat.le_of_succ_le hlength) (folderCount_at?_le hat)

/-- A walk whose root is a folder gives a segment of its folders. -/
theorem start_yields_segment (htop : disk.top.Proper) {entries : List (String × Entry)}
    (h : disk.entry ⟨normalise root, []⟩ false = .ok (.folder entries)) :
    ∃ cs ending, Yields disk token (.start root exclude) 0 cs ending ∧
      Segment disk token (preorder exclude ⟨normalise root, []⟩ (.folder entries)) cs ending := by
  rw [preorder_folder]
  exact yields_segment [] htop rfl (visit_start_folder h)
    (ahead_start (stands_of_entry h)) (by simp) untripped_nil

/-- What a walk gives, depending on what is at its root. -/
theorem start_yields (htop : disk.top.Proper) (token : Nat → Trip) (root : String)
    (exclude : List String) :
    ∃ cs ending, Yields disk token (.start root exclude) 0 cs ending ∧
      match disk.entry ⟨normalise root, []⟩ false with
      | .ok (.folder entries) =>
        Segment disk token (preorder exclude ⟨normalise root, []⟩ (.folder entries)) cs ending
      | .ok _ => cs = [] ∧ ending = none
      | .error cause => cs = [] ∧ ending = some (.unlisted (normalise root) cause) := by
  cases h : disk.entry ⟨normalise root, []⟩ false with
  | error cause =>
    exact ⟨[], _, .failed (Walk.pulled_failed rfl (visit_start_missing h _)), rfl, rfl⟩
  | ok e =>
    cases e with
    | folder entries => exact start_yields_segment htop h
    | _ => exact ⟨[], _, .finished (Walk.pulled_finished rfl (visit_start_other h rfl _)), rfl, rfl⟩

end

/-- **What a walk gives is a segment of its folders in pre-order**, and a folder with a file that
cannot be read or parsed has no chunks in it. If there is nothing at its root, the walk fails; if
there is something else than a folder, it gives nothing. -/
theorem walk_yields_segment (disk : Disk) (htop : disk.top.Proper) (root : String)
    (exclude : List String) (token : Nat → Trip) :
    ∃ cs ending,
      (∀ cs' ending', Yields disk token (.start root exclude) 0 cs' ending' ↔
        cs' = cs ∧ ending' = ending) ∧
      (match disk.entry ⟨normalise root, []⟩ false with
        | .ok (.folder entries) =>
          Segment disk token (preorder exclude ⟨normalise root, []⟩ (.folder entries)) cs ending
        | .ok _ => cs = [] ∧ ending = none
        | .error cause => cs = [] ∧ ending = some (.unlisted (normalise root) cause)) ∧
      ∀ p names name e, sourceNames disk p = .ok names → name ∈ names →
        parseFile disk (p.below name) = .error e → own disk p = [] := by
  obtain ⟨cs, ending, hyields, hcourse⟩ := start_yields htop token root exclude
  refine ⟨cs, ending, fun cs' ending' => ⟨yields_unique hyields, ?_⟩, hcourse,
    fun _ _ _ _ => own_eq_nil⟩
  rintro ⟨rfl, rfl⟩
  exact hyields

/-- A folder with a folder in it that cannot be listed. -/
def guardedDisk : Disk :=
  ⟨.folder [("src", .folder [("lib", .folder [])])], ["src/lib"], []⟩

theorem proper_guardedDisk : guardedDisk.top.Proper := by
  have hlib : (Entry.folder []).Proper := .folder .nil (by simp) (by simp)
  have hsrc : (Entry.folder [("lib", .folder [])]).Proper :=
    .folder (by simp) (by simp [IsName]) (by simpa using hlib)
  exact .folder (by simp) (by simp [IsName]) (by simpa using hsrc)

theorem entry_guardedDisk :
    guardedDisk.entry ⟨"src", []⟩ false = .ok (.folder [("lib", .folder [])]) := by
  exact (stands_name rfl (by simp [IsName]) (by decide) rfl).entry false

/-- A walk through it from `src/`, while nobody trips the token. -/
theorem walk_yields_segment_guardedDisk :
    ∃ cs ending, Yields guardedDisk (fun _ => none) (.start "src/" []) 0 cs ending ∧
      Segment guardedDisk (fun _ => none) [⟨"src", []⟩, ⟨"src", ["lib"]⟩] cs ending := by
  obtain ⟨cs, ending, hyields, hcourse, -⟩ :=
    walk_yields_segment guardedDisk proper_guardedDisk "src/" [] fun _ => none
  have hnormalise : normalise "src/" = "src" := by decide +kernel
  have hpreorder : preorder [] ⟨"src", []⟩ (.folder [("lib", .folder [])]) =
      [⟨"src", []⟩, ⟨"src", ["lib"]⟩] := by
    simp [preorder, branches, Entry.isFolder, Place.below]
  rw [hnormalise, entry_guardedDisk] at hcourse
  rw [← hpreorder]
  exact ⟨cs, ending, (hyields cs ending).2 ⟨rfl, rfl⟩, hcourse⟩

end DocSearch.Doc
