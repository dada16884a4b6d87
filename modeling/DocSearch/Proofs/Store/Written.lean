import DocSearch.Proofs.Store.Writing
import Mathlib.Data.List.Induction

/-!
# Tables behind writes in any order

Several tasks at a time store rows and vectors in an order of their own, and a database gives a new
row any id that is not in use. **`Tables.Written`** relates tables to those that a history of such
writes may lead to, where the vector of a chunk is stored under the id of its identity.

**What was stored last counts, for rows and for vectors separately.** An identity that occurs in a
history holds the text of the chunk whose row was stored last and the vector of the chunk whose
vector was stored last (`Written.holding?_some`), and these need not be the same chunk; any other
identity holds what it held (`Written.holding?_none`). An id does not change once there is a row for
it (`Written.idFor_eq`).
-/

namespace DocSearch.Store

/-! ## The last chunk of an identity -/

/-- The last chunk with an identity. -/
def lastOf (cs : List Chunk) (i : Identity) : Option Chunk :=
  cs.reverse.find? fun c => c.identity = i

theorem lastOf_eq_none_iff {cs : List Chunk} {i : Identity} :
    lastOf cs i = none ↔ ∀ c ∈ cs, c.identity ≠ i := by
  simp [lastOf, List.find?_eq_none]

theorem lastOf_mem {cs : List Chunk} {i : Identity} {c : Chunk} (h : lastOf cs i = some c) :
    c ∈ cs ∧ c.identity = i :=
  ⟨List.mem_reverse.1 (List.mem_of_find?_eq_some h), by simpa [lastOf] using List.find?_some h⟩

theorem lastOf_append (cs ds : List Chunk) (i : Identity) :
    lastOf (cs ++ ds) i = (lastOf ds i).or (lastOf cs i) := by
  rw [lastOf, List.reverse_append, List.find?_append, ← lastOf, ← lastOf]

/-- Where only one part of the chunks has an identity, its last chunk is found there. -/
theorem lastOf_flatMap {α : Type} {l : List α} {f : α → List Chunk} {a : α} {i : Identity}
    (ha : a ∈ l) (honly : ∀ b ∈ l, ∀ c ∈ f b, c.identity = i → b = a) :
    lastOf (l.flatMap f) i = lastOf (f a) i := by
  induction l with
  | nil => cases ha
  | cons b l ih =>
    rw [List.forall_mem_cons] at honly
    rw [List.flatMap_cons, lastOf_append]
    by_cases hrest : a ∈ l
    · rw [ih hrest honly.2]
      cases hlast : lastOf (f a) i with
      | some d => rfl
      | none =>
        rw [Option.none_or, lastOf_eq_none_iff]
        intro c hc hci
        obtain rfl := honly.1 c hc hci
        exact lastOf_eq_none_iff.1 hlast c hc hci
    · obtain rfl : a = b := (List.mem_cons.1 ha).resolve_right hrest
      have hnone : lastOf (l.flatMap f) i = none := by
        rw [lastOf_eq_none_iff]
        intro c hc hci
        obtain ⟨b, hb, hc⟩ := List.mem_flatMap.1 hc
        obtain rfl := honly.2 b hb c hc hci
        exact hrest hb
      rw [hnone, Option.none_or]

theorem lastOf_concat (cs : List Chunk) (c : Chunk) (i : Identity) :
    lastOf (cs ++ [c]) i = if c.identity = i then some c else lastOf cs i := by
  by_cases h : c.identity = i <;> simp [lastOf, h]

theorem exists_lastOf {cs : List Chunk} {c : Chunk} (hc : c ∈ cs) :
    ∃ d, lastOf cs c.identity = some d := by
  cases h : lastOf cs c.identity with
  | none => exact absurd rfl (lastOf_eq_none_iff.1 h c hc)
  | some d => exact ⟨d, rfl⟩

/-- Among chunks that all have different identities, each one is the last of its identity. -/
theorem lastOf_eq_of_nodup {cs ds : List Chunk} (hcs : (cs.map Chunk.identity).Nodup)
    (hds : ∀ d ∈ ds, d ∈ cs) {c : Chunk} (hc : c ∈ ds) : lastOf ds c.identity = some c := by
  obtain ⟨d, hd⟩ := exists_lastOf hc
  obtain ⟨hmem, hi⟩ := lastOf_mem hd
  rw [hd, List.inj_on_of_nodup_map hcs (hds d hmem) (hds c hc) hi]

/-- Among chunks that all have different identities, only membership counts. -/
theorem lastOf_eq_of_mem_iff {cs ds : List Chunk} (hcs : (cs.map Chunk.identity).Nodup)
    (hds : ∀ d, d ∈ ds ↔ d ∈ cs) (i : Identity) : lastOf ds i = lastOf cs i := by
  cases h : lastOf cs i with
  | none =>
    rw [lastOf_eq_none_iff] at h ⊢
    exact fun d hd => h d ((hds d).1 hd)
  | some c =>
    obtain ⟨hc, rfl⟩ := lastOf_mem h
    exact lastOf_eq_of_nodup hcs (fun d hd => (hds d).1 hd) ((hds c).2 hc)

/-! ## Histories -/

/-- A statement that has been carried out for a chunk. -/
inductive Write where
  | row (c : Chunk)
  | vector (c : Chunk)

namespace Write

/-- The chunk that something is stored for. -/
def chunk : Write → Chunk
  | row c => c
  | vector c => c

/-- The chunks whose rows are stored, in order. -/
def rows (ws : List Write) : List Chunk :=
  ws.filterMap fun
    | row c => some c
    | vector _ => none

/-- The chunks whose vectors are stored, in order. -/
def vectors (ws : List Write) : List Chunk :=
  ws.filterMap fun
    | row _ => none
    | vector c => some c

@[simp] theorem rows_append (us ws : List Write) : rows (us ++ ws) = rows us ++ rows ws :=
  List.filterMap_append

@[simp] theorem vectors_append (us ws : List Write) :
    vectors (us ++ ws) = vectors us ++ vectors ws :=
  List.filterMap_append

@[simp] theorem rows_row (c : Chunk) : rows [row c] = [c] := rfl

@[simp] theorem rows_vector (c : Chunk) : rows [vector c] = [] := rfl

@[simp] theorem vectors_row (c : Chunk) : vectors [row c] = [] := rfl

@[simp] theorem vectors_vector (c : Chunk) : vectors [vector c] = [c] := rfl

@[simp] theorem mem_rows {ws : List Write} {c : Chunk} : c ∈ rows ws ↔ row c ∈ ws := by
  rw [rows, List.mem_filterMap]
  constructor
  · rintro ⟨w, hw, h⟩
    cases w with
    | row d => cases h; exact hw
    | vector d => cases h
  · intro h
    exact ⟨_, h, rfl⟩

@[simp] theorem mem_vectors {ws : List Write} {c : Chunk} : c ∈ vectors ws ↔ vector c ∈ ws := by
  rw [vectors, List.mem_filterMap]
  constructor
  · rintro ⟨w, hw, h⟩
    cases w with
    | row d => cases h
    | vector d => cases h; exact hw
  · intro h
    exact ⟨_, h, rfl⟩

/-- The history of a loop that indexes one chunk after the other. -/
def inOrder (cs : List Chunk) : List Write := cs.flatMap fun c => [.row c, .vector c]

theorem inOrder_cons (c : Chunk) (cs : List Chunk) :
    inOrder (c :: cs) = inOrder [c] ++ inOrder cs := rfl

@[simp] theorem inOrder_append (cs ds : List Chunk) :
    inOrder (cs ++ ds) = inOrder cs ++ inOrder ds :=
  List.flatMap_append

@[simp] theorem rows_inOrder (cs : List Chunk) : rows (inOrder cs) = cs := by
  induction cs with
  | nil => rfl
  | cons c cs ih => rw [inOrder_cons, rows_append, ih]; rfl

@[simp] theorem vectors_inOrder (cs : List Chunk) : vectors (inOrder cs) = cs := by
  induction cs with
  | nil => rfl
  | cons c cs ih => rw [inOrder_cons, vectors_append, ih]; rfl

@[simp] theorem mem_inOrder {cs : List Chunk} {w : Write} : w ∈ inOrder cs ↔ w.chunk ∈ cs := by
  rw [inOrder, List.mem_flatMap]
  cases w <;> simp [Write.chunk]

/-- A history in which each of the chunks `cs` is stored with its vector and nothing else is. -/
structure Whole (cs : List Chunk) (ws : List Write) : Prop where
  known : ∀ w ∈ ws, w.chunk ∈ cs
  stored : ∀ c ∈ cs, .vector c ∈ ws

theorem whole_inOrder (cs : List Chunk) : Whole cs (inOrder cs) :=
  ⟨fun _ hw => mem_inOrder.1 hw, fun _ hc => mem_inOrder.2 hc⟩

end Write

namespace Tables

/-- The ids of chunks that have rows. -/
def idsOf (t : Tables) (cs : List Chunk) : List Int := cs.map fun c => t.idFor c.identity

theorem length_idsOf (t : Tables) (cs : List Chunk) : (t.idsOf cs).length = cs.length :=
  List.length_map _

theorem idsOf_append (t : Tables) (cs ds : List Chunk) :
    t.idsOf (cs ++ ds) = t.idsOf cs ++ t.idsOf ds := List.map_append

/-- The tables that a history may lead to. A new row gets any id that no row has, and a vector is
stored behind the row of its chunk, under the id of its identity. -/
inductive Written (literal : String → String) (t : Tables) : List Write → Tables → Prop
  | nil : Written literal t [] t
  | row {ws : List Write} {u v : Tables} (h : Written literal t ws u) {c : Chunk} {id : Int}
      (hc : u.Stores (chunkRow c) id v) : Written literal t (ws ++ [.row c]) v
  | vector {ws : List Write} {u : Tables} (h : Written literal t ws u) {c : Chunk}
      (hc : .row c ∈ ws) :
      Written literal t (ws ++ [.vector c]) (u.setVector (u.idFor c.identity) (literal c.text))

theorem exists_holding?_setVector {t : Tables} (hs : t.Sound) {i j : Identity} {h h₀ : Holding}
    (hh : t.holding? i = some h) (hh₀ : t.holding? j = some h₀) (literal : String) :
    ∃ h', (t.setVector h₀.id literal).holding? i = some h' ∧ h'.id = h.id := by
  rw [holding?_setVector hs hh₀]
  split_ifs with hi
  · subst hi
    obtain rfl := Option.some.inj (hh₀.symm.trans hh)
    exact ⟨_, rfl, rfl⟩
  · exact ⟨h, hh, rfl⟩

namespace Written

variable {literal : String → String} {t u v : Tables} {ws us : List Write}

theorem append (h : Written literal t ws u) (h' : Written literal u us v) :
    Written literal t (ws ++ us) v := by
  induction h' with
  | nil =>
    rw [List.append_nil]
    exact h
  | row _ hc ih =>
    rw [← List.append_assoc]
    exact ih.row hc
  | vector _ hc ih =>
    rw [← List.append_assoc]
    exact ih.vector (List.mem_append_right _ hc)

/-- Only one history leads on from no writes at all. -/
theorem eq_of_nil (h : Written literal t [] u) : u = t := by
  generalize hws : ([] : List Write) = ws at h
  cases h with
  | nil => rfl
  | row _ _ => simp at hws
  | vector _ _ => simp at hws

theorem row_mem (h : Written literal t ws u) {c : Chunk} (hc : .vector c ∈ ws) : .row c ∈ ws := by
  induction h with
  | nil => cases hc
  | row _ _ ih =>
    rcases List.mem_append.1 hc with hold | hnew
    · exact List.mem_append_left _ (ih hold)
    · simp at hnew
  | vector _ hd ih =>
    rcases List.mem_append.1 hc with hold | hnew
    · exact List.mem_append_left _ (ih hold)
    · obtain rfl := Write.vector.inj (List.mem_singleton.1 hnew)
      exact List.mem_append_left _ hd

theorem dimension (h : Written literal t ws u) : u.dimension = t.dimension := by
  induction h with
  | nil => rfl
  | row _ hc ih => rw [hc.dimension, ih]
  | vector _ _ ih => exact ih

/-- Soundness is kept, and every chunk whose row was stored holds something. -/
theorem sound_and_held (hs : t.Sound) (h : Written literal t ws u) :
    u.Sound ∧ ∀ c, .row c ∈ ws → ∃ d, u.holding? c.identity = some d := by
  induction h with
  | nil => exact ⟨hs, by simp⟩
  | row _ hc ih =>
    obtain ⟨hsu, hheld⟩ := ih
    refine ⟨hc.sound hsu, fun d hd => ?_⟩
    rcases List.mem_append.1 hd with hold | hlast
    · obtain ⟨e, he⟩ := hheld d hold
      obtain ⟨e', he', -⟩ := hc.exists_holding? hsu he
      exact ⟨e', he'⟩
    · obtain rfl := Write.row.inj (List.mem_singleton.1 hlast)
      exact ⟨_, (hc.holding?_eq hsu _).trans (if_pos rfl)⟩
  | @vector ws u _ c hc ih =>
    obtain ⟨hsu, hheld⟩ := ih
    obtain ⟨e₀, he₀⟩ := hheld c hc
    rw [idFor_of_holding? he₀]
    refine ⟨sound_setVector hsu (exists_row_of_holding? hsu he₀) _, fun d hd => ?_⟩
    obtain ⟨e, he⟩ := hheld d (by simpa using hd)
    obtain ⟨e', he', -⟩ := exists_holding?_setVector hsu he he₀ (literal c.text)
    exact ⟨e', he'⟩

section

variable (hs : t.Sound) (h : Written literal t ws u)

include hs h

theorem sound : u.Sound := (sound_and_held hs h).1

/-- A chunk whose row is stored holds something from then on. -/
theorem exists_holding? {c : Chunk} (hc : .row c ∈ ws) : ∃ d, u.holding? c.identity = some d :=
  (sound_and_held hs h).2 c hc

/-- An identity that holds something keeps its id and goes on to hold something. -/
theorem exists_holding?_of_holding? {i : Identity} {d : Holding} (hd : t.holding? i = some d) :
    ∃ d', u.holding? i = some d' ∧ d'.id = d.id := by
  induction h with
  | nil => exact ⟨d, hd, rfl⟩
  | row h hc ih =>
    obtain ⟨e, he, hid⟩ := ih
    obtain ⟨e', he', hid'⟩ := hc.exists_holding? (h.sound hs) he
    exact ⟨e', he', hid'.trans hid⟩
  | @vector _ _ h c hc ih =>
    obtain ⟨e, he, hid⟩ := ih
    obtain ⟨e₀, he₀⟩ := h.exists_holding? hs hc
    rw [idFor_of_holding? he₀]
    obtain ⟨e', he', hid'⟩ := exists_holding?_setVector (h.sound hs) he he₀ (literal c.text)
    exact ⟨e', he', hid'.trans hid⟩

theorem idFor_eq {i : Identity} {d : Holding} (hd : t.holding? i = some d) : u.idFor i = d.id := by
  obtain ⟨d', hd', hid⟩ := h.exists_holding?_of_holding? hs hd
  rw [idFor_of_holding? hd', hid]

/-- The id of a chunk does not change once its row is stored. -/
theorem idFor_append (h' : Written literal u us v) {c : Chunk} (hc : .row c ∈ ws) :
    v.idFor c.identity = u.idFor c.identity := by
  obtain ⟨d, hd⟩ := h.exists_holding? hs hc
  rw [h'.idFor_eq (h.sound hs) hd, idFor_of_holding? hd]

theorem idsOf_append (h' : Written literal u us v) {cs : List Chunk}
    (hcs : ∀ c ∈ cs, .row c ∈ ws) : v.idsOf cs = u.idsOf cs :=
  List.map_congr_left fun c hc => h.idFor_append hs h' (hcs c hc)

/-- An identity holds the text of the chunk whose row was stored last. -/
theorem text?_eq (i : Identity) :
    u.text? i = ((lastOf (Write.rows ws) i).map Chunk.text).or (t.text? i) := by
  induction h with
  | nil => rfl
  | @row _ _ _ h c _ hc ih =>
    rw [text?, hc.holding?_eq (h.sound hs), Write.rows_append, Write.rows_row, lastOf_concat]
    by_cases hi : c.identity = i
    · rw [if_pos hi, if_pos (show (chunkRow c).identity = i from hi)]
      rfl
    · rw [if_neg hi, if_neg (show (chunkRow c).identity ≠ i from hi), ← ih, text?]
  | @vector _ _ h c hc ih =>
    obtain ⟨d, hd⟩ := h.exists_holding? hs hc
    rw [idFor_of_holding? hd, text?, holding?_setVector (h.sound hs) hd, Write.rows_append,
      Write.rows_vector, List.append_nil, ← ih]
    split_ifs with hi
    · rw [text?, ← hi, hd]
      rfl
    · rfl

/-- An identity holds the vector of the chunk whose vector was stored last. -/
theorem literal?_eq (i : Identity) :
    u.literal? i = ((lastOf (Write.vectors ws) i).map fun c => literal c.text).or (t.literal? i) := by
  induction h with
  | nil => rfl
  | row h hc ih =>
    rw [literal?, hc.holding?_eq (h.sound hs), Write.vectors_append, Write.vectors_row,
      List.append_nil, ← ih]
    split_ifs <;> rfl
  | @vector _ _ h c hc ih =>
    obtain ⟨d, hd⟩ := h.exists_holding? hs hc
    rw [idFor_of_holding? hd, literal?, holding?_setVector (h.sound hs) hd, Write.vectors_append,
      Write.vectors_vector, lastOf_concat]
    by_cases hi : c.identity = i
    · rw [if_pos hi, if_pos hi]
      rfl
    · rw [if_neg hi, if_neg hi, ← ih, literal?]

/-- What an identity holds if its row and its vector are stored. -/
theorem holding?_some {i : Identity} {c d : Chunk} (hc : lastOf (Write.rows ws) i = some c)
    (hd : lastOf (Write.vectors ws) i = some d) :
    u.holding? i = some ⟨u.idFor i, c.text, some (literal d.text)⟩ := by
  have htext := h.text?_eq hs i
  have hliteral := h.literal?_eq hs i
  rw [hc] at htext
  rw [hd] at hliteral
  exact holding?_of_views htext hliteral

/-- An identity that does not occur holds what it held. -/
theorem holding?_none {i : Identity} (hi : ∀ w ∈ ws, w.chunk.identity ≠ i) :
    u.holding? i = t.holding? i := by
  have hrows : lastOf (Write.rows ws) i = none :=
    lastOf_eq_none_iff.2 fun c hc => hi _ (Write.mem_rows.1 hc)
  have hvectors : lastOf (Write.vectors ws) i = none :=
    lastOf_eq_none_iff.2 fun c hc => hi _ (Write.mem_vectors.1 hc)
  have htext := h.text?_eq hs i
  have hliteral := h.literal?_eq hs i
  rw [hrows, Option.map_none, Option.none_or] at htext
  rw [hvectors, Option.map_none, Option.none_or] at hliteral
  cases hd : t.holding? i with
  | none => rw [← text?_eq_none_iff, htext, text?_eq_none_iff, hd]
  | some d =>
    have hheld : u.text? i = some d.data := by rw [htext, text?, hd]; rfl
    rw [holding?_of_views hheld hliteral, h.idFor_eq hs hd, literal?, hd]
    rfl

/-- The ids of rows stay with their identities. -/
theorem idFor_of_mem {c : Int × Record} (hc : c ∈ t.chunks) : u.idFor c.2.identity = c.1 := by
  exact h.idFor_eq hs (holding?_of_mem hs hc)

omit hs in
/-- Rows keep their keys and their places; behind them there are only rows for chunks that were
stored. -/
theorem rowKeys_eq :
    ∃ new, u.rowKeys = t.rowKeys ++ new ∧ ∀ k ∈ new, ∃ w ∈ ws, w.chunk.identity = k.2 := by
  induction h with
  | nil => exact ⟨[], (List.append_nil _).symm, by simp⟩
  | @row ws u v h c id hc ih =>
    obtain ⟨new, hkeys, hnew⟩ := ih
    have hold : ∀ k ∈ new, ∃ w ∈ ws ++ [.row c], w.chunk.identity = k.2 := fun k hk => by
      obtain ⟨w, hw, hi⟩ := hnew k hk
      exact ⟨w, List.mem_append_left _ hw, hi⟩
    rcases hc.rowKeys_eq with ⟨-, hsame⟩ | ⟨-, hmore⟩
    · exact ⟨new, hsame.trans hkeys, hold⟩
    · refine ⟨new ++ [(id, c.identity)], by rw [hmore, hkeys, List.append_assoc]; rfl, fun k hk => ?_⟩
      rcases List.mem_append.1 hk with hk | hk
      · exact hold k hk
      · obtain rfl := List.mem_singleton.1 hk
        exact ⟨.row c, by simp, rfl⟩
  | vector h hc ih =>
    obtain ⟨new, hkeys, hnew⟩ := ih
    refine ⟨new, hkeys, fun k hk => ?_⟩
    obtain ⟨w, hw, hi⟩ := hnew k hk
    exact ⟨w, List.mem_append_left _ hw, hi⟩

omit hs in
theorem rowKeys_prefix : t.rowKeys <+: u.rowKeys := by
  obtain ⟨new, hkeys, -⟩ := h.rowKeys_eq
  exact hkeys ▸ List.prefix_append _ _

end

end Written

end Tables

end DocSearch.Store
