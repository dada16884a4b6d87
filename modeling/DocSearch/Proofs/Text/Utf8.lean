import DocSearch.Text.Charset
import Mathlib.Data.List.Basic
import Mathlib.Tactic.SplitIfs

/-!
# UTF-8 in parts

A text that arrives in parts is decoded as far as its characters are complete. What has been decoded
does not change when more bytes come (`shownText_append`), and at the end it is the text of all bytes
(`decodeLossy_append`), whatever these bytes are. A piece that is not cut short is the same whatever
comes behind it (`piece_append`), so both go by induction on the pieces.
-/

namespace DocSearch.Text.Utf8

/-- The character that a piece is shown as. -/
def Piece.shown (p : Piece) : Char :=
  match p.content with
  | .ok c => c
  | .error _ => '\uFFFD'

/-- A piece that further bytes may complete. -/
def Piece.isCut (p : Piece) : Prop := p.content = .error .truncated

variable {r : UInt8 × UInt8} {acc taken n : Nat} {b : UInt8} {bs : Bytes}

/-! ## Pieces -/

theorem continuations_append (h : ¬ (continuations r acc taken n bs).isCut) (x : Bytes) :
    continuations r acc taken n (bs ++ x) = continuations r acc taken n bs := by
  induction n generalizing r acc taken bs with
  | zero => rfl
  | succ n ih =>
    cases bs with
    | nil => exact absurd rfl h
    | cons b bs =>
      rw [continuations] at h
      rw [List.cons_append, continuations, continuations]
      split_ifs with hb
      · rw [if_pos hb] at h
        exact ih h
      · rfl

theorem extra_continuations (r : UInt8 × UInt8) (acc taken n : Nat) (bs : Bytes) :
    taken ≤ (continuations r acc taken n bs).extra ∧
      (continuations r acc taken n bs).extra ≤ taken + bs.length := by
  induction n generalizing r acc taken bs with
  | zero => exact ⟨Nat.le_refl _, Nat.le_add_right _ _⟩
  | succ n ih =>
    cases bs with
    | nil => exact ⟨Nat.le_refl _, Nat.le_refl _⟩
    | cons b bs =>
      rw [continuations, List.length_cons]
      split_ifs with hb
      · have := ih (0x80, 0xbf) (acc * 64 + b.toNat % 64) (taken + 1) bs
        omega
      · exact ⟨Nat.le_refl _, Nat.le_add_right _ _⟩

/-- A piece is shown alike as long as none of its own bytes is missing. -/
theorem continuations_take {k : Nat} (hk : (continuations r acc taken n bs).extra ≤ taken + k) :
    (continuations r acc taken n (bs.take k)).extra = (continuations r acc taken n bs).extra ∧
      (continuations r acc taken n (bs.take k)).shown = (continuations r acc taken n bs).shown := by
  induction n generalizing r acc taken bs k with
  | zero => exact ⟨rfl, rfl⟩
  | succ n ih =>
    cases bs with
    | nil => rw [List.take_nil]; exact ⟨rfl, rfl⟩
    | cons b bs =>
      rw [continuations] at hk ⊢
      split_ifs at hk ⊢ with hb
      · have htaken :=
          (extra_continuations (0x80, 0xbf) (acc * 64 + b.toNat % 64) (taken + 1) n bs).1
        obtain ⟨k, rfl⟩ : ∃ k', k = k' + 1 := ⟨k - 1, by omega⟩
        rw [List.take_succ_cons, continuations, if_pos hb]
        exact ih (by omega)
      · cases k with
        | zero => exact ⟨rfl, rfl⟩
        | succ k =>
          rw [List.take_succ_cons, continuations, if_neg hb]
          exact ⟨rfl, rfl⟩

theorem piece_append (h : ¬ (piece b bs).isCut) (x : Bytes) : piece b (bs ++ x) = piece b bs := by
  unfold piece at h ⊢
  split at h
  next => rfl
  next => exact continuations_append h x

theorem extra_piece_le (b : UInt8) (bs : Bytes) : (piece b bs).extra ≤ bs.length := by
  unfold piece
  split
  next => exact Nat.zero_le _
  next => simpa only [Nat.zero_add] using (extra_continuations _ _ 0 _ bs).2

theorem piece_take {k : Nat} (hk : (piece b bs).extra ≤ k) :
    (piece b (bs.take k)).extra = (piece b bs).extra ∧
      (piece b (bs.take k)).shown = (piece b bs).shown := by
  unfold piece at hk ⊢
  split at hk
  next => exact ⟨rfl, rfl⟩
  next => exact continuations_take (by rwa [Nat.zero_add])

/-! ## What is complete -/

theorem decodeLossy_cons (b : UInt8) (bs : Bytes) :
    decodeLossy (b :: bs) = (piece b bs).shown :: decodeLossy (bs.drop (piece b bs).extra) := by
  rw [decodeLossy]
  rfl

theorem complete_of_isCut (h : (piece b bs).isCut) : complete (b :: bs) = ([], b :: bs) := by
  rw [complete]
  split
  next => rfl
  next hne => exact absurd h hne

theorem complete_of_not_isCut (h : ¬ (piece b bs).isCut) :
    complete (b :: bs) =
      (b :: bs.take (piece b bs).extra ++ (complete (bs.drop (piece b bs).extra)).1,
        (complete (bs.drop (piece b bs).extra)).2) := by
  rw [complete]
  split
  next hcut => exact absurd hcut h
  next => rfl

theorem complete_parts (bs : Bytes) : (complete bs).1 ++ (complete bs).2 = bs := by
  induction bs using complete.induct with
  | case1 => simp [complete]
  | case2 b bs p h => rw [complete_of_isCut h, List.nil_append]
  | case3 b bs p _ _ _ h ih =>
    rw [complete_of_not_isCut h]
    dsimp only
    rw [List.append_assoc, List.cons_append, ih, List.take_append_drop]

/-- The text of what is complete. -/
def shownText (bs : Bytes) : List Char := decodeLossy (complete bs).1

theorem shownText_cons (h : ¬ (piece b bs).isCut) :
    shownText (b :: bs) = (piece b bs).shown :: shownText (bs.drop (piece b bs).extra) := by
  have hle := extra_piece_le b bs
  unfold shownText
  rw [complete_of_not_isCut h]
  -- The complete bytes are the first ones, and more than the piece itself.
  have hparts := complete_parts (bs.drop (piece b bs).extra)
  generalize complete (bs.drop (piece b bs).extra) = parts at hparts
  have htake : bs.take (piece b bs).extra ++ parts.1 =
      bs.take ((piece b bs).extra + parts.1.length) := by
    rw [List.take_add, ← hparts, List.take_left]
  obtain ⟨hextra, hshown⟩ := piece_take (Nat.le_add_right (piece b bs).extra parts.1.length)
  rw [← htake] at hextra hshown
  dsimp only
  rw [List.cons_append, decodeLossy_cons, hextra, hshown,
    List.drop_left' (by rw [List.length_take, Nat.min_eq_left hle])]

/-- **More bytes** add to the text and change nothing of it. -/
theorem decodeLossy_append (bs x : Bytes) :
    decodeLossy (bs ++ x) = shownText bs ++ decodeLossy ((complete bs).2 ++ x) := by
  induction bs using complete.induct with
  | case1 => simp [complete, shownText, decodeLossy]
  | case2 b bs p h => simp [complete_of_isCut h, shownText, decodeLossy]
  | case3 b bs p _ _ _ h ih =>
    rw [List.cons_append, decodeLossy_cons, piece_append h,
      List.drop_append_of_le_length (extra_piece_le b bs), ih, shownText_cons h,
      complete_of_not_isCut h]
    rfl

theorem shownText_append (bs x : Bytes) :
    shownText (bs ++ x) = shownText bs ++ shownText ((complete bs).2 ++ x) := by
  induction bs using complete.induct with
  | case1 => simp [complete, shownText, decodeLossy]
  | case2 b bs p h => simp [complete_of_isCut h, shownText, decodeLossy]
  | case3 b bs p _ _ _ h ih =>
    have hcut : ¬ (piece b (bs ++ x)).isCut := by rwa [piece_append h]
    rw [List.cons_append, shownText_cons hcut, piece_append h,
      List.drop_append_of_le_length (extra_piece_le b bs), ih, shownText_cons h,
      complete_of_not_isCut h]
    rfl

end DocSearch.Text.Utf8
