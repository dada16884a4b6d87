import DocSearch.Json.Reader
import DocSearch.Proofs.Text.Trim
import Mathlib.Data.Prod.Basic
import Mathlib.Tactic.Conv
import Mathlib.Tactic.Push

/-!
# Readings of JSON in a longer text

What is read off the front of a text is read off it in the same way when the text goes on. Strings,
arrays and objects show where they end; a number does not, so it must not go on in what follows
(`Apart`). The readers call one another with less fuel, and what each of them does with one more unit
of fuel rests on what the others do without it (`extends_all`).

Two facts about documents follow. An object is read with blanks around it as without them
(`read_padded`). And no text that stops short of its end reads as an object (`read_cut`).
-/

namespace DocSearch.Json

open Number Text

variable {cs rest x : List Char} {start start' acc : List Char} {s : String} {v : Value}
  {fuel fuel' : Nat}

/-! ## Blanks -/

theorem skip_append {c : Char} {r : List Char} (h : skip cs = c :: r) (x : List Char) :
    skip (cs ++ x) = c :: (r ++ x) := by
  have hne : (cs.dropWhile isSpace).isEmpty = false := by
    rw [show cs.dropWhile isSpace = c :: r from h]
    rfl
  rw [skip, List.dropWhile_append, hne, if_neg Bool.false_ne_true,
    show cs.dropWhile isSpace = c :: r from h, List.cons_append]

theorem skip_of_forall (h : ∀ c ∈ cs, isSpace c = true) (x : List Char) : skip (cs ++ x) = skip x :=
  List.dropWhile_append_of_pos h

/-! ## Strings -/

theorem fourHex?_append {n : Nat} {r : List Char} (h : fourHex? cs = some (n, r)) (x : List Char) :
    fourHex? (cs ++ x) = some (n, r ++ x) := by
  unfold fourHex? at h ⊢
  split at h
  next a b c d rest =>
    split_ifs at h with hex
    cases h
    simp only [List.cons_append]
    rw [if_pos hex]
  next => cases h

/-- The rest of a string that stops short of its end, or inside an escape. -/
def Incomplete (cs : List Char) : Prop :=
  cs = [] ∨ cs = ['\\'] ∨ ∃ more, cs = '\\' :: 'u' :: more ∧ fourHex? more = none

theorem not_incomplete_of_stringBody {r : String × List Char}
    (h : stringBody start acc fuel cs = .ok r) : ¬ Incomplete cs := by
  cases fuel with
  | zero => cases h
  | succ fuel =>
    rintro (rfl | rfl | ⟨more, rfl, hhex⟩)
    · cases h
    · cases h
    · rw [stringBody] at h
      simp [hhex] at h

/-- A unit that is followed by another one if it is to be a character. -/
abbrev isHigh (n : Nat) : Bool := 0xd800 ≤ n && n < 0xdc00

theorem unicodeEscape_alone {n : Nat} (h : ∀ more, cs ≠ '\\' :: 'u' :: more)
    (hhigh : isHigh n = true) :
    unicodeEscape n cs = ('\uFFFD', cs) := by
  unfold unicodeEscape
  rw [if_pos hhigh]
  split
  next more => exact absurd rfl (h more)
  next => rfl

theorem unicodeEscape_unread {n : Nat} (h : fourHex? cs = none) (hhigh : isHigh n = true) :
    unicodeEscape n ('\\' :: 'u' :: cs) = ('\uFFFD', '\\' :: 'u' :: cs) := by
  unfold unicodeEscape
  rw [if_pos hhigh]
  simp only [h]

theorem unicodeEscape_pair {n : Nat} (hhigh : isHigh n = true) (low : Nat) :
    ∃ (pair : Bool) (c : Char), ∀ cs r, fourHex? cs = some (low, r) →
      unicodeEscape n ('\\' :: 'u' :: cs) =
        if pair then (c, r) else ('\uFFFD', '\\' :: 'u' :: cs) := by
  refine ⟨0xdc00 ≤ low && low < 0xe000, Char.ofNat (0x10000 + (n - 0xd800) * 1024 + (low - 0xdc00)),
    fun cs r h => ?_⟩
  unfold unicodeEscape
  rw [if_pos hhigh]
  simp only [h]

theorem unicodeEscape_low {n : Nat} (hhigh : isHigh n = false) :
    ∃ c, ∀ cs, unicodeEscape n cs = (c, cs) := by
  by_cases hlow : (0xdc00 ≤ n && n < 0xe000) = true
  · refine ⟨'\uFFFD', fun cs => ?_⟩
    unfold unicodeEscape
    rw [if_neg (by simp [hhigh]), if_pos hlow]
  · refine ⟨Char.ofNat n, fun cs => ?_⟩
    unfold unicodeEscape
    rw [if_neg (by simp [hhigh]), if_neg hlow]

/-- An escape is decoded alike when the text goes on, if the text does not stop inside the next. -/
theorem unicodeEscape_append {n : Nat} (h : ¬ Incomplete (unicodeEscape n cs).2) (x : List Char) :
    unicodeEscape n (cs ++ x) = ((unicodeEscape n cs).1, (unicodeEscape n cs).2 ++ x) := by
  cases hhigh : isHigh n with
  | false =>
    obtain ⟨c, hc⟩ := unicodeEscape_low hhigh
    rw [hc, hc]
  | true =>
    by_cases hescape : ∃ more, cs = '\\' :: 'u' :: more
    · obtain ⟨more, rfl⟩ := hescape
      cases hhex : fourHex? more with
      | none =>
        rw [unicodeEscape_unread hhex hhigh] at h
        exact absurd (.inr (.inr ⟨more, rfl, hhex⟩)) h
      | some r =>
        obtain ⟨pair, c, hpair⟩ := unicodeEscape_pair hhigh r.1
        rw [List.cons_append, List.cons_append, hpair _ _ hhex, hpair _ _ (fourHex?_append hhex x)]
        cases pair <;> rfl
    · push Not at hescape
      have halone := unicodeEscape_alone hescape hhigh
      rw [halone] at h ⊢
      refine unicodeEscape_alone (fun more hmore => ?_) hhigh
      -- The next escape would begin in the text and end behind it.
      match cs with
      | [] => exact h (.inl rfl)
      | [c] =>
        rw [List.cons_append, List.cons.injEq] at hmore
        exact h (.inr (.inl (by rw [hmore.1])))
      | c :: d :: more' =>
        simp only [List.cons_append, List.cons.injEq] at hmore
        obtain ⟨rfl, rfl, -⟩ := hmore
        exact hescape more' rfl

theorem stringBody_unicode {n : Nat} {r : List Char} (h : fourHex? cs = some (n, r)) (hr : r ≠ [])
    (start acc : List Char) (fuel : Nat) :
    stringBody start acc (fuel + 1) ('\\' :: 'u' :: cs) =
      stringBody start ((unicodeEscape n r).1 :: acc) fuel (unicodeEscape n r).2 := by
  obtain ⟨d, r, rfl⟩ := List.exists_cons_of_ne_nil hr
  rw [stringBody]
  simp only [h]
  rfl

theorem stringBody_escape {e d : Char} (he : e ≠ 'u') (hd : escaped? e = some d)
    (start acc : List Char) (fuel : Nat) (cs : List Char) :
    stringBody start acc (fuel + 1) ('\\' :: e :: cs) = stringBody start (d :: acc) fuel cs := by
  rw [stringBody]
  · simp [hd]
  · exact he

theorem stringBody_plain {c : Char} (hquote : (c == '\"') = false) (hslash : (c == '\\') = false)
    (hcontrol : ¬ c.toNat < 32) (start acc : List Char) (fuel : Nat) (cs : List Char) :
    stringBody start acc (fuel + 1) (c :: cs) = stringBody start (c :: acc) fuel cs := by
  conv_lhs => unfold stringBody
  rw [hquote, hslash, if_neg Bool.false_ne_true, if_neg Bool.false_ne_true, if_neg hcontrol]

/-- What stands first in a string is its end, or it makes up a character, whatever follows. -/
theorem stringBody_step {r : String × List Char} (h : stringBody start acc (fuel + 1) cs = .ok r) :
    (∃ more, cs = '\"' :: more ∧ r = (String.ofList acc.reverse, more)) ∨
      ∃ d more, stringBody start (d :: acc) fuel more = .ok r ∧
        ∀ (start' : List Char) (fuel' : Nat) (x : List Char),
          stringBody start' acc (fuel' + 1) (cs ++ x) =
            stringBody start' (d :: acc) fuel' (more ++ x) := by
  cases cs with
  | nil => cases h
  | cons c cs =>
    cases hquote : c == '\"' with
    | true =>
      obtain rfl := beq_iff_eq.1 hquote
      exact .inl ⟨cs, rfl, (Except.ok.inj h).symm⟩
    | false =>
      right
      cases hslash : c == '\\' with
      | false =>
        by_cases hcontrol : c.toNat < 32
        · unfold stringBody at h
          rw [hquote, hslash, if_neg Bool.false_ne_true, if_neg Bool.false_ne_true,
            if_pos hcontrol] at h
          cases h
        · rw [stringBody_plain hquote hslash hcontrol] at h
          exact ⟨c, cs, h, fun start' fuel' x => stringBody_plain hquote hslash hcontrol _ _ _ _⟩
      | true =>
        obtain rfl := beq_iff_eq.1 hslash
        cases cs with
        | nil => cases h
        | cons e cs =>
          by_cases he : e = 'u'
          · subst he
            have hread := not_incomplete_of_stringBody h
            cases hhex : fourHex? cs with
            | none => exact absurd (.inr (.inr ⟨cs, rfl, hhex⟩)) hread
            | some r' =>
              obtain ⟨n, r'⟩ := r'
              by_cases hr : r' = []
              · subst hr
                rw [stringBody] at h
                simp [hhex] at h
              · rw [stringBody_unicode hhex hr] at h
                refine ⟨_, _, h, fun start' fuel' x => ?_⟩
                have hescape := unicodeEscape_append (not_incomplete_of_stringBody h) x
                rw [List.cons_append, List.cons_append,
                  stringBody_unicode (fourHex?_append hhex x) (by simp [hr]), hescape]
          · cases hd : escaped? e with
            | none =>
              rw [stringBody] at h
              · simp [hd] at h
              · exact he
            | some d =>
              rw [stringBody_escape he hd] at h
              exact ⟨d, cs, h, fun start' fuel' x => stringBody_escape he hd _ _ _ _⟩

/-- A string that is read to its end is read alike when the text goes on. -/
theorem stringBody_append (h : stringBody start acc fuel cs = .ok (s, rest)) (hfuel : fuel ≤ fuel')
    (start' x : List Char) :
    stringBody start' acc fuel' (cs ++ x) = .ok (s, rest ++ x) := by
  induction fuel generalizing acc cs fuel' with
  | zero => cases h
  | succ fuel ih =>
    obtain ⟨fuel', rfl⟩ : ∃ k, fuel' = k + 1 := ⟨fuel' - 1, by omega⟩
    rcases stringBody_step h with ⟨more, rfl, hr⟩ | ⟨d, more, hmore, hstep⟩
    · obtain ⟨rfl, rfl⟩ := Prod.mk.inj hr
      rfl
    · rw [hstep]
      exact ih hmore (Nat.le_of_succ_le_succ hfuel)

theorem string_append (h : string start cs = .ok (s, rest)) (start' x : List Char) :
    string start' (cs ++ x) = .ok (s, rest ++ x) :=
  stringBody_append h (by rw [List.length_append]; omega) start' x

/-! ## Numbers -/

/-- A character that may go on a number. -/
def isNumeral (c : Char) : Bool := isAsciiDigit c || c == '.' || c == 'e' || c == 'E'

/-- A text that goes on no number. -/
def Apart (cs : List Char) : Prop := ∀ c, cs.head? = some c → isNumeral c = false

theorem Apart.of_cons {c : Char} (h : isNumeral c = false) (cs : List Char) : Apart (c :: cs) := by
  intro d hd
  rwa [← Option.some.inj hd]

theorem Apart.digit {c : Char} (h : Apart (c :: cs)) : isAsciiDigit c = false := by
  have hc := h c rfl
  simp only [isNumeral, Bool.or_eq_false_iff] at hc
  exact hc.1.1.1

theorem Apart.mark {c : Char} (h : Apart (c :: cs)) : (c == 'e' || c == 'E') = false := by
  have hc := h c rfl
  simp only [isNumeral, Bool.or_eq_false_iff] at hc
  rw [hc.1.2, hc.2]
  rfl

/-- Digits are read alike when the text goes on, if they do not go on with it. -/
theorem digits_append (h : cs.dropWhile isAsciiDigit = [] → Apart x) :
    (cs ++ x).takeWhile isAsciiDigit = cs.takeWhile isAsciiDigit ∧
      (cs ++ x).dropWhile isAsciiDigit = cs.dropWhile isAsciiDigit ++ x := by
  induction cs with
  | nil =>
    cases x with
    | nil => exact ⟨rfl, rfl⟩
    | cons c x => simp [(h rfl).digit]
  | cons d cs ih =>
    cases hd : isAsciiDigit d with
    | true =>
      rw [List.dropWhile_cons_of_pos hd] at h
      obtain ⟨htake, hdrop⟩ := ih h
      simp [hd, htake, hdrop]
    | false => simp [hd]

/-- The sign of an exponent and what is behind it. -/
def signed : List Char → List Char × List Char
  | '+' :: r => (['+'], r)
  | '-' :: r => (['-'], r)
  | r => ([], r)

theorem signed_append (h : cs ≠ []) (x : List Char) :
    signed (cs ++ x) = ((signed cs).1, (signed cs).2 ++ x) := by
  obtain ⟨c, cs, rfl⟩ := List.exists_cons_of_ne_nil h
  by_cases hplus : c = '+'
  · subst hplus
    rfl
  by_cases hminus : c = '-'
  · subst hminus
    rfl
  have hother : ∀ cs, signed (c :: cs) = ([], c :: cs) := by
    intro cs
    rw [signed]
    · exact fun _ h => hplus (List.cons.inj h).1
    · exact fun _ h => hminus (List.cons.inj h).1
  rw [List.cons_append, hother, hother]
  rfl

theorem exponent_cons (e : Char) (cs : List Char) :
    exponent (e :: cs) =
      if e == 'e' || e == 'E' then
        if ((signed cs).2.takeWhile isAsciiDigit).isEmpty then ([], e :: cs)
        else (e :: (signed cs).1 ++ (signed cs).2.takeWhile isAsciiDigit,
          (signed cs).2.dropWhile isAsciiDigit)
      else ([], e :: cs) := rfl

theorem exponent_append {power r : List Char} (h : exponent cs = (power, r)) (hr : Apart (r ++ x)) :
    exponent (cs ++ x) = (power, r ++ x) := by
  cases cs with
  | nil =>
    obtain ⟨rfl, rfl⟩ := Prod.mk.inj h
    cases x with
    | nil => rfl
    | cons c x => rw [List.nil_append, exponent_cons, hr.mark, if_neg Bool.false_ne_true]
  | cons e cs =>
    rw [exponent_cons] at h
    rw [List.cons_append, exponent_cons]
    cases he : e == 'e' || e == 'E' with
    | false =>
      rw [he, if_neg Bool.false_ne_true] at h
      obtain ⟨rfl, rfl⟩ := Prod.mk.inj h
      rfl
    | true =>
      rw [he, if_pos rfl] at h
      rw [if_pos rfl]
      split_ifs at h with hempty
      · -- A mark without digits would be left over, and a number goes on with it.
        obtain ⟨-, rfl⟩ := Prod.mk.inj h
        rw [Apart.mark hr] at he
        cases he
      · obtain ⟨rfl, rfl⟩ := Prod.mk.inj h
        have hne : cs ≠ [] := by
          rintro rfl
          exact hempty rfl
        have hends : (signed cs).2.dropWhile isAsciiDigit = [] → Apart x := fun hrest => by
          rwa [hrest] at hr
        obtain ⟨htake, hdrop⟩ := digits_append hends
        rw [signed_append hne]
        dsimp only
        rw [htake, hdrop, if_neg hempty]

theorem fraction_alone (h : ∀ more, cs ≠ '.' :: more) : fraction cs = ([], cs) := by
  unfold fraction
  split
  next => exact absurd rfl (h _)
  next => rfl

theorem fraction_cons (d : Char) (cs : List Char) :
    fraction ('.' :: d :: cs) =
      if isAsciiDigit d then ('.' :: d :: cs.takeWhile isAsciiDigit, cs.dropWhile isAsciiDigit)
      else ([], '.' :: d :: cs) := rfl

theorem fraction_append {part r power r' : List Char} (h : fraction cs = (part, r))
    (hpower : exponent r = (power, r')) (hr : Apart (r' ++ x)) :
    fraction (cs ++ x) = (part, r ++ x) := by
  by_cases hdot : ∃ more, cs = '.' :: more
  · obtain ⟨more, rfl⟩ := hdot
    cases more with
    | nil =>
      obtain ⟨rfl, rfl⟩ := Prod.mk.inj h
      obtain ⟨-, rfl⟩ := Prod.mk.inj hpower
      cases hr '.' rfl
    | cons d ds =>
      rw [fraction_cons] at h
      rw [List.cons_append, List.cons_append, fraction_cons]
      split_ifs at h ⊢ with hd
      · obtain ⟨rfl, rfl⟩ := Prod.mk.inj h
        have hends : ds.dropWhile isAsciiDigit = [] → Apart x := fun hrest => by
          rw [hrest] at hpower
          obtain ⟨-, rfl⟩ := Prod.mk.inj hpower
          exact hr
        obtain ⟨htake, hdrop⟩ := digits_append hends
        rw [htake, hdrop]
      · obtain ⟨rfl, rfl⟩ := Prod.mk.inj h
        rfl
  · push Not at hdot
    rw [fraction_alone hdot] at h
    obtain ⟨rfl, rfl⟩ := Prod.mk.inj h
    refine fraction_alone fun more hmore => ?_
    cases cs with
    | nil =>
      obtain ⟨-, rfl⟩ := Prod.mk.inj hpower
      rw [List.nil_append] at hmore hr
      subst hmore
      cases hr '.' rfl
    | cons c cs =>
      rw [List.cons_append, List.cons.injEq] at hmore
      exact hdot cs (by rw [hmore.1])

/-- The digits in front of the point: a zero stands alone. -/
def wholePart (cs : List Char) : List Char :=
  match cs with
  | '0' :: _ => ['0']
  | r => r.takeWhile isAsciiDigit

/-- A number behind its sign. -/
def unsigned (negative : Bool) (whole : List Char) (cs : List Char) :
    Except Stop (Value × List Char) :=
  let part := fraction cs
  let power := exponent part.2
  if part.1.isEmpty && power.1.isEmpty then
    if whole.length > maxDigits then .error (.number (.tooLong whole.length))
    else .ok (.int (if negative then -(digitsValue whole : Int) else digitsValue whole), power.2)
  else .ok (.float ((readDecimal? negative (whole ++ part.1 ++ power.1)).getD nan), power.2)

/-- Whether a number is negative, and what is behind its sign. -/
def signOf (cs : List Char) : Bool × List Char :=
  match cs with
  | '-' :: r => (true, r)
  | r => (false, r)

theorem number_eq (cs : List Char) :
    number cs =
      if (wholePart (signOf cs).2).isEmpty then .error (.fault .value cs)
      else unsigned (signOf cs).1 (wholePart (signOf cs).2)
        ((signOf cs).2.drop (wholePart (signOf cs).2).length) := rfl

theorem signOf_append (h : cs ≠ []) (x : List Char) :
    signOf (cs ++ x) = ((signOf cs).1, (signOf cs).2 ++ x) := by
  obtain ⟨c, cs, rfl⟩ := List.exists_cons_of_ne_nil h
  by_cases hminus : c = '-'
  · subst hminus
    rfl
  have hother : ∀ cs, signOf (c :: cs) = (false, c :: cs) := by
    intro cs
    rw [signOf]
    exact fun _ h => hminus (List.cons.inj h).1
  rw [List.cons_append, hother, hother]
  rfl

theorem rest_of_unsigned {negative : Bool} {whole : List Char}
    (h : unsigned negative whole cs = .ok (v, rest)) : rest = (exponent (fraction cs).2).2 := by
  unfold unsigned at h
  dsimp only at h
  split_ifs at h <;> exact (Prod.mk.inj (Except.ok.inj h)).2.symm

theorem unsigned_append {negative : Bool} {whole r : List Char}
    (h : unsigned negative whole cs = .ok (v, r)) (hr : Apart (r ++ x)) :
    unsigned negative whole (cs ++ x) = .ok (v, r ++ x) := by
  have hpower : exponent (fraction cs).2 = ((exponent (fraction cs).2).1, r) := by
    rw [rest_of_unsigned h]
  have hfraction := fraction_append (Prod.mk.eta (p := fraction cs)).symm hpower hr
  have hexponent := exponent_append hpower hr
  unfold unsigned at h ⊢
  rw [hfraction]
  dsimp only at h ⊢
  rw [hexponent]
  dsimp only
  split_ifs at h ⊢ <;> cases h <;> rfl

theorem wholePart_append (hne : (wholePart cs).isEmpty = false)
    (hx : cs.drop (wholePart cs).length = [] → Apart x) :
    wholePart (cs ++ x) = wholePart cs ∧
      (cs ++ x).drop (wholePart cs).length = cs.drop (wholePart cs).length ++ x := by
  cases cs with
  | nil => cases hne
  | cons c cs =>
    by_cases hzero : c = '0'
    · subst hzero
      exact ⟨rfl, rfl⟩
    · have hother : ∀ cs, wholePart (c :: cs) = (c :: cs).takeWhile isAsciiDigit := by
        intro cs
        rw [wholePart]
        exact fun _ h => hzero (List.cons.inj h).1
      have hdrop : ∀ ds : List Char,
          ds.drop (ds.takeWhile isAsciiDigit).length = ds.dropWhile isAsciiDigit := by
        intro ds
        calc ds.drop (ds.takeWhile isAsciiDigit).length
            = (ds.takeWhile isAsciiDigit ++ ds.dropWhile isAsciiDigit).drop
                (ds.takeWhile isAsciiDigit).length := by rw [List.takeWhile_append_dropWhile]
          _ = ds.dropWhile isAsciiDigit := List.drop_left
      rw [hother, hdrop] at hx
      obtain ⟨htake, hrest⟩ := digits_append hx
      rw [← hdrop (c :: cs), ← hdrop (c :: cs ++ x), htake] at hrest
      rw [List.cons_append, hother, hother, ← List.cons_append]
      exact ⟨htake, hrest⟩

theorem number_append (h : number cs = .ok (v, rest)) (hrest : Apart (rest ++ x)) :
    number (cs ++ x) = .ok (v, rest ++ x) := by
  have hne : cs ≠ [] := by
    rintro rfl
    cases h
  rw [number_eq] at h
  rw [number_eq, signOf_append hne]
  dsimp only
  generalize signOf cs = sign at h
  obtain ⟨negative, body⟩ := sign
  dsimp only at h ⊢
  cases hwhole : (wholePart body).isEmpty with
  | true =>
    rw [hwhole, if_pos rfl] at h
    cases h
  | false =>
    rw [hwhole, if_neg Bool.false_ne_true] at h
    have hends : body.drop (wholePart body).length = [] → Apart x := fun hempty => by
      rw [hempty] at h
      rwa [rest_of_unsigned h] at hrest
    obtain ⟨hpart, hdrop⟩ := wholePart_append hwhole hends
    rw [hpart, hwhole, if_neg Bool.false_ne_true, hdrop]
    exact unsigned_append h hrest

/-! ## Constants -/

/-- The constant at the front of a text and what is behind it. -/
def constant? (cs : List Char) : Option (Value × List Char) :=
  constants.findSome? fun (word, v) => (after? word cs).map fun rest => (v, rest)

theorem atom_eq (cs : List Char) :
    atom cs = match constant? cs with
      | some r => .ok r
      | none => number cs := rfl

theorem constant?_append (h : constant? cs = some (v, rest)) (x : List Char) :
    constant? (cs ++ x) = some (v, rest ++ x) := by
  obtain ⟨⟨word, w⟩, hmem, hafter⟩ := List.exists_of_findSome?_eq_some h
  obtain ⟨r, hr, heq⟩ := Option.map_eq_some_iff.1 hafter
  obtain ⟨rfl, rfl⟩ := Prod.mk.inj heq
  obtain rfl := after?_eq_some_iff.1 hr
  simp only [constants, List.mem_cons, Prod.mk.injEq, List.not_mem_nil, or_false] at hmem
  rcases hmem with ⟨rfl, rfl⟩ | ⟨rfl, rfl⟩ | ⟨rfl, rfl⟩ | ⟨rfl, rfl⟩ | ⟨rfl, rfl⟩ | ⟨rfl, rfl⟩ <;>
    simp [constant?, constants, after?]

theorem constant?_digit {c : Char} (hc : isAsciiDigit c = true) (cs : List Char) :
    constant? (c :: cs) = none ∧ constant? ('-' :: c :: cs) = none := by
  have hne : ∀ k, isAsciiDigit k = false → k ≠ c := by
    rintro k hk rfl
    rw [hc] at hk
    cases hk
  simp [constant?, constants, after?, hne 'n' rfl, hne 't' rfl, hne 'f' rfl, hne 'N' rfl,
    hne 'I' rfl, hne '-' rfl]

theorem wholePart_front (h : (wholePart cs).isEmpty = false) :
    ∃ c more, cs = c :: more ∧ isAsciiDigit c = true := by
  cases cs with
  | nil => cases h
  | cons c cs =>
    refine ⟨c, cs, rfl, ?_⟩
    by_contra hc
    have hother : wholePart (c :: cs) = (c :: cs).takeWhile isAsciiDigit := by
      rw [wholePart]
      rintro ds hds
      rw [(List.cons.inj hds).1] at hc
      exact hc rfl
    rw [hother, List.takeWhile_cons_of_neg hc] at h
    cases h

theorem signOf_cases (cs : List Char) : cs = (signOf cs).2 ∨ cs = '-' :: (signOf cs).2 := by
  unfold signOf
  split
  next => exact .inr rfl
  next => exact .inl rfl

theorem number_front (h : number cs = .ok (v, rest)) :
    ∃ c more, isAsciiDigit c = true ∧ (cs = c :: more ∨ cs = '-' :: c :: more) := by
  rw [number_eq] at h
  cases hwhole : (wholePart (signOf cs).2).isEmpty with
  | true =>
    rw [hwhole, if_pos rfl] at h
    cases h
  | false =>
    obtain ⟨c, more, hbody, hc⟩ := wholePart_front hwhole
    exact ⟨c, more, hc, hbody ▸ signOf_cases cs⟩

theorem atom_append (h : atom cs = .ok (v, rest)) (hrest : Apart (rest ++ x)) :
    atom (cs ++ x) = .ok (v, rest ++ x) := by
  rw [atom_eq] at h ⊢
  cases hconstant : constant? cs with
  | some r =>
    rw [hconstant] at h
    rw [constant?_append (Except.ok.inj h ▸ hconstant) x]
  | none =>
    rw [hconstant] at h
    have hnone : constant? (cs ++ x) = none := by
      obtain ⟨c, more, hc, rfl | rfl⟩ := number_front h
      · exact (constant?_digit hc _).1
      · exact (constant?_digit hc _).2
    rw [hnone]
    exact number_append h hrest

/-! ## Values -/

/-- A value is read alike with more fuel and when the text goes on, unless it is a number with which
the text goes on. -/
def ValueExtends (fuel : Nat) : Prop :=
  ∀ {fuel' cs v rest x}, fuel ≤ fuel' → value fuel cs = .ok (v, rest) →
    (Apart (rest ++ x) ∨ ∃ fields, v = .map fields) → value fuel' (cs ++ x) = .ok (v, rest ++ x)

/-- The same for the members of an object. -/
def MembersExtend (fuel : Nat) : Prop :=
  ∀ {fuel' acc cs v rest x}, fuel ≤ fuel' → members fuel acc cs = .ok (v, rest) →
    members fuel' acc (cs ++ x) = .ok (v, rest ++ x)

/-- The same for the items of an array. -/
def ItemsExtend (fuel : Nat) : Prop :=
  ∀ {fuel' acc cs v rest x}, fuel ≤ fuel' → items fuel acc cs = .ok (v, rest) →
    items fuel' acc (cs ++ x) = .ok (v, rest ++ x)

theorem isNumeral_of_isSpace {c : Char} (h : isSpace c = true) : isNumeral c = false := by
  simp only [isSpace, Bool.or_eq_true, beq_iff_eq] at h
  rcases h with ((rfl | rfl) | rfl) | rfl <;> rfl

/-- What a comma or a bracket follows is no number that goes on. -/
theorem apart_of_skip {c : Char} {r : List Char} (h : skip cs = c :: r) (hc : isNumeral c = false)
    (x : List Char) : Apart (cs ++ x) := by
  cases cs with
  | nil => cases h
  | cons d cs =>
    refine .of_cons ?_ (cs ++ x)
    cases hd : isSpace d with
    | true => exact isNumeral_of_isSpace hd
    | false =>
      rw [skip, List.dropWhile_cons_of_neg (by simp [hd])] at h
      rwa [(List.cons.inj h).1]

theorem ne_nil_of_value (h : value fuel cs = .ok (v, rest)) : cs ≠ [] := by
  rintro rfl
  cases fuel with
  | zero => cases h
  | succ fuel =>
    rw [value, atom_eq] at h
    · cases h
    all_goals exact nofun

theorem quote_of_members {acc : List (Value × Value)} (h : members fuel acc cs = .ok (v, rest)) :
    ∃ more, cs = '\"' :: more := by
  cases fuel with
  | zero => cases h
  | succ fuel =>
    unfold members at h
    split at h
    next => exact ⟨_, rfl⟩
    next => cases h

theorem ne_nil_of_members {acc : List (Value × Value)} (h : members fuel acc cs = .ok (v, rest)) :
    cs ≠ [] := by
  obtain ⟨more, rfl⟩ := quote_of_members h
  exact List.cons_ne_nil _ _

/-- What follows a member. -/
def afterMember (fuel : Nat) (acc : List (Value × Value)) :
    List Char → Except Stop (Value × List Char)
  | '}' :: r => .ok (.map acc, r)
  | ',' :: r => members fuel acc (skip r)
  | r => .error (.fault .comma r)

/-- What follows the name of a member. -/
def afterName (fuel : Nat) (acc : List (Value × Value)) (name : String) :
    List Char → Except Stop (Value × List Char)
  | ':' :: r =>
    match value fuel (skip r) with
    | .error e => .error e
    | .ok (v, r) => afterMember fuel (Value.putEntry (.text name) v acc) (skip r)
  | r => .error (.fault .colon r)

/-- What follows an item. -/
def afterItem (fuel : Nat) (acc : List Value) : List Char → Except Stop (Value × List Char)
  | ']' :: r => .ok (.list acc.reverse, r)
  | ',' :: r => items fuel acc (skip r)
  | r => .error (.fault .comma r)

theorem members_quote (fuel : Nat) (acc : List (Value × Value)) (cs : List Char) :
    members (fuel + 1) acc ('\"' :: cs) =
      match string ('\"' :: cs) cs with
      | .error e => .error e
      | .ok (name, r) => afterName fuel acc name (skip r) := by
  rw [members]
  cases string ('\"' :: cs) cs with
  | error e => rfl
  | ok r =>
    dsimp only [bind, Except.bind]
    generalize skip r.2 = q
    split
    next r' =>
      rw [afterName]
      cases value fuel (skip r') <;> rfl
    next hcolon =>
      rw [afterName]
      exact hcolon

theorem items_succ (fuel : Nat) (acc : List Value) (cs : List Char) :
    items (fuel + 1) acc cs =
      match value fuel cs with
      | .error e => .error e
      | .ok (v, r) => afterItem fuel (v :: acc) (skip r) := by
  rw [items]
  cases value fuel cs with
  | error e => rfl
  | ok r => rfl

theorem ne_nil_of_items {acc : List Value} (h : items fuel acc cs = .ok (v, rest)) : cs ≠ [] := by
  cases fuel with
  | zero => cases h
  | succ fuel =>
    rw [items_succ] at h
    cases hread : value fuel cs with
    | error e =>
      rw [hread] at h
      cases h
    | ok r => exact ne_nil_of_value hread

theorem afterMember_append (hmembers : MembersExtend fuel) (hfuel : fuel ≤ fuel')
    {acc : List (Value × Value)} (h : afterMember fuel acc (skip cs) = .ok (v, rest)) :
    Apart (cs ++ x) ∧ afterMember fuel' acc (skip (cs ++ x)) = .ok (v, rest ++ x) := by
  cases hskip : skip cs with
  | nil =>
    rw [hskip] at h
    cases h
  | cons c r =>
    rw [hskip] at h
    rw [skip_append hskip]
    unfold afterMember at h
    split at h
    next r' hc =>
      obtain ⟨rfl, rfl⟩ := List.cons.inj hc
      cases h
      exact ⟨apart_of_skip hskip rfl x, rfl⟩
    next r' hc =>
      obtain ⟨rfl, rfl⟩ := List.cons.inj hc
      refine ⟨apart_of_skip hskip rfl x, ?_⟩
      obtain ⟨d, r'', hr⟩ := List.exists_cons_of_ne_nil (ne_nil_of_members h)
      rw [hr] at h
      rw [afterMember, skip_append hr]
      exact hmembers hfuel h
    next => cases h

theorem afterName_append (hvalue : ValueExtends fuel) (hmembers : MembersExtend fuel)
    (hfuel : fuel ≤ fuel') {acc : List (Value × Value)} {name : String}
    (h : afterName fuel acc name (skip cs) = .ok (v, rest)) :
    afterName fuel' acc name (skip (cs ++ x)) = .ok (v, rest ++ x) := by
  cases hskip : skip cs with
  | nil =>
    rw [hskip] at h
    cases h
  | cons c r =>
    rw [hskip] at h
    rw [skip_append hskip]
    unfold afterName at h
    split at h
    next r' hc =>
      obtain ⟨rfl, rfl⟩ := List.cons.inj hc
      cases hread : value fuel (skip r) with
      | error e =>
        rw [hread] at h
        cases h
      | ok w =>
        rw [hread] at h
        obtain ⟨d, r'', hr⟩ := List.exists_cons_of_ne_nil (ne_nil_of_value hread)
        obtain ⟨hrest, hmember⟩ := afterMember_append (x := x) hmembers hfuel h
        rw [hr] at hread
        rw [afterName, skip_append hr, ← List.cons_append, hvalue hfuel hread (.inl hrest)]
        exact hmember
    next => cases h

theorem afterItem_append (hitems : ItemsExtend fuel) (hfuel : fuel ≤ fuel') {acc : List Value}
    (h : afterItem fuel acc (skip cs) = .ok (v, rest)) :
    Apart (cs ++ x) ∧ afterItem fuel' acc (skip (cs ++ x)) = .ok (v, rest ++ x) := by
  cases hskip : skip cs with
  | nil =>
    rw [hskip] at h
    cases h
  | cons c r =>
    rw [hskip] at h
    rw [skip_append hskip]
    unfold afterItem at h
    split at h
    next r' hc =>
      obtain ⟨rfl, rfl⟩ := List.cons.inj hc
      cases h
      exact ⟨apart_of_skip hskip rfl x, rfl⟩
    next r' hc =>
      obtain ⟨rfl, rfl⟩ := List.cons.inj hc
      refine ⟨apart_of_skip hskip rfl x, ?_⟩
      obtain ⟨d, r'', hr⟩ := List.exists_cons_of_ne_nil (ne_nil_of_items h)
      rw [hr] at h
      rw [afterItem, skip_append hr]
      exact hitems hfuel h
    next => cases h

/-! ### Induction on the fuel -/

theorem membersExtend_succ (hvalue : ValueExtends fuel) (hmembers : MembersExtend fuel) :
    MembersExtend (fuel + 1) := by
  intro fuel' acc cs v rest x hfuel h
  obtain ⟨fuel', rfl⟩ : ∃ k, fuel' = k + 1 := ⟨fuel' - 1, by omega⟩
  replace hfuel := Nat.le_of_succ_le_succ hfuel
  obtain ⟨more, rfl⟩ := quote_of_members h
  rw [members_quote] at h
  rw [List.cons_append, members_quote]
  cases hstring : string ('\"' :: more) more with
  | error e =>
    rw [hstring] at h
    cases h
  | ok r =>
    rw [hstring] at h
    rw [string_append hstring]
    exact afterName_append hvalue hmembers hfuel h

theorem itemsExtend_succ (hvalue : ValueExtends fuel) (hitems : ItemsExtend fuel) :
    ItemsExtend (fuel + 1) := by
  intro fuel' acc cs v rest x hfuel h
  obtain ⟨fuel', rfl⟩ : ∃ k, fuel' = k + 1 := ⟨fuel' - 1, by omega⟩
  replace hfuel := Nat.le_of_succ_le_succ hfuel
  rw [items_succ] at h ⊢
  cases hread : value fuel cs with
  | error e =>
    rw [hread] at h
    cases h
  | ok r =>
    rw [hread] at h
    obtain ⟨hrest, hitem⟩ := afterItem_append (x := x) hitems hfuel h
    rw [hvalue hfuel hread (.inl hrest)]
    exact hitem

theorem value_string (fuel : Nat) (cs : List Char) :
    value (fuel + 1) ('\"' :: cs) = (string ('\"' :: cs) cs).map fun (s, r) => (.text s, r) := by
  rw [value]

theorem value_object (fuel : Nat) (cs : List Char) :
    value (fuel + 1) ('{' :: cs) =
      match skip cs with
      | '}' :: r => .ok (.map [], r)
      | r => members fuel [] r := rfl

theorem value_array (fuel : Nat) (cs : List Char) :
    value (fuel + 1) ('[' :: cs) =
      match skip cs with
      | ']' :: r => .ok (.list [], r)
      | r => items fuel [] r := rfl

theorem value_atom {c : Char} (hc : c ≠ '\"' ∧ c ≠ '{' ∧ c ≠ '[') (fuel : Nat) (cs : List Char) :
    value (fuel + 1) (c :: cs) = atom (c :: cs) := by
  rw [value]
  · exact fun _ h => hc.1 (List.cons.inj h).1
  · exact fun _ h => hc.2.1 (List.cons.inj h).1
  · exact fun _ h => hc.2.2 (List.cons.inj h).1

theorem object_append (hmembers : MembersExtend fuel) (hfuel : fuel ≤ fuel')
    (h : value (fuel + 1) ('{' :: cs) = .ok (v, rest)) :
    value (fuel' + 1) ('{' :: (cs ++ x)) = .ok (v, rest ++ x) := by
  rw [value_object] at h ⊢
  split at h
  next r hskip =>
    cases h
    rw [skip_append hskip]
    rfl
  next r hclose =>
    obtain ⟨more, hskip⟩ := quote_of_members h
    rw [hskip] at h
    rw [skip_append hskip]
    exact hmembers hfuel h

theorem array_append (hitems : ItemsExtend fuel) (hfuel : fuel ≤ fuel')
    (h : value (fuel + 1) ('[' :: cs) = .ok (v, rest)) :
    value (fuel' + 1) ('[' :: (cs ++ x)) = .ok (v, rest ++ x) := by
  rw [value_array] at h ⊢
  split at h
  next r hskip =>
    cases h
    rw [skip_append hskip]
    rfl
  next r hclose =>
    obtain ⟨d, more, hskip⟩ := List.exists_cons_of_ne_nil (ne_nil_of_items h)
    rw [hskip] at h hclose
    rw [skip_append hskip]
    split
    next r hr => exact absurd (by rw [(List.cons.inj hr).1]) (hclose more)
    next => exact hitems hfuel h

theorem atom_ne_map (fields : List (Value × Value)) : atom cs ≠ .ok (.map fields, rest) := by
  intro h
  rw [atom_eq] at h
  cases hconstant : constant? cs with
  | some r =>
    rw [hconstant] at h
    obtain rfl := Except.ok.inj h
    obtain ⟨⟨word, w⟩, hmem, hafter⟩ := List.exists_of_findSome?_eq_some hconstant
    obtain ⟨r, -, heq⟩ := Option.map_eq_some_iff.1 hafter
    obtain ⟨rfl, rfl⟩ := Prod.mk.inj heq
    simp [constants] at hmem
  | none =>
    rw [hconstant] at h
    dsimp only at h
    rw [number_eq] at h
    unfold unsigned at h
    dsimp only at h
    split_ifs at h <;> cases h

theorem valueExtends_succ (hmembers : MembersExtend fuel) (hitems : ItemsExtend fuel) :
    ValueExtends (fuel + 1) := by
  intro fuel' cs v rest x hfuel h hend
  obtain ⟨fuel', rfl⟩ : ∃ k, fuel' = k + 1 := ⟨fuel' - 1, by omega⟩
  replace hfuel := Nat.le_of_succ_le_succ hfuel
  obtain ⟨c, cs, rfl⟩ := List.exists_cons_of_ne_nil (ne_nil_of_value h)
  rw [List.cons_append]
  by_cases hquote : c = '\"'
  · subst hquote
    rw [value_string] at h ⊢
    cases hstring : string ('\"' :: cs) cs with
    | error e =>
      rw [hstring] at h
      cases h
    | ok r =>
      rw [hstring] at h
      cases h
      rw [string_append hstring]
      rfl
  by_cases hobject : c = '{'
  · subst hobject
    exact object_append hmembers hfuel h
  by_cases harray : c = '['
  · subst harray
    exact array_append hitems hfuel h
  have hother := value_atom ⟨hquote, hobject, harray⟩
  rw [hother] at h ⊢
  rcases hend with hend | ⟨fields, rfl⟩
  · exact atom_append h hend
  · exact absurd h (atom_ne_map fields)

/-- The induction: each reader calls the others with less fuel. -/
theorem extends_all (fuel : Nat) : ValueExtends fuel ∧ MembersExtend fuel ∧ ItemsExtend fuel := by
  induction fuel with
  | zero => exact ⟨fun _ h => (nomatch h), fun _ h => (nomatch h), fun _ h => (nomatch h)⟩
  | succ fuel ih =>
    exact ⟨valueExtends_succ ih.2.1 ih.2.2, membersExtend_succ ih.1 ih.2.1,
      itemsExtend_succ ih.1 ih.2.2⟩

/-- An object at the front of a text is read alike when the text goes on. -/
theorem object_extends {fields : List (Value × Value)} (h : value fuel cs = .ok (.map fields, rest))
    (hfuel : fuel ≤ fuel') (x : List Char) : value fuel' (cs ++ x) = .ok (.map fields, rest ++ x) :=
  (extends_all fuel).1 hfuel h (.inr ⟨fields, rfl⟩)

theorem items_ne_map {acc : List Value} (fields : List (Value × Value)) :
    items fuel acc cs ≠ .ok (.map fields, rest) := by
  induction fuel generalizing acc cs with
  | zero => exact nofun
  | succ fuel ih =>
    intro h
    rw [items_succ] at h
    cases hread : value fuel cs with
    | error e =>
      rw [hread] at h
      cases h
    | ok r =>
      rw [hread] at h
      dsimp only at h
      unfold afterItem at h
      split at h
      next => cases h
      next => exact ih h
      next => cases h

/-- An object begins with its brace. -/
theorem brace_of_value {fields : List (Value × Value)}
    (h : value fuel cs = .ok (.map fields, rest)) : ∃ more, cs = '{' :: more := by
  obtain ⟨c, cs, rfl⟩ := List.exists_cons_of_ne_nil (ne_nil_of_value h)
  obtain ⟨fuel, rfl⟩ : ∃ k, fuel = k + 1 := by
    cases fuel with
    | zero => cases h
    | succ fuel => exact ⟨fuel, rfl⟩
  by_cases hobject : c = '{'
  · exact ⟨cs, by rw [hobject]⟩
  exfalso
  by_cases hquote : c = '\"'
  · subst hquote
    rw [value_string] at h
    cases hstring : string ('\"' :: cs) cs with
    | error e =>
      rw [hstring] at h
      cases h
    | ok r =>
      rw [hstring] at h
      cases h
  by_cases harray : c = '['
  · subst harray
    rw [value_array] at h
    split at h
    next => cases h
    next => exact items_ne_map fields h
  rw [value_atom ⟨hquote, hobject, harray⟩] at h
  exact atom_ne_map fields h

/-! ## Documents -/

theorem readDocument_eq_ok_iff :
    readDocument cs = .ok v ↔
      ∃ rest, value (cs.length + 1) (skip cs) = .ok (v, rest) ∧ skip rest = [] := by
  unfold readDocument
  cases value (cs.length + 1) (skip cs) with
  | error e => simp
  | ok r =>
    obtain ⟨w, rest⟩ := r
    dsimp only
    split
    next hrest =>
      refine ⟨fun h => ⟨rest, Except.ok.inj h ▸ rfl, hrest⟩, ?_⟩
      rintro ⟨rest', heq, -⟩
      cases heq
      rfl
    next r hrest =>
      refine ⟨fun h => (nomatch h), ?_⟩
      rintro ⟨rest', heq, hend⟩
      cases heq
      exact absurd hend hrest

theorem read_eq_ok_iff :
    read cs = .ok v ↔ cs.head? ≠ some '\uFEFF' ∧ readDocument cs = .ok v := by
  unfold read
  split
  next more => exact ⟨fun h => (nomatch h), fun h => absurd rfl h.1⟩
  next h =>
    refine ⟨fun hread => ⟨fun hhead => ?_, hread⟩, And.right⟩
    obtain ⟨more, rfl⟩ := List.head?_eq_some_iff.1 hhead
    exact h more rfl

theorem skip_eq_nil_iff : skip cs = [] ↔ ∀ c ∈ cs, isSpace c = true :=
  List.dropWhile_eq_nil_iff

theorem brace_of_read {fields : List (Value × Value)} (h : read cs = .ok (.map fields)) :
    ∃ more, skip cs = '{' :: more := by
  obtain ⟨rest, hvalue, -⟩ := readDocument_eq_ok_iff.1 (read_eq_ok_iff.1 h).2
  exact brace_of_value hvalue

/-- The text of an object is read as that object with blanks around it. -/
theorem read_padded {lead body trail : List Char} {fields : List (Value × Value)}
    (h : read body = .ok (.map fields)) (hlead : ∀ c ∈ lead, isSpace c = true)
    (htrail : ∀ c ∈ trail, isSpace c = true) :
    read (lead ++ body ++ trail) = .ok (.map fields) := by
  obtain ⟨hmark, hbody⟩ := read_eq_ok_iff.1 h
  obtain ⟨rest, hvalue, hrest⟩ := readDocument_eq_ok_iff.1 hbody
  obtain ⟨c, more, hskip⟩ := List.exists_cons_of_ne_nil (ne_nil_of_value hvalue)
  refine read_eq_ok_iff.2 ⟨?_, readDocument_eq_ok_iff.2 ⟨rest ++ trail, ?_, ?_⟩⟩
  · cases lead with
    | nil =>
      have hne : body ≠ [] := by
        rintro rfl
        cases hskip
      obtain ⟨d, more, rfl⟩ := List.exists_cons_of_ne_nil hne
      exact hmark
    | cons d lead =>
      intro hd
      have := hlead d List.mem_cons_self
      rw [Option.some.inj hd] at this
      cases this
  · rw [List.append_assoc, skip_of_forall hlead, skip_append hskip, ← List.cons_append, ← hskip]
    exact object_extends hvalue (by simp; omega) trail
  · rw [skip_of_forall (skip_eq_nil_iff.1 hrest)]
    exact skip_eq_nil_iff.2 htrail

/-- No text that stops short of the end of an object reads as an object. -/
theorem read_cut {lead front trail : List Char} {c : Char} {fields : List (Value × Value)}
    (h : read (front ++ trail) = .ok (.map fields)) (hmem : c ∈ trail) (hc : isSpace c = false)
    (hlead : ∀ c ∈ lead, isSpace c = true) (fields' : List (Value × Value)) :
    read (lead ++ front) ≠ .ok (.map fields') := by
  intro hfront
  obtain ⟨rest, hvalue, hrest⟩ := readDocument_eq_ok_iff.1 (read_eq_ok_iff.1 h).2
  obtain ⟨rest', hvalue', -⟩ := readDocument_eq_ok_iff.1 (read_eq_ok_iff.1 hfront).2
  rw [skip_of_forall hlead] at hvalue'
  obtain ⟨d, more, hskip⟩ := List.exists_cons_of_ne_nil (ne_nil_of_value hvalue')
  have hwhole := object_extends hvalue
    (Nat.le_max_right ((lead ++ front).length + 1) _) []
  have hcut := object_extends hvalue'
    (Nat.le_max_left _ ((front ++ trail).length + 1)) trail
  -- Both read the whole text, so what one leaves behind is what the other does.
  rw [List.append_nil, skip_append hskip, ← List.cons_append, ← hskip, hcut] at hwhole
  obtain ⟨-, hends⟩ := Prod.mk.inj (Except.ok.inj hwhole)
  rw [List.append_nil] at hends
  have hblank := skip_eq_nil_iff.1 hrest c (hends ▸ List.mem_append_right rest' hmem)
  rw [hc] at hblank
  cases hblank

end DocSearch.Json
