import Mathlib.Data.List.Basic
import Mathlib.Data.Nat.Digits.Defs
import Mathlib.Tactic.SplitIfs
import DocSearch.Prompt.Quote

/-!
# Quoted text is read back

A reader of quoted text goes from character to character and knows no more than whether it stands
between two characters, behind a backslash or inside a numeric escape (`Reading`). It knows all
escapes of interpreted string literals in Go. A quoted text is read back as it was, and what follows
the closing quote is left (`unquote?_quoteChars`).

Every character is quoted in one of three ways (`quoteChar_cases`), and the reader takes each of
them for the character that it stands for (`readFrom_quoteChar`). No quoted character escapes what
comes next, and a quote in one is escaped, so behind the opening quote the closing one is the only
quote that is not (`escapesNext_iff_ne_nil`).

**`quoting_is_lossless`** All this holds of texts in which surrogates may stand as well, whatever
class of characters is taken for the printable ones. If no control character is in the class and the
ASCII characters from the space to the tilde are, a quoted text is printable throughout.
-/

namespace DocSearch.Prompt

open Text Coded

variable {α : Type} [Coded α] {printable : α → Bool}

/-! ## Reading quoted text -/

/-- The character that a letter behind a backslash stands for. -/
def escapeMeaning? : Char → Option Char
  | 'a' => some '\x07'
  | 'b' => some '\x08'
  | 'f' => some '\x0c'
  | 'n' => some '\n'
  | 'r' => some '\r'
  | 't' => some '\t'
  | 'v' => some '\x0b'
  | '\\' => some '\\'
  | '\"' => some '\"'
  | _ => none

/-- The value of a digit, if it is one in the given base. -/
def digitOf? (base : Nat) (c : Char) : Option Nat :=
  if isHexDigit c && hexValue c < base then some (hexValue c) else none

/-- Where a reader of quoted text stands: between two characters, behind a backslash, or in front of
the last `digits` digits of a numeric escape in base `base`. The digits before these have the value
`value`, and the value of them all has to be below `bound`. -/
inductive Reading where
  | text
  | escape
  | number (base bound digits value : Nat)

/-- How a numeric escape goes on behind its letter or its first octal digit. With two hexadecimal or
three octal digits an escape stands for a byte, and bytes are characters up to `7f`. -/
def numericReading? : Char → Option Reading
  | 'x' => some (.number 16 0x80 2 0)
  | 'u' => some (.number 16 0x110000 4 0)
  | 'U' => some (.number 16 0x110000 8 0)
  | d => (digitOf? 8 d).map fun v => .number 8 0x80 2 v

/-- Reads up to the closing quote: the characters, and what follows the quote. -/
def readFrom : Reading → List α → Option (List α × List α)
  | _, [] => none
  | .text, a :: as =>
    if char? a = some '\"' then some ([], as)
    else if char? a = some '\n' then none
    else if char? a = some '\\' then readFrom .escape as
    else (readFrom .text as).map fun r => (a :: r.1, r.2)
  | .escape, e :: as =>
    match (char? e).bind numericReading?, (char? e).bind escapeMeaning? with
    | some reading, _ => readFrom reading as
    | none, some c => (readFrom .text as).map fun r => (ofChar c :: r.1, r.2)
    | none, none => none
  | .number base bound digits value, d :: as =>
    match (char? d).bind (digitOf? base) with
    | none => none
    | some v =>
      if digits ≠ 1 then readFrom (.number base bound (digits - 1) (base * value + v)) as
      else if base * value + v < bound then
        (ofCode? (base * value + v)).bind fun a => (readFrom .text as).map fun r => (a :: r.1, r.2)
      else none

/-- Reads a quoted text, quotes included. -/
def unquote? : List α → Option (List α × List α)
  | [] => none
  | a :: as => if char? a = some '\"' then readFrom .text as else none

/-! ## Numeric escapes -/

theorem isHexDigit_iff {c : Char} : isHexDigit c = true ↔
    (48 ≤ c.toNat ∧ c.toNat ≤ 57) ∨ (97 ≤ c.toNat ∧ c.toNat ≤ 102) ∨
      (65 ≤ c.toNat ∧ c.toNat ≤ 70) := by
  simp only [isHexDigit, isAsciiDigit, Bool.or_eq_true, Bool.and_eq_true, decide_eq_true_eq,
    or_assoc]
  exact Iff.rfl

theorem hexValue_lt (d : Char) : hexValue d < 16 := by
  unfold hexValue
  simp only [isAsciiDigit, Bool.and_eq_true, decide_eq_true_eq]
  change (if 48 ≤ d.toNat ∧ d.toNat ≤ 57 then _ else if 97 ≤ d.toNat ∧ d.toNat ≤ 102 then _ else
    if 65 ≤ d.toNat ∧ d.toNat ≤ 70 then _ else _) < 16
  split_ifs <;> omega

theorem digitOf?_sixteen {d : Char} (h : isHexDigit d = true) :
    digitOf? 16 d = some (hexValue d) := by
  simp [digitOf?, h, hexValue_lt]

theorem isHexDigit_digitChar {n : Nat} (h : n < 16) :
    isHexDigit n.digitChar = true ∧ hexValue n.digitChar = n := by
  revert n
  decide

/-- The value of hexadecimal digits behind others of the value `value`. -/
def hexFrom (value : Nat) (ds : List Char) : Nat := ds.foldl (fun v d => 16 * v + hexValue d) value

theorem hexFrom_toDigits (n : Nat) :
    (∀ d ∈ Nat.toDigits 16 n, isHexDigit d = true) ∧ hexFrom 0 (Nat.toDigits 16 n) = n := by
  induction n using Nat.strongRecOn with
  | ind n ih =>
    rw [Nat.toDigits_eq_if (by decide)]
    split_ifs with hn
    · obtain ⟨hdigit, hvalue⟩ := isHexDigit_digitChar hn
      exact ⟨by simpa using hdigit, by simpa [hexFrom] using hvalue⟩
    · obtain ⟨hdigits, hvalues⟩ := ih (n / 16) (by omega)
      obtain ⟨hdigit, hvalue⟩ := isHexDigit_digitChar (Nat.mod_lt n (by decide : 0 < 16))
      constructor
      · intro d hd
        rcases List.mem_append.1 hd with hd | hd
        · exact hdigits d hd
        · rw [List.mem_singleton.1 hd]
          exact hdigit
      · rw [hexFrom] at hvalues ⊢
        rw [List.foldl_append, hvalues, List.foldl_cons, List.foldl_nil, hvalue]
        omega

theorem hexDigits_spec {width n : Nat} (hwidth : 0 < width) (h : n < 16 ^ width) :
    (hexDigits width n).length = width ∧ (∀ d ∈ hexDigits width n, isHexDigit d = true) ∧
      hexFrom 0 (hexDigits width n) = n := by
  obtain ⟨hdigits, hvalue⟩ := hexFrom_toDigits n
  have hlen : (Nat.toDigits 16 n).length ≤ width := Nat.toDigits_length 16 n width hwidth h
  have hzeros : ∀ k, hexFrom 0 (List.replicate k '0') = 0 := by
    intro k
    induction k with
    | zero => rfl
    | succ k ih => exact ih
  unfold hexDigits
  refine ⟨?_, ?_, ?_⟩
  · rw [List.length_append, List.length_replicate]
    omega
  · intro d hd
    rcases List.mem_append.1 hd with hd | hd
    · rw [List.eq_of_mem_replicate hd]
      decide
    · exact hdigits d hd
  · rw [hexFrom, List.foldl_append]
    have := hzeros (width - (Nat.toDigits 16 n).length)
    rw [hexFrom] at this hvalue
    rw [this, hvalue]

/-- A numeric escape is read digit by digit. -/
theorem readFrom_number {ds : List Char} (hne : ds ≠ []) (hds : ∀ d ∈ ds, isHexDigit d = true)
    {bound value : Nat} {a : α} (ha : hexFrom value ds = code a) (hbound : code a < bound)
    (as : List α) :
    readFrom (.number 16 bound ds.length value) (ds.map ofChar ++ as) =
      (readFrom .text as).map fun r => (a :: r.1, r.2) := by
  induction ds generalizing value with
  | nil => exact absurd rfl hne
  | cons d ds ih =>
    have hd : digitOf? 16 d = some (hexValue d) := digitOf?_sixteen (hds d List.mem_cons_self)
    rw [List.map_cons, List.cons_append, readFrom]
    cases ds with
    | nil =>
      have hlast : 16 * value + hexValue d = code a := ha
      simp [hd, hlast, hbound, ofCode?_code]
    | cons e ds =>
      have hrest := ih (List.cons_ne_nil e ds) (fun d hd => hds d (List.mem_cons_of_mem _ hd)) ha
      simpa [hd] using hrest

/-! ## Characters -/

theorem shortEscape?_eq_some {c e : Char} (h : shortEscape? c = some e) :
    numericReading? e = none ∧ escapeMeaning? e = some c ∧ 0x20 ≤ e.toNat ∧ e.toNat < 0x7f := by
  unfold shortEscape? at h
  split at h
  case h_10 => cases h
  all_goals
    obtain rfl := Option.some.inj h
    exact ⟨rfl, rfl, by decide⟩

/-- A numeric escape is a backslash, a letter that tells the number of digits, and the digits. -/
theorem numericEscape_cases {n : Nat} (h : n < 0x110000) :
    ∃ e width bound, numericEscape n = '\\' :: e :: hexDigits width n ∧ e ∈ ['x', 'u', 'U'] ∧
      numericReading? e = some (.number 16 bound width 0) ∧ 0 < width ∧ n < 16 ^ width ∧
      n < bound := by
  unfold numericEscape
  split_ifs with hbyte hshort
  · simp only [Bool.or_eq_true, decide_eq_true_eq, beq_iff_eq] at hbyte
    exact ⟨'x', 2, 0x80, rfl, by decide, rfl, by decide, by omega, by omega⟩
  · exact ⟨'u', 4, 0x110000, rfl, by decide, rfl, by decide, hshort, h⟩
  · exact ⟨'U', 8, 0x110000, rfl, by decide, rfl, by decide, by omega, h⟩

/-- What a numeric escape is written with. -/
theorem plain_of_mem_numericEscape {n : Nat} (h : n < 0x110000) {c : Char}
    (hc : c ∈ numericEscape n) : 0x20 ≤ c.toNat ∧ c.toNat < 0x7f ∧ c ≠ '\"' := by
  obtain ⟨e, width, bound, hescape, he, -, hpos, hwidth, -⟩ := numericEscape_cases h
  obtain ⟨-, hdigits, -⟩ := hexDigits_spec hpos hwidth
  rw [hescape, List.mem_cons, List.mem_cons] at hc
  rcases hc with rfl | rfl | hd
  · decide
  · simp only [List.mem_cons, List.not_mem_nil, or_false] at he
    rcases he with rfl | rfl | rfl <;> decide
  · have hrange := isHexDigit_iff.1 (hdigits c hd)
    refine ⟨by omega, by omega, ?_⟩
    rintro rfl
    revert hrange
    decide

/-- **The ways to quote a character**: a short escape, the character itself, or a numeric escape. -/
theorem quoteChar_cases (printable : α → Bool) (a : α) :
    (∃ c e, a = ofChar c ∧ shortEscape? c = some e ∧
      quoteChar printable a = [ofChar '\\', ofChar e]) ∨
    (quoteChar printable a = [a] ∧ printable a = true ∧
      ∀ c, a = ofChar c → shortEscape? c = none) ∨
    quoteChar printable a = (numericEscape (code a)).map ofChar := by
  unfold quoteChar
  cases hshort : (char? a).bind shortEscape? with
  | some e =>
    obtain ⟨c, hc, he⟩ := Option.bind_eq_some_iff.1 hshort
    exact .inl ⟨c, e, char?_eq_some_iff.1 hc, he, rfl⟩
  | none =>
    right
    dsimp only
    split_ifs with hprintable
    · refine .inl ⟨rfl, hprintable, ?_⟩
      rintro c rfl
      simpa using hshort
    · exact .inr rfl

theorem readFrom_quoteChar (printable : α → Bool) (a : α) (as : List α) :
    readFrom .text (quoteChar printable a ++ as) =
      (readFrom .text as).map fun r => (a :: r.1, r.2) := by
  rcases quoteChar_cases printable a with ⟨c, e, rfl, hshort, hquoted⟩ | ⟨hquoted, -, hplain⟩ |
    hquoted
  · obtain ⟨hnumeric, hmeaning, -⟩ := shortEscape?_eq_some hshort
    simp [hquoted, readFrom, hnumeric, hmeaning]
  · have hne : ∀ c, shortEscape? c ≠ none → char? a ≠ some c := fun c hc ha =>
      hc (hplain c (char?_eq_some_iff.1 ha))
    simp [hquoted, readFrom, hne '\"' (by decide), hne '\n' (by decide), hne '\\' (by decide)]
  · obtain ⟨e, width, bound, hescape, -, hnumeric, hpos, hwidth, hbound⟩ :=
      numericEscape_cases (code_lt a)
    obtain ⟨hlen, hdigits, hvalue⟩ := hexDigits_spec hpos hwidth
    have hne : hexDigits width (code a) ≠ [] := List.ne_nil_of_length_pos (by omega)
    have hnumber := readFrom_number hne hdigits hvalue hbound as
    rw [hlen] at hnumber
    simpa [hquoted, hescape, readFrom, hnumeric] using hnumber

/-- **A quoted text is read back**, and what follows it is left. -/
theorem unquote?_quoteChars (printable : α → Bool) (as rest : List α) :
    unquote? (quoteChars printable as ++ rest) = some (as, rest) := by
  have hbody : readFrom .text (as.flatMap (quoteChar printable) ++ ofChar '\"' :: rest) =
      some (as, rest) := by
    induction as with
    | nil => simp [readFrom]
    | cons a as ih =>
      rw [List.flatMap_cons, List.append_assoc, readFrom_quoteChar, ih]
      rfl
  simpa [quoteChars, unquote?] using hbody

/-- Spellings are read that are never written: a character may be escaped in any of the forms. -/
example : unquote? "\"A\\101\\x41\\u0041\\U00000041\" B".toList =
    some ("AAAAA".toList, " B".toList) := by
  decide +kernel

/-! ## Quotes inside -/

/-- Whether what comes next is escaped: a backslash stands in front of it that is not escaped
itself. -/
def escapesNext (as : List α) : Bool :=
  as.foldl (fun escaped a => !escaped && char? a == some '\\') false

theorem escapesNext_append {as bs : List α} (h : escapesNext as = false) :
    escapesNext (as ++ bs) = escapesNext bs := by
  unfold escapesNext at h ⊢
  rw [List.foldl_append, h]

theorem escapesNext_concat (as : List α) {a : α} (h : char? a ≠ some '\\') :
    escapesNext (as ++ [a]) = false := by
  unfold escapesNext
  rw [List.foldl_append]
  simp [h]

/-- No quoted character escapes what comes next. -/
theorem escapesNext_quoteChar (printable : α → Bool) (a : α) :
    escapesNext (quoteChar printable a) = false := by
  rcases quoteChar_cases printable a with ⟨c, e, -, -, hquoted⟩ | ⟨hquoted, -, hplain⟩ | hquoted
  · simp [hquoted, escapesNext]
  · have hslash : char? a ≠ some '\\' := fun ha => by
      cases hplain _ (char?_eq_some_iff.1 ha)
    simpa [hquoted] using escapesNext_concat [] hslash
  · obtain ⟨e, width, bound, hescape, -, -, hpos, hwidth, -⟩ := numericEscape_cases (code_lt a)
    obtain ⟨hlen, hdigits, -⟩ := hexDigits_spec hpos hwidth
    have hne : hexDigits width (code a) ≠ [] := List.ne_nil_of_length_pos (by omega)
    obtain ⟨ds, d, hds⟩ := (List.eq_nil_or_concat' _).resolve_left hne
    have hslash : d ≠ '\\' := by
      rintro rfl
      exact absurd (hdigits '\\' (by simp [hds])) (by decide)
    rw [hquoted, hescape, hds, ← List.cons_append, ← List.cons_append, List.map_append]
    exact escapesNext_concat _ (by simpa using hslash)

/-- A quote in a quoted character is escaped. -/
theorem escapesNext_of_quoteChar {a : α} {u v : List α}
    (h : quoteChar printable a = u ++ ofChar '\"' :: v) : escapesNext u = true := by
  rcases quoteChar_cases printable a with ⟨c, e, -, -, hquoted⟩ | ⟨hquoted, -, hplain⟩ | hquoted
  · rw [hquoted] at h
    match u with
    | [] => simp at h
    | [b] =>
      obtain ⟨rfl, -⟩ := List.cons.inj h
      simp [escapesNext]
    | b :: b' :: u => simp at h
  · rw [hquoted] at h
    obtain ⟨rfl, hlist⟩ := List.append_eq_singleton_iff.1 h.symm |>.resolve_right (by simp)
    obtain ⟨rfl, -⟩ := List.cons.inj hlist
    cases hplain _ rfl
  · have hmem : ofChar '\"' ∈ (numericEscape (code a)).map (ofChar : Char → α) := by
      rw [← hquoted, h]
      simp
    obtain ⟨c, hc, hquote⟩ := List.mem_map.1 hmem
    exact absurd (ofChar_inj.1 hquote) (plain_of_mem_numericEscape (code_lt a) hc).2.2

theorem escapesNext_body (printable : α → Bool) (as : List α) :
    escapesNext (as.flatMap (quoteChar printable)) = false := by
  induction as with
  | nil => rfl
  | cons a as ih =>
    rw [List.flatMap_cons, escapesNext_append (escapesNext_quoteChar printable a), ih]

theorem escapesNext_of_body {as u v : List α}
    (h : as.flatMap (quoteChar printable) = u ++ ofChar '\"' :: v) : escapesNext u = true := by
  induction as generalizing u with
  | nil => simp at h
  | cons a as ih =>
    rw [List.flatMap_cons] at h
    rcases List.append_eq_append_iff.1 h with ⟨u', rfl, hrest⟩ | ⟨w, hfirst, hw⟩
    · rw [escapesNext_append (escapesNext_quoteChar printable a)]
      exact ih hrest
    · cases w with
      | nil =>
        -- The quote is the first of what follows the character.
        have hnone : escapesNext ([] : List α) = true := ih (by simpa using hw.symm)
        cases hnone
      | cons b w =>
        obtain ⟨rfl, -⟩ := List.cons.inj hw
        exact escapesNext_of_quoteChar hfirst

/-- **A quote behind the opening one is escaped** unless it is the closing one. -/
theorem escapesNext_iff_ne_nil {as u v : List α}
    (h : quoteChars printable as = u ++ ofChar '\"' :: v) (hu : u ≠ []) :
    escapesNext u = true ↔ v ≠ [] := by
  obtain ⟨b, u, rfl⟩ := List.exists_cons_of_ne_nil hu
  rw [quoteChars, List.cons_append, List.cons_append] at h
  obtain ⟨rfl, hbody⟩ := List.cons.inj h
  have hopen : escapesNext (ofChar '\"' :: u) = escapesNext u := by
    rw [← List.singleton_append]
    exact escapesNext_append (by simp [escapesNext])
  rw [hopen]
  rcases List.eq_nil_or_concat' v with rfl | ⟨v, c, rfl⟩
  · obtain ⟨rfl, -⟩ := List.append_inj' hbody rfl
    simp [escapesNext_body]
  · have hinner : as.flatMap (quoteChar printable) = u ++ ofChar '\"' :: v := by
      rw [← List.cons_append, ← List.append_assoc] at hbody
      exact (List.append_inj' hbody rfl).1
    simp [escapesNext_of_body hinner]

/-! ## Printable characters -/

/-- The control characters: below the space, and from the delete character on to `9f`. -/
def IsControl (a : α) : Prop := code a < 0x20 ∨ 0x7f ≤ code a ∧ code a < 0xa0

/-- What is asked of a class of printable characters: no control character is in it, and the ASCII
characters from the space to the tilde are. -/
structure Prints (printable : α → Bool) : Prop where
  control : ∀ {a}, IsControl a → printable a = false
  ascii : ∀ {a}, 0x20 ≤ code a → code a < 0x7f → printable a = true

theorem Prints.ofChar (h : Prints printable) {c : Char} (hlow : 0x20 ≤ c.toNat)
    (hhigh : c.toNat < 0x7f) : printable (ofChar c) = true :=
  h.ascii (by rwa [code_ofChar]) (by rwa [code_ofChar])

theorem Prints.of_mem_quoteChar (h : Prints printable) {a b : α}
    (hb : b ∈ quoteChar printable a) : printable b = true := by
  rcases quoteChar_cases printable a with ⟨c, e, -, hshort, hquoted⟩ | ⟨hquoted, hprintable, -⟩ |
    hquoted
  · obtain ⟨-, -, hlow, hhigh⟩ := shortEscape?_eq_some hshort
    rw [hquoted, List.mem_pair] at hb
    rcases hb with rfl | rfl
    · exact h.ofChar (by decide) (by decide)
    · exact h.ofChar hlow hhigh
  · rw [hquoted, List.mem_singleton] at hb
    rwa [hb]
  · rw [hquoted] at hb
    obtain ⟨c, hc, rfl⟩ := List.mem_map.1 hb
    obtain ⟨hlow, hhigh, -⟩ := plain_of_mem_numericEscape (code_lt a) hc
    exact h.ofChar hlow hhigh

/-- Every character of a quoted text is printable. -/
theorem Prints.of_mem_quoteChars (h : Prints printable) {as : List α} {b : α}
    (hb : b ∈ quoteChars printable as) : printable b = true := by
  rw [quoteChars, List.mem_append, List.mem_cons, List.mem_singleton, List.mem_flatMap] at hb
  rcases hb with (rfl | ⟨a, -, hb⟩) | rfl
  · exact h.ofChar (by decide) (by decide)
  · exact h.of_mem_quoteChar hb
  · exact h.ofChar (by decide) (by decide)

theorem Prints.not_isControl (h : Prints printable) {a : α} (ha : printable a = true) :
    ¬ IsControl a := fun hcontrol => by
  rw [h.control hcontrol] at ha
  cases ha

theorem prints_isPrintable : Prints isPrintable where
  control {c} hc := by
    change c.toNat < 0x20 ∨ 0x7f ≤ c.toNat ∧ c.toNat < 0xa0 at hc
    unfold isPrintable
    dsimp only
    split_ifs with hascii
    · simp only [Bool.and_eq_false_iff, decide_eq_false_iff_not]
      omega
    · have hrange : (0x80, 0xa0) ∈ unprintable := List.mem_cons_self
      have hhas : unprintable.has c.toNat = true := by
        rw [Ranges.has, Ranges.find?, List.find?_isSome]
        exact ⟨_, hrange, by simp only [Bool.and_eq_true, decide_eq_true_eq]; omega⟩
      rw [hhas]
      rfl
  ascii {c} hlow hhigh := by
    change 0x20 ≤ c.toNat at hlow
    change c.toNat < 0x7f at hhigh
    unfold isPrintable
    simp only [show c.toNat < 128 by omega, if_true, Bool.and_eq_true, decide_eq_true_eq]
    omega

theorem prints_isPrintable_codePoint : Prints CodePoint.isPrintable where
  control {p} hp := by
    cases p with
    | char c => exact prints_isPrintable.control hp
    | surrogate n => rfl
  ascii {p} hlow hhigh := by
    cases p with
    | char c => exact prints_isPrintable.ascii hlow hhigh
    | surrogate n =>
      change 0xd800 + n.val < 0x7f at hhigh
      omega

/-- **Quoting is lossless and tells its own end.** Take any text, with surrogates on their own or
without, and any class of characters for the printable ones. A reader of Go's interpreted strings
gets the text back from its quoted form and leaves what follows, so no two texts have one quoted
form, and behind the opening quote the closing one is the only quote that is not escaped. If the
class has no control character and has those of ASCII from the space to the tilde, every character
of the quoted form is printable, so none is a control character.

The program's own class is of this kind, with surrogates and without, and its texts are quoted with
it. -/
theorem quoting_is_lossless :
    (∀ {α : Type} [Coded α] (printable : α → Bool),
      (∀ as rest, unquote? (quoteChars printable as ++ rest) = some (as, rest)) ∧
      Function.Injective (quoteChars printable) ∧
      (∀ as u v, quoteChars printable as = u ++ ofChar '\"' :: v → u ≠ [] →
        (escapesNext u = true ↔ v ≠ [])) ∧
      (Prints printable →
        ∀ as, ∀ a ∈ quoteChars printable as, printable a = true ∧ ¬ IsControl a)) ∧
    Prints CodePoint.isPrintable ∧ Prints isPrintable ∧
    ∀ s : String, (quote s).toList = quoteChars isPrintable s.toList := by
  refine ⟨fun {α} _ printable => ⟨unquote?_quoteChars printable, fun as bs heq => ?_,
      fun as u v => escapesNext_iff_ne_nil, fun h as a ha => ?_⟩,
    prints_isPrintable_codePoint, prints_isPrintable, fun s => String.toList_ofList⟩
  · have has := unquote?_quoteChars printable as []
    have hbs := unquote?_quoteChars printable bs []
    rw [heq, hbs] at has
    exact (Prod.ext_iff.1 (Option.some.inj has)).1.symm
  · have hprintable := h.of_mem_quoteChars ha
    exact ⟨hprintable, h.not_isControl hprintable⟩

/-- A backslash in front of a quote, a surrogate and the delete character in front of digits, and
other code points without a printed form. -/
def oddText : List CodePoint :=
  [.char '\\', .char '\"', .surrogate 0x123, .char 'a', .char '\x7f', .char '0', .char '\u0085',
    .surrogate 0x400, .char (Char.ofNat 0x10ffff), .char '\n']

/-- Its quoted form. -/
def oddQuoted : List CodePoint :=
  "\"\\\\\\\"\\ud923a\\x7f0\\u0085\\udc00\\U0010ffff\\n\"".toList.map CodePoint.char

/-- The quote inside is escaped. What follows the closing one, a quote and a surrogate, is left. -/
theorem quoting_is_lossless_odd :
    Prints CodePoint.isPrintable ∧ quoteChars CodePoint.isPrintable oddText = oddQuoted ∧
    unquote? (oddQuoted ++ [.char '\"', .surrogate 0x7ff]) =
      some (oddText, [.char '\"', .surrogate 0x7ff]) ∧
    escapesNext (oddQuoted.take 4) = true ∧ ∀ p ∈ oddQuoted, ¬ IsControl p := by
  obtain ⟨hread, -, hquotes, hprinted⟩ := quoting_is_lossless.1 CodePoint.isPrintable
  have hquoted : quoteChars CodePoint.isPrintable oddText = oddQuoted := by decide +kernel
  have hinner : oddQuoted = oddQuoted.take 4 ++ ofChar '\"' :: oddQuoted.drop 5 := by
    decide +kernel
  have hescaped := hquotes oddText (oddQuoted.take 4) (oddQuoted.drop 5) (hquoted.trans hinner)
    (by decide +kernel)
  refine ⟨prints_isPrintable_codePoint, hquoted, ?_, hescaped.2 (by decide +kernel), fun p hp => ?_⟩
  · rw [← hquoted]
    exact hread oddText _
  · rw [← hquoted] at hp
    exact (hprinted prints_isPrintable_codePoint oddText p hp).2

end DocSearch.Prompt
