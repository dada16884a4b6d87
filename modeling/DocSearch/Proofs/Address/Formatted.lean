import DocSearch.Proofs.Address.Port

/-!
# Formatted addresses are read back

A host and a port make up the text `host:port`, with brackets around a host that holds colons. Three
readers take it apart, each in its own way: by the only colon or the first `]:`, by the last colon
with the brackets taken off, and inside a URL that is itself cut at its scheme and its first slash.

**No character in two roles.** All of them rest on the same fact: hosts hold neither brackets nor
slashes, schemes and ports no colons, so that the first and the last separator are the one that was
written. A URL of such parts is therefore resolved to itself (`resolve_addressUrl`), and feeding a
resolved URL back changes nothing.

The main result is `formatted_address_kept`.
-/

namespace DocSearch.Address

open Number Text

/-! ## Hosts, schemes and paths -/

/-- Letters, digits, `.` and `-`. Beyond ASCII everything but blanks passes for a letter. -/
def isHostChar (c : Char) : Bool :=
  c.isAlphanum || c == '.' || c == '-' || (128 ≤ c.toNat && !isBlank c)

/-- A host: a name, or an address of hexadecimal digits and colons. -/
inductive IsHost (cs : List Char) : Prop
  | name (hne : cs ≠ []) (h : ∀ c ∈ cs, isHostChar c = true)
  | numeric (hne : cs ≠ []) (h : ∀ c ∈ cs, (isHexDigit c || c == ':') = true)

/-- A scheme: letters, digits, `+`, `-` and `.`. -/
structure IsScheme (cs : List Char) : Prop where
  nonempty : cs ≠ []
  chars : ∀ c ∈ cs, (isHostChar c || c == '+') = true

/-- Quotes of either kind. -/
def isQuote (c : Char) : Bool := c == '\"' || c == '\x27'

/-- A text that does not end with a blank or a quote. -/
def EndsBare (cs : List Char) : Prop :=
  ∀ c, cs.getLast? = some c → isBlank c = false ∧ isQuote c = false

variable {host port scheme path : List Char}

theorem IsHost.ne_nil (h : IsHost host) : host ≠ [] := by
  cases h <;> assumption

theorem IsHost.not_mem {c : Char} (h : IsHost host) (hname : isHostChar c = false)
    (hnumeric : (isHexDigit c || c == ':') = false) : c ∉ host := by
  cases h with
  | name _ h => exact not_mem_of_class hname h
  | numeric _ h => exact not_mem_of_class hnumeric h

theorem IsHost.slash_not_mem (h : IsHost host) : '/' ∉ host := h.not_mem (by decide) (by decide)

theorem IsHost.open_not_mem (h : IsHost host) : '[' ∉ host := h.not_mem (by decide) (by decide)

theorem IsHost.close_not_mem (h : IsHost host) : ']' ∉ host := h.not_mem (by decide) (by decide)

theorem IsScheme.colon_not_mem (h : IsScheme scheme) : ':' ∉ scheme :=
  not_mem_of_class (by decide) h.chars

theorem of_isAlphanum {c : Char} (h : c.isAlphanum = true) : 48 ≤ c.toNat ∧ c.toNat ≤ 122 := by
  have hcases : ((65 ≤ c.toNat ∧ c.toNat ≤ 90) ∨ (97 ≤ c.toNat ∧ c.toNat ≤ 122)) ∨
      (48 ≤ c.toNat ∧ c.toNat ≤ 57) := by
    rcases Bool.or_eq_true_iff.1 h with h | h
    · rcases Bool.or_eq_true_iff.1 h with h | h
      · exact .inl (.inl (of_decide_eq_true h))
      · exact .inl (.inr ((Bool.and_eq_true_iff.1 h).imp of_decide_eq_true of_decide_eq_true))
    · exact .inr ((Bool.and_eq_true_iff.1 h).imp of_decide_eq_true of_decide_eq_true)
  omega

/-- No character of schemes is trimmed off a setting. -/
theorem bare_of_schemeChar {c : Char} (h : (isHostChar c || c == '+') = true) :
    isBlank c = false ∧ isQuote c = false := by
  have hcases : 40 < c.toNat ∧ c.toNat < 128 ∨ 128 ≤ c.toNat ∧ isBlank c = false := by
    simp only [isHostChar, Bool.or_eq_true, Bool.and_eq_true, decide_eq_true_eq, beq_iff_eq,
      Bool.not_eq_true'] at h
    rcases h with (((h | rfl) | rfl) | h) | rfl
    · obtain ⟨hlow, hhigh⟩ := of_isAlphanum h
      omega
    · decide
    · decide
    · exact .inr h
    · decide
  constructor
  · rcases hcases with h | h
    · simp only [isBlank, Bool.or_eq_false_iff, Bool.and_eq_false_iff, decide_eq_false_iff_not,
        beq_eq_false_iff_ne]
      omega
    · exact h.2
  · rw [isQuote, Bool.or_eq_false_iff, beq_eq_false_iff_ne, beq_eq_false_iff_ne]
    constructor <;> rintro rfl <;> revert hcases <;> decide

theorem bare_of_ascii {c : Char} (h : isAsciiDigit c = true) :
    isBlank c = false ∧ isQuote c = false := by
  refine bare_of_schemeChar ?_
  rw [isAsciiDigit_iff] at h
  simp only [isHostChar, Char.isAlphanum, Char.isDigit, Bool.or_eq_true, Bool.and_eq_true,
    decide_eq_true_eq]
  exact .inl (.inl (.inl (.inl (.inr h))))

/-! ## Splitting -/

theorem splitHostPort?_joinHostPort (hhost : IsHost host) (hport : ':' ∉ port) :
    splitHostPort? (joinHostPort host port) = some (host, port) := by
  unfold joinHostPort splitHostPort?
  by_cases hcolon : ':' ∈ host
  · rw [if_pos (List.contains_iff_mem.2 hcolon)]
    simpa using cut?_of_not_mem hhost.close_not_mem [':'] port
  · rw [if_neg (by simpa using hcolon)]
    split
    next rest hfront =>
      obtain ⟨c, host, rfl⟩ := List.exists_cons_of_ne_nil hhost.ne_nil
      obtain ⟨rfl, -⟩ := List.cons.inj hfront
      exact absurd List.mem_cons_self hhost.open_not_mem
    next =>
      have hcount : (host ++ ':' :: port).count ':' = 1 := by
        rw [List.count_append, List.count_cons_self, List.count_eq_zero.2 hcolon,
          List.count_eq_zero.2 hport]
      rw [hcount]
      simpa using cut?_of_not_mem hcolon [] port

/-- The text in front of the last colon of a formatted address; without its brackets it is the
host. -/
theorem exists_front (hhost : IsHost host) (port : List Char) :
    ∃ front, joinHostPort host port = front ++ ':' :: port ∧
      trimBy (fun c => c == '[' || c == ']') front = host := by
  have hplain : ∀ c ∈ host, (c == '[' || c == ']') = false := by
    intro c hc
    rw [Bool.or_eq_false_iff, beq_eq_false_iff_ne, beq_eq_false_iff_ne]
    exact ⟨fun h => hhost.open_not_mem (h ▸ hc), fun h => hhost.close_not_mem (h ▸ hc)⟩
  refine ⟨_, rfl, ?_⟩
  split_ifs
  · exact trimBy_enclosed rfl rfl hhost.ne_nil hplain
  · exact trimBy_of_forall hplain

theorem readInt_of_isPort (hport : IsPort port) (hlength : port.length ≤ maxDigits) :
    readInt (String.ofList port) = .ok (digitsValue port) := by
  have hdecimal : ∀ c ∈ port, isDecimal c = true := by
    intro c hc
    rw [isDecimal, decimalValue?_of_ascii (hport.ascii c hc), Option.isSome_some]
  rw [readInt_of_decimal hport.nonempty hdecimal hlength, decimalsValue_of_ascii hport.ascii]

theorem parseListen_joinHostPort (hhost : IsHost host) (hport : IsPort port)
    (hlength : port.length ≤ maxDigits) :
    parseListen (String.ofList (joinHostPort host port)) =
      .ok (String.ofList host, digitsValue port) := by
  obtain ⟨front, hjoin, hbare⟩ := exists_front hhost port
  have hcolon : ':' ∉ port := not_mem_of_class (by decide) hport.ascii
  have hempty : host.isEmpty = false := List.isEmpty_eq_false_iff.2 hhost.ne_nil
  unfold parseListen
  rw [String.toList_ofList, hjoin, cutLast?_append hcolon]
  dsimp only
  rw [digitTest_iff.2 hport.isDigits, if_neg Bool.false_ne_true, readInt_of_isPort hport hlength]
  dsimp only
  rw [hbare, hempty, if_neg Bool.false_ne_true]

/-! ## Resolving -/

/-- The URL of a scheme, a host, a port and a path, which may be empty. -/
def addressUrl (scheme host port path : List Char) : List Char :=
  scheme ++ "://".toList ++ joinHostPort host port ++ if path.isEmpty then [] else '/' :: path

theorem slash_not_mem_joinHostPort (hhost : IsHost host) (hport : '/' ∉ port) :
    '/' ∉ joinHostPort host port := by
  have hslash := hhost.slash_not_mem
  unfold joinHostPort
  split_ifs <;> simp [hslash, hport]

/-- Nothing is trimmed off a text with bare ends. -/
theorem bareSetting_of_ends {cs : List Char}
    (hfront : ∀ c, cs.head? = some c → isBlank c = false ∧ isQuote c = false)
    (hback : EndsBare cs) : bareSetting cs = cs := by
  have hblank : trimBy isBlank cs = cs :=
    trimBy_of_ends (fun c hc => (hfront c hc).1) fun c hc => (hback c hc).1
  have hquote : trimBy isQuote cs = cs :=
    trimBy_of_ends (fun c hc => (hfront c hc).2) fun c hc => (hback c hc).2
  change trimBy isBlank (trimBy isQuote (trimBy isBlank cs)) = cs
  rw [hblank, hquote, hblank]

theorem endsBare_addressUrl (hport : IsPort port) (hpath : EndsBare path) :
    EndsBare (addressUrl scheme host port path) := by
  intro c hc
  unfold addressUrl at hc
  by_cases hempty : path = []
  · subst hempty
    unfold joinHostPort at hc
    rw [List.isEmpty_nil, if_pos rfl, List.append_nil, ← List.append_assoc,
      List.getLast?_append_of_ne_nil _ (List.cons_ne_nil _ _),
      List.getLast?_cons_of_ne_nil hport.nonempty] at hc
    exact bare_of_ascii (hport.ascii c (List.mem_of_getLast? hc))
  · rw [if_neg (by simpa using hempty), List.getLast?_append_of_ne_nil _ (List.cons_ne_nil _ _),
      List.getLast?_cons_of_ne_nil hempty] at hc
    exact hpath c hc

/-- A URL is taken apart into what it was made of. -/
theorem ofBare_addressUrl (hscheme : IsScheme scheme) (hhost : IsHost host) (hport : '/' ∉ port)
    (path : List Char) : ∃ defaultPort, Setting.ofBare (addressUrl scheme host port path) =
      ⟨scheme, defaultPort, joinHostPort host port, path⟩ := by
  have hcut : ∀ rest, cut? "://".toList (scheme ++ "://".toList ++ rest) = some (scheme, rest) :=
    cut?_of_not_mem hscheme.colon_not_mem ['/', '/']
  have hkeep : ∀ c ∈ joinHostPort host port, (c != '/') = true := by
    intro c hc
    rw [bne_iff_ne]
    rintro rfl
    exact slash_not_mem_joinHostPort hhost hport hc
  have hpath : ((if path.isEmpty then [] else '/' :: path).dropWhile (· != '/')).drop 1 = path := by
    by_cases hempty : path = [] <;> simp [hempty]
  have hrest : (if path.isEmpty then [] else '/' :: path).takeWhile (· != '/') = [] := by
    by_cases hempty : path = [] <;> simp [hempty]
  unfold Setting.ofBare addressUrl
  rw [List.append_assoc, hcut]
  dsimp only
  rw [List.takeWhile_append_of_pos hkeep, List.dropWhile_append_of_pos hkeep, hpath, hrest,
    List.append_nil]
  exact ⟨_, rfl⟩

/-- **A URL of an address is resolved to itself**, without a warning. -/
theorem resolve_addressUrl (hscheme : IsScheme scheme) (hhost : IsHost host) (hport : IsPort port)
    (hlength : port.length ≤ maxDigits) (hpath : EndsBare path) :
    resolve (String.ofList (addressUrl scheme host port path)) =
      .ok ⟨String.ofList (addressUrl scheme host port path), []⟩ := by
  have hcolon : ':' ∉ port := not_mem_of_class (by decide) hport.ascii
  have hslash : '/' ∉ port := not_mem_of_class (by decide) hport.ascii
  obtain ⟨defaultPort, hbare⟩ := ofBare_addressUrl hscheme hhost hslash path
  have hfront : ∀ c, (addressUrl scheme host port path).head? = some c →
      isBlank c = false ∧ isQuote c = false := by
    intro c hc
    obtain ⟨d, rest, rfl⟩ := List.exists_cons_of_ne_nil hscheme.nonempty
    obtain rfl := Option.some.inj hc
    exact bare_of_schemeChar (hscheme.chars _ List.mem_cons_self)
  have hvalid : validPort port = .ok true := by
    rw [validPort, digitTest_iff.2 hport.isDigits, if_neg Bool.false_ne_true,
      readInt_of_isPort hport hlength]
    simpa [Except.map] using hport.small
  have hresolve := resolve_eq (String.ofList (addressUrl scheme host port path))
  dsimp only at hresolve
  rw [String.toList_ofList, bareSetting_of_ends hfront (endsBare_addressUrl hport hpath), hbare]
    at hresolve
  have hparts : (Setting.mk scheme defaultPort (joinHostPort host port) path).hostAndPort =
      (host, port) := by
    rw [Setting.hostAndPort, splitHostPort?_joinHostPort hhost hcolon]
  rw [hresolve, hparts, hvalid]
  unfold urlFor
  rw [hparts]
  rfl

/-! ## All readers -/

/-- The decimal numeral of a port is a port. -/
theorem isPort_toDigits {n : Nat} (h : n ≤ 65535) :
    IsPort (Nat.toDigits 10 n) ∧ digitsValue (Nat.toDigits 10 n) = n ∧
      (Nat.toDigits 10 n).length ≤ maxDigits := by
  have hvalue : digitsValue (Nat.toDigits 10 n) = n := Nat.ofDigitChars_ten_toDigits
  have hshort : (Nat.toDigits 10 n).length ≤ 5 :=
    (Nat.length_toDigits_le_iff (by decide) (by decide)).2 (by omega)
  refine ⟨⟨Nat.toDigits_ne_nil, fun c hc => ?_, hvalue.symm ▸ h⟩, hvalue,
    hshort.trans (by decide)⟩
  exact Nat.isDigit_of_mem_toDigits (by decide) le_rfl hc

/-- **A formatted address is read back** by all three readers: taking a formatted host and port
apart gives them back, listening at them means this host and the number of this port, and the URL of
any scheme and path around them is resolved to itself without a warning. -/
theorem formatted_address_kept (hhost : IsHost host) (hport : IsPort port)
    (hlength : port.length ≤ maxDigits) (hscheme : IsScheme scheme) (hpath : EndsBare path)
    (environment : Option String) :
    splitHostPort? (joinHostPort host port) = some (host, port) ∧
      parseListen (String.ofList (joinHostPort host port)) =
        .ok (String.ofList host, digitsValue port) ∧
      resolveOr (some (String.ofList (addressUrl scheme host port path))) environment =
        .ok ⟨String.ofList (addressUrl scheme host port path), []⟩ :=
  ⟨splitHostPort?_joinHostPort hhost (not_mem_of_class (by decide) hport.ascii),
    parseListen_joinHostPort hhost hport hlength,
    resolve_addressUrl hscheme hhost hport hlength hpath⟩

/-- The daemon's own port at the local host of IPv6, with a path. -/
theorem formatted_address_kept_daemon :
    splitHostPort? "[::1]:11434".toList = some ("::1".toList, "11434".toList) ∧
      parseListen "[::1]:11434" = .ok ("::1", 11434) ∧
      resolveOr (some "http://[::1]:11434/ollama") none =
        .ok ⟨"http://[::1]:11434/ollama", []⟩ := by
  have hhost : IsHost "::1".toList := .numeric (by decide) (by simp [isHexDigit, isAsciiDigit])
  obtain ⟨hport, hvalue, hlength⟩ := isPort_toDigits (n := 11434) (by decide)
  have hscheme : IsScheme "http".toList := ⟨by decide, by simp [isHostChar]⟩
  have hpath : EndsBare "ollama".toList := by
    rintro c ⟨⟩
    decide
  have hkept := formatted_address_kept hhost hport hlength hscheme hpath none
  rw [hvalue] at hkept
  exact hkept

end DocSearch.Address
