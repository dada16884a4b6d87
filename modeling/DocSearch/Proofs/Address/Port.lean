import DocSearch.Address.Host
import DocSearch.Address.Listen
import DocSearch.Proofs.Number.Numeral

/-!
# Ports

A port is a number of up to 65535 in digits of ASCII (`IsPort`). Both readers of addresses look for
digits first and convert them afterwards, but what they take for digits is more than that: digits of
other scripts, and digits such as `²` without a place value.

**The daemon's address.** A port text is judged by `validPort`. It finds the real ports apart from
the texts of digits that are not converted (`Unread`) and the small numbers in digits of another
script (`Foreign`). The port that is chosen stands in the URL where a reader of URLs looks for it
(`portInUrl_urlFor`).

**Listen addresses.** Here every number that can be converted passes, whatever its size.

**`real_ports_iff`** says exactly which settings and which addresses these are.
-/

namespace DocSearch.Address

open Number Text

/-! ## Port texts -/

/-- A port: digits of ASCII that denote at most 65535. -/
structure IsPort (cs : List Char) : Prop where
  nonempty : cs ≠ []
  ascii : ∀ c ∈ cs, isAsciiDigit c = true
  small : digitsValue cs ≤ 65535

/-- A text of nothing but digits in the wide sense. -/
def IsDigits (cs : List Char) : Prop := cs ≠ [] ∧ ∀ c ∈ cs, isDigit c = true

/-- Digits that are not converted: one of them has no place value, or there are too many. -/
def Unread (cs : List Char) : Prop := (∃ c ∈ cs, isDecimal c = false) ∨ maxDigits < cs.length

/-- A number of the size of a port with a digit beyond ASCII. -/
def Foreign (cs : List Char) : Prop :=
  (∃ c ∈ cs, isAsciiDigit c = false) ∧ decimalsValue cs ≤ 65535

/-- Digits that are taken for what they are not. -/
def Mistaken (cs : List Char) : Prop := IsDigits cs ∧ (Unread cs ∨ Foreign cs)

variable {cs : List Char}

theorem IsPort.isDigits (h : IsPort cs) : IsDigits cs :=
  ⟨h.nonempty, fun c hc => isDigit_of_ascii (h.ascii c hc)⟩

theorem Foreign.not_isPort (h : Foreign cs) : ¬ IsPort cs := by
  obtain ⟨⟨c, hc, hno⟩, -⟩ := h
  intro hport
  rw [hport.ascii c hc] at hno
  cases hno

theorem decimal_of_not_unread (h : ¬ Unread cs) : ∀ c ∈ cs, isDecimal c = true := by
  intro c hc
  by_contra hno
  exact h (.inl ⟨c, hc, by simpa using hno⟩)

theorem length_of_not_unread (h : ¬ Unread cs) : cs.length ≤ maxDigits :=
  Nat.not_lt.1 fun hlong => h (.inr hlong)

theorem IsPort.not_mistaken (h : IsPort cs) (hlength : cs.length ≤ maxDigits) : ¬ Mistaken cs := by
  rintro ⟨-, (⟨c, hc, hodd⟩ | hlong) | hforeign⟩
  · have hdecimal : isDecimal c = true := by
      rw [isDecimal, decimalValue?_of_ascii (h.ascii c hc), Option.isSome_some]
    rw [hdecimal] at hodd
    cases hodd
  · omega
  · exact hforeign.not_isPort h

/-- Converted digits of the size of a port are a port, unless one is of another script. -/
theorem isPort_of_not_foreign (hd : IsDigits cs) (hf : ¬ Foreign cs)
    (hsmall : decimalsValue cs ≤ 65535) : IsPort cs := by
  have hascii : ∀ c ∈ cs, isAsciiDigit c = true := by
    intro c hc
    by_contra hno
    exact hf ⟨⟨c, hc, by simpa using hno⟩, hsmall⟩
  exact ⟨hd.1, hascii, decimalsValue_of_ascii hascii ▸ hsmall⟩

/-- What the test in front of the conversion finds. -/
theorem digitTest_iff : (cs.isEmpty || !cs.all isDigit) = false ↔ IsDigits cs := by
  rw [Bool.or_eq_false_iff, Bool.not_eq_false', List.all_eq_true, IsDigits]
  exact and_congr_left fun _ => by rw [List.isEmpty_eq_false_iff]

theorem digitTest_of_not (h : ¬ IsDigits cs) : (cs.isEmpty || !cs.all isDigit) = true := by
  rwa [← digitTest_iff, Bool.not_eq_false] at h

theorem readInt_of_not_unread (hd : IsDigits cs) (hread : ¬ Unread cs) :
    readInt (String.ofList cs) = .ok (decimalsValue cs) :=
  readInt_of_decimal hd.1 (decimal_of_not_unread hread) (length_of_not_unread hread)

theorem readInt_of_unread (hd : IsDigits cs) (hunread : Unread cs) :
    ∃ e, readInt (String.ofList cs) = .error e := by
  by_cases hodd : ∃ c ∈ cs, isDecimal c = false
  · exact readInt_of_odd hd.2 hodd
  · have hdecimal : ∀ c ∈ cs, isDecimal c = true := by simpa using hodd
    exact ⟨_, readInt_of_long hd.1 hdecimal (hunread.resolve_left hodd)⟩

/-! ## How a port text is judged -/

theorem validPort_of_not_digits (h : ¬ IsDigits cs) : validPort cs = .ok false := by
  rw [validPort, if_pos (digitTest_of_not h)]

theorem validPort_of_unread (hd : IsDigits cs) (hunread : Unread cs) :
    ∃ e, validPort cs = .error e := by
  obtain ⟨e, he⟩ := readInt_of_unread hd hunread
  refine ⟨e, ?_⟩
  rw [validPort, digitTest_iff.2 hd, if_neg Bool.false_ne_true, he]
  rfl

theorem validPort_of_read (hd : IsDigits cs) (hread : ¬ Unread cs) :
    validPort cs = .ok (decide (decimalsValue cs ≤ 65535)) := by
  rw [validPort, digitTest_iff.2 hd, if_neg Bool.false_ne_true, readInt_of_not_unread hd hread]
  simp [Except.map]

/-- **A port text that is not mistaken** passes exactly if it is a port. -/
theorem validPort_of_not_mistaken (h : ¬ Mistaken cs) [Decidable (IsPort cs)] :
    validPort cs = .ok (decide (IsPort cs)) := by
  by_cases hd : IsDigits cs
  · have hread : ¬ Unread cs := fun hunread => h ⟨hd, .inl hunread⟩
    have hforeign : ¬ Foreign cs := fun hforeign => h ⟨hd, .inr hforeign⟩
    rw [validPort_of_read hd hread]
    congr 1
    rw [decide_eq_decide]
    refine ⟨isPort_of_not_foreign hd hforeign, fun hport => ?_⟩
    rw [decimalsValue_of_ascii hport.ascii]
    exact hport.small
  · rw [validPort_of_not_digits hd, decide_eq_false fun hport => hd hport.isDigits]

/-! ## Where a port stands in a URL -/

/-- The port in a URL: it stands behind the last colon of what is between the scheme and the path. -/
def portInUrl (url : List Char) : List Char :=
  match cut? "://".toList url with
  | some (_, rest) => ((cutLast? ':' (rest.takeWhile (· != '/'))).map (·.2)).getD []
  | none => []

theorem slash_not_mem_toDigits (n : Nat) : '/' ∉ Nat.toDigits 16 n := by
  have hchar : ∀ d < 16, Nat.digitChar d ≠ '/' := by decide
  have hcore : ∀ (fuel n : Nat) (ds : List Char), '/' ∉ ds →
      '/' ∉ Nat.toDigitsCore 16 fuel n ds := by
    intro fuel
    induction fuel with
    | zero => exact fun _ _ h => h
    | succ fuel ih =>
      intro n ds h
      have hmore : '/' ∉ Nat.digitChar (n % 16) :: ds := by
        rw [List.mem_cons, not_or]
        exact ⟨(hchar _ (Nat.mod_lt n (by decide))).symm, h⟩
      rw [Nat.toDigitsCore]
      split_ifs
      · exact hmore
      · exact ih _ _ hmore
  exact hcore _ _ _ List.not_mem_nil

theorem slash_not_mem_intercalate {ls : List (List Char)} (h : ∀ l ∈ ls, '/' ∉ l) :
    '/' ∉ [':'].intercalate ls := by
  match ls with
  | [] => exact List.not_mem_nil
  | [l] => simpa using h l
  | l :: m :: ls =>
    have hrest := slash_not_mem_intercalate fun k hk => h k (List.mem_cons_of_mem l hk)
    have hl := h l List.mem_cons_self
    rw [List.intercalate_cons_cons]
    simp [hl, hrest]

theorem slash_not_mem_groupText (groups : List Nat) : '/' ∉ groupText groups := by
  have hcolons : ∀ gs : List Nat, '/' ∉ [':'].intercalate (gs.map (Nat.toDigits 16)) := by
    intro gs
    refine slash_not_mem_intercalate fun l hl => ?_
    obtain ⟨n, -, rfl⟩ := List.mem_map.1 hl
    exact slash_not_mem_toDigits n
  unfold groupText
  dsimp only
  split_ifs
  · simp only [List.mem_append, not_or]
    exact ⟨⟨hcolons _, by decide⟩, hcolons _⟩
  · exact hcolons groups

/-- The canonical form of an address has no slash that the address did not have. -/
theorem slash_not_mem_canonical {ip : List Char} (h : '/' ∉ cs) (hip : canonical? cs = some ip) :
    '/' ∉ ip := by
  unfold canonical? at hip
  dsimp only at hip
  split_ifs at hip
  · exact Option.some.inj hip ▸ h
  · obtain ⟨gs, -, rfl⟩ := Option.map_eq_some_iff.1 hip
    rw [List.mem_append, not_or]
    exact ⟨slash_not_mem_groupText gs, fun hmem => h ((List.dropWhile_suffix _).subset hmem)⟩

/-! ## Settings -/

namespace Setting

variable (s : List Char)

/-- The port text that a setting names, if there is one. -/
def portText? (setting : String) : Option (List Char) :=
  (splitHostPort? (ofBare (bareSetting setting.toList)).hostPort).map (·.2)

theorem slash_not_mem_hostPort : '/' ∉ (ofBare s).hostPort := by
  intro hmem
  have := List.mem_takeWhile_imp hmem
  simp at this

theorem cut_scheme (x : List Char) :
    cut? "://".toList ((ofBare s).scheme ++ "://".toList ++ x) = some ((ofBare s).scheme, x) := by
  unfold ofBare
  cases hcut : cut? "://".toList s with
  | none => simp [cut?, after?]
  | some parts => exact cut?_append (by simp) hcut x

theorem defaultPort_mem : (ofBare s).defaultPort ∈ ["80".toList, "443".toList, daemonPort] := by
  unfold ofBare
  cases cut? "://".toList s with
  | none => simp
  | some parts =>
    dsimp only
    split_ifs <;> simp

theorem isPort_defaultPort : IsPort (ofBare s).defaultPort := by
  have hmem := defaultPort_mem s
  simp only [List.mem_cons, List.not_mem_nil, or_false] at hmem
  rcases hmem with h | h | h <;> rw [h] <;>
    exact ⟨by decide, by simp [isAsciiDigit, daemonPort], by simp [digitsValue, daemonPort]⟩

theorem length_defaultPort : (ofBare s).defaultPort.length ≤ maxDigits := by
  have hmem := defaultPort_mem s
  simp only [List.mem_cons, List.not_mem_nil, or_false] at hmem
  rcases hmem with h | h | h <;> rw [h] <;> simp [daemonPort, maxDigits]

theorem slash_not_mem_host : '/' ∉ (ofBare s).hostAndPort.1 := by
  have hslash := slash_not_mem_hostPort s
  unfold hostAndPort
  cases hparts : splitHostPort? (ofBare s).hostPort with
  | some parts =>
    dsimp only
    unfold splitHostPort? at hparts
    split at hparts
    next rest hrest =>
      rw [hrest, eq_of_cut? hparts] at hslash
      exact fun hmem => hslash (by simp [hmem])
    next =>
      split_ifs at hparts
      rw [eq_of_cut? hparts] at hslash
      exact fun hmem => hslash (by simp [hmem])
  | none =>
    dsimp only
    cases hip : canonical? (trimBy (fun c => c == '[' || c == ']') (ofBare s).hostPort) with
    | some ip => exact slash_not_mem_canonical (fun hmem => hslash (mem_of_mem_trimBy hmem)) hip
    | none =>
      dsimp only
      split_ifs
      · decide
      · exact hslash

/-- Without a port text in the setting the port is the default one. -/
theorem port_of_none (h : splitHostPort? (ofBare s).hostPort = none) :
    (ofBare s).hostAndPort.2 = (ofBare s).defaultPort := by
  unfold hostAndPort
  rw [h]
  dsimp only
  split <;> rfl

theorem port_of_some {parts : List Char × List Char}
    (h : splitHostPort? (ofBare s).hostPort = some parts) :
    (ofBare s).hostAndPort.2 = parts.2 := by
  unfold hostAndPort
  rw [h]

end Setting

/-- The URL for a setting, given whether its port text passes. -/
def urlFor (s : Setting) (valid : Bool) : List Char :=
  s.scheme ++ "://".toList ++
    joinHostPort s.hostAndPort.1 (if valid then s.hostAndPort.2 else s.defaultPort) ++
    (if s.path.isEmpty then [] else '/' :: s.path)

theorem resolve_eq (setting : String) :
    let s := Setting.ofBare (bareSetting setting.toList)
    resolve setting = (validPort s.hostAndPort.2).map fun valid =>
      ⟨String.ofList (urlFor s valid),
        if valid then [] else [portWarning s.hostAndPort.2 s.defaultPort]⟩ := by
  unfold resolve urlFor
  generalize Setting.ofBare (bareSetting setting.toList) = s
  rcases s.hostAndPort with ⟨host, port⟩
  dsimp only
  cases validPort port <;> rfl

theorem not_mem_of_class {p : Char → Bool} {c : Char} (hc : p c = false) (h : ∀ d ∈ cs, p d = true) :
    c ∉ cs := by
  intro hmem
  rw [h c hmem] at hc
  cases hc

/-- **A reader of URLs finds the port** that was chosen, whatever the host and the path are. -/
theorem portInUrl_join (s : List Char) {host port path : List Char} (hhost : '/' ∉ host)
    (hport : ∀ d ∈ port, isDigit d = true) (hpath : path = [] ∨ ∃ p, path = '/' :: p) :
    portInUrl ((Setting.ofBare s).scheme ++ "://".toList ++ joinHostPort host port ++ path) =
      port := by
  have hslash : '/' ∉ port := not_mem_of_class (by decide) hport
  have hcolon : ':' ∉ port := not_mem_of_class (by decide) hport
  obtain ⟨front, hjoin, hfront⟩ : ∃ front, joinHostPort host port = front ++ ':' :: port ∧
      '/' ∉ front := by
    refine ⟨_, rfl, ?_⟩
    split_ifs
    · simp [hhost]
    · exact hhost
  have hauthority :
      (joinHostPort host port ++ path).takeWhile (· != '/') = front ++ ':' :: port := by
    have hkeep : ∀ c ∈ front ++ ':' :: port, (c != '/') = true := by
      intro c hc
      rw [bne_iff_ne]
      rintro rfl
      simp [hfront, hslash] at hc
    rw [hjoin, List.takeWhile_append_of_pos hkeep]
    rcases hpath with rfl | ⟨p, rfl⟩ <;> simp
  rw [portInUrl, List.append_assoc, Setting.cut_scheme]
  dsimp only
  rw [hauthority, cutLast?_append hcolon]
  rfl

theorem portInUrl_urlFor (s : List Char) (valid : Bool)
    (hdigits : valid = true → ∀ d ∈ (Setting.ofBare s).hostAndPort.2, isDigit d = true) :
    portInUrl (urlFor (Setting.ofBare s) valid) =
      if valid then (Setting.ofBare s).hostAndPort.2 else (Setting.ofBare s).defaultPort := by
  refine portInUrl_join s (Setting.slash_not_mem_host s) ?_ ?_
  · split_ifs with hvalid
    · exact hdigits hvalid
    · exact (Setting.isPort_defaultPort s).isDigits.2
  · split_ifs
    · exact .inl rfl
    · exact .inr ⟨_, rfl⟩

/-! ## Real ports -/

/-- A setting is resolved to a URL with a real port: the one that it names, or else the default
port, with a warning if what it names is no port. -/
def ResolvesToPort (setting : String) : Prop :=
  let s := Setting.ofBare (bareSetting setting.toList)
  ∃ r, resolve setting = .ok r ∧ IsPort (portInUrl r.url.toList) ∧
    match Setting.portText? setting with
    | none => portInUrl r.url.toList = s.defaultPort ∧ r.warnings = []
    | some p =>
      (IsPort p → portInUrl r.url.toList = p ∧ r.warnings = []) ∧
      (¬ IsPort p → portInUrl r.url.toList = s.defaultPort ∧
        r.warnings = [portWarning p s.defaultPort])

/-- An address is accepted with a real port behind its last colon, or refused as malformed. -/
def ListensAtPort (address : String) : Prop :=
  (∃ host p name, cutLast? ':' address.toList = some (host, p) ∧ IsPort p ∧
    parseListen address = .ok (name, digitsValue p)) ∨
  parseListen address = .error (.malformed address) ∧
    ∀ host p, cutLast? ':' address.toList = some (host, p) → ¬ IsPort p

/-- **A port that is not mistaken** is chosen if it is one, and otherwise the default port is, with a
warning. -/
theorem resolve_of_not_mistaken (setting : String) :
    let s := Setting.ofBare (bareSetting setting.toList)
    ¬ Mistaken s.hostAndPort.2 → ∃ r, resolve setting = .ok r ∧
      (IsPort s.hostAndPort.2 → portInUrl r.url.toList = s.hostAndPort.2 ∧ r.warnings = []) ∧
      (¬ IsPort s.hostAndPort.2 → portInUrl r.url.toList = s.defaultPort ∧
        r.warnings = [portWarning s.hostAndPort.2 s.defaultPort]) := by
  classical
  intro s h
  have hresolve : resolve setting = _ := resolve_eq setting
  rw [validPort_of_not_mistaken h] at hresolve
  have hurl := portInUrl_urlFor (bareSetting setting.toList)
    (decide (IsPort s.hostAndPort.2)) fun hport => (of_decide_eq_true hport).isDigits.2
  refine ⟨_, hresolve, fun hport => ?_, fun hport => ?_⟩
  · rw [String.toList_ofList, hurl]
    exact ⟨if_pos (decide_eq_true hport), if_pos (decide_eq_true hport)⟩
  · rw [String.toList_ofList, hurl]
    have hnot : ¬ decide (IsPort s.hostAndPort.2) = true := by simpa using hport
    exact ⟨if_neg hnot, if_neg hnot⟩

/-- Exactly the settings with a mistaken port text are not resolved to a real port. -/
theorem resolvesToPort_iff (setting : String) :
    ResolvesToPort setting ↔ ∀ p, Setting.portText? setting = some p → ¬ Mistaken p := by
  have hdefault := Setting.isPort_defaultPort (bareSetting setting.toList)
  have hlength := Setting.length_defaultPort (bareSetting setting.toList)
  have hresolved := resolve_of_not_mistaken setting
  have hresolve := resolve_eq setting
  have hurl := portInUrl_urlFor (bareSetting setting.toList) true
  unfold ResolvesToPort Setting.portText?
  dsimp only at hresolved hresolve ⊢
  cases hparts : splitHostPort? (Setting.ofBare (bareSetting setting.toList)).hostPort with
  | none =>
    rw [Setting.port_of_none _ hparts] at hresolved
    obtain ⟨r, hr, hport, -⟩ := hresolved (hdefault.not_mistaken hlength)
    obtain ⟨hchosen, hwarnings⟩ := hport hdefault
    exact iff_of_true ⟨r, hr, hchosen ▸ hdefault, hchosen, hwarnings⟩ (fun p hp => by cases hp)
  | some parts =>
    rw [Setting.port_of_some _ hparts] at hresolved hresolve hurl
    simp only [Option.map_some, Option.some.injEq, forall_eq']
    constructor
    · rintro ⟨r, hr, hreal, -⟩ ⟨hd, hmistaken⟩
      by_cases hunread : Unread parts.2
      · obtain ⟨e, he⟩ := validPort_of_unread hd hunread
        rw [he, hr] at hresolve
        cases hresolve
      · have hforeign := hmistaken.resolve_left hunread
        rw [validPort_of_read hd hunread, decide_eq_true hforeign.2, hr] at hresolve
        rw [Except.ok.inj hresolve, String.toList_ofList, hurl fun _ => hd.2, if_pos rfl] at hreal
        exact hforeign.not_isPort hreal
    · intro h
      obtain ⟨r, hr, hport, hother⟩ := hresolved h
      refine ⟨r, hr, ?_, hport, hother⟩
      by_cases hreal : IsPort parts.2
      · rw [(hport hreal).1]
        exact hreal
      · rw [(hother hreal).1]
        exact hdefault

/-- Exactly the settings whose port text is made of digits that are not converted are not resolved
at all. -/
theorem resolve_fails_iff (setting : String) :
    (∃ e, resolve setting = .error e) ↔
      ∃ p, Setting.portText? setting = some p ∧ IsDigits p ∧ Unread p := by
  have hlength := Setting.length_defaultPort (bareSetting setting.toList)
  have hdefault := Setting.isPort_defaultPort (bareSetting setting.toList)
  have hresolved := resolve_of_not_mistaken setting
  have hresolve := resolve_eq setting
  unfold Setting.portText?
  dsimp only at hresolved hresolve
  cases hparts : splitHostPort? (Setting.ofBare (bareSetting setting.toList)).hostPort with
  | none =>
    rw [Setting.port_of_none _ hparts] at hresolved
    obtain ⟨r, hr, -⟩ := hresolved (hdefault.not_mistaken hlength)
    simp [hr]
  | some parts =>
    rw [Setting.port_of_some _ hparts] at hresolve
    simp only [Option.map_some, Option.some.injEq, exists_eq_left']
    rw [hresolve]
    by_cases hd : IsDigits parts.2
    · by_cases hunread : Unread parts.2
      · obtain ⟨e, he⟩ := validPort_of_unread hd hunread
        exact iff_of_true ⟨e, by rw [he]; rfl⟩ ⟨hd, hunread⟩
      · rw [validPort_of_read hd hunread]
        simp [Except.map, hunread]
    · rw [validPort_of_not_digits hd]
      simp [Except.map, hd]

/-- Exactly the addresses whose port text is made of digits, and is no port that is converted, are
neither accepted with a real port nor refused as malformed. -/
theorem listensAtPort_iff (address : String) :
    ListensAtPort address ↔ ∀ host p, cutLast? ':' address.toList = some (host, p) → IsDigits p →
      IsPort p ∧ p.length ≤ maxDigits := by
  unfold ListensAtPort parseListen
  cases hcut : cutLast? ':' address.toList with
  | none => simp
  | some parts =>
    obtain ⟨host, p⟩ := parts
    have hone : (∀ h q, some (host, p) = some (h, q) → IsDigits q →
        IsPort q ∧ q.length ≤ maxDigits) ↔ (IsDigits p → IsPort p ∧ p.length ≤ maxDigits) :=
      ⟨fun h => h host p rfl, fun h _ _ hparts => (Prod.mk.inj (Option.some.inj hparts)).2 ▸ h⟩
    rw [hone]
    dsimp only
    by_cases hd : IsDigits p
    · rw [digitTest_iff.2 hd, if_neg Bool.false_ne_true]
      by_cases hunread : Unread p
      · obtain ⟨e, he⟩ := readInt_of_unread hd hunread
        rw [he]
        refine iff_of_false (by simp) fun h => ?_
        obtain ⟨hport, hlength⟩ := h hd
        exact hport.not_mistaken hlength ⟨hd, .inl hunread⟩
      · rw [readInt_of_not_unread hd hunread]
        constructor
        · rintro (⟨_, _, _, hparts, hport, -⟩ | ⟨hrefused, -⟩)
          · obtain ⟨-, rfl⟩ := Prod.mk.inj (Option.some.inj hparts)
            exact fun _ => ⟨hport, length_of_not_unread hunread⟩
          · cases hrefused
        · intro h
          obtain ⟨hport, -⟩ := h hd
          exact .inl ⟨host, p, _, rfl, hport, by rw [decimalsValue_of_ascii hport.ascii]⟩
    · rw [digitTest_of_not hd, if_pos rfl]
      refine iff_of_true (.inr ⟨rfl, fun _ _ hparts hport => ?_⟩) fun h => absurd h hd
      obtain ⟨-, rfl⟩ := Prod.mk.inj (Option.some.inj hparts)
      exact hd hport.isDigits

/-- **Only real ports get through, but for mistaken digits.** A setting is resolved to a URL with a
real port exactly if the port text that it names is not mistaken; it is not resolved at all exactly
if this text is made of digits that are not converted. An address is accepted with a real port or
refused as malformed exactly if what is behind its last colon, where it consists of digits, is a
port of no more digits than are converted. -/
theorem real_ports_iff (setting address : String) :
    (ResolvesToPort setting ↔ ∀ p, Setting.portText? setting = some p → ¬ Mistaken p) ∧
    ((∃ e, resolve setting = .error e) ↔
      ∃ p, Setting.portText? setting = some p ∧ IsDigits p ∧ Unread p) ∧
    (ListensAtPort address ↔
      ∀ host p, cutLast? ':' address.toList = some (host, p) → IsDigits p →
        IsPort p ∧ p.length ≤ maxDigits) :=
  ⟨resolvesToPort_iff setting, resolve_fails_iff setting, listensAtPort_iff address⟩

/-- A digit without a place value, digits of another script, and a number past the last port. -/
theorem digits_pass_for_ports :
    resolve "h:²" = .error (.malformed "²") ∧ ¬ ResolvesToPort "h:²" ∧
      resolve "h:٨٠" = .ok ⟨"http://h:٨٠", []⟩ ∧ ¬ ResolvesToPort "h:٨٠" ∧
      parseListen ":²" = .error (.port (.malformed "²")) ∧ ¬ ListensAtPort ":²" ∧
      parseListen ":99999" = .ok ("0.0.0.0", 99999) ∧ ¬ ListensAtPort ":99999" := by
  have hodd : resolve "h:²" = .error (.malformed "²") := by decide +kernel
  have hforeign : resolve "h:٨٠" = .ok ⟨"http://h:٨٠", []⟩ := by decide +kernel
  have hunread : parseListen ":²" = .error (.port (.malformed "²")) := by decide +kernel
  have hlarge : parseListen ":99999" = .ok ("0.0.0.0", 99999) := by decide +kernel
  refine ⟨hodd, ?_, hforeign, ?_, hunread, ?_, hlarge, ?_⟩
  · rintro ⟨r, hr, -⟩
    rw [hodd] at hr
    cases hr
  · rintro ⟨r, hr, hport, -⟩
    rw [hforeign] at hr
    obtain rfl := Except.ok.inj hr
    have hurl : portInUrl "http://h:٨٠".toList = ['٨', '٠'] := by decide +kernel
    rw [hurl] at hport
    exact absurd (hport.ascii '٨' List.mem_cons_self) (by decide)
  · rintro (⟨_, _, _, -, -, haccepted⟩ | ⟨hrefused, -⟩)
    · rw [hunread] at haccepted
      cases haccepted
    · rw [hunread] at hrefused
      cases hrefused
  · rintro (⟨_, p, _, -, hport, haccepted⟩ | ⟨hrefused, -⟩)
    · rw [hlarge] at haccepted
      have hvalue := (Prod.mk.inj (Except.ok.inj haccepted)).2
      have := hport.small
      omega
    · rw [hlarge] at hrefused
      cases hrefused

end DocSearch.Address
