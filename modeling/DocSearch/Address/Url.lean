import DocSearch.Address.Ip
import DocSearch.Number.Numeral
import DocSearch.Text.Utf8

/-!
# URLs

A URL is taken apart, brought to its normal form, and joined with the path of a request: scheme and
host in lower case, no port where the scheme implies it, no dots in the path, and every character
that may not stand in its part as a percent sign with two digits.
-/

namespace DocSearch.Address

open Number Text

/-- Why a text is no URL. -/
inductive UrlError where
  | control (c : Char) (position : Nat)
  | badPort (port : String)
  | badIpv4 (host : String)
  | badIpv6 (host : String)
deriving Repr, DecidableEq

/-- The error text. -/
def UrlError.message : UrlError → String
  | .control c position =>
    s!"Invalid non-printable ASCII character in URL, {quoted (String.singleton c)} at position " ++
      s!"{position}."
  | .badPort port => s!"Invalid port: {quoted port}"
  | .badIpv4 host => s!"Invalid IPv4 address: {quoted host}"
  | .badIpv6 host => s!"Invalid IPv6 address: {quoted host}"

/-- A URL in its normal form. An IPv6 host is kept without brackets. -/
structure Url where
  scheme : List Char
  user : List Char
  host : List Char
  port : Option Nat
  path : List Char
  query : Option (List Char)
deriving Repr, DecidableEq, Inhabited

/-! ## Parts -/

/-- Whether a character stands for itself in every part. -/
def isUnreserved (c : Char) : Bool :=
  isAsciiDigit c || ('a' ≤ c && c ≤ 'z') || ('A' ≤ c && c ≤ 'Z') || "-._~".toList.contains c

/-- Whether a character of ASCII is neither a control nor a blank, nor one of `not`. -/
def isPlain (not : List Char) (c : Char) : Bool := 0x20 < c.toNat && c.toNat < 0x7f && !not.contains c

/-- A character as percent signs and digits. -/
def percent (c : Char) : List Char :=
  (Utf8.encode (String.singleton c)).flatMap fun b =>
    '%' :: (Utf8.hexByte b).toList.map Char.toUpper

/-- The text with the characters outside the class `safe` as percent signs and digits. -/
def escape (safe : Char → Bool) (cs : List Char) : List Char :=
  cs.flatMap fun c => if isUnreserved c || safe c then [c] else percent c

/-- The path with its dots resolved. -/
def resolveDots (cs : List Char) : List Char :=
  let names := splitAt '/' cs
  if names.contains ['.'] || names.contains ['.', '.'] then
    let kept := names.foldl (fun (kept : List (List Char)) n =>
      if n == ['.'] then kept
      else if n == ['.', '.'] then (if kept.isEmpty || kept == [[]] then kept else kept.tail)
      else n :: kept) []
    ['/'].intercalate kept.reverse
  else cs

/-- The path as it stands in a URL. -/
def pathOf (cs : List Char) : List Char :=
  escape (isPlain "\"#<>?`\x7b\x7d".toList) (resolveDots cs)

/-- The query as it stands in a URL. -/
def queryOf (cs : List Char) : List Char := escape (isPlain "\"#<>".toList) cs

/-- Whether a host has the look of an IPv4 address. -/
def looksIpv4 (cs : List Char) : Bool :=
  let parts := splitAt '.' cs
  parts.length == 4 && parts.all fun p => !p.isEmpty && p.all isAsciiDigit

/-- The host as it stands in a URL. -/
def hostOf (cs : List Char) : Except UrlError (List Char) :=
  if looksIpv4 cs then
    if (octets? cs).isSome then .ok cs else .error (.badIpv4 (String.ofList cs))
  else if cs.head? == some '[' && cs.getLast? == some ']' && cs.length > 2 then
    let inner := (cs.drop 1).dropLast
    if (canonical? inner).isSome && !looksIpv4 inner then .ok inner
    else .error (.badIpv6 (String.ofList cs))
  else .ok (escape ("!$&\x27()*+,;=\"`\x7b\x7d%|\\".toList.contains ·) (cs.map Char.toLower))

/-- The port that a scheme implies. -/
def impliedPort (scheme : List Char) : Option Nat :=
  if scheme == "http".toList then some 80
  else if scheme == "https".toList then some 443
  else none

/-- The port, unless it is empty or implied. -/
def portOf (scheme cs : List Char) : Except UrlError (Option Nat) :=
  if cs.isEmpty then .ok none
  else
    match readInt (String.ofList cs) with
    | .ok n => .ok (if some n.toNat == impliedPort scheme then none else some n.toNat)
    | .error _ => .error (.badPort (String.ofList cs))

/-! ## Reading and writing -/

/-- The scheme in front of a colon, and the rest. -/
def cutScheme (cs : List Char) : List Char × List Char :=
  match cut? [':'] cs with
  | some (s, rest) =>
    let named := match s with
      | [] => true
      | c :: more =>
        ('a' ≤ c.toLower && c.toLower ≤ 'z') &&
          more.all fun d => isUnreserved d && d != '_' && d != '~' || d == '+'
    if named then (s, rest) else ([], cs)
  | none => ([], cs)

/-- The user in front of the last `@`, the host, and the port behind its colon. -/
def cutAuthority (cs : List Char) : List Char × List Char × List Char :=
  let (user, rest) := (cutLast? '@' cs).getD ([], cs)
  let bracketed := if rest.head? == some '[' then cutLast? ']' rest else none
  match bracketed with
  | some (inner, port) => (user, inner ++ [']'], if port.head? == some ':' then port.drop 1 else port)
  | none =>
    let host := rest.takeWhile (· != ':')
    (user, host, (rest.drop host.length).drop 1)

namespace Url

/-- The URL that a text denotes; what stands behind `#` is left out. -/
def ofText (s : String) : Except UrlError Url := do
  let cs := s.toList
  match cs.findIdx? fun c => c.toNat < 0x20 || c.toNat == 0x7f with
  | some i => throw (.control ((cs[i]?).getD ' ') i)
  | none =>
    let (scheme, rest) := cutScheme cs
    let (authority, rest) := match after? ['/', '/'] rest with
      | some r =>
        let a := r.takeWhile fun c => c != '/' && c != '?' && c != '#'
        (a, r.drop a.length)
      | none => ([], rest)
    let (user, host, port) := cutAuthority authority
    let host ← hostOf host
    let port ← portOf scheme port
    let path := rest.takeWhile fun c => c != '?' && c != '#'
    let query := match rest.drop path.length with
      | '?' :: q => some (queryOf (q.takeWhile (· != '#')))
      | _ => none
    return {
      scheme := scheme.map Char.toLower
      user := escape (isPlain "\"#<>?`\x7b\x7d/;=@[\\]^|".toList) user
      host
      port
      path := pathOf path
      query }

/-- The path with the query. -/
def target (u : Url) : List Char := u.path ++ ((u.query.map ('?' :: ·)).getD [])

/-- The URL of a path below this one. -/
def below (u : Url) (path : String) : Url :=
  let base := if u.target.getLast? == some '/' then u.target else u.target ++ ['/']
  let joined := base ++ path.toList.dropWhile (· == '/')
  let path := joined.takeWhile (· != '?')
  let query := match joined.drop path.length with
    | _ :: q => some (queryOf q)
    | [] => none
  { u with path := pathOf path, query }

/-- The text of a URL. -/
def text (u : Url) : String :=
  let host := if u.host.contains ':' then '[' :: u.host ++ [']'] else u.host
  let user := if u.user.isEmpty then [] else u.user ++ ['@']
  let port := (u.port.map fun n => ':' :: (toString n).toList).getD []
  let scheme := if u.scheme.isEmpty then [] else u.scheme ++ [':']
  let authority := user ++ host ++ port
  String.ofList
    (scheme ++ (if authority.isEmpty then [] else '/' :: '/' :: authority) ++ u.target)

end Url

end DocSearch.Address
