import DocSearch.Number.Binary64
import DocSearch.Text.Trim
import DocSearch.Text.Quoted

/-!
# Numerals

Reading integers and floating-point numbers from text. Blanks around a numeral, single underscores
between digits and the decimal digits of every script are accepted; a numeral of more than 4300
digits is refused before it is converted.
-/

namespace DocSearch.Number

open DocSearch.Text

/-- The longest integer numeral that is converted. -/
def maxDigits : Nat := 4300

/-- Why a text is no integer. -/
inductive NumeralError where
  | malformed (text : String)
  | tooLong (digits : Nat)
deriving Repr, DecidableEq

/-- The error text; at most 200 characters of a malformed numeral are shown. -/
def NumeralError.message : NumeralError → String
  | .malformed text =>
    "invalid literal for int() with base 10: " ++ String.ofList ((quoted text).toList.take 200)
  | .tooLong digits =>
    s!"Exceeds the limit ({maxDigits} digits) for integer string conversion: value has {digits} " ++
      "digits; use sys.set_int_max_str_digits() to increase the limit"

/-- A numeral with the digits of other scripts written in ASCII and its outer blanks removed. A
text of ASCII alone has only the ASCII blanks. -/
def normalise (s : String) : List Char :=
  let cs := s.toList
  let blank := if cs.all (·.toNat < 128) then isAsciiBlank else isBlank
  trimBy blank <| cs.map fun c =>
    match decimalValue? c with
    | some d => Char.ofNat (48 + d)
    | none => c

/-- The sign at the front, `true` for minus, and the rest. -/
def cutSign : List Char → Bool × List Char
  | '-' :: cs => (true, cs)
  | '+' :: cs => (false, cs)
  | cs => (false, cs)

/-- The natural that a run of ASCII digits denotes. -/
def digitsValue (cs : List Char) : Nat := cs.foldl (fun n c => 10 * n + (c.toNat - 48)) 0

/-- Whether every underscore stands between two digits. -/
def underscoresBetweenDigits : List Char → Bool
  | [] => true
  | c :: cs => c != '_' && go c cs
where
  go (previous : Char) : List Char → Bool
    | [] => previous != '_'
    | c :: cs =>
      (if c == '_' then isAsciiDigit previous else previous != '_' || isAsciiDigit c) && go c cs

/-- The integer that a text denotes. -/
def readInt (s : String) : Except NumeralError Int :=
  let (negative, body) := cutSign (normalise s)
  let run := body.takeWhile fun c => isAsciiDigit c || c == '_'
  let digits := run.filter (· != '_')
  if run.isEmpty || !underscoresBetweenDigits run then .error (.malformed s)
  else if digits.length > maxDigits then .error (.tooLong digits.length)
  else if run.length != body.length then .error (.malformed s)
  else
    let n : Int := digitsValue digits
    .ok (if negative then -n else n)

/-- The double nearest to `± digits · 10^exponent`. Far outside the range of doubles the answer is
known without forming the power. -/
def ofDecimal (negative : Bool) (digits : Nat) (exponent : Int) : Float :=
  let size : Int := exponent + (toString digits).length
  if digits == 0 || size < -400 then ofSignedBits negative 0
  else if size > 400 then infinity negative
  else ofRatio negative (digits * pow10 exponent.toNat) (pow10 (-exponent).toNat)

/-- The double that an unsigned ASCII decimal such as `1`, `1.`, `.5` or `1.5e-3` denotes. -/
def readDecimal? (negative : Bool) (cs : List Char) : Option Float :=
  let whole := cs.takeWhile isAsciiDigit
  let rest := cs.dropWhile isAsciiDigit
  let (part, rest) := match rest with
    | '.' :: r => (r.takeWhile isAsciiDigit, r.dropWhile isAsciiDigit)
    | r => ([], r)
  let value (e : Int) := ofDecimal negative (digitsValue (whole ++ part)) (e - part.length)
  if whole.isEmpty && part.isEmpty then none
  else match rest with
    | [] => some (value 0)
    | c :: r =>
      let (down, ds) := cutSign r
      if (c == 'e' || c == 'E') && !ds.isEmpty && ds.all isAsciiDigit then
        let e : Int := digitsValue ds
        some (value (if down then -e else e))
      else none

/-- The double that a text denotes: a decimal, or infinity or NaN by name in any case. -/
def readFloat? (s : String) : Option Float :=
  let cs := normalise s
  if cs.contains '_' && !underscoresBetweenDigits cs then none
  else
    let (negative, body) := cutSign (cs.filter (· != '_'))
    let word := String.ofList (body.map Char.toLower)
    if word == "inf" || word == "infinity" then some (infinity negative)
    else if word == "nan" then some nan
    else readDecimal? negative body

end DocSearch.Number
