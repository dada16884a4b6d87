import DocSearch.Yaml.Error
import DocSearch.Yaml.Tag
import DocSearch.Text.Base64
import DocSearch.Value

/-!
# What scalars mean

The value of a scalar under its tag. A tag that was written out may stand in front of any text, so
each conversion has its faults.
-/

namespace DocSearch.Yaml

open Number Text

/-! ## Integers -/

/-- The value of a digit or letter. -/
def digitValue (c : Char) : Nat :=
  if isAsciiDigit c then c.toNat - 48
  else if 'a' ≤ c && c ≤ 'z' then c.toNat - 87
  else if 'A' ≤ c && c ≤ 'Z' then c.toNat - 55
  else 36

/-- The letter that marks numerals of a base behind a leading zero. -/
def baseLetter (base : Nat) : Char := if base == 2 then 'b' else if base == 8 then 'o' else 'x'

/-- The integer that a text denotes in base 2, 8 or 16; the mark of the base may be there. -/
def readBase (base : Nat) (cs : List Char) : Except Error Int :=
  let text := String.ofList cs
  let (negative, body) := cutSign (normalise text)
  let digits := match body with
    | '0' :: m :: ds => if m.toLower == baseLetter base then ds else body
    | _ => body
  if digits.isEmpty || digits.any (digitValue · ≥ base) then .error (.badNumeral base text)
  else
    let n : Int := digits.foldl (fun v c => v * base + digitValue c) 0
    .ok (if negative then -n else n)

/-- The integer that a text denotes in base 10. -/
def readTen (cs : List Char) : Except Error Int :=
  match readInt (String.ofList cs) with
  | .ok n => .ok n
  | .error (.malformed text) => .error (.badNumeral 10 text)
  | .error (.tooLong n) => .error (.tooLong n)

/-- The text of a number without its sign, and whether that is a minus. -/
def signedText (cs : List Char) : Except Error (Bool × List Char) :=
  if cs.isEmpty then .error .emptyNumeral else .ok (cutSign cs)

/-- An integer: binary behind `0b`, hexadecimal behind `0x`, octal behind another zero, in sixties
if there is a colon, else decimal. Underscores do not count. -/
def readInteger (cs : List Char) : Except Error Int := do
  let (negative, body) ← signedText (cs.filter (· != '_'))
  let n : Int ← match body with
    | [] => throw .emptyNumeral
    | ['0'] => pure 0
    | '0' :: 'b' :: ds => readBase 2 ds
    | '0' :: 'x' :: ds => readBase 16 ds
    | '0' :: _ => readBase 8 body
    | _ =>
      if body.contains ':' then do
        let parts ← (splitAt ':' body).mapM readTen
        pure (parts.foldl (fun v d => v * 60 + d) 0)
      else readTen body
  return if negative then -n else n

/-! ## Numbers with a point -/

/-- A number that a text denotes. -/
def readPart (cs : List Char) : Except Error Float :=
  match readFloat? (String.ofList cs) with
  | some f => .ok f
  | none => .error (.badFloat (String.ofList cs))

/-- The sum of parts in sixties, the last part first. -/
def sumSixties (base : Nat) (sum : Float) : List Float → Except Error Float
  | [] => .ok sum
  | d :: ds =>
    match ofInt? base with
    | some b => sumSixties (base * 60) (sum + d * b) ds
    | none => .error .tooLarge

/-- A number with a point; in sixties if there is a colon. Underscores do not count. -/
def readNumber (cs : List Char) : Except Error Float := do
  let (negative, body) ← signedText ((cs.filter (· != '_')).map Char.toLower)
  let f ←
    if body == ".inf".toList then pure (infinity false)
    else if body == ".nan".toList then pure nan
    else if body.contains ':' then do
      let parts ← (splitAt ':' body).mapM readPart
      sumSixties 1 0 parts.reverse
    else readPart body
  return if negative then -f else f

/-! ## Times -/

/-- A number with at least `width` digits. -/
def padded (width n : Nat) : String :=
  let s := toString n
  "".pushn '0' (width - s.length) ++ s

/-- The number of days of a month. -/
def monthDays (year month : Nat) : Nat :=
  if month == 2 then
    if year % 4 == 0 && (year % 100 != 0 || year % 400 == 0) then 29 else 28
  else if [4, 6, 9, 11].contains month then 30
  else 31

/-- An amount of minutes as days and seconds. -/
def durationText (minutes : Int) : String :=
  let days := minutes.fdiv 1440
  let seconds := minutes.fmod 1440 * 60
  if seconds == 0 then s!"datetime.timedelta(days={days})"
  else s!"datetime.timedelta(days={days}, seconds={seconds})"

/-- The offset in minutes, which has to be less than a day. -/
def offsetMinutes : Zone → Except Error Int
  | .universal => .ok 0
  | .offset west h m =>
    let minutes : Int := if west then -(60 * h + m) else 60 * h + m
    if minutes.natAbs < 1440 then .ok minutes
    else
      .error (.badDate (
        "offset must be a timedelta strictly between -timedelta(hours=24) and " ++
          s!"timedelta(hours=24), not {durationText minutes}."))

/-- The ISO form of a day. -/
def dayText (t : Stamp) : Except Error String :=
  if t.year == 0 then .error (.badDate "year 0 is out of range")
  else if t.month == 0 || t.month > 12 then .error (.badDate "month must be in 1..12")
  else if t.day == 0 || t.day > monthDays t.year t.month then
    .error (.badDate "day is out of range for month")
  else .ok s!"{padded 4 t.year}-{padded 2 t.month}-{padded 2 t.day}"

/-- The ISO form of a time of day; of the fraction six digits count, and no zeros are written. -/
def clockText (c : Clock) (offset : Option Int) : Except Error String :=
  if c.hour > 23 then .error (.badDate "hour must be in 0..23")
  else if c.minute > 59 then .error (.badDate "minute must be in 0..59")
  else if c.second > 59 then .error (.badDate "second must be in 0..59")
  else
    let micro := digitsValue ((c.fraction ++ List.replicate 6 '0').take 6)
    let fraction := if micro == 0 then "" else "." ++ padded 6 micro
    let zone := match offset with
      | none => ""
      | some m =>
        (if m < 0 then "-" else "+") ++ padded 2 (m.natAbs / 60) ++ ":" ++ padded 2 (m.natAbs % 60)
    .ok s!"T{padded 2 c.hour}:{padded 2 c.minute}:{padded 2 c.second}{fraction}{zone}"

/-- A day or a time. -/
def readTime (cs : List Char) : Except Error Value := do
  match Stamp.ofText? (dropFeed cs) with
  | none => throw .notTime
  | some t =>
    match t.clock with
    | none => return .day (← dayText t)
    | some c =>
      let offset ← c.zone.mapM offsetMinutes
      let day ← dayText t
      return .time (day ++ (← clockText c offset))

/-! ## All scalars -/

/-- A truth value. -/
def readTruth (cs : List Char) : Except Error Bool :=
  let word := String.ofList (cs.map Char.toLower)
  if ["yes", "true", "on"].contains word then .ok true
  else if ["no", "false", "off"].contains word then .ok false
  else .error (.unknownTruth word)

/-- The value of a scalar. Nothing, if scalars have no meaning under the tag. -/
def scalarValue (tag : Tag) (cs : List Char) : Except Error Value :=
  match tag with
  | .null => .ok .null
  | .truth => (readTruth cs).map .bool
  | .int => (readInteger cs).map .int
  | .float => (readNumber cs).map .float
  | .binary =>
    if cs.all (·.toNat < 128) then
      match Base64.decode? cs with
      | some bytes => .ok (.bytes bytes)
      | none => .error .malformed
    else .error .malformed
  | .time => readTime cs
  | .text => .ok (.text (String.ofList cs))
  | _ => .error .malformed

end DocSearch.Yaml
