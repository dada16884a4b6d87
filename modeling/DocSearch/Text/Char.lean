import DocSearch.Text.Ranges
import DocSearch.Text.Class.Upper
import DocSearch.Text.Class.Unprintable
import DocSearch.Text.Class.Digit
import DocSearch.Text.Class.Identifier

/-!
# Character classes

The classes of characters that the program tells apart: blanks, capitals, printable characters,
digits and the letters of identifiers. Each is decided directly on ASCII and by a table of ranges
beyond it.
-/

namespace DocSearch.Text

/-- White space: the ASCII blanks and separators, and the Unicode spaces and line breaks. -/
def isBlank (c : Char) : Bool :=
  let n := c.toNat
  (9 ≤ n && n ≤ 13) || (28 ≤ n && n ≤ 32) || n == 0x85 || n == 0xa0 || n == 0x1680 ||
    (0x2000 ≤ n && n ≤ 0x200a) || n == 0x2028 || n == 0x2029 || n == 0x202f || n == 0x205f ||
    n == 0x3000

/-- The blanks of ASCII text: tab, the line ends and page breaks, and the space. -/
def isAsciiBlank (c : Char) : Bool :=
  let n := c.toNat
  (9 ≤ n && n ≤ 13) || n == 32

/-- Upper-case letters. Title-case letters are not among them. -/
def isUpper (c : Char) : Bool :=
  let n := c.toNat
  if n < 128 then 65 ≤ n && n ≤ 90
  else upperSolid.has n ||
    match upperAlternating.find? n with
    | some (first, _) => (n - first) % 2 == 0
    | none => false

/-- Characters with a printed form; the space is the only separator among them. -/
def isPrintable (c : Char) : Bool :=
  let n := c.toNat
  if n < 128 then 32 ≤ n && n < 127 else !unprintable.has n

/-- The value of a decimal digit in any script. -/
def decimalValue? (c : Char) : Option Nat :=
  let n := c.toNat
  if n < 128 then
    if 48 ≤ n && n ≤ 57 then some (n - 48) else none
  else (decimalRuns.find? n).map fun r => (n - r.1) % 10

/-- Decimal digits in any script. -/
def isDecimal (c : Char) : Bool := (decimalValue? c).isSome

/-- Digits in the wide sense: decimal digits and those without a place value, such as `²`. -/
def isDigit (c : Char) : Bool := isDecimal c || otherDigits.has c.toNat

/-- The decimal digits of ASCII. -/
def isAsciiDigit (c : Char) : Bool := '0' ≤ c && c ≤ '9'

/-- The hexadecimal digits of ASCII, in either case. -/
def isHexDigit (c : Char) : Bool :=
  isAsciiDigit c || ('a' ≤ c && c ≤ 'f') || ('A' ≤ c && c ≤ 'F')

/-- The value of a hexadecimal digit. -/
def hexValue (c : Char) : Nat :=
  if isAsciiDigit c then c.toNat - 48
  else if 'a' ≤ c && c ≤ 'f' then c.toNat - 87
  else if 'A' ≤ c && c ≤ 'F' then c.toNat - 55
  else 0

/-- Letters that may begin an identifier, and the underscore. -/
def beginsIdentifier (c : Char) : Bool :=
  let n := c.toNat
  if n < 128 then c == '_' || ('a' ≤ c && c ≤ 'z') || ('A' ≤ c && c ≤ 'Z')
  else identifierStart.has n

/-- Characters that may follow inside an identifier. -/
def continuesIdentifier (c : Char) : Bool :=
  beginsIdentifier c || isAsciiDigit c || (128 ≤ c.toNat && identifierExtend.has c.toNat)

end DocSearch.Text
