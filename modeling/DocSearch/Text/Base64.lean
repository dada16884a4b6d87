import DocSearch.Text.Char

/-!
# Base 64

Reading bytes from letters of six bits each. Characters outside the alphabet are passed over, and
reading stops once the padding completes a group of four.
-/

namespace DocSearch.Text.Base64

/-- The six bits that a letter stands for. -/
def sixBits? (c : Char) : Option Nat :=
  if 'A' ≤ c && c ≤ 'Z' then some (c.toNat - 65)
  else if 'a' ≤ c && c ≤ 'z' then some (c.toNat - 71)
  else if isAsciiDigit c then some (c.toNat + 4)
  else if c == '+' then some 62
  else if c == '/' then some 63
  else none

/-- Reads on with `place` letters of the current group seen, the bits `left` not yet written, and
`pads` padding characters in a row. -/
def read (place left pads : Nat) : List Char → Option (List UInt8)
  | [] => if place == 0 then some [] else none
  | c :: cs =>
    if c == '=' then
      if place < 2 then read place left pads cs
      else if place + pads + 1 ≥ 4 then some []
      else read place left (pads + 1) cs
    else
      match sixBits? c, place with
      | none, _ => read place left pads cs
      | some b, 0 => read 1 b 0 cs
      | some b, 1 => (read 2 (b % 16) 0 cs).map (UInt8.ofNat (left * 4 + b / 16) :: ·)
      | some b, 2 => (read 3 (b % 4) 0 cs).map (UInt8.ofNat (left * 16 + b / 4) :: ·)
      | some b, _ => (read 0 0 0 cs).map (UInt8.ofNat (left * 64 + b) :: ·)

/-- The bytes that a text encodes, unless its last group is cut short. -/
def decode? (cs : List Char) : Option (List UInt8) := read 0 0 0 cs

end DocSearch.Text.Base64
