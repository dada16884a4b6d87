import DocSearch.Text.Trim

/-!
# Internet addresses

Reading IPv4 and IPv6 addresses and writing them in their canonical form: IPv6 groups in lower case
without leading zeros, and the first longest run of at least two zero groups left out.
-/

namespace DocSearch.Address

open Text

/-! ## Version 4 -/

/-- One of the four numbers: one to three ASCII digits without a leading zero, up to 255. -/
def octet? (cs : List Char) : Option Nat :=
  if cs.isEmpty || !cs.all isAsciiDigit || cs.length > 3 then none
  else if cs.length > 1 && cs.head? == some '0' then none
  else
    let n := cs.foldl (fun n c => 10 * n + (c.toNat - 48)) 0
    if n ≤ 255 then some n else none

/-- The four numbers of an IPv4 address. -/
def octets? (cs : List Char) : Option (List Nat) :=
  let parts := splitAt '.' cs
  if parts.length == 4 then parts.mapM octet? else none

/-! ## Version 6 -/

/-- One group of an IPv6 address: one to four hexadecimal digits. -/
def group? (cs : List Char) : Option Nat :=
  if cs.isEmpty || cs.length > 4 || !cs.all isHexDigit then none
  else some (cs.foldl (fun n c => 16 * n + hexValue c) 0)

/-- The parts between colons, with an IPv4 address at the end as two groups. -/
def parts? (cs : List Char) : Option (List (List Char)) :=
  let parts := splitAt ':' cs
  match parts.getLast? with
  | some last =>
    if last.contains '.' then
      match octets? last with
      | some [a, b, c, d] =>
        some (parts.dropLast ++ [Nat.toDigits 16 (a * 256 + b), Nat.toDigits 16 (c * 256 + d)])
      | _ => none
    else some parts
  | none => none

/-- The positions of the empty parts between the first and the last. -/
def gaps (parts : List (List Char)) : List Nat :=
  (List.range parts.length).filter fun i =>
    0 < i && i + 1 < parts.length && parts[i]? == some []

/-- The groups of an IPv6 address without a gap, or with one gap that stands for at least one
group. -/
def expand? (parts : List (List Char)) : Option (List Nat) :=
  match gaps parts with
  | [] => if parts.length == 8 then parts.mapM group? else none
  | [i] =>
    let before := parts.take i
    let behind := parts.drop (i + 1)
    -- A gap at either end has an empty part of its own beside it.
    let before := if before == [[]] then [] else before
    let behind := if behind == [[]] then [] else behind
    if before.length + behind.length < 8 then do
      let high ← before.mapM group?
      let low ← behind.mapM group?
      some (high ++ List.replicate (8 - high.length - low.length) 0 ++ low)
    else none
  | _ => none

/-- The eight groups of an IPv6 address. -/
def groups? (cs : List Char) : Option (List Nat) := do
  let parts ← if (splitAt ':' cs).length < 3 then none else parts? cs
  if parts.length > 9 then none else expand? parts

/-- The length of the run of zeros at the front. -/
def zeroRun (groups : List Nat) : Nat := (groups.takeWhile (· == 0)).length

/-- Where the first longest run of zero groups begins, and its length. -/
def longestZeros (groups : List Nat) : Nat × Nat :=
  (List.range groups.length).foldl
    (fun best i =>
      let n := zeroRun (groups.drop i)
      if n > best.2 then (i, n) else best)
    (0, 0)

/-- The canonical text of eight groups. -/
def groupText (groups : List Nat) : List Char :=
  let colons (gs : List Nat) : List Char := [':'].intercalate (gs.map (Nat.toDigits 16))
  let (start, n) := longestZeros groups
  if n > 1 then colons (groups.take start) ++ "::".toList ++ colons (groups.drop (start + n))
  else colons groups

/-- The canonical text of an address of either version; a zone behind an IPv6 address is kept. -/
def canonical? (cs : List Char) : Option (List Char) :=
  if (octets? cs).isSome then some cs
  else
    let zone := cs.dropWhile (· != '%')
    let valid := match zone with
      | [] => true
      | _ :: name => !name.isEmpty && !name.contains '%'
    if valid then (groups? (cs.takeWhile (· != '%'))).map fun gs => groupText gs ++ zone else none

end DocSearch.Address
