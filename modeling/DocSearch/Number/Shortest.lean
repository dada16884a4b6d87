import DocSearch.Number.Binary64

/-!
# The shortest decimal of a double

Among the decimals that read back as a given double, the one with the fewest digits is chosen, of
those the nearest, and of two equally near ones the even. The search goes over the grids of one,
two, … seventeen digits: if a grid has a point in the interval that rounds to the double, one of the
two grid points next to the double is such a point.
-/

namespace DocSearch.Number

/-- A positive decimal `digits · 10^exponent`. -/
structure Decimal where
  digits : Nat
  exponent : Int
deriving Repr, DecidableEq

/-- The comparison `c · 10^s ≤ x · 2^q`. -/
def decimalLe (c : Nat) (s : Int) (x : Nat) (q : Int) : Bool :=
  c * pow10 s.toNat * pow2 (-q).toNat ≤ x * pow2 q.toNat * pow10 (-s).toNat

/-- The comparison `c · 10^s < x · 2^q`. -/
def decimalLt (c : Nat) (s : Int) (x : Nat) (q : Int) : Bool :=
  c * pow10 s.toNat * pow2 (-q).toNat < x * pow2 q.toNat * pow10 (-s).toNat

/-- Quarters of the last place: the double and the ends of the interval that rounds to it, in units
of `2^(q-2)`. Below a power of two the spacing halves. -/
structure Interval where
  low : Nat
  mid : Nat
  high : Nat
  scale : Int
  closed : Bool

/-- The interval of reals that round to `m · 2^q`. -/
def roundingInterval (m : Nat) (q : Int) : Interval where
  low := if m == pow2 52 && q > -1074 then 4 * m - 1 else 4 * m - 2
  mid := 4 * m
  high := 4 * m + 2
  scale := q - 2
  closed := m % 2 == 0

namespace Interval

/-- Whether the decimal `c · 10^s` rounds to the double. -/
def holds (i : Interval) (c : Nat) (s : Int) : Bool :=
  if i.closed then !decimalLt c s i.low i.scale && decimalLe c s i.high i.scale
  else !decimalLe c s i.low i.scale && decimalLt c s i.high i.scale

/-- The largest grid point `c · 10^s` that is at most the double. -/
def below (i : Interval) (s : Int) : Nat :=
  i.mid * pow2 i.scale.toNat * pow10 (-s).toNat / (pow2 (-i.scale).toNat * pow10 s.toNat)

/-- The grid point nearest to the double among those that round to it, on the grid of step
`10^s`. -/
def nearest? (i : Interval) (s : Int) : Option Nat :=
  let lo := i.below s
  match i.holds lo s, i.holds (lo + 1) s with
  | false, false => none
  | true, false => some lo
  | false, true => some (lo + 1)
  | true, true =>
    -- The midpoint of the two is `(2 lo + 1) / 2` steps.
    if decimalLt (2 * lo + 1) s (2 * i.mid) i.scale then some (lo + 1)
    else if decimalLe (2 * lo + 1) s (2 * i.mid) i.scale then
      some (if lo % 2 == 0 then lo else lo + 1)
    else some lo

/-- The least `e` with the double below `10^e`. -/
def magnitude (i : Interval) : Int :=
  let guess := ((i.mid.log2 : Int) + i.scale) * 1233 / 4096 - 1
  ((List.range 5).map fun k => guess + (k : Nat)).find? (fun e => !decimalLe 1 e i.mid i.scale) |>.getD guess

end Interval

/-- The decimal with no zeros at the end of its digits. -/
def dropZeros (d : Decimal) : Nat → Decimal
  | 0 => d
  | n + 1 =>
    if d.digits ≠ 0 ∧ d.digits % 10 = 0 then dropZeros ⟨d.digits / 10, d.exponent + 1⟩ n else d

/-- The shortest decimal that reads back as `m · 2^q`, for a positive `m`. -/
def shortest (m : Nat) (q : Int) : Decimal :=
  let i := roundingInterval m q
  let top := i.magnitude
  let found := (List.range 17).findSome? fun k =>
    let s := top - (k + 1 : Nat)
    (i.nearest? s).map fun c => (⟨c, s⟩ : Decimal)
  dropZeros (found.getD ⟨0, 0⟩) 20

/-- The spelling of a double: positional for decimal exponents from -4 up to 15, with at least one
digit after the point, and otherwise with an exponent of at least two digits and its sign. -/
def floatText (f : Float) : String :=
  match parts? f with
  | none => if f != f then "nan" else if isNegative f then "-inf" else "inf"
  | some p =>
    let sign := if p.negative then "-" else ""
    if p.mantissa == 0 then sign ++ "0.0"
    else
      let d := shortest p.mantissa p.exponent
      let ds := toString d.digits
      let n := ds.length
      let point : Int := d.exponent + n
      if -4 < point && point ≤ 16 then
        if point ≤ 0 then sign ++ "0." ++ "".pushn '0' (-point).toNat ++ ds
        else if point.toNat ≥ n then sign ++ ds ++ "".pushn '0' (point.toNat - n) ++ ".0"
        else
          let cs := ds.toList
          sign ++ String.ofList (cs.take point.toNat) ++ "." ++ String.ofList (cs.drop point.toNat)
      else
        let e := point - 1
        let es := toString e.natAbs
        let mark := if e < 0 then "e-" else "e+"
        let rest := String.ofList (ds.toList.drop 1)
        sign ++ String.ofList (ds.toList.take 1) ++ (if rest.isEmpty then "" else "." ++ rest) ++
          mark ++ (if es.length < 2 then "0" ++ es else es)

/-- The value with a fixed number of decimal places, a half going to the even neighbour. -/
def fixedText (places : Nat) (f : Float) : String :=
  match parts? f with
  | none => if f != f then "nan" else if isNegative f then "-inf" else "inf"
  | some p =>
    let (num, den) := p.ratio
    let scaled := divHalfEven (num * pow10 places) den
    let whole := toString (scaled / pow10 places)
    let part := toString (scaled % pow10 places)
    (if p.negative then "-" else "") ++ whole ++
      if places == 0 then "" else "." ++ "".pushn '0' (places - part.length) ++ part

end DocSearch.Number
