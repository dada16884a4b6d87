/-!
# Double-precision numbers as exact ratios

A finite double is `± m · 2^q` for naturals `m` and an integer `q`. Reading a ratio rounds to the
nearest double, a tie going to the even mantissa; every conversion here is exact arithmetic on
naturals up to that one rounding.
-/

namespace DocSearch.Number

/-- The `n`th power of two. -/
def pow2 (n : Nat) : Nat := Nat.pow 2 n

/-- The `n`th power of ten. -/
def pow10 (n : Nat) : Nat := Nat.pow 10 n

/-- The quotient rounded to the nearest natural, a half going to the even neighbour. -/
def divHalfEven (num den : Nat) : Nat :=
  let q := num / den
  let r := num % den
  if 2 * r < den then q
  else if 2 * r > den then q + 1
  else if q % 2 == 0 then q else q + 1

/-- A finite double taken apart: `(-1)^negative · mantissa · 2^exponent`. -/
structure Parts where
  negative : Bool
  mantissa : Nat
  exponent : Int
deriving Repr, DecidableEq

namespace Parts

/-- The absolute value as a numerator and a denominator. -/
def ratio (p : Parts) : Nat × Nat :=
  if 0 ≤ p.exponent then (p.mantissa * pow2 p.exponent.toNat, 1)
  else (p.mantissa, pow2 (-p.exponent).toNat)

end Parts

/-- The parts of a finite double; infinities and NaN have none. -/
def parts? (f : Float) : Option Parts :=
  let bits : Nat := f.toBits.toNat
  let negative : Bool := bits / pow2 63 == 1
  let biased : Nat := bits / pow2 52 % 2048
  let fraction : Nat := bits % pow2 52
  if biased == 2047 then none
  else if biased == 0 then some ⟨negative, fraction, -1074⟩
  else some ⟨negative, pow2 52 + fraction, (biased : Int) - 1075⟩

/-- Whether the sign bit is set. -/
def isNegative (f : Float) : Bool := f.toBits.toNat / pow2 63 == 1

/-- The double with the given sign and remaining bits. -/
def ofSignedBits (negative : Bool) (bits : Nat) : Float :=
  Float.ofBits (UInt64.ofNat (bits + if negative then pow2 63 else 0))

/-- Infinity of the given sign. -/
def infinity (negative : Bool) : Float := ofSignedBits negative (2047 * pow2 52)

/-- The value that is not a number. -/
def nan : Float := ofSignedBits false (2047 * pow2 52 + pow2 51)

/-- The double nearest to `± num / den`, ties to even; infinite past the largest double. -/
def ofRatio (negative : Bool) (num den : Nat) : Float :=
  if num == 0 then ofSignedBits negative 0
  else
    let scaled (q : Int) : Nat × Nat :=
      if 0 ≤ q then (num, den * pow2 q.toNat) else (num * pow2 (-q).toNat, den)
    let q₀ := max ((num.log2 : Int) - den.log2 - 53) (-1074)
    let q := if (scaled q₀).1 / (scaled q₀).2 < pow2 53 then q₀ else q₀ + 1
    let m₀ := divHalfEven (scaled q).1 (scaled q).2
    let (m, q) := if m₀ == pow2 53 then (pow2 52, q + 1) else (m₀, q)
    if q > 971 then infinity negative
    else if m < pow2 52 then ofSignedBits negative m
    else ofSignedBits negative ((q + 1075).toNat * pow2 52 + (m - pow2 52))

/-- The double nearest to an integer, unless it lies past the largest double. -/
def ofInt? (i : Int) : Option Float :=
  let f := ofRatio (i < 0) i.natAbs 1
  if (parts? f).isSome then some f else none

/-- The integer that a double stands for, if it is one. -/
def toInt? (f : Float) : Option Int := do
  let p ← parts? f
  let (num, den) := p.ratio
  if num % den == 0 then
    let n : Int := (num / den : Nat)
    some (if p.negative then -n else n)
  else none

/-- The double rounded to `places` decimal places: the exact value goes to the nearest decimal, a
half to the even one, and the decimal to the nearest double. -/
def roundPlaces (places : Nat) (f : Float) : Float :=
  match parts? f with
  | none => f
  | some p =>
    let (num, den) := p.ratio
    ofRatio p.negative (divHalfEven (num * pow10 places) den) (pow10 places)

end DocSearch.Number
