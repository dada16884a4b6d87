import DocSearch.Number.Binary64

/-!
# Nearness of vectors

How near a vector is to another one is the cosine of the angle between them. Its square with the sign
of the cosine is compared as an exact fraction: doubles are whole multiples of powers of two, and the
length of a vector does not matter.
-/

namespace DocSearch

open Number

/-- The exponents of the numbers that are finite. -/
def exponents (v : List Float) : List Int := v.filterMap fun f => (parts? f).map (·.exponent)

/-- Whole numbers in the proportions of the numbers of a vector. -/
def proportions (v : List Float) : List Int :=
  let least := (exponents v).foldl min 0
  v.map fun f =>
    match parts? f with
    | none => 0
    | some p =>
      let n : Int := (p.mantissa * pow2 (p.exponent - least).toNat : Nat)
      if p.negative then -n else n

/-- The sum of the products of numbers at the same place. -/
def dotProduct (a b : List Int) : Int := (List.zipWith (· * ·) a b).foldl (· + ·) 0

/-- A fraction; the denominator is positive. -/
structure Fraction where
  numerator : Int
  denominator : Nat
  positive : 0 < denominator

/-- The order of fractions. -/
def Fraction.le (a b : Fraction) : Bool :=
  decide (a.numerator * b.denominator ≤ b.numerator * a.denominator)

/-- The nearness of `v` to `query`, up to a factor that is the same for all `v`. A vector without a
direction is farther than any other. -/
def nearness (query v : List Float) : Fraction :=
  let q := proportions query
  let w := proportions v
  let dot := dotProduct q w
  let square := (dotProduct w w).toNat
  if h : 0 < square then ⟨dot * dot.natAbs, square, h⟩
  else ⟨-(dotProduct q q) - 1, 1, Nat.one_pos⟩

end DocSearch
