/-!
# Sets of code points as ranges

A class of characters is written down as a list of closed ranges of code points.
-/

namespace DocSearch.Text

/-- Closed ranges of code points, as `(first, last)`. -/
abbrev Ranges := List (Nat × Nat)

namespace Ranges

/-- The range that holds the code point `n`, if any does. -/
def find? (rs : Ranges) (n : Nat) : Option (Nat × Nat) :=
  List.find? (fun r => r.1 ≤ n && n ≤ r.2) rs

/-- Whether some range holds the code point `n`. -/
def has (rs : Ranges) (n : Nat) : Bool := (rs.find? n).isSome

end Ranges

end DocSearch.Text
