import DocSearch.Text.Trim

/-!
# Similar names

Two names are the more similar the more of their characters match: those of the longest run that
they share, and those of the runs shared before it and behind it, found in the same way.
-/

namespace DocSearch.Text

/-- How many characters two texts begin with in common. -/
def commonLength : List Char → List Char → Nat
  | a :: as, b :: bs => if a == b then commonLength as bs + 1 else 0
  | _, _ => 0

/-- A shared run: where it begins in either text, and its length. -/
structure SharedRun where
  left : Nat
  right : Nat
  length : Nat

/-- The longest of runs, and of equally long ones the first. -/
def longest : List SharedRun → SharedRun :=
  List.foldl (fun best r => if best.length < r.length then r else best) ⟨0, 0, 0⟩

/-- The longest run that two texts share. -/
def sharedRun (a b : List Char) : SharedRun :=
  longest ((List.range a.length).flatMap fun i =>
    (List.range b.length).map fun j => ⟨i, j, commonLength (a.drop i) (b.drop j)⟩)

/-- How many characters of two texts match. -/
def matching (a b : List Char) : Nat :=
  match sharedRun a b with
  | ⟨i, j, n⟩ =>
    if _h : 0 < n ∧ i < a.length then
      matching (a.take i) (b.take j) + n + matching (a.drop (i + n)) (b.drop (j + n))
    else 0
termination_by a.length
decreasing_by
  · simp only [List.length_take]; omega
  · simp only [List.length_drop]; omega

/-- Whether two texts share at least six tenths of their characters. -/
def isSimilar (a b : List Char) : Bool := 6 * (a.length + b.length) ≤ 10 * (2 * matching a b)

/-- Whether `a` is at least as similar to a name as `b` is. -/
def closerLe (name a b : String) : Bool :=
  let score (s : String) : Nat := 2 * matching s.toList name.toList
  let length (s : String) : Nat := s.length + name.length
  let left := score a * length b
  let right := score b * length a
  decide (right < left) || (left == right && decide (b ≤ a))

/-- The three names that are most similar to a given one, if they are similar at all. -/
def similarNames (name : String) (names : List String) : List String :=
  ((names.filter fun n => isSimilar n.toList name.toList).mergeSort (closerLe name)).take 3

end DocSearch.Text
