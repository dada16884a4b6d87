import DocSearch.Text.Trim

/-!
# Counting words

A stand-in for a model: a text is embedded as the number of times that each of some words occurs in
it, whatever the case, with a one behind them.
-/

namespace DocSearch.Trial

open Text

/-- Whether a character is a capital that is 32 below its small letter. -/
def isCapital (c : Char) : Bool :=
  ('A' ≤ c && c ≤ 'Z') || ('À' ≤ c && c ≤ 'Þ' && c != '×') || ('Α' ≤ c && c ≤ 'Ϋ') ||
    ('А' ≤ c && c ≤ 'Я')

/-- The small letter of a capital: of the ASCII, Latin-1, Greek and Cyrillic letters, and of the
letters elsewhere whose small letter is ASCII. -/
def small (c : Char) : List Char :=
  if isCapital c then [Char.ofNat (c.toNat + 32)]
  else if c == '\u212a' then ['k']
  else if c == 'İ' then ['i', '\u0307']
  else [c]

/-- The number of places, not overlapping, where a word occurs in a text. `skip` characters belong to
the last place. -/
def occurrences (word : List Char) : (skip : Nat) → List Char → Nat
  | _, [] => if word.isEmpty then 1 else 0
  | skip + 1, _ :: cs => occurrences word skip cs
  | 0, c :: cs =>
    if (after? word (c :: cs)).isSome then 1 + occurrences word (word.length - 1) cs
    else occurrences word 0 cs

/-- How often each word occurs in a text, and a one behind. -/
def wordCounts (words : List String) (text : String) : List Nat :=
  let cs := text.toList.flatMap small
  words.map (fun w => occurrences w.toList 0 cs) ++ [1]

end DocSearch.Trial
