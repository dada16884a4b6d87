import DocSearch.Text.Trim

/-!
# Paths

A path is a text whose names are separated by slashes. Paths are tidied without looking at any
disk.
-/

namespace DocSearch.Files

open Text

/-- The slashes in front that a path keeps: two stay two, more count as one. -/
def leadingSlashes (cs : List Char) : List Char :=
  match (cs.takeWhile (· == '/')).length with
  | 0 => []
  | 2 => ['/', '/']
  | _ => ['/']

/-- The names joined by slashes. -/
def joinNames : List (List Char) → List Char
  | [] => []
  | [n] => n
  | n :: ns => n ++ '/' :: joinNames ns

/-- The text of a path from its leading slashes and names; the empty path is a dot. -/
def pathText (lead : List Char) (names : List (List Char)) : List Char :=
  if lead.isEmpty && names.isEmpty then ['.'] else lead ++ joinNames names

/-- The names that are left after every pair of a name and `..` is struck out; in front of a
relative path `..` stays. The names kept so far are given last first. -/
def climb (absolute : Bool) (kept : List (List Char)) : List (List Char) → List (List Char)
  | [] => kept.reverse
  | n :: ns =>
    if n.isEmpty || n == ['.'] then climb absolute kept ns
    else if n != ['.', '.'] then climb absolute (n :: kept) ns
    else
      match kept with
      | [] => if absolute then climb absolute [] ns else climb absolute [n] ns
      | k :: rest =>
        if k == ['.', '.'] then climb absolute (n :: kept) ns else climb absolute rest ns

/-- The shortest path with the same meaning, as far as the text tells. -/
def normalise (path : String) : String :=
  let lead := leadingSlashes path.toList
  String.ofList (pathText lead (climb (!lead.isEmpty) [] (splitAt '/' path.toList)))

/-- The path without empty names and dots. -/
def tidy (path : String) : String :=
  let lead := leadingSlashes path.toList
  let names := (splitAt '/' path.toList).filter fun n => !n.isEmpty && n != ['.']
  String.ofList (pathText lead names)

/-- The path of an entry of a folder. -/
def child (folder name : String) : String :=
  if folder.toList.getLast? == some '/' then folder ++ name else folder ++ "/" ++ name

end DocSearch.Files
