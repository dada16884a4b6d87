import DocSearch.Files.Tree

/-!
# Disks

A disk is a tree of files some of which may not be read, seen from a working folder. It answers what
a program may ask about a place: what is there, what a folder lists, what a file holds.
-/

namespace DocSearch.Files

open Text

/-- The folder where relative paths begin, by the names that lead there from the top. -/
class Home where
  names : List String

/-- The top itself, unless there is another one. -/
instance : Home := ⟨[]⟩

/-- A tree of files, the paths of folders and files that are withheld, and the working folder. -/
structure Disk where
  top : Entry
  unlistable : List String := []
  unreadable : List String := []
  [home : Home]

/-- A place on a disk: the names that lead down from a path. -/
structure Place where
  base : String
  names : List String := []
deriving Repr, DecidableEq

namespace Place

/-- The path of a place. -/
def path (p : Place) : String := p.names.foldl child p.base

/-- The place of an entry of the folder at `p`. -/
def below (p : Place) (name : String) : Place := { p with names := p.names ++ [name] }

/-- The names to be followed to a place. -/
def parts (p : Place) : List String := (splitAt '/' p.base.toList).map String.ofList ++ p.names

end Place

namespace Disk

/-- The names that lead from the top to where the path of a place begins, last name first. -/
def start (d : Disk) (p : Place) : List String := startOf p.base d.home.names.reverse

/-- The entry at a place. There is none at the empty path. -/
def entry (d : Disk) (p : Place) (last : Bool) : Except PathError Entry :=
  let found :=
    if p.base.isEmpty then .error .missing
    else follow d.top last maxLinks (d.start p) p.parts
  found.mapError fun f => ⟨f, p.path⟩

/-- What the folder at a place lists. -/
def list (d : Disk) (p : Place) : Except PathError (List (String × Entry)) := do
  if d.unlistable.contains p.path then throw ⟨.denied, p.path⟩
  match ← d.entry p true with
  | .folder entries => return entries
  | _ => throw ⟨.notFolder, p.path⟩

/-- What the file at a place holds. -/
def read (d : Disk) (p : Place) : Except PathError Bytes := do
  if d.unreadable.contains p.path then throw ⟨.denied, p.path⟩
  match ← d.entry p true with
  | .file content => return content
  | _ => throw ⟨.isFolder, p.path⟩

/-- Whether an entry of the folder at `p` is a file, perhaps at the end of a link; a link that leads
nowhere is none. -/
def isFile (d : Disk) (p : Place) (e : String × Entry) : Except PathError Bool :=
  match e.2 with
  | .file _ => .ok true
  | .folder _ => .ok false
  | .link _ =>
    match d.entry (p.below e.1) true with
    | .ok (.file _) => .ok true
    | .ok _ => .ok false
    | .error ⟨.missing, _⟩ => .ok false
    | .error e => .error e

end Disk

end DocSearch.Files
