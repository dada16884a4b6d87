import DocSearch.Text.Utf8
import DocSearch.Text.Quoted
import DocSearch.Files.Path

/-!
# Trees of files

Folders with files, symbolic links and further folders. A path is followed name by name; a link on
the way stands for the path it holds, and at most forty links are followed. The top folder is above
itself, and absolute paths begin there.
-/

namespace DocSearch.Files

open Text

/-- What a name in a folder stands for. -/
inductive Entry where
  | file (content : Bytes)
  | link (target : String)
  | folder (entries : List (String × Entry))
deriving Inhabited

/-- Why a path cannot be used. -/
inductive Fault where
  | missing
  | denied
  | notFolder
  | isFolder
  | tooManyLinks
deriving Repr, DecidableEq

/-- A fault and the path it is about. -/
structure PathError where
  fault : Fault
  path : String
deriving Repr, DecidableEq

/-- The number and the text of a fault. -/
def Fault.text : Fault → String
  | .missing => "[Errno 2] No such file or directory"
  | .denied => "[Errno 13] Permission denied"
  | .notFolder => "[Errno 20] Not a directory"
  | .isFolder => "[Errno 21] Is a directory"
  | .tooManyLinks => "[Errno 40] Too many levels of symbolic links"

/-- The error text. -/
def PathError.message (e : PathError) : String := e.fault.text ++ ": " ++ quoted e.path

namespace Entry

/-- The entry under a name. -/
def get? (name : String) : Entry → Option Entry
  | .folder entries => entries.lookup name
  | _ => none

/-- Whether this is a folder. -/
def isFolder : Entry → Bool
  | .folder _ => true
  | _ => false

/-- The entry at the end of a way down through folders. -/
def at? : List String → Entry → Option Entry
  | [], e => some e
  | n :: ns, e => (e.get? n).bind (at? ns)

/-- The entry with `new` at the end of a way down; folders on the way are made where they are
missing. -/
def put (e : Entry) (names : List String) (new : Entry) : Entry :=
  match names with
  | [] => new
  | n :: ns =>
    match e with
    | .folder entries =>
      if entries.any (·.1 == n) then
        .folder (entries.map fun f => if f.1 == n then (n, put f.2 ns new) else f)
      else .folder (entries ++ [(n, put (.folder []) ns new)])
    | e => e

/-- Removes the entry at the end of a way down. -/
def remove : List String → Entry → Entry
  | [], e => e
  | [n], .folder entries => .folder (entries.filter (·.1 != n))
  | n :: ns, .folder entries =>
    .folder (entries.map fun e => if e.1 == n then (n, remove ns e.2) else e)
  | _ :: _, e => e

end Entry

/-- The names of a path. -/
def namesOf (path : String) : List String :=
  ((splitAt '/' path.toList).map String.ofList).filter fun n => n != "" && n != "."

/-! ## Following paths -/

/-- The number of links that are followed at most. -/
def maxLinks : Nat := 40

/-- Where a path begins that is followed from `here`. -/
def startOf (path : String) (here : List String) : List String :=
  if path.toList.head? == some '/' then [] else here

/-- Follows the names `todo` from the folder that is reached by `here` (last name first) in `top`.
A link at the very end is followed only if `last`. -/
def follow (top : Entry) (last : Bool) (links : Nat) (here : List String) (todo : List String) :
    Except Fault Entry :=
  match todo with
  | [] => ((top.at? here.reverse).map .ok).getD (.error .missing)
  | name :: rest =>
    match top.at? here.reverse with
    | some (.folder entries) =>
      if name == "" || name == "." then follow top last links here rest
      else if name == ".." then follow top last links here.tail rest
      else
        match entries.lookup name with
        | none => .error .missing
        | some (.link target) =>
          if rest.isEmpty && !last then .ok (.link target)
          else
            match links with
            | 0 => .error .tooManyLinks
            | links + 1 =>
              follow top last links (startOf target here)
                ((splitAt '/' target.toList).map String.ofList ++ rest)
        | some _ => follow top last links (name :: here) rest
    | some _ => .error .notFolder
    | none => .error .missing
termination_by (links, todo.length)

end DocSearch.Files
