import DocSearch.Go.Outline

/-!
# The comments that belong to a node

Among siblings, a node has a *lead* group, the run of adjacent comments that ends on the row right
above it, and a *line* group, the comments behind it that begin on its last row. A comment on the
row where the thing before it ends belongs to that thing and leads nothing.
-/

namespace DocSearch.Doc

open Go

/-- A comment with its rows. -/
abbrev Comment := String × Rows

/-- The comments of a run, nearest first, that lead what begins on row `boundary`. The nearest has to
end on the row right above; each further one there or on the row where the one below begins. The
comments come in order, the nearest first, and so does the result. -/
def leadRun (first : Bool) (boundary : Nat) : List Comment → List Comment
  | [] => []
  | (text, rows) :: cs =>
    if rows.last + 1 < boundary || (first && rows.last + 1 != boundary) then []
    else (text, rows) :: leadRun false rows.first cs

/-- The comments at the front. -/
def commentRun : List (Sibling α) → List Comment
  | .comment text rows :: ss => (text, rows) :: commentRun ss
  | _ => []

/-- The lead group of a node that begins on row `row`, in source order. `before` holds the siblings
before the node, the nearest first. -/
def leadGroup (before : List (Sibling α)) (row : Nat) : List Comment :=
  let group := (leadRun true row (commentRun before)).reverse
  match before.drop (commentRun before).length with
  | s :: _ =>
    -- The whole run was taken only if nothing but `s` ended it.
    if group.length == (commentRun before).length then
      group.dropWhile fun (_, rows) => rows.first == s.rows.last
    else group
  | [] => group

/-- The line group of a node that ends on row `row`, given the siblings behind it: semicolons are
passed over, anything else but a comment ends the group. -/
def lineGroup (row : Nat) : List (Sibling α) → List Comment
  | [] => []
  | s :: ss =>
    if s.rows.first != row then []
    else
      match s with
      | .comment text rows => (text, rows) :: lineGroup row ss
      | .semicolon _ => lineGroup row ss
      | _ => []

/-- The nodes among siblings, each with the siblings before it, nearest first, and those behind. -/
def nodesIn (before : List (Sibling α)) :
    List (Sibling α) → List (α × Rows × List (Sibling α) × List (Sibling α))
  | [] => []
  | .node value rows :: ss => (value, rows, before, ss) :: nodesIn (.node value rows :: before) ss
  | s :: ss => nodesIn (s :: before) ss

end DocSearch.Doc
