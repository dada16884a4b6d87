import DocSearch.Yaml.Lexer
import DocSearch.Yaml.Tag

/-!
# Nodes

The tree that the tokens of a document spell. An alias stands for the node that carries its anchor;
inside that very node it is a `cycle`.
-/

namespace DocSearch.Yaml

open Text

/-- A node with its tag. -/
inductive Node where
  | scalar (tag : Tag) (text : List Char)
  | list (tag : Tag) (items : List Node)
  | map (tag : Tag) (entries : List (Node × Node))
  | cycle
deriving Inhabited

/-- The node that nothing was written for. -/
def Node.empty : Node := .scalar .null []

namespace Node

/-! ## The state of reading -/

/-- The tokens ahead, the names that tag handles stand for, and the anchors met, with their nodes as
soon as these are complete. -/
structure Reading where
  tokens : List Token
  handles : List (List Char × List Char)
  anchors : List (List Char × Option Node)

/-- Reading part of a document. -/
abbrev Read := StateT Reading (Except Error)

/-- The token ahead. A fault is raised when it comes up. -/
def peek : Read Token := do
  match (← get).tokens with
  | .fault e :: _ => throw e
  | t :: _ => return t
  | [] => throw .malformed

/-- Passes the token ahead. -/
def advance : Read Unit := modify fun s => { s with tokens := s.tokens.tail }

/-- Passes the token ahead if it is `t`. -/
def pass (t : Token) : Read Bool := do
  if (← peek) == t then
    advance
    return true
  else return false

/-- Passes the token ahead, which has to be `t`. -/
def require (t : Token) : Read Unit := do
  if !(← pass t) then throw .malformed

/-- Whether the token ahead is one of `ts`. -/
def ahead (ts : List Token) : Read Bool := return ts.contains (← peek)

/-! ## Properties of nodes -/

/-- The anchor ahead, if there is one. -/
def anchor? : Read (Option (List Char)) := do
  match ← peek with
  | .anchor n =>
    advance
    return some n
  | _ => return none

/-- The full name of the tag ahead, if there is one. -/
def tag? : Read (Option (List Char)) := do
  match ← peek with
  | .tag none suffix =>
    advance
    return some suffix
  | .tag (some h) suffix =>
    advance
    match (← get).handles.lookup h with
    | some space => return some (space ++ suffix)
    | none => throw .malformed
  | _ => return none

/-- The anchor and the tag in front of a node, in either order. -/
def properties : Read (Option (List Char) × Option (List Char)) := do
  match ← anchor? with
  | some a => return (some a, ← tag?)
  | none =>
    let t ← tag?
    return (← anchor?, t)

/-- Marks an anchor as met; each may be met once. -/
def openAnchor (anchor : Option (List Char)) : Read Unit := do
  match anchor with
  | none => return
  | some a =>
    if ((← get).anchors.lookup a).isSome then throw .malformed
    modify fun s => { s with anchors := (a, none) :: s.anchors }

/-- Gives an anchor its node. -/
def closeAnchor (anchor : Option (List Char)) (n : Node) : Read Node := do
  match anchor with
  | none => return n
  | some a =>
    modify fun s => { s with anchors := (a, some n) :: s.anchors }
    return n

/-- The tag that is meant by a full name, if that says anything. -/
def given (name : Option (List Char)) : Option Tag :=
  match name with
  | none => none
  | some n => if n == ['!'] then none else some (Tag.ofName n)

/-- The tag of a scalar: the given one, or the one of its spelling if it is plain or marked by a
lone exclamation mark. -/
def scalarTag (name : Option (List Char)) (text : List Char) (plain : Bool) : Tag :=
  match given name with
  | some t => t
  | none => if plain || name.isSome then Tag.ofSpelling text else .text

/-! ## Reading nodes -/

mutual

/-- A node. Blocks may begin here only if `block`, and items without a block of their own only if
`loose`. -/
def node (block loose : Bool) : (fuel : Nat) → Read Node
  | 0 => throw .malformed
  | fuel + 1 => do
    if let .alias a := ← peek then
      advance
      match (← get).anchors.lookup a with
      | none => throw .malformed
      | some none => return .cycle
      | some (some n) => return n
    let (anchor, name) ← properties
    let list (items : Read (List Node)) : Read Node := do
      openAnchor anchor
      closeAnchor anchor (.list ((given name).getD .list) (← items))
    let map (entries : Read (List (Node × Node))) : Read Node := do
      openAnchor anchor
      closeAnchor anchor (.map ((given name).getD .map) (← entries))
    let scalar (text : List Char) (plain : Bool) : Read Node := do
      openAnchor anchor
      closeAnchor anchor (.scalar (scalarTag name text plain) text)
    let bare : Read Node :=
      if anchor.isSome || name.isSome then scalar [] true else throw .malformed
    match ← peek, block with
    | .item, _ => if loose then list (looseItems fuel) else bare
    | .scalar text plain, _ =>
      advance
      scalar text plain
    | .openList, _ =>
      advance
      list (flowItems true fuel)
    | .openMap, _ =>
      advance
      map (flowEntries true fuel)
    | .blockSequence, true =>
      advance
      list (blockItems fuel)
    | .blockMapping, true =>
      advance
      map (blockEntries fuel)
    | _, _ => bare

/-- The node ahead, or the empty one before one of the tokens `ends`. -/
def nodeBefore (ends : List Token) (block loose : Bool) : (fuel : Nat) → Read Node
  | 0 => throw .malformed
  | fuel + 1 => do if ← ahead ends then return .empty else node block loose fuel

/-- The items of a block. -/
def blockItems : (fuel : Nat) → Read (List Node)
  | 0 => throw .malformed
  | fuel + 1 => do
    if ← pass .item then
      let n ← nodeBefore [.item, .blockEnd] true false fuel
      return n :: (← blockItems fuel)
    else
      require .blockEnd
      return []

/-- Items at the indent of the map they are in. -/
def looseItems : (fuel : Nat) → Read (List Node)
  | 0 => throw .malformed
  | fuel + 1 => do
    if ← pass .item then
      let n ← nodeBefore [.item, .key, .value, .blockEnd] true false fuel
      return n :: (← looseItems fuel)
    else return []

/-- The entries of a block. -/
def blockEntries : (fuel : Nat) → Read (List (Node × Node))
  | 0 => throw .malformed
  | fuel + 1 => do
    let ends := [Token.key, .value, .blockEnd]
    if ← pass .key then
      let k ← nodeBefore ends true true fuel
      let v ← if ← pass .value then nodeBefore ends true true fuel else pure .empty
      return (k, v) :: (← blockEntries fuel)
    else
      require .blockEnd
      return []

/-- The items in square brackets; a key makes an item a map of one entry. -/
def flowItems (first : Bool) : (fuel : Nat) → Read (List Node)
  | 0 => throw .malformed
  | fuel + 1 => do
    if ← pass .closeList then return []
    if !first then require .comma
    if ← pass .key then
      let k ← nodeBefore [.value, .comma, .closeList] false false fuel
      let v ←
        if ← pass .value then nodeBefore [.comma, .closeList] false false fuel else pure .empty
      return .map .map [(k, v)] :: (← flowItems false fuel)
    else if ← pass .closeList then return []
    else
      let n ← node false false fuel
      return n :: (← flowItems false fuel)

/-- The entries in braces. -/
def flowEntries (first : Bool) : (fuel : Nat) → Read (List (Node × Node))
  | 0 => throw .malformed
  | fuel + 1 => do
    if ← pass .closeMap then return []
    if !first then require .comma
    if ← pass .key then
      let k ← nodeBefore [.value, .comma, .closeMap] false false fuel
      let v ←
        if ← pass .value then nodeBefore [.comma, .closeMap] false false fuel else pure .empty
      return (k, v) :: (← flowEntries false fuel)
    else if ← pass .closeMap then return []
    else
      let n ← node false false fuel
      return (n, .empty) :: (← flowEntries false fuel)

end

/-! ## Documents -/

/-- The handles that need no directive. -/
def defaultHandles : List (List Char × List Char) := [(['!'], ['!']), (['!', '!'], tagSpace)]

/-- The directives in front of a document: at most one version, which has to be 1, and no handle
twice. -/
def directives (versioned : Bool) : (fuel : Nat) → Read Unit
  | 0 => throw .malformed
  | fuel + 1 => do
    match ← peek with
    | .directive d =>
      advance
      match d with
      | .version major =>
        if versioned || major != 1 then throw .malformed
        directives true fuel
      | .handle h space =>
        if ((← get).handles.lookup h).isSome then throw .malformed
        modify fun s => { s with handles := (h, space) :: s.handles }
        directives versioned fuel
      | .other => directives versioned fuel
    | _ => modify fun s => { s with handles := s.handles ++ defaultHandles }

/-- The marks that end a document, of which there may be several, and the end of the text. -/
def ending : (fuel : Nat) → Read Unit
  | 0 => throw .malformed
  | fuel + 1 => do if ← pass .documentEnd then ending fuel else require .streamEnd

/-- The only document of a text, or nothing if the text is empty. -/
def document (fuel : Nat) : Read (Option Node) := do
  match ← peek with
  | .streamEnd => return none
  | .directive _ | .documentStart =>
    directives false fuel
    require .documentStart
    match ← peek with
    | .directive _ | .documentStart | .documentEnd | .streamEnd =>
      ending fuel
      return some .empty
    | _ =>
      let n ← node true false fuel
      ending fuel
      return some n
  | _ =>
    modify fun s => { s with handles := defaultHandles }
    let n ← node true false fuel
    ending fuel
    return some n

/-- The document that tokens spell. -/
def ofTokens? (ts : List Token) : Except Error (Option Node) :=
  (document (4 * ts.length + 16)).run' ⟨ts, [], []⟩

end Node

end DocSearch.Yaml
