import DocSearch.Yaml.Node
import DocSearch.Yaml.Meaning

/-!
# Documents

A text holds one document, whose nodes are turned into values. Of several faults the one nearest to
the root is reported, and of equally near ones the first.
-/

namespace DocSearch.Yaml

open Text

/-! ## Characters -/

/-- The characters that a text may hold. -/
def isAllowed (c : Char) : Bool :=
  let n := c.toNat
  c == '\t' || c == '\n' || c == '\r' || (0x20 ≤ n && n ≤ 0x7e) || n == 0x85 ||
    (0xa0 ≤ n && n ≤ 0xfffd) || 0x10000 ≤ n

/-- The text with every line ending written as one line feed. -/
def joinLines : List Char → List Char
  | [] => []
  | '\r' :: '\n' :: cs => '\n' :: joinLines cs
  | '\r' :: cs => '\n' :: joinLines cs
  | c :: cs => c :: joinLines cs

namespace Node

/-! ## Merging -/

/-- The entries with a plain `=` as a key taken for text. -/
def plainKey : Node × Node → Node × Node
  | (.scalar .default text, v) => (.scalar .text text, v)
  | e => e

/-- Whether an entry merges others in. -/
def isMerge : Node → Bool
  | .scalar .merge _ => true
  | .list .merge _ => true
  | .map .merge _ => true
  | _ => false

mutual

/-- The entries of a map, those merged into it in front. A map inside itself adds nothing. -/
def merged : Node → Except Error (List (Node × Node))
  | .map _ entries => do
    let (outer, own) ← mergedEntries entries
    return outer ++ own
  | .cycle => .ok []
  | _ => .error .malformed

/-- The entries merged in from elsewhere, and the own ones. -/
def mergedEntries : List (Node × Node) → Except Error (List (Node × Node) × List (Node × Node))
  | [] => .ok ([], [])
  | (k, v) :: es => do
    if isMerge k then
      let added ← match v with
        | .list _ items => mergedItems items
        | .map tag entries => merged (.map tag entries)
        | .cycle => pure []
        | .scalar _ _ => throw .malformed
      let (outer, own) ← mergedEntries es
      return (added ++ outer, own)
    else
      let (outer, own) ← mergedEntries es
      return (outer, plainKey (k, v) :: own)

/-- The entries of several maps, those of the first one last. -/
def mergedItems : List Node → Except Error (List (Node × Node))
  | [] => .ok []
  | n :: ns => do
    let first ← merged n
    let others ← mergedItems ns
    return others ++ first

end

/-! ## Values -/

/-- A result, or a fault and how far from the root it is. -/
abbrev Built (α : Type) := Except (Nat × Error) α

/-- Two results; of two faults the one nearer to the root, of equally near ones the first. -/
def both : Built α → Built β → Built (α × β)
  | .ok a, .ok b => .ok (a, b)
  | .error e, .ok _ => .error e
  | .ok _, .error e => .error e
  | .error e, .error f => .error (if f.1 < e.1 then f else e)

/-- The results of all. -/
def all : List (Built α) → Built (List α)
  | [] => .ok []
  | b :: bs => (both b (all bs)).map fun (a, as) => a :: as

/-- The text that stands for a map: the value of its plain key `=`. -/
def defaultText? : Node → Option (List Char)
  | .map _ entries => go entries
  | _ => none
where
  go : List (Node × Node) → Option (List Char)
    | [] => none
    | (.scalar .default _, .scalar _ text) :: _ => some text
    | (.scalar .default _, .map tag inner) :: _ => defaultText? (.map tag inner)
    | (.scalar .default _, _) :: _ => none
    | _ :: es => go es

/-- Whether the values under a tag are scalars. -/
def isScalarTag : Tag → Bool
  | .null | .truth | .int | .float | .binary | .time | .text => true
  | _ => false

/-- Whether the values under a tag hold others. -/
def isHolderTag : Tag → Bool
  | .list | .orderedPairs | .pairs | .map | .set => true
  | _ => false

/-- The value of a node as a key `depth` steps from the root: what holds other values is none. -/
def asKey (depth : Nat) (n : Node) : Built Value → Built Value
  | .ok v => if v.isKey && !(n matches .cycle) then .ok v else .error (depth, .malformed)
  | .error (d, e) => .error (if d > depth then (depth, .malformed) else (d, e))

/-- The value of a node that is `depth` steps from the root. -/
def build (depth : Nat) : (fuel : Nat) → Node → Built Value
  | 0, _ => .error (depth, .malformed)
  | fuel + 1, n =>
    let entriesOf (n : Node) : Built (List (Value × Value)) :=
      match merged n with
      | .error e => .error (depth + 1, e)
      | .ok entries =>
        all (entries.map fun (k, v) =>
          both (asKey (depth + 1) k (build (depth + 1) fuel k)) (build (depth + 1) fuel v))
    let pairOf : Node → Built Value
      | .map _ [(k, v)] =>
        (both (build (depth + 1) fuel k) (build (depth + 1) fuel v)).map fun (a, b) => .pair a b
      | _ => .error (depth + 1, .malformed)
    let scalar (tag : Tag) (text : List Char) : Built Value :=
      (scalarValue tag text).mapError fun e => (depth, e)
    let misplaced (tag : Tag) : Built Value :=
      .error (if isHolderTag tag then depth + 1 else depth, .malformed)
    match n with
    | .cycle => .ok .null
    | .scalar tag text => if isScalarTag tag then scalar tag text else misplaced tag
    | .list .list items => (all (items.map (build (depth + 1) fuel))).map .list
    | .list .pairs items => (all (items.map pairOf)).map .list
    | .list .orderedPairs items => (all (items.map pairOf)).map .list
    | .list tag _ => misplaced tag
    | .map .map entries =>
      (entriesOf (.map .map entries)).map fun es =>
        .map (es.foldl (fun m (k, v) => Value.putEntry k v m) [])
    | .map .set entries =>
      (entriesOf (.map .set entries)).map fun es =>
        .set ((es.foldl (fun m (k, _) => Value.putEntry k .null m) []).map (·.1))
    | .map tag entries =>
      match defaultText? (.map tag entries) with
      | some text => if isScalarTag tag then scalar tag text else misplaced tag
      | none => misplaced tag

mutual

/-- Whether the lists and maps in a node have no end, since one of them holds itself. Pairs are not
looked into, a set keeps nothing but its keys, and a map under the tag of a scalar is a text. What is
`merging` is not held, but what it holds is. -/
def hasCycle (merging : Bool) : Node → Bool
  | .cycle => !merging
  | .scalar _ _ => false
  | .list tag items => (merging || !(tag matches .pairs | .orderedPairs)) && anyCycle merging items
  | .map tag entries =>
    (merging || !(tag == .set || isScalarTag tag)) && anyEntryCycle entries

/-- Whether one of several nodes holds itself. -/
def anyCycle (merging : Bool) : List Node → Bool
  | [] => false
  | n :: ns => hasCycle merging n || anyCycle merging ns

/-- Whether a value among entries holds itself. -/
def anyEntryCycle : List (Node × Node) → Bool
  | [] => false
  | (k, v) :: es => hasCycle (isMerge k) v || anyEntryCycle es

end

end Node

/-- The value of a document; `endless` tells that it holds itself. An empty text is nothing. -/
structure Document where
  value : Value
  endless : Bool

/-- The document that a text holds. -/
def read (cs : List Char) : Except Error Document := do
  let cs := joinLines cs
  if !cs.all isAllowed then throw .malformed
  let ts := tokens cs
  match ← Node.ofTokens? ts with
  | none => return ⟨.null, false⟩
  | some n =>
    match n.build 0 (ts.length + 1) with
    | .ok v => return ⟨v, n.hasCycle false⟩
    | .error (_, e) => throw e

end DocSearch.Yaml
