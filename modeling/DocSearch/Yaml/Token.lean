import DocSearch.Yaml.Scalar
import DocSearch.Text.Utf8

/-!
# Tokens

The words of a YAML text other than its scalars: directives, anchors, aliases and tags. The blocks
that indentation opens and closes are tokens of their own, and so is the fault at which a text stops
making sense.
-/

namespace DocSearch.Yaml

open Text

/-- A line that begins with a percent sign. -/
inductive Directive where
  | version (major : Nat)
  | handle (name space : List Char)
  | other
deriving Repr, DecidableEq

/-- A token. The handle of a tag is none if the tag is written out. -/
inductive Token where
  | directive (d : Directive)
  | documentStart
  | documentEnd
  | streamEnd
  | blockSequence
  | blockMapping
  | blockEnd
  | openList
  | closeList
  | openMap
  | closeMap
  | comma
  | item
  | key
  | value
  | alias (name : List Char)
  | anchor (name : List Char)
  | tag (handle : Option (List Char)) (suffix : List Char)
  | scalar (text : List Char) (plain : Bool)
  | fault (e : Error)
deriving Repr, DecidableEq

/-! ## Names -/

/-- A name and the cursor behind it. -/
def name (c : Cursor) : Except Error (List Char × Cursor) :=
  let n := c.run isNameChar
  if n.isEmpty then .error .malformed else .ok (n, c.skip n.length)

/-- The name of an anchor or alias, behind its indicator. -/
def anchorName (c : Cursor) : Except Error (List Char × Cursor) := do
  let (n, c) ← name c
  if endsWord c.peek || c.peek.any ("?:,]\x7d%@`".toList.contains ·) then .ok (n, c)
  else .error .malformed

/-! ## Tags -/

/-- The characters that a tag may hold. -/
def isTagChar (c : Char) : Bool :=
  isNameChar c || ";/?:@&=+$,.!~*\x27()[]%".toList.contains c

/-- A run of bytes written as percent signs and two digits. -/
def percentBytes : (fuel : Nat) → Cursor → Except Error (Bytes × Cursor)
  | 0, c => .ok ([], c)
  | fuel + 1, c =>
    match c.rest with
    | '%' :: a :: b :: _ =>
      if isHexDigit a && isHexDigit b then do
        let (bytes, c) ← percentBytes fuel (c.skip 3)
        .ok (UInt8.ofNat (hexValue a * 16 + hexValue b) :: bytes, c)
      else .error .malformed
    | '%' :: _ => .error .malformed
    | _ => .ok ([], c)

/-- The text of a tag. -/
def tagText (acc : List Char) : (fuel : Nat) → Cursor → Except Error (List Char × Cursor)
  | 0, _ => .error .malformed
  | fuel + 1, c =>
    match c.rest with
    | '%' :: _ => do
      let (bytes, c) ← percentBytes (c.rest.length + 1) c
      match Utf8.decode bytes with
      | .ok cs => tagText (acc ++ cs) fuel c
      | .error _ => .error .malformed
    | ch :: _ =>
      if isTagChar ch then tagText (acc ++ [ch]) fuel c.next
      else if acc.isEmpty then .error .malformed
      else .ok (acc, c)
    | [] => if acc.isEmpty then .error .malformed else .ok (acc, c)

/-- The text of a tag, which may not be empty. -/
def tagWord (c : Cursor) : Except Error (List Char × Cursor) := tagText [] (c.rest.length + 1) c

/-- A handle: one exclamation mark, or a name between two. -/
def handle (c : Cursor) : Except Error (List Char × Cursor) :=
  match c.rest with
  | '!' :: ' ' :: _ => .ok (['!'], c.next)
  | '!' :: cs =>
    let n := cs.takeWhile isNameChar
    match cs.drop n.length with
    | '!' :: _ => .ok ('!' :: n ++ ['!'], c.skip (n.length + 2))
    | _ => .error .malformed
  | _ => .error .malformed

/-- A tag. -/
def tag (c : Cursor) : Except Error (Token × Cursor) := do
  let (t, c) ←
    if c.peekAt 1 == some '<' then do
      let (w, c) ← tagWord (c.skip 2)
      if c.peek == some '>' then pure (Token.tag none w, c.next) else throw Error.malformed
    else if endsWord (c.peekAt 1) then pure (Token.tag none ['!'], c.next)
    else do
      let word := c.next.run fun d => d != ' ' && !isBreak d
      let (h, c) ← if word.contains '!' then handle c else pure (['!'], c.next)
      let (w, c) ← tagWord c
      pure (Token.tag (some h) w, c)
  if endsItem c.peek then .ok (t, c) else .error .malformed

/-! ## Directives -/

/-- A decimal number. -/
def number (c : Cursor) : Except Error (Nat × Cursor) :=
  let n := c.run isAsciiDigit
  if n.isEmpty then .error .malformed
  else if n.length > Number.maxDigits then .error (.tooLong n.length)
  else .ok (Number.digitsValue n, c.skip n.length)

/-- A directive, from its percent sign to the end of its line. -/
def directive (c : Cursor) : Except Error (Directive × Cursor) := do
  let (n, c) ← name c.next
  if !endsItem c.peek then throw .malformed
  let (d, c) ←
    if n == "YAML".toList then do
      let (major, c) ← number c.skipSpaces
      if c.peek != some '.' then throw .malformed
      let (_, c) ← number c.next
      if endsItem c.peek then pure (Directive.version major, c) else throw .malformed
    else if n == "TAG".toList then do
      let (h, c) ← handle c.skipSpaces
      if c.peek != some ' ' then throw .malformed
      let (w, c) ← tagWord c.skipSpaces
      if endsItem c.peek then pure (Directive.handle h w, c) else throw .malformed
    else pure (Directive.other, c.skipRun (!isBreak ·))
  let c ← restOfLine c
  .ok (d, c)

end DocSearch.Yaml
