/-!
# UTF-8

Decoding bytes, either strictly, with the position and the kind of the first fault, or with every
maximal ill-formed piece replaced by `U+FFFD`.
-/

namespace DocSearch.Text

/-- A sequence of bytes. -/
abbrev Bytes := List UInt8

namespace Utf8

/-- What is wrong with an ill-formed piece. -/
inductive Fault where
  | start
  | continuation
  | truncated
deriving Repr, DecidableEq

/-- The wording of a fault. -/
def Fault.reason : Fault → String
  | .start => "invalid start byte"
  | .continuation => "invalid continuation byte"
  | .truncated => "unexpected end of data"

/-- One decoded piece: a character or a fault, and how many bytes follow its first byte. -/
structure Piece where
  content : Except Fault Char
  extra : Nat

/-- Whether a byte is `10xxxxxx`. -/
def isContinuation (b : UInt8) : Bool := 0x80 ≤ b && b ≤ 0xbf

/-- The bytes that may follow a first byte `b`: the second byte is narrower than the others so that
neither overlong forms nor surrogates nor code points past the last plane arise. -/
def secondRange (b : UInt8) : UInt8 × UInt8 :=
  if b == 0xe0 then (0xa0, 0xbf)
  else if b == 0xed then (0x80, 0x9f)
  else if b == 0xf0 then (0x90, 0xbf)
  else if b == 0xf4 then (0x80, 0x8f)
  else (0x80, 0xbf)

/-- The number of bytes that follow a first byte, if it can begin a character. -/
def trailing? (b : UInt8) : Option Nat :=
  if b < 0x80 then some 0
  else if 0xc2 ≤ b && b ≤ 0xdf then some 1
  else if 0xe0 ≤ b && b ≤ 0xef then some 2
  else if 0xf0 ≤ b && b ≤ 0xf4 then some 3
  else none

/-- Reads `n` continuation bytes, of which the first lies in the range `r`. -/
def continuations (r : UInt8 × UInt8) (acc : Nat) (taken : Nat) : (n : Nat) → Bytes → Piece
  | 0, _ => ⟨.ok (Char.ofNat acc), taken⟩
  | _ + 1, [] => ⟨.error .truncated, taken⟩
  | n + 1, b :: bs =>
    if r.1 ≤ b && b ≤ r.2 then
      continuations (0x80, 0xbf) (acc * 64 + b.toNat % 64) (taken + 1) n bs
    else ⟨.error .continuation, taken⟩

/-- The piece that begins with the byte `b`. -/
def piece (b : UInt8) (bs : Bytes) : Piece :=
  match trailing? b with
  | none => ⟨.error .start, 0⟩
  | some n =>
    let lead := match n with
      | 0 => b.toNat
      | 1 => b.toNat % 32
      | 2 => b.toNat % 16
      | _ => b.toNat % 8
    continuations (secondRange b) lead 0 n bs

/-- The text with every ill-formed piece replaced by `U+FFFD`. -/
def decodeLossy : Bytes → List Char
  | [] => []
  | b :: bs =>
    let p := piece b bs
    (match p.content with
      | .ok c => c
      | .error _ => '\uFFFD') :: decodeLossy (bs.drop p.extra)
termination_by bs => bs.length
decreasing_by rw [List.length_drop, List.length_cons]; omega

/-- Where decoding failed: the offset of the piece, its bytes and its fault. -/
structure DecodeError where
  position : Nat
  bytes : Bytes
  fault : Fault
deriving Repr, DecidableEq

/-- The two lower-case hexadecimal digits of a byte. -/
def hexByte (b : UInt8) : String :=
  let digit (n : Nat) : Char := Char.ofNat (if n < 10 then 48 + n else 87 + n)
  String.ofList [digit (b.toNat / 16), digit (b.toNat % 16)]

/-- Names the bytes at fault under the given name of the encoding. -/
def decodeMessage (encoding : String) (position : Nat) (bytes : Bytes) (reason : String) : String :=
  match bytes with
  | [b] =>
    s!"'{encoding}' codec can't decode byte 0x{hexByte b} in position {position}: {reason}"
  | _ =>
    s!"'{encoding}' codec can't decode bytes in position " ++
      s!"{position}-{position + bytes.length - 1}: {reason}"

/-- The error text of a failed decoding. -/
def DecodeError.message (e : DecodeError) : String :=
  decodeMessage "utf-8" e.position e.bytes e.fault.reason

/-- Strict decoding from the byte offset `pos` on. -/
def decodeFrom (pos : Nat) : Bytes → Except DecodeError (List Char)
  | [] => .ok []
  | b :: bs =>
    let p := piece b bs
    match p.content with
    | .ok c => (decodeFrom (pos + 1 + p.extra) (bs.drop p.extra)).map (c :: ·)
    | .error f => .error ⟨pos, b :: bs.take p.extra, f⟩
termination_by bs => bs.length
decreasing_by rw [List.length_drop, List.length_cons]; omega

/-- The text, or the first fault in it. -/
def decode (bs : Bytes) : Except DecodeError (List Char) := decodeFrom 0 bs

/-- The bytes of a text. -/
def encode (s : String) : Bytes := s.toUTF8.toList

/-- The longest initial part that ends at the end of a piece: what is left over is an unfinished
character that further bytes may complete. -/
def complete : Bytes → Bytes × Bytes
  | [] => ([], [])
  | b :: bs =>
    let p := piece b bs
    match p.content with
    | .error .truncated => ([], b :: bs)
    | _ =>
      let (done, rest) := complete (bs.drop p.extra)
      (b :: bs.take p.extra ++ done, rest)
termination_by bs => bs.length
decreasing_by rw [List.length_drop, List.length_cons]; omega

end Utf8

end DocSearch.Text
