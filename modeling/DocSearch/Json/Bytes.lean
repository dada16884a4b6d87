import DocSearch.Json.Reader
import DocSearch.Text.Wide

/-!
# JSON as bytes

The encoding of a JSON document shows in its first bytes: in a byte order mark, or else in where
zeros stand, as a document begins with characters of ASCII.
-/

namespace DocSearch.Json

open Text

/-- How a document is encoded: as UTF-8, or by wide units, behind `mark` bytes of a byte order mark. -/
structure Encoding where
  wide : Option Wide
  mark : Nat
deriving Repr, DecidableEq

/-- The encoding of a document. -/
def detect (bs : Bytes) : Encoding :=
  match bs with
  | 0x00 :: 0x00 :: 0xfe :: 0xff :: _ => ⟨some ⟨4, true⟩, 4⟩
  | 0xff :: 0xfe :: 0x00 :: 0x00 :: _ => ⟨some ⟨4, false⟩, 4⟩
  | 0xfe :: 0xff :: _ => ⟨some ⟨2, true⟩, 2⟩
  | 0xff :: 0xfe :: _ => ⟨some ⟨2, false⟩, 2⟩
  | 0xef :: 0xbb :: 0xbf :: _ => ⟨none, 3⟩
  | a :: b :: c :: d :: _ =>
    if a == 0 then ⟨some ⟨if b == 0 then 4 else 2, true⟩, 0⟩
    else if b == 0 then ⟨some ⟨if c == 0 && d == 0 then 4 else 2, false⟩, 0⟩
    else ⟨none, 0⟩
  | [a, b] =>
    if a == 0 then ⟨some ⟨2, true⟩, 0⟩
    else if b == 0 then ⟨some ⟨2, false⟩, 0⟩
    else ⟨none, 0⟩
  | _ => ⟨none, 0⟩

/-- Whether three bytes are a surrogate in the manner of UTF-8. -/
def isSurrogate (bs : Bytes) : Bool :=
  match bs with
  | [a, b, c] => a == 0xed && Utf8.isContinuation b && 0xa0 ≤ b && Utf8.isContinuation c
  | _ => false

/-- Decodes UTF-8 in which surrogates may stand; they read as `U+FFFD`. -/
def decodeUtf8 (position : Nat) : (fuel : Nat) → Bytes → Except String (List Char)
  | 0, _ => .ok []
  | fuel + 1, bs =>
    match Utf8.decode bs with
    | .ok cs => .ok cs
    | .error e =>
      let rest := bs.drop e.position
      if isSurrogate (rest.take 3) then do
        let more ← decodeUtf8 (position + e.position + 3) fuel (rest.drop 3)
        .ok (Utf8.decodeLossy (bs.take e.position) ++ '\uFFFD' :: more)
      else
        .error
          { e with position := position + e.position : Utf8.DecodeError }.message

/-- The text of a document. -/
def decode (bs : Bytes) : Except String (List Char) :=
  let e := detect bs
  let body := bs.drop e.mark
  match e.wide with
  | some w => w.decode e.mark body
  | none => decodeUtf8 0 (body.length + 1) body

/-- The value that a document denotes. -/
def readBytes (bs : Bytes) : Except Error Value :=
  match decode bs with
  | .ok cs => readDocument cs
  | .error m => .error (.encoding m)

end DocSearch.Json
