import DocSearch.Text.Utf8

/-!
# Encodings by wide units

Texts whose characters are written as units of two or four bytes. Two units of two bytes, a high and
a low surrogate, stand for one character; a surrogate on its own reads as `U+FFFD`.
-/

namespace DocSearch.Text

/-- An encoding by units of `width` bytes, the most significant byte first if `big`. -/
structure Wide where
  width : Nat
  big : Bool
deriving Repr, DecidableEq

namespace Wide

/-- The name of an encoding. -/
def name (w : Wide) : String :=
  (if w.width == 2 then "utf-16" else "utf-32") ++ if w.big then "-be" else "-le"

/-- The number that the bytes of a unit stand for. -/
def unit (w : Wide) (bs : Bytes) : Nat :=
  (if w.big then bs else bs.reverse).foldl (fun n b => 256 * n + b.toNat) 0

/-- The complete units of a sequence of bytes, and the bytes left over. -/
def units (w : Wide) : (fuel : Nat) → Bytes → List Nat × Bytes
  | 0, bs => ([], bs)
  | fuel + 1, bs =>
    if bs.length < w.width then ([], bs)
    else
      let (us, rest) := units w fuel (bs.drop w.width)
      (w.unit (bs.take w.width) :: us, rest)

/-- The character of a code point; what is none reads as `U+FFFD`. -/
def scalar (n : Nat) : Char :=
  if n ≥ 0x110000 || 0xd800 ≤ n && n < 0xe000 then '\uFFFD' else Char.ofNat n

/-- The characters that units of two bytes stand for. -/
def joinSurrogates : List Nat → List Char
  | [] => []
  | [u] => [scalar u]
  | u :: v :: us =>
    if 0xd800 ≤ u && u < 0xdc00 && 0xdc00 ≤ v && v < 0xe000 then
      Char.ofNat (0x10000 + (u - 0xd800) * 0x400 + (v - 0xdc00)) :: joinSurrogates us
    else scalar u :: joinSurrogates (v :: us)

/-- The characters that units stand for. -/
def chars (w : Wide) (us : List Nat) : List Char :=
  if w.width == 2 then joinSurrogates us else us.map scalar

/-- The text that `offset` bytes are in front of. It must not be cut short, nor hold code points past
the last one; the message tells where it does. -/
def decode (w : Wide) (offset : Nat) (bs : Bytes) : Except String (List Char) :=
  let (us, rest) := w.units bs.length bs
  let good := us.takeWhile (· < 0x110000)
  if good.length < us.length then
    let start := good.length * w.width
    .error (Utf8.decodeMessage w.name (offset + start) ((bs.drop start).take w.width)
      "code point not in range(0x110000)")
  else if rest.isEmpty then .ok (w.chars us)
  else
    .error (Utf8.decodeMessage w.name (offset + bs.length - rest.length) rest "truncated data")

/-- The text with every fault replaced by `U+FFFD`; bytes left over count as a fault if `last`. -/
def decodeLossy (w : Wide) (last : Bool) (bs : Bytes) : List Char :=
  let (us, rest) := w.units bs.length bs
  w.chars us ++ if last && !rest.isEmpty then ['\uFFFD'] else []

end Wide

end DocSearch.Text
