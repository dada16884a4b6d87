import DocSearch.Text.Wide
import DocSearch.Text.Trim

/-!
# Character sets

The character sets that a header may name. A text is decoded with every fault replaced by `U+FFFD`.
-/

namespace DocSearch.Text

/-- A character set. Without a byte order the mark at the start of the text gives it. -/
inductive Charset where
  | utf8
  | markedUtf8
  | latin1
  | ascii
  | windows1252
  | wide (w : Wide)
  | marked (width : Nat)
deriving Repr, DecidableEq

namespace Charset

/-- The names of character sets, in lower case and with underscores. -/
def names : List (String × Charset) :=
  (["utf_8", "utf8", "u8", "utf", "cp65001", "utf8_ucs2", "utf8_ucs4"].map (·, utf8)) ++
  (["utf_8_sig"].map (·, markedUtf8)) ++
  (["latin_1", "latin1", "latin", "l1", "iso8859_1", "iso_8859_1", "iso8859", "8859", "cp819",
    "iso_ir_100", "iso_8859_1_1987", "csisolatin1", "ibm819"].map (·, latin1)) ++
  (["ascii", "us_ascii", "us", "646", "ansi_x3_4_1968", "ansi_x3_4_1986", "cp367", "csascii",
    "ibm367", "iso646_us", "iso_ir_6", "iso_646.irv_1991"].map (·, ascii)) ++
  (["cp1252", "1252", "windows_1252"].map (·, windows1252)) ++
  (["utf_16_le", "utf_16le", "unicodelittleunmarked"].map (·, wide ⟨2, false⟩)) ++
  (["utf_16_be", "utf_16be", "unicodebigunmarked"].map (·, wide ⟨2, true⟩)) ++
  (["utf_32_le", "utf_32le"].map (·, wide ⟨4, false⟩)) ++
  (["utf_32_be", "utf_32be"].map (·, wide ⟨4, true⟩)) ++
  (["utf_16", "utf16", "u16"].map (·, marked 2)) ++ (["utf_32", "utf32", "u32"].map (·, marked 4))

/-- The character set of a name. -/
def ofName? (n : String) : Option Charset :=
  names.lookup (String.ofList (n.toList.map fun c =>
    if c == '-' || c == ' ' then '_' else c.toLower))

/-- The characters of the bytes from `0x80` to `0x9f`; zero where there is none. -/
def windowsRow : List Nat :=
  [0x20ac, 0, 0x201a, 0x0192, 0x201e, 0x2026, 0x2020, 0x2021, 0x02c6, 0x2030, 0x0160, 0x2039,
    0x0152, 0, 0x017d, 0, 0, 0x2018, 0x2019, 0x201c, 0x201d, 0x2022, 0x2013, 0x2014, 0x02dc, 0x2122,
    0x0161, 0x203a, 0x0153, 0, 0x017e, 0x0178]

/-- The character of a byte. -/
def windowsChar (b : UInt8) : Char :=
  let n := b.toNat
  if 0x80 ≤ n && n < 0xa0 then
    let m := (windowsRow[n - 0x80]?).getD 0
    if m == 0 then '\uFFFD' else Char.ofNat m
  else Char.ofNat n

/-- The text of UTF-8; a character that is cut short at the end counts only if `last`. -/
def utf8Text (last : Bool) (bs : Bytes) : List Char :=
  Utf8.decodeLossy (if last then bs else (Utf8.complete bs).1)

/-- The text without a byte order mark at its start. -/
def dropMark : List Char → List Char
  | '\uFEFF' :: cs => cs
  | cs => cs

/-- The text that bytes stand for. If they are not the `last` ones, what may still be completed is
left out. -/
def decode (s : Charset) (last : Bool) (bs : Bytes) : List Char :=
  match s with
  | .utf8 => utf8Text last bs
  | .markedUtf8 => dropMark (utf8Text last bs)
  | .latin1 => bs.map fun b => Char.ofNat b.toNat
  | .ascii => bs.map fun b => if b < 0x80 then Char.ofNat b.toNat else '\uFFFD'
  | .windows1252 => bs.map windowsChar
  | .wide w => w.decodeLossy last bs
  | .marked width =>
    let big : Wide := ⟨width, true⟩
    if big.unit (bs.take width) == 0xfeff then big.decodeLossy last (bs.drop width)
    else dropMark (Wide.decodeLossy ⟨width, false⟩ last bs)

/-- The character set that a content type names, or UTF-8. -/
def ofContentType (header : String) : Charset :=
  let parameters := (splitAt ';' header.toList).drop 1
  let named := parameters.findSome? fun p =>
    match cut? ['='] p with
    | some (k, v) =>
      if (trimBy isBlank k).map Char.toLower == "charset".toList then
        some (trimBy (· == '\"') (trimBy isBlank v))
      else none
    | none => none
  (named.bind fun n => ofName? (String.ofList n)).getD .utf8

end Charset

end DocSearch.Text
