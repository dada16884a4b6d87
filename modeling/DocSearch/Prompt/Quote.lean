import DocSearch.Text.CodePoint
import DocSearch.Text.Quoted

/-!
# Quoted attribute values

A text between double quotes in which every character is printable: the quote, the backslash and the
usual control characters have short escapes, whatever else has no printed form a numeric one. What
is printable is a parameter, and so is what the text is made of, since surrogates on their own may
stand in it.
-/

namespace DocSearch.Prompt

open Text Coded

variable {α : Type} [Coded α]

/-- The letter of a short escape. -/
def shortEscape? : Char → Option Char
  | '\x07' => some 'a'
  | '\x08' => some 'b'
  | '\x0c' => some 'f'
  | '\n' => some 'n'
  | '\r' => some 'r'
  | '\t' => some 't'
  | '\x0b' => some 'v'
  | '\\' => some '\\'
  | '\"' => some '\"'
  | _ => none

/-- The escape of a code point by its number. -/
def numericEscape (n : Nat) : List Char :=
  if n < 0x20 || n == 0x7f then '\\' :: 'x' :: hexDigits 2 n
  else if n < 0x10000 then '\\' :: 'u' :: hexDigits 4 n
  else '\\' :: 'U' :: hexDigits 8 n

/-- A character inside the quotes. -/
def quoteChar (printable : α → Bool) (a : α) : List α :=
  match (char? a).bind shortEscape? with
  | some e => [ofChar '\\', ofChar e]
  | none => if printable a then [a] else (numericEscape (code a)).map ofChar

/-- The characters of a quoted text, quotes included. -/
def quoteChars (printable : α → Bool) (as : List α) : List α :=
  ofChar '\"' :: as.flatMap (quoteChar printable) ++ [ofChar '\"']

/-- The quoted text. -/
def quote (s : String) : String := String.ofList (quoteChars isPrintable s.toList)

end DocSearch.Prompt
