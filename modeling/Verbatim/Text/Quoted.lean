import Verbatim.Text.Character
import Verbatim.Text.Hidden

/-!
# Quoted text

Two ways to write a text between quotes: as a string literal of the source language, and as a
value in a listing of tokens or comments.

## Main definitions

* `Verbatim.Text.quote` — a string literal with the given quote character.
* `Verbatim.Text.listed` — a text as a listing shows it.
-/

namespace Verbatim.Text

/-- The digits of a code point in lower-case hexadecimal. -/
def hexDigits (c : Char) : List Char := Nat.toDigits 16 c.toNat

/-! ## String literals -/

/-- A character of a string literal, given the character that follows it.

A NUL is written `\0`, but `\x00` before a digit, with which `\0` would be read as an octal
escape. -/
def escape (quote c : Char) (next : Option Char) : List Char :=
  if c = '\\' then ['\\', '\\']
  else if c = '\n' then ['\\', 'n']
  else if c = '\r' then ['\\', 'r']
  else if c = '\t' then ['\\', 't']
  else if c = '\u2028' then "\\u2028".toList
  else if c = '\u2029' then "\\u2029".toList
  else if c = '\x00' then if next.any isDecimalDigit then "\\x00".toList else ['\\', '0']
  else if c = quote then ['\\', c]
  else if c.toNat < 0x10 then '\\' :: 'x' :: '0' :: hexDigits c
  else if c.toNat < 0x20 then '\\' :: 'x' :: hexDigits c
  else [c]

/-- The characters between the quotes of a string literal. -/
def quoteBody (quote : Char) : List Char → List Char
  | [] => []
  | c :: rest => escape quote c rest.head? ++ quoteBody quote rest

/-- A text as a string literal with the given quote character. -/
def quote (quote : Char) (text : String) : String :=
  String.ofList (quote :: quoteBody quote text.toList ++ [quote])

/-! ## Listings -/

/-- A character of a listed text. Quotes, backslashes and the common control characters have short
escapes; what has no shape of its own is written by its code point. -/
def listedChar (c : Char) : List Char :=
  if c = '\x00' then ['\\', '0']
  else if c = '\t' then ['\\', 't']
  else if c = '\r' then ['\\', 'r']
  else if c = '\n' then ['\\', 'n']
  else if c = '\\' || c = '"' then ['\\', c]
  else if within extending c || within shapeless c then
    '\\' :: 'u' :: '\x7b' :: hexDigits c ++ ['\x7d']
  else [c]

/-- A text between double quotes, as a listing shows it. -/
def listed (text : String) : String :=
  String.ofList ('"' :: text.toList.flatMap listedChar ++ ['"'])

end Verbatim.Text
