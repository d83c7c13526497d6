import Verbatim.Scan.Read
import Verbatim.Scan.Token

/-!
# Strings and templates

The two quotations of the language. Both decode escapes as they go. A string fails at a malformed
escape; a template piece goes on without a decoded text, because the function that it may be tagged
with can still see its spelling.

## Main definitions

* `Verbatim.Read.string` — a string literal.
* `Verbatim.Read.templatePiece` — a piece of a template.
-/

namespace Verbatim.Read

open Verbatim.Text

variable {σ : Type} [Readable σ]

/-- The control character that a letter stands for in an escape. -/
def controlEscape? (c : Char) : Option Char :=
  [('n', '\n'), ('r', '\r'), ('t', '\t'), ('b', '\x08'), ('f', '\x0c'), ('v', '\x0b')].lookup c

/-- The character with the given code, or the replacement character if there is none. -/
def charOrReplacement (code : Nat) : Char := (scalar? code).getD '\ufffd'

/-! ## Strings -/

/-- Whether a code unit is the first half of a pair. -/
def isLeading (unit : Nat) : Bool := 0xD800 ≤ unit && unit < 0xDC00

/-- Whether a code unit is the second half of a pair. -/
def isTrailing (unit : Nat) : Bool := 0xDC00 ≤ unit && unit < 0xE000

/-- The code that two halves of a pair stand for. -/
def pairCode (leading trailing : Nat) : Nat :=
  0x10000 + (leading - 0xD800) * 0x400 + (trailing - 0xDC00)

/-- The second half of a pair, if its escape comes next; otherwise nothing is taken. -/
def trailingHalf? : ReadOn σ (Option Nat) := do
  if !(← startsWith "\\u") then return none
  let before ← get
  jump 2
  let half := (← unicodeEscape?).filter isTrailing
  if half.isNone then set before
  return half

/-- The character of a Unicode escape in a string, after its `\u`. A first half of a pair takes in
the escape of the second half if that follows. -/
def stringUnicodeEscape : ReadOn σ Char := do
  match ← unicodeEscape? with
  | none => throw .invalidUnicodeEscape
  | some unit =>
    if !isLeading unit then return charOrReplacement unit
    match ← trailingHalf? with
    | some half => return charOrReplacement (pairCode unit half)
    | none => return charOrReplacement unit

/-- At most `count` further octal digits of an escape that has come to `value`. -/
def octalEscape : Nat → Nat → ReadOn σ Nat
  | 0, value => return value
  | count + 1, value => do
    match (← peek).bind (digitValue? 8) with
    | none => return value
    | some digit =>
      skip 1
      octalEscape count (value * 8 + digit)

/-- The character of an escape in a string, given the character after the backslash, which has been
taken; and whether the escape is octal. -/
def stringEscape (c : Char) : ReadOn σ (Char × Bool) := do
  match controlEscape? c with
  | some control => return (control, false)
  | none =>
    if c = 'x' then
      match (← hexDigits? 2).bind scalar? with
      | some decoded => return (decoded, false)
      | none => throw .invalidHexEscape
    else if c = 'u' then return (← stringUnicodeEscape, false)
    else if c = '0' && !(← peekIs isDecimalDigit) then return ('\x00', false)
    else if isOctalDigit c then
      let code ← octalEscape (if c ≤ '3' then 2 else 1) (c.toNat - '0'.toNat)
      return (charOrReplacement code, true)
    else return (c, isDecimalDigit c)

/-- The decoded characters of a string so far, in reverse, and whether an escape was octal, after
what a backslash starts, which has been taken. A line terminator behind a backslash counts for
nothing. -/
def stringEscaped (taken : List Char) (octal : Bool) : ReadOn σ (List Char × Bool) := do
  match ← peek with
  | none => throw .illegalToken
  | some e =>
    if isLineTerminator e then
      skipLineTerminator
      return (taken, octal)
    else
      skip 1
      let (decoded, isOctal) ← stringEscape e
      return (decoded :: taken, octal || isOctal)

/-- The decoded characters of a string, in reverse, up to its closing quote and after those in
`taken`; and whether an escape was octal. -/
def stringFrom (quote : Char) : Nat → List Char → Bool → ReadOn σ (List Char × Bool)
  | 0, _, _ => throw .illegalToken
  | fuel + 1, taken, octal => do
    match ← peek with
    | none => throw .illegalToken
    | some c =>
      if c = quote then
        skip 1
        return (taken, octal)
      else if c = '\\' then
        skip 1
        let (taken, octal) ← stringEscaped taken octal
        stringFrom quote fuel taken octal
      else if c = '\n' || c = '\r' then throw .illegalToken
      else
        skip 1
        stringFrom quote fuel (c :: taken) octal

/-- A string literal with the given quote. -/
def string (quote : Char) : ReadOn σ Lexeme := do
  skip 1
  let (taken, octal) ← stringFrom quote ((← remaining).length + 1) [] false
  return { kind := .string, value := .text (String.ofList taken.reverse), octal }

/-! ## Templates -/

/-- The character of an escape in a template, given the character after the backslash, which has
been taken. There is none when the escape is malformed or octal. -/
def templateEscape (c : Char) : ReadOn σ (Option Char) := do
  match controlEscape? c with
  | some control => return some control
  | none =>
    if c = 'x' then return (← hexDigits? 2).bind scalar?
    else if c = 'u' then return (← unicodeEscape?).map charOrReplacement
    else if c = '0' && !(← peekIs isDecimalDigit) then return some '\x00'
    else if isDecimalDigit c then return none
    else return some c

/-- Whether the escape of a character in a template is octal, given the character after it. -/
def isOctalEscape (c : Char) (next : Option Char) : Bool :=
  isDecimalDigit c && !(c == '0' && !next.any isDecimalDigit)

/-- A template piece read so far. -/
structure Piece where
  /-- The decoded characters in reverse. -/
  taken : List Char := []
  /-- Whether all escapes are valid. -/
  isValid : Bool := true
  /-- Whether an escape is octal. -/
  octal : Bool := false

/-- A piece with one more character. -/
def Piece.push (p : Piece) (c : Char) : Piece := { p with taken := c :: p.taken }

/-- A piece after what a backslash starts, which has been taken. -/
def Piece.escape (piece : Piece) : ReadOn σ Piece := do
  match ← peek with
  | none => throw .unterminatedTemplate
  | some e =>
    if isLineTerminator e then
      skipLineTerminator
      return piece
    else
      skip 1
      let octal := piece.octal || isOctalEscape e (← peek)
      match ← templateEscape e with
      | some decoded => return { piece.push decoded with octal }
      | none => return { piece with isValid := false, octal }

/-- Reads on to the end of a template piece; the flag says whether the template ends with it. -/
def pieceFrom : Nat → Piece → ReadOn σ (Piece × Bool)
  | 0, _ => throw .unterminatedTemplate
  | fuel + 1, piece => do
    match ← peek with
    | none => throw .unterminatedTemplate
    | some c =>
      if c = '\x60' then
        skip 1
        return (piece, true)
      else if c = '$' && (← peekSecond) = some '\x7b' then
        jump 2
        return (piece, false)
      else if c = '\\' then
        skip 1
        pieceFrom fuel (← piece.escape)
      else if c = '\r' then
        skipLineTerminator
        pieceFrom fuel (piece.push '\n')
      else
        skip 1
        pieceFrom fuel (piece.push c)

/-- A template piece, whose opening delimiter has been taken. -/
def templatePiece (isHead : Bool) : ReadOn σ Lexeme := do
  let (piece, isTail) ← pieceFrom ((← remaining).length + 1) {}
  let cooked := if piece.isValid then some (String.ofList piece.taken.reverse) else none
  return { kind := .template, value := .template cooked isHead isTail, octal := piece.octal }

end Verbatim.Read
