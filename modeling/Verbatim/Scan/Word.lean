import Verbatim.Scan.Read
import Verbatim.Scan.Token

/-!
# Names and words

A name is made of name characters and Unicode escapes that stand for them. What it spells decides
whether it is a reserved word; a reserved word may not be spelled with escapes.

## Main definitions

* `Verbatim.Read.name` — the characters of a name.
* `Verbatim.Read.word` — a name, reserved word or word literal.
-/

namespace Verbatim.Read

open Verbatim.Text

variable {σ : Type} [Readable σ]

/-- Whether a character may come next in a name of which `taken` has been read. -/
def mayContinue (taken : List Char) (c : Char) : Bool :=
  if taken.isEmpty then isNameStart c else isNamePart c

/-- The character that an escape in a name stands for. -/
def nameEscape (taken : List Char) : ReadOn σ Char := do
  skip 1
  if !(← peekIs (· == 'u')) then throw .invalidUnicodeEscape
  skip 1
  match ((← unicodeEscape?).bind scalar?).filter (mayContinue taken) with
  | some c => return c
  | none => throw .invalidUnicodeEscape

/-- The decoded characters of a name, in reverse, after those in `taken`; and whether there was an
escape. -/
def nameFrom : Nat → List Char → Bool → ReadOn σ (List Char × Bool)
  | 0, taken, escaped => return (taken, escaped)
  | fuel + 1, taken, escaped => do
    match ← peek with
    | some '\\' => nameFrom fuel ((← nameEscape taken) :: taken) true
    | some c =>
      if mayContinue taken c then
        skip 1
        nameFrom fuel (c :: taken) escaped
      else return (taken, escaped)
    | none => return (taken, escaped)

/-- A name as it is meant, and whether it was spelled with escapes. -/
def name : ReadOn σ (List Char × Bool) := do
  let (taken, escaped) ← nameFrom (← remaining).length [] false
  return (taken.reverse, escaped)

/-- The kind of token that a word is. -/
def wordKind (word : String) : TokenKind :=
  if word == "true" || word == "false" then .boolean
  else if word == "null" then .null
  else if isKeyword word then .keyword
  else .identifier

/-- A name, reserved word or word literal. -/
def word : ReadOn σ Lexeme := do
  let (chars, escaped) ← name
  if chars.isEmpty then throw .illegalToken
  let word := String.ofList chars
  let kind := wordKind word
  if escaped && kind ≠ .identifier then throw .escapedKeyword
  return { kind, value := .text word, escaped }

/-- A private name after its number sign. -/
def privateName : ReadOn σ Lexeme := do
  skip 1
  return { ← word with kind := .privateName }

end Verbatim.Read
