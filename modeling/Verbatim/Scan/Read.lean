import Verbatim.Scan.Cursor
import Verbatim.Source.Fault

/-!
# Reading from the front of a text

A reader takes characters from the front of the text that remains and says what they amount to, or
what is wrong with them. Either way it leaves the characters that it did not take, so that a fault
has a place. It runs on any state that has a text in front of it: a scanner runs it on its cursor,
which counts the lines that the reader passes, and what the reader reads can be told from its run on
the characters alone.

## Main definitions

* `Verbatim.Readable` — states with a text in front of them.
* `Verbatim.ReadOn`, `Verbatim.Read` — readers on a state, and on the characters alone.
* `Verbatim.Read.peek`, `Verbatim.Read.skip`, `Verbatim.Read.takeWhile` — the basic readers.
* `Verbatim.Read.jump` — moving over characters without a look at them.
* `Verbatim.Read.spelled` — the characters that a reader took.
-/

namespace Verbatim

/-- States with a text in front of them. -/
class Readable (σ : Type) where
  /-- The characters that follow. -/
  rest : σ → List Char
  /-- The state behind a number of characters, passed one by one. -/
  walk : Nat → σ → σ
  /-- The later state where the given characters follow, with those in between passed one by one. -/
  moveTo : List Char → σ → σ
  /-- The state behind a number of bytes, taken for as many characters within a line. -/
  jump : Nat → σ → σ

/-- The characters themselves. -/
instance : Readable (List Char) where
  rest chars := chars
  walk := List.drop
  moveTo rest _ := rest
  jump := List.drop

/-- A place in a source. -/
instance : Readable Cursor where
  rest := Cursor.rest
  walk := Cursor.advanceBy
  moveTo rest cursor := cursor.moveTo rest
  jump := Cursor.jump

/-- Readers of the text in front of a state. -/
abbrev ReadOn (σ : Type) := EStateM Fault σ

/-- Readers of the characters that remain. -/
abbrev Read := ReadOn (List Char)

namespace Read

variable {σ : Type} [Readable σ]

/-- The characters that remain. -/
def remaining : ReadOn σ (List Char) := do return Readable.rest (← get)

/-- The next character. -/
def peek : ReadOn σ (Option Char) := do return (← remaining).head?

/-- The character after the next. -/
def peekSecond : ReadOn σ (Option Char) := do return (← remaining).tail.head?

/-- Whether the next character satisfies a predicate. -/
def peekIs (p : Char → Bool) : ReadOn σ Bool := do return (← remaining).head?.any p

/-- Whether the text that remains starts with the given text. -/
def startsWith (text : String) : ReadOn σ Bool := do
  return text.toList.isPrefixOf (← remaining)

/-- Takes the given number of characters. -/
def skip (count : Nat) : ReadOn σ Unit := modify (Readable.walk count)

/-- Takes the given number of bytes, which are known to be characters within a line. -/
def jump (count : Nat) : ReadOn σ Unit := modify (Readable.jump count)

/-- Takes the characters in front of the given ones. -/
def moveTo (rest : List Char) : ReadOn σ Unit := modify (Readable.moveTo rest)

/-- Takes characters as long as they satisfy a predicate. -/
def takeWhile (p : Char → Bool) : ReadOn σ (List Char) := do
  let chars ← remaining
  moveTo (chars.dropWhile p)
  return chars.takeWhile p

/-- Takes a line terminator, a carriage return together with a line feed that follows it. -/
def skipLineTerminator : ReadOn σ Unit := do skip (if ← startsWith "\r\n" then 2 else 1)

/-- What a reader reads together with the characters that it took. -/
def spelled {α : Type} (reader : ReadOn σ α) : ReadOn σ (α × List Char) := do
  let before ← remaining
  let value ← reader
  let after ← remaining
  return (value, before.take (before.length - after.length))

/-- The value of exactly `count` hexadecimal digits; reading stops at the first character that is
none. -/
def hexDigits? (count : Nat) (value : Nat := 0) : ReadOn σ (Option Nat) := do
  match count with
  | 0 => return some value
  | count + 1 =>
    match (← peek).bind (Text.digitValue? 16) with
    | none => return none
    | some digit =>
      skip 1
      hexDigits? count (value * 16 + digit)

/-- The code of a Unicode escape after its `\u`: four hexadecimal digits, or any number of them in
braces up to the last code point. -/
def unicodeEscape? : ReadOn σ (Option Nat) := do
  if !(← peekIs (· == '\x7b')) then hexDigits? 4
  else
    skip 1
    let digits ← takeWhile (Text.isDigitOf 16)
    let code := Text.numberOf 16 digits
    if digits.isEmpty || 0x10FFFF < code || !(← peekIs (· == '\x7d')) then return none
    skip 1
    return some code

end Read

end Verbatim
