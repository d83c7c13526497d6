import Verbatim.Source.Position
import Verbatim.Text.Character

/-!
# Cursors

A cursor stands between two characters of a source: it knows the characters that follow and the
point where it stands.

## Main definitions

* `Verbatim.Cursor` — a place in a source.
* `Verbatim.Cursor.advanceBy`, `Verbatim.Cursor.moveTo` — later places, with their lines counted.
* `Verbatim.Cursor.jump` — a later place on the assumption that no line ends in between.
* `Verbatim.Cursor.textTo` — the text between two places.
-/

namespace Verbatim

open Verbatim.Text

/-- A place in a source. -/
structure Cursor where
  /-- The characters that follow. -/
  rest : List Char
  /-- The point. -/
  position : Position
  /-- The byte offset at which the line starts. -/
  lineStart : Nat
deriving DecidableEq, Repr, Inhabited

namespace Cursor

/-- The start of a source. -/
def start (source : String) : Cursor := ⟨source.toList, ⟨1, 0, 0⟩, 0⟩

/-- Whether passing over `c`, with `rest` behind it, starts a new line. A carriage return before a
line feed leaves that to the line feed. -/
def breaksLine (c : Char) (rest : List Char) : Bool :=
  isLineTerminator c && !(c == '\r' && rest.head? == some '\n')

/-- The place after the next character. -/
def advance (cursor : Cursor) : Cursor :=
  match cursor.rest with
  | [] => cursor
  | c :: rest =>
    let offset := cursor.position.offset + c.utf8Size
    if breaksLine c rest then ⟨rest, ⟨wrapAdd cursor.position.line 1, 0, offset⟩, offset⟩
    else ⟨rest, ⟨cursor.position.line, wrapAdd cursor.position.column 1, offset⟩, cursor.lineStart⟩

/-- The place after the given number of characters. -/
def advanceBy : Nat → Cursor → Cursor
  | 0, cursor => cursor
  | count + 1, cursor => advanceBy count cursor.advance

/-- The later place where the given characters follow. -/
def moveTo (cursor : Cursor) (rest : List Char) : Cursor :=
  cursor.advanceBy (cursor.rest.length - rest.length)

/-- The place after the given number of bytes, taken for as many characters none of which ends a
line: the offset moves on, and nothing looks at what it moves over. -/
def jump (count : Nat) (cursor : Cursor) : Cursor where
  rest := cursor.rest.drop count
  position :=
    { cursor.position with
      column := wrapAdd cursor.position.column count
      offset := cursor.position.offset + count }
  lineStart := cursor.lineStart

/-- The text from a place to a later one. -/
def textTo (cursor later : Cursor) : String :=
  String.ofList (cursor.rest.take (cursor.rest.length - later.rest.length))

end Cursor

end Verbatim
