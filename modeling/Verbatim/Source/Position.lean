/-!
# Positions in a source text

Offsets count bytes of the UTF-8 source, lines count from one, columns count characters from zero.
Lines and columns are kept in thirty-two bits: behind the last of their values comes zero.

## Main definitions

* `Verbatim.wrapAdd` — addition in thirty-two bits.
* `Verbatim.Position` — a point of the source.
* `Verbatim.Location` — an extent between two points, with the label of its source.
* `Verbatim.Span` — what a finished node records of its extent.
-/

namespace Verbatim

/-- The sum of two numbers in thirty-two bits. -/
def wrapAdd (m n : Nat) : Nat := (m + n) % UInt32.size

/-- A point of the source. The default is the point before any token was read. -/
structure Position where
  /-- The line, counted from one in thirty-two bits. -/
  line : Nat := 0
  /-- The column, counted in characters from zero in thirty-two bits. -/
  column : Nat := 0
  /-- The byte offset. -/
  offset : Nat := 0
deriving DecidableEq, Repr, Inhabited

/-- An extent of the source. -/
structure Location where
  /-- The point before the first character. -/
  start : Position
  /-- The point after the last character. -/
  stop : Position
  /-- The label of the source, when one was given. -/
  source : Option String := none
deriving DecidableEq, Repr

/-- The number of bytes covered; an extent that ends before it starts covers none. -/
def Location.length (l : Location) : Nat := l.stop.offset - l.start.offset

/-- Whether an extent covers nothing. -/
def Location.isEmpty (l : Location) : Bool := l.length = 0

/-- What a node records of its extent, each part only on request. -/
structure Span where
  /-- The byte offsets of start and end. -/
  range : Option (Nat × Nat) := none
  /-- The points of start and end. -/
  location : Option Location := none
deriving DecidableEq, Repr, Inhabited

end Verbatim
