import Verbatim.Scan.Token
import Verbatim.Text.Character

/-!
# Trivia

What stands between tokens: white space, line terminators and comments. Trivia is read as a list of
pieces whose characters, one after the other, are the text passed over.

## Main definitions

* `Verbatim.Trivium` — a piece of trivia.
* `Verbatim.Trivia.read` — the trivia at the front of a text.
-/

namespace Verbatim

open Verbatim.Text

/-- A piece of trivia. -/
inductive Trivium where
  /-- White space within a line. -/
  | blank (c : Char)
  /-- A line terminator, of two characters when a carriage return precedes a line feed. -/
  | lineEnd (chars : List Char)
  /-- A comment: its opening delimiter, its text and its closing delimiter. -/
  | comment (kind : CommentKind) (opening body closing : List Char)
deriving DecidableEq, Repr

namespace Trivium

/-- The characters of a piece. -/
def chars : Trivium → List Char
  | .blank c => [c]
  | .lineEnd chars => chars
  | .comment _ opening body closing => opening ++ body ++ closing

/-- Whether a piece separates lines. -/
def endsLine : Trivium → Bool
  | .blank _ => false
  | .lineEnd _ => true
  | .comment _ _ body _ => body.any isLineTerminator

end Trivium

/-- Trivia at the front of a text. -/
structure Trivia where
  /-- The pieces, in order. -/
  pieces : List Trivium
  /-- What follows them. -/
  rest : List Char
  /-- Whether they end properly, and not in a comment without end. -/
  isComplete : Bool := true

/-- Trivia with one more piece in front. -/
def Trivia.push (piece : Trivium) (t : Trivia) : Trivia := { t with pieces := piece :: t.pieces }

/-- A comment with the given opening that ends with its line, and what follows it. -/
def lineComment (opening : String) (chars : List Char) : Trivium × List Char :=
  let body := chars.drop opening.length
  (.comment .line opening.toList (body.takeWhile (!isLineTerminator ·)) [],
    body.dropWhile (!isLineTerminator ·))

/-- The text of a block comment up to its closing delimiter, and what follows the delimiter. -/
def blockBody? : List Char → Option (List Char × List Char)
  | '*' :: '/' :: rest => some ([], rest)
  | c :: rest => (blockBody? rest).map fun (body, rest) => (c :: body, rest)
  | [] => none

/-- What stands at the front of a text. -/
inductive Front where
  /-- No trivia. -/
  | token
  /-- A piece of trivia and what follows it. -/
  | piece (first : Trivium) (rest : List Char)
  /-- A block comment without end. -/
  | unclosed
deriving DecidableEq, Repr

/-- The first piece of trivia of a text. The two comment forms of web pages count if `html` is set,
the second of them only if `fresh` says that nothing else stands before it on its line. -/
def Front.of (html fresh : Bool) (chars : List Char) : Front :=
  let starts (opening : String) : Bool := opening.toList.isPrefixOf chars
  let line (opening : String) : Front :=
    let (comment, rest) := lineComment opening chars
    .piece comment rest
  match chars with
  | [] => .token
  | c :: rest =>
    if starts "\r\n" then .piece (.lineEnd ['\r', '\n']) (chars.drop 2)
    else if isBlank c then .piece (.blank c) rest
    else if isLineTerminator c then .piece (.lineEnd [c]) rest
    else if starts "//" then line "//"
    else if starts "/*" then
      match blockBody? (chars.drop 2) with
      | some (body, rest) => .piece (.comment .block ['/', '*'] body ['*', '/']) rest
      | none => .unclosed
    else if html && starts "<!--" then line "<!--"
    else if html && fresh && starts "-->" then line "-->"
    else .token

namespace Trivia

/-- Reads trivia, at most `fuel` pieces of it. -/
def readFrom (html : Bool) : Nat → Bool → List Char → Trivia
  | 0, _, chars => ⟨[], chars, true⟩
  | fuel + 1, fresh, chars =>
    match Front.of html fresh chars with
    | .token => ⟨[], chars, true⟩
    | .piece piece rest => (readFrom html fuel (fresh || piece.endsLine) rest).push piece
    | .unclosed => ⟨[], chars, false⟩

/-- The trivia at the front of a text. At the start of the source, it may begin with a line that
names an interpreter. -/
def read (html atStart : Bool) (chars : List Char) : Trivia :=
  if atStart && "#!".toList.isPrefixOf chars then
    let (piece, rest) := lineComment "#!" chars
    (readFrom html rest.length atStart rest).push piece
  else readFrom html chars.length atStart chars

end Trivia

end Verbatim
