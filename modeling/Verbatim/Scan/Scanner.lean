import Verbatim.Scan.Cursor
import Verbatim.Scan.Opening
import Verbatim.Scan.Trivia

/-!
# The scanner

The scanner turns a source into tokens, one at a time and on demand. It passes over the trivia in
front of a token and hands both over together. It never chooses between division and a regular
expression: whoever wants the latter asks for it.

## Main definitions

* `Verbatim.Scanner` — the state of scanning.
* `Verbatim.Scan` — actions that scan.
* `Verbatim.Scan.next`, `Verbatim.Scan.nextRegex` — the next token, and the next token where a
  regular expression may stand.
* `Verbatim.Scanner.save`, `Verbatim.Scanner.restore` — going back.
-/

namespace Verbatim

open Verbatim.Text

/-- The place behind a piece of trivia. The delimiters of a comment are jumped over. -/
def Cursor.past (cursor : Cursor) : Trivium → Cursor
  | .blank _ => cursor.advanceBy 1
  | .lineEnd chars => cursor.advanceBy chars.length
  | .comment .line opening body _ =>
    (cursor.jump (byteLength opening)).advanceBy body.length
  | .comment .block opening body closing =>
    ((cursor.jump (byteLength opening)).advanceBy body.length).jump (byteLength closing)

/-- The state of scanning. -/
structure Scanner where
  /-- The place that has been reached. -/
  cursor : Cursor
  /-- The open braces, innermost first. -/
  braces : List Brace := []
  /-- Which tokens there are. -/
  mode : Mode := .normal
  /-- Whether the source is a module, in which the comment forms of web pages do not count. -/
  isModule : Bool := false
  /-- Whether comments are kept. -/
  keepsComments : Bool := false
  /-- The comments kept, in order. -/
  comments : Array Comment := #[]
deriving DecidableEq, Repr, Inhabited

/-- Actions that scan; a failed action leaves the scanner where it stopped. -/
abbrev Scan := EStateM SyntaxError Scanner

namespace Scanner

/-- A scanner at the start of a source. -/
def start (source : String) (isModule keepsComments : Bool) : Scanner :=
  { cursor := .start source, isModule, keepsComments }

/-- Whether nothing remains. -/
def atEnd (s : Scanner) : Bool := s.cursor.rest.isEmpty

/-- What is needed to go back to a place. The mode is not part of it. -/
structure Snapshot where
  /-- The place. -/
  cursor : Cursor
  /-- The open braces. -/
  braces : List Brace
  /-- The number of comments kept. -/
  commentCount : Nat
deriving DecidableEq, Repr, Inhabited

/-- What is needed to come back here. -/
def save (s : Scanner) : Snapshot := ⟨s.cursor, s.braces, s.comments.size⟩

/-- Goes back, and forgets the comments that were kept since. -/
def restore (s : Scanner) (snapshot : Snapshot) : Scanner :=
  { s with
    cursor := snapshot.cursor
    braces := snapshot.braces
    comments := s.comments.take snapshot.commentCount }

/-- Hands out the comments kept so far, and forgets them. -/
def takeComments (s : Scanner) : List Comment × Scanner :=
  (s.comments.toList, { s with comments := #[] })

/-- Whether the comment forms of web pages count. -/
def allowsHtml (s : Scanner) : Bool := !s.isModule && s.mode = .normal

/-- Moves behind a piece of trivia, and keeps the piece if it is a comment and comments are kept. -/
def passTo (s : Scanner) (piece : Trivium) (after : Cursor) : Scanner :=
  match piece with
  | .comment kind _ body _ =>
    if s.keepsComments then
      let span : Span :=
        { range := some (s.cursor.position.offset, after.position.offset)
          location := some { start := s.cursor.position, stop := after.position } }
      { s with
        cursor := after
        comments := s.comments.push { kind, value := String.ofList body, span } }
    else { s with cursor := after }
  | _ => { s with cursor := after }

/-- Passes over a piece of trivia. -/
def pass (s : Scanner) (piece : Trivium) : Scanner := s.passTo piece (s.cursor.past piece)

end Scanner

namespace Scan

/-- Fails at the place that has been reached. -/
def fail {α : Type} (stage : Stage) (fault : Fault) : Scan α := do
  throw { stage, fault, site := (← get).cursor.position.site }

/-- Runs a reader on the place that has been reached. -/
def read {α : Type} (stage : Stage) (reader : ReadOn Cursor α) : Scan α := do
  match reader (← get).cursor with
  | .ok value cursor =>
    modify ({ · with cursor })
    return value
  | .error fault cursor =>
    modify ({ · with cursor })
    fail stage fault

/-- Sets which tokens there are. -/
def setMode (mode : Mode) : Scan Unit := modify ({ · with mode })

/-- Passes over trivia: its text, and whether it contains a line terminator. In a comment without
end, the opening delimiter is jumped over, and then all that follows is passed. -/
def trivia : Scan (String × Bool) := do
  let before ← get
  let found := Trivia.read before.allowsHtml (before.cursor.position.offset = 0) before.cursor.rest
  modify fun s => found.pieces.foldl Scanner.pass s
  if !found.isComplete then
    modify fun s => { s with cursor := (s.cursor.jump 2).moveTo [] }
    fail .scanner .unterminatedComment
  return (before.cursor.textTo (← get).cursor, found.pieces.any Trivium.endsLine)

/-- The next token, without trivia. -/
def lexeme : Scan Lexeme := do
  let s ← get
  let opening := Opening.of s.mode s.braces s.cursor.rest
  let lexeme ← read opening.stage opening.reader
  modify ({ · with braces := opening.nest lexeme s.braces })
  return lexeme

/-- A token that is read by the given action, behind the given trivia. -/
def token (lead : String) (newlineBefore : Bool) (lexeme : Scan Lexeme) : Scan Token := do
  let before := (← get).cursor
  let lexeme ← lexeme
  let after := (← get).cursor
  return { lexeme with
    raw := before.textTo after
    lead
    start := before.position
    stop := after.position
    lineStart := before.lineStart
    newlineBefore }

/-- The next token. Between tags, there is no trivia. -/
def next : Scan Token := do
  if (← get).mode = .text then token "" false lexeme
  else
    let (lead, newline) ← trivia
    token lead newline lexeme

/-- The next token, which must be a regular expression. -/
def nextRegex : Scan Token := do
  let (lead, newline) ← trivia
  token lead newline (read .scanner Read.regex)

end Scan

end Verbatim
