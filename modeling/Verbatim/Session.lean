import Verbatim.Options.Document
import Verbatim.Parsed

/-!
# Sessions

A session parses sources with fixed options and prints what was asked for.

## Main definitions

* `Verbatim.PrintMode` — what is printed.
* `Verbatim.Failure` — what may go wrong, with its wording.
* `Verbatim.Session`, `Verbatim.Session.process` — a session, and the text it prints for a source.
* `Verbatim.firstDifference?` — where two texts part.
-/

namespace Verbatim

/-- What is printed after a successful parse. -/
inductive PrintMode where
  /-- The source, printed from its tree. -/
  | source
  /-- One line for each token. -/
  | tokens
  /-- One line for each comment. -/
  | comments
  /-- One line for each tolerated error. -/
  | errors
  /-- Whether the printed source is the given one. -/
  | check
deriving DecidableEq, Repr, Inhabited

namespace PrintMode

/-- Every mode. -/
def all : List PrintMode := [.source, .tokens, .comments, .errors, .check]

/-- The name of a mode. -/
def name : PrintMode → String
  | .source => "source"
  | .tokens => "tokens"
  | .comments => "comments"
  | .errors => "errors"
  | .check => "check"

/-- The mode with a given name. -/
def ofName? (name : String) : Option PrintMode := all.find? (·.name == name)

end PrintMode

/-! ## Failures -/

/-- Why a file cannot be read. -/
inductive FileFault where
  /-- There is no such file. -/
  | missing
  /-- It is a directory. -/
  | directory
  /-- Another reason, in words. -/
  | other (text : String)
deriving DecidableEq, Repr

/-- The wording of a file fault. -/
def FileFault.message : FileFault → String
  | .missing => "No such file or directory (os error 2)"
  | .directory => "Is a directory (os error 21)"
  | .other text => text

/-- What may go wrong. -/
inductive Failure where
  /-- A file cannot be read. -/
  | file (fault : FileFault)
  /-- A source cannot be parsed. -/
  | syntaxError (error : SyntaxError)
  /-- The options document is malformed. -/
  | config (error : Json.Error)
  /-- The printed source differs from the given one at a byte. -/
  | difference (offset : Nat)
deriving DecidableEq, Repr

/-- The wording of a failure. -/
def Failure.message : Failure → String
  | .file fault => "File error: " ++ fault.message
  | .syntaxError error => "Syntax error: " ++ error.display
  | .config error => "Config error: " ++ error.message
  | .difference offset => "Round trip differs from input at byte " ++ toString offset

/-! ## Sessions -/

/-- The number of equal bytes that two texts start with. -/
def commonBytes : List UInt8 → List UInt8 → Nat
  | x :: xs, y :: ys => if x = y then commonBytes xs ys + 1 else 0
  | _, _ => 0

/-- The byte at which two texts part, if they do. -/
def firstDifference? (a b : String) : Option Nat :=
  if a = b then none else some (commonBytes a.toUTF8.toList b.toUTF8.toList)

/-- A session. -/
structure Session where
  /-- How sources are parsed. -/
  options : Options
  /-- What is printed. -/
  printMode : PrintMode := .source
deriving DecidableEq, Repr

/-- The texts, each on a line of its own. -/
def lines (texts : List String) : String := concat (texts.map (· ++ "\n"))

/-- The line for a token. -/
def TokenRecord.listing (t : TokenRecord) : String := t.kind.label ++ " " ++ Text.listed t.value

/-- The name of a kind of comments. -/
def CommentKind.label : CommentKind → String
  | .line => "Line"
  | .block => "Block"

/-- The line for a comment. -/
def Comment.listing (c : Comment) : String := c.kind.label ++ " " ++ Text.listed c.value

/-- What a session prints for a source that was parsed. -/
def Parsed.render (p : Parsed) (mode : PrintMode) (source : String) : Except Failure String :=
  match mode with
  | .source => .ok p.program.print
  | .tokens => .ok (lines ((p.tokens.getD []).map (·.listing)))
  | .comments => .ok (lines ((p.comments.getD []).map (·.listing)))
  | .errors => .ok (lines (p.errors.map (·.display)))
  | .check =>
    match firstDifference? source p.program.print with
    | some offset => .error (.difference offset)
    | none => .ok (lines ["round trip ok"])

/-- What a session prints for a source. -/
def Session.process (s : Session) (source : String) : Except Failure String :=
  match parse s.options source with
  | .ok parsed => parsed.render s.printMode source
  | .error error => .error (.syntaxError error)

end Verbatim
