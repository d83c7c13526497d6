import Verbatim.Session

/-!
# The shell

The shell reads lines. A line that starts with a dot, while no entry is pending, is a command; any
other line continues the pending entry, which is complete as soon as parsing it does not run into
its end.

## Main definitions

* `Verbatim.Output` — what is written, and where.
* `Verbatim.Shell` — the state of the shell.
* `Verbatim.Shell.step` — what a line does.
* `Verbatim.Shell.transcript` — what is written for all lines of an input.
-/

namespace Verbatim

/-- What is written, and where. -/
inductive Output where
  /-- To the standard output. -/
  | out (text : String)
  /-- To the error output. -/
  | err (text : String)
deriving DecidableEq, Repr

/-- The text that is written. -/
def Output.text : Output → String
  | .out text | .err text => text

/-- The name and version of the program. -/
def versionLine : String := "js-roundtrip 0.1.0"

/-- The state of the shell. -/
structure Shell where
  /-- How entries are parsed and printed. -/
  session : Session
  /-- The lines of the pending entry; there are none if no entry is pending. -/
  buffer : String := ""
  /-- Whether the shell was left. -/
  isDone : Bool := false
deriving DecidableEq, Repr

namespace Shell

/-- What the shell writes first. -/
def banner : String :=
  lines [versionLine, "Type JavaScript to see it parsed and printed back, or .help.", ""]

/-- The prompt for the next line. -/
def prompt (s : Shell) : String := if s.buffer.isEmpty then "> " else "... "

/-! ## Entries -/

/-- What becomes of an entry. -/
inductive Entry where
  /-- It is printed. -/
  | output (text : String)
  /-- It stops inside a construct, and goes on with the next line. -/
  | incomplete
  /-- It failed. -/
  | failed (failure : Failure)
deriving DecidableEq, Repr

/-- What becomes of an entry in a session. -/
def evaluate (session : Session) (entry : String) : Entry :=
  match session.process entry with
  | .ok text => .output text
  | .error (.syntaxError error) =>
    if error.fault = .unexpectedEnd then .incomplete else .failed (.syntaxError error)
  | .error failure => .failed failure

/-- A text without the line feeds at its end. -/
def withoutLineFeeds (text : String) : String :=
  String.ofList (text.toList.reverse.dropWhile (· == '\n')).reverse

/-- Takes a line of an entry. -/
def enter (s : Shell) (line : String) : Shell × List Output :=
  let entry := if s.buffer.isEmpty then line else s.buffer ++ "\n" ++ line
  match evaluate s.session entry with
  | .incomplete => ({ s with buffer := entry }, [])
  | .output text => ({ s with buffer := "" }, [.out (withoutLineFeeds text ++ "\n")])
  | .failed failure => ({ s with buffer := "" }, [.err (failure.message ++ "\n")])

/-! ## Commands -/

/-- The list of commands. -/
def help : String :=
  lines ["Commands:",
    "  .module   - Parse entries as modules",
    "  .script   - Parse entries as scripts",
    "  .jsx      - Toggle JSX support",
    "  .exit     - Leave the shell"]

/-- Changes the options of the session. -/
def setOptions (s : Shell) (change : Options → Options) : Shell :=
  { s with session := { s.session with options := change s.session.options } }

/-- Carries out a command. -/
def command (s : Shell) (name : String) : Shell × List Output :=
  match name with
  | ".help" => (s, [.out help])
  | ".module" => (s.setOptions ({ · with goal := .module }), [])
  | ".script" => (s.setOptions ({ · with goal := .script }), [])
  | ".jsx" =>
    let s := s.setOptions fun o => { o with jsx := !o.jsx }
    let state := if s.session.options.jsx then "enabled" else "disabled"
    (s, [.out (lines ["JSX " ++ state])])
  | ".exit" => ({ s with isDone := true }, [])
  | name => (s, [.out (lines ["Unknown command: " ++ name, "Type .help for available commands"])])

/-- What a line does. -/
def step (s : Shell) (line : String) : Shell × List Output :=
  let trimmed := Text.trim line
  if s.buffer.isEmpty && trimmed.toList.head? = some '.' then s.command trimmed else s.enter line

/-! ## Whole inputs -/

/-- A line without its end, which is a line feed with or without a carriage return in front. -/
def withoutEnd (line : List Char) : List Char :=
  match line.reverse with
  | '\n' :: '\r' :: rest => rest.reverse
  | '\n' :: rest => rest.reverse
  | _ => line

/-- The lines of an input, each with its end; `line` is the current line, read from behind. -/
def inputLinesFrom (line : List Char) : List Char → List (List Char)
  | [] => if line.isEmpty then [] else [line.reverse]
  | c :: cs =>
    if c = '\n' then (c :: line).reverse :: inputLinesFrom [] cs else inputLinesFrom (c :: line) cs

/-- The lines of an input without their ends. -/
def inputLines (input : String) : List String :=
  (inputLinesFrom [] input.toList).map fun line => String.ofList (withoutEnd line)

/-- What is written for the given lines, up to the prompt at the end of the input. -/
def run (s : Shell) : List String → List Output
  | [] => [.out s.prompt]
  | line :: rest =>
    let (after, written) := s.step line
    .out s.prompt :: written ++ if after.isDone then [] else after.run rest

/-- What is written in a whole session with the given input. -/
def transcript (session : Session) (input : String) : List Output :=
  .out banner :: run { session } (inputLines input)

end Shell

end Verbatim
