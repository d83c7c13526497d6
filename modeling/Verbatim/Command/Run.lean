import Verbatim.Command.Arguments
import Verbatim.Command.Shell

/-!
# The command

What the program does with its arguments, apart from reading files and lines, which is left to the
caller.

## Main definitions

* `Verbatim.Action`, `Verbatim.Command.start` — what an argument list leads to.
* `Verbatim.Command.processFile` — what is printed for a file.
* `Verbatim.Command.transcript` — all that is written for a given input.
-/

namespace Verbatim

/-- What an argument list leads to. -/
inductive Action where
  /-- Something is written, and the program ends with a status. -/
  | finish (status : UInt8) (written : List Output)
  /-- The shell is started. -/
  | interact (session : Session)

namespace Command

variable {m : Type → Type} [Monad m]

/-- What is shown when nothing was asked for. -/
def usage : String :=
  lines [versionLine,
    "",
    "Usage:",
    "  js-roundtrip <FILE>            Parse a file and print it back",
    "  js-roundtrip --eval <CODE>     Parse inline source",
    "  js-roundtrip --repl            Start the interactive shell",
    "",
    "Run 'js-roundtrip --help' for more options."]

/-- What a session prints for a file. -/
def processFile (readFile : String → m (Except FileFault String)) (s : Session) (path : String) :
    m (Except Failure String) := do
  match ← readFile path with
  | .error fault => return .error (.file fault)
  | .ok source => return s.process source

/-- Writes a text and succeeds, or the wording of a failure and fails. -/
def conclude : Except Failure String → Action
  | .ok text => .finish 0 [.out text]
  | .error failure => .finish 1 [.err (failure.message ++ "\n")]

/-- What a session does with the arguments. -/
def act (readFile : String → m (Except FileFault String)) (args : Arguments) (s : Session) :
    m Action := do
  match args.eval, args.file with
  | some source, _ => return conclude (s.process source)
  | none, some path => return conclude (← processFile readFile s path)
  | none, none =>
    if args.isInteractive then return .interact s else return .finish 0 [.out usage]

/-- What an argument list leads to. -/
def start (readFile : String → m (Except FileFault String)) (list : List String) : m Action := do
  match Arguments.parse? list with
  | none => return .finish 2 [.err usage]
  | some .showVersion => return .finish 0 [.out (lines [versionLine])]
  | some .showHelp => return .finish 0 [.out usage]
  | some (.run args) =>
    match ← args.parseOptions readFile with
    | .error failure => return conclude (.error failure)
    | .ok options => act readFile args { options, printMode := args.printMode }

/-- The status and all that is written, given the whole standard input. -/
def transcript (input : String) : Action → UInt8 × List Output
  | .finish status written => (status, written)
  | .interact session => (0, Shell.transcript session input)

end Command

end Verbatim
