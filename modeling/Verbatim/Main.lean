import Verbatim.Command.Run

/-!
# The program

Reads files and lines, and writes what the command says.
-/

namespace Verbatim

/-- Reads a file. -/
def readSourceFile (path : String) : IO (Except FileFault String) := do
  try
    return .ok (← IO.FS.readFile path)
  catch
    | .noFileOrDirectory .. => return .error .missing
    | error => return .error (.other (toString error))

/-- Writes what was put out. -/
def writeOutput (written : List Output) : IO Unit := do
  for output in written do
    match output with
    | .out text => IO.print text
    | .err text => IO.eprint text
  (← IO.getStdout).flush

/-- Reads and answers lines until the shell is left or the input ends. -/
partial def interact (shell : Shell) : IO Unit := do
  writeOutput [.out shell.prompt]
  let line ← (← IO.getStdin).getLine
  if !line.isEmpty then
    let (shell, written) := shell.step (String.ofList (Shell.withoutEnd line.toList))
    writeOutput written
    if !shell.isDone then interact shell

end Verbatim

open Verbatim in
/-- Does what the arguments ask for. -/
def main (args : List String) : IO UInt32 := do
  match ← Command.start readSourceFile args with
  | .finish status written =>
    writeOutput written
    return status.toUInt32
  | .interact session =>
    writeOutput [.out Shell.banner]
    interact { session }
    return 0
