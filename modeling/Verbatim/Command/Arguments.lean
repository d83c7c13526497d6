import Verbatim.Session

/-!
# Command line arguments

Long options are written in full; a value may be attached by an equals sign or be the next argument.
Short options are single letters that may be bundled behind one hyphen; the value of the last one
may be attached, with or without an equals sign. Two hyphens end the options, and a lone hyphen is
no option. Nothing may be given twice.

## Main definitions

* `Verbatim.Arguments` — what may be given.
* `Verbatim.Invocation` — what an argument list asks for.
* `Verbatim.Arguments.parse?` — the reading of an argument list.
* `Verbatim.Arguments.parseOptions` — the parse options that follow from the arguments.
-/

namespace Verbatim

/-- What may be given on the command line. -/
structure Arguments where
  /-- The source file. -/
  file : Option String := none
  /-- A source given in place of a file. -/
  eval : Option String := none
  /-- Parse as a module. -/
  isModule : Bool := false
  /-- Record faults that parsing can survive. -/
  isTolerant : Bool := false
  /-- Reject markup. -/
  rejectsMarkup : Bool := false
  /-- The options document. -/
  config : Option String := none
  /-- What is printed. -/
  print : Option PrintMode := none
  /-- Start the shell. -/
  isInteractive : Bool := false
deriving DecidableEq, Repr

/-- What an argument list asks for. -/
inductive Invocation where
  /-- To run with arguments. -/
  | run (args : Arguments)
  /-- To show the version. -/
  | showVersion
  /-- To show how the program is used. -/
  | showHelp
deriving DecidableEq, Repr

namespace Arguments

/-! ## Options -/

/-- The options without a value. -/
inductive Switch where
  /-- Parse as a module. -/
  | module
  /-- Record faults that parsing can survive. -/
  | tolerant
  /-- Reject markup. -/
  | noMarkup
  /-- Start the shell. -/
  | interactive
  /-- Show the version. -/
  | version
  /-- Show how the program is used. -/
  | help
deriving DecidableEq, Repr

/-- The options with a value. -/
inductive Setting where
  /-- A source. -/
  | eval
  /-- An options document. -/
  | config
  /-- What is printed. -/
  | print
deriving DecidableEq, Repr

/-- An option. -/
inductive Opt where
  /-- One without a value. -/
  | switch (s : Switch)
  /-- One with a value. -/
  | setting (s : Setting)
deriving DecidableEq, Repr

/-- The option with a given long name. -/
def long? (name : String) : Option Opt :=
  [("eval", .setting .eval), ("module", .switch .module), ("tolerant", .switch .tolerant),
    ("no-jsx", .switch .noMarkup), ("config", .setting .config), ("print", .setting .print),
    ("repl", .switch .interactive), ("version", .switch .version),
    ("help", .switch .help)].lookup name

/-- The option with a given letter. -/
def short? (letter : Char) : Option Opt :=
  [('e', .setting .eval), ('m', .switch .module), ('t', .switch .tolerant),
    ('c', .setting .config), ('p', .setting .print), ('r', .switch .interactive),
    ('V', .switch .version), ('h', .switch .help)].lookup letter

/-! ## Reading -/

/-- How far reading has come: the arguments so far, or what the program shows in their place. -/
inductive Reading where
  /-- Arguments so far. -/
  | going (args : Arguments)
  /-- The version or the help is shown, whatever follows. -/
  | shown (invocation : Invocation)

/-- Sets a flag, unless it is set. -/
def once (isSet : Bool) (args : Arguments) : Option Reading :=
  if isSet then none else some (.going args)

/-- Takes an option without a value. -/
def takeSwitch (args : Arguments) : Switch → Option Reading
  | .module => once args.isModule { args with isModule := true }
  | .tolerant => once args.isTolerant { args with isTolerant := true }
  | .noMarkup => once args.rejectsMarkup { args with rejectsMarkup := true }
  | .interactive => once args.isInteractive { args with isInteractive := true }
  | .version => some (.shown .showVersion)
  | .help => some (.shown .showHelp)

/-- Takes an option with a value. A file name is not empty. -/
def takeSetting (args : Arguments) (value : String) : Setting → Option Arguments
  | .eval => if args.eval.isSome then none else some { args with eval := some value }
  | .config =>
    if args.config.isSome || value.isEmpty then none else some { args with config := some value }
  | .print => do
    let mode ← PrintMode.ofName? value
    if args.print.isSome then none else some { args with print := some mode }

/-- Takes an argument that is no option. -/
def takeFile (args : Arguments) (name : String) : Option Arguments :=
  if args.file.isSome || name.isEmpty then none else some { args with file := some name }

/-- Whether an argument can be the value of an option in front of it. -/
def isSeparateValue (arg : String) : Bool :=
  match arg.toList with
  | '-' :: _ :: _ => false
  | _ => true

/-- One step of reading: what was read, and the arguments that remain. -/
abbrev Step := Reading × List String

/-- Takes an option whose value is the next argument. -/
def takeNext (args : Arguments) (setting : Setting) : List String → Option Step
  | [] => none
  | value :: rest =>
    if isSeparateValue value then
      (args.takeSetting value setting).map fun args => (.going args, rest)
    else none

/-- Takes a long option. -/
def takeLong (args : Arguments) (text : List Char) (rest : List String) : Option Step := do
  let name := text.takeWhile (· ≠ '=')
  let value := (text.dropWhile (· ≠ '=')).tail?
  match ← long? (String.ofList name), value with
  | .switch s, none => (args.takeSwitch s).map (·, rest)
  | .switch _, some _ => none
  | .setting s, some value =>
    (args.takeSetting (String.ofList value) s).map fun args => (.going args, rest)
  | .setting s, none => args.takeNext s rest

/-- Takes the letters of a bundle of short options. -/
def takeShort (args : Arguments) (rest : List String) : List Char → Option Step
  | [] => some (.going args, rest)
  | letter :: letters => do
    match ← short? letter with
    | .switch s =>
      match ← args.takeSwitch s with
      | .going args => args.takeShort rest letters
      | .shown invocation => some (.shown invocation, rest)
    | .setting s =>
      match letters with
      | [] => args.takeNext s rest
      | '=' :: value | value =>
        (args.takeSetting (String.ofList value) s).map fun args => (.going args, rest)

/-- Takes the arguments behind the two hyphens that end the options. -/
def takeFiles (args : Arguments) : List String → Option Arguments
  | [] => some args
  | name :: rest => do (← args.takeFile name).takeFiles rest

/-- Takes the first argument, together with those that belong to it. -/
def takeOne (args : Arguments) (arg : String) (rest : List String) : Option Step :=
  match arg.toList with
  | ['-', '-'] => (args.takeFiles rest).map fun args => (.going args, [])
  | '-' :: '-' :: text => args.takeLong text rest
  | '-' :: letter :: letters => args.takeShort rest (letter :: letters)
  | _ => (args.takeFile arg).map fun args => (.going args, rest)

/-- Reads arguments; every step takes at least one of them. -/
def readFrom (args : Arguments) : Nat → List String → Option Invocation
  | _, [] => some (.run args)
  | 0, _ => none
  | steps + 1, arg :: rest => do
    match ← args.takeOne arg rest with
    | (.going args, rest) => args.readFrom steps rest
    | (.shown invocation, _) => some invocation

/-- What an argument list asks for; there is no answer if it is malformed. -/
def parse? (list : List String) : Option Invocation := readFrom {} list.length list

/-! ## Consequences -/

/-- What is printed; the source if nothing was said. -/
def printMode (args : Arguments) : PrintMode := args.print.getD .source

/-- Parse options with what the arguments say put over them. -/
def override (args : Arguments) (o : Options) : Options :=
  let mode := args.printMode
  { o with
    goal := if args.isModule then .module else o.goal
    tolerant := o.tolerant || args.isTolerant || mode = .errors
    jsx := o.jsx && !args.rejectsMarkup
    tokens := o.tokens || mode = .tokens
    comments := o.comments || mode = .comments
    source := o.source.or args.file }

/-- The parse options: those of the options document, if one is given, with what the arguments say
put over them. -/
def parseOptions {m : Type → Type} [Monad m] (readFile : String → m (Except FileFault String))
    (args : Arguments) : m (Except Failure Options) := do
  match args.config with
  | none => return .ok (args.override {})
  | some path =>
    match ← readFile path with
    | .error fault => return .error (.file fault)
    | .ok document =>
      match Options.ofDocument document with
      | .error error => return .error (.config error)
      | .ok o => return .ok (args.override o)

end Arguments

end Verbatim
