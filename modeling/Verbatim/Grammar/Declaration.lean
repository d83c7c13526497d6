import Verbatim.Grammar.Assignment

/-!
# Variable declarations

Declarations as statements and in the heads of loops. In the head of a loop a variable may lack its
value, because the loop may be one over keys or values.

## Main definitions

* `Verbatim.Grammar.Variables` — the parts of a declaration.
* `Verbatim.Grammar.variableList` — the parts, from the keyword to the last variable.
* `Verbatim.Grammar.variableStatement` — declarations as statements.
-/

namespace Verbatim.Grammar

open Verbatim.Parse

/-- The parts of a declaration. -/
structure Variables where
  /-- The trivia in front of the keyword. -/
  lead : String
  /-- The keyword. -/
  kind : VariableKind
  /-- The variables. -/
  items : List (Tree .declarator)
  /-- The commas with their trivia. -/
  separators : List String

/-- A declaration, which has no terminator in the head of a loop. -/
def Variables.declare (v : Variables) (ending : Option Terminator) (span : Span) :
    Tree .declaration :=
  .declaration v.lead v.kind (.ofList v.items) v.separators ending span

/-- The fault of a variable without a value: constants and patterns have one. -/
def missingValue? (kind : VariableKind) (target : Pattern) : Option Fault :=
  if kind = .const then some .missingInitializer
  else if target.isName then none
  else some .missingPatternInitializer

/-- The value of a variable, if it has one. -/
def variableValue (p : Productions) (ctx : Context) (inLoopHead : Bool) (kind : VariableKind)
    (target : Pattern) : Parse (Tree (.maybe .initializer)) := do
  let t ← look
  if t.isPunctuator "=" then
    let eqLead ← lead
    return .present (.initializer eqLead (← p.assignment ctx))
  if !inLoopHead then
    if let some fault := missingValue? kind target then reject fault t.site
  return .absent

/-- A single variable. -/
def declarator (p : Productions) (ctx : Context) (inLoopHead : Bool) (kind : VariableKind) :
    Parse (Tree .declarator) := do
  let start ← here
  let target ← p.binding .strictVariableName ctx
  if kind != .var && target.boundNames.any (·.name == "let") then tolerate .letBinding start.site
  let value ← variableValue p ctx inLoopHead kind target
  let span ← finish .declarator start
  return .declarator target value span

/-- The kind of variables that a word declares. -/
def variableKind (word : String) : VariableKind :=
  match word with
  | "var" => .var
  | "let" => .let
  | _ => .const

/-- The parts of a declaration; the lookahead is its keyword. -/
def variableList (p : Productions) (ctx : Context) (inLoopHead : Bool) : Parse Variables := do
  let t ← next
  let kind := variableKind t.raw
  let item := declarator p ctx inLoopHead kind
  let first ← item
  let (rest, separators) ← afterCommas ctx item p.rounds
  return { lead := t.lead, kind, items := first :: rest, separators }

/-- A declaration as a statement. -/
def variableStatement (p : Productions) (ctx : Context) : Parse Stmt := do
  let start ← here
  let v ← variableList p ctx false
  let ending ← terminator ctx
  let span ← finish .variableDeclaration start
  return .declarationStmt (v.declare (some ending) span)

/-- Whether the word `let`, which is the lookahead, begins a declaration. -/
def isLexicalDeclaration : Parse Bool := do
  let t ← peek
  return t.isName || t.isPunctuator "[" || t.isPunctuator "\x7b"

/-- Whether the word `async`, which is the lookahead, begins a function. -/
def isAsyncFunction : Parse Bool := do
  let t ← peek
  return t.isKeyword "function" && !t.newlineBefore

end Verbatim.Grammar
