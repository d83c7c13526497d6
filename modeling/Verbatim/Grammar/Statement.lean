import Verbatim.Grammar.Loop

/-!
# Statements

Blocks, branches, jumps, handlers, switches, labels and expressions as statements, and the
declarations that may stand among them.

## Main definitions

* `Verbatim.Grammar.statement` — statements.
* `Verbatim.Grammar.item` — statements and declarations.
* `Verbatim.Grammar.block` — blocks.
-/

namespace Verbatim.Grammar

open Verbatim.Parse

/-! ## Blocks and branches -/

/-- Statements in braces. -/
def block (p : Productions) (ctx : Context) : Parse (Tree .block) := do
  let start ← here
  let openLead ← expect ctx "\x7b"
  let stmts ← items p ctx
  let closeLead ← expect ctx "\x7d"
  let span ← finish .block start
  return .block openLead (.ofList stmts) closeLead span

/-- A lone semicolon. -/
def emptyStatement : Parse Stmt := do
  let t ← next
  let span ← finish .emptyStmt t.start
  return .emptyStmt t.lead span

/-- The alternative of a branch, if there is one. -/
def elseClause (p : Productions) (ctx : Context) : Parse (Tree (.maybe .elseClause)) := do
  if ← seesKeyword "else" then
    let elseLead ← lead
    return .present (.elseClause elseLead (← p.statement ctx))
  return .absent

/-- A branch. -/
def ifStatement (p : Productions) (ctx : Context) : Parse Stmt := do
  let t ← next
  let (openLead, test, closeLead) ← inParentheses p ctx
  let consequent ← p.statement ctx
  let alternate ← elseClause p ctx
  let span ← finish .ifStmt t.start
  return .ifStmt t.lead openLead test closeLead consequent alternate span

/-- A statement that sees the properties of an object as variables. -/
def withStatement (p : Productions) (ctx : Context) : Parse Stmt := do
  let t ← next
  if ctx.strict then tolerate .strictWith t.site
  let (openLead, subject, closeLead) ← inParentheses p ctx
  let body ← p.statement ctx
  let span ← finish .withStmt t.start
  return .withStmt t.lead openLead subject closeLead body span

/-- A function declaration where a statement is expected, which strict code does not allow. -/
def nestedFunction (p : Productions) (ctx : Context) : Parse Stmt := do
  if ctx.strict then tolerate .strictNestedFunction (← look).site
  functionDeclaration p ctx

/-! ## Jumps -/

/-- The label of a jump, if there is one on the same line; it must be in scope. -/
def jumpLabel (ctx : Context) : Parse (Option Ident) := do
  let t ← look
  if !t.isName || t.newlineBefore then return none
  let label ← anyName
  if !ctx.labels.contains label.name then reject (.unknownLabel label.name) t.site
  return some label

/-- The end of a loop, switch or labelled statement. -/
def breakStatement (ctx : Context) : Parse Stmt := do
  let t ← next
  let label ← jumpLabel ctx
  if label.isNone && !ctx.inLoop && !ctx.inSwitch then reject .illegalBreak t.site
  let ending ← terminator ctx
  let span ← finish .breakStmt t.start
  return .breakStmt t.lead label ending span

/-- The end of one round of a loop. -/
def continueStatement (ctx : Context) : Parse Stmt := do
  let t ← next
  if !ctx.inLoop then reject .illegalContinue t.site
  let label ← jumpLabel ctx
  let ending ← terminator ctx
  let span ← finish .continueStmt t.start
  return .continueStmt t.lead label ending span

/-- Whether a token ends a statement that could go on on the same line. -/
def endsStatement (t : Token) : Bool :=
  t.newlineBefore || t.isPunctuator ";" || t.isPunctuator "\x7d" || t.isEof

/-- The end of a function. -/
def returnStatement (p : Productions) (ctx : Context) : Parse Stmt := do
  let t ← next
  if !ctx.inFunction then tolerate .illegalReturn t.site
  let value : Tree (.maybe .expr) ←
    if endsStatement (← look) then pure .absent else .present <$> p.expression ctx
  let ending ← terminator ctx
  let span ← finish .returnStmt t.start
  return .returnStmt t.lead value ending span

/-- The raising of an exception. -/
def throwStatement (p : Productions) (ctx : Context) : Parse Stmt := do
  let t ← next
  let first ← look
  if first.newlineBefore then reject .newlineAfterThrow first.site
  let value ← p.expression ctx
  let ending ← terminator ctx
  let span ← finish .throwStmt t.start
  return .throwStmt t.lead value ending span

/-- A stop for the debugger. -/
def debuggerStatement (ctx : Context) : Parse Stmt := do
  let t ← next
  let ending ← terminator ctx
  let span ← finish .debuggerStmt t.start
  return .debuggerStmt t.lead ending span

/-! ## Handlers -/

/-- The target of an exception, in parentheses, if there is one. -/
def catchParameter (p : Productions) (ctx : Context) : Parse (Tree (.maybe .catchParam)) := do
  match ← accept "(" with
  | none => return .absent
  | some openLead =>
    let site := (← look).site
    let target ← p.binding .strictCatchVariable ctx
    if repeatsName target.boundNames then reject .repeatedParameter site
    let closeLead ← expect ctx ")"
    return .present (.catchParam openLead target closeLead)

/-- A handler, if there is one. -/
def catchClause (p : Productions) (ctx : Context) : Parse (Tree (.maybe .catchClause)) := do
  let t ← look
  if !t.isKeyword "catch" then return .absent
  let catchLead ← lead
  let param ← catchParameter p ctx
  let body ← block p ctx
  let span ← finish .catchClause t.start
  return .present (.catchClause catchLead param body span)

/-- A finalizer, if there is one. -/
def finallyClause (p : Productions) (ctx : Context) : Parse (Tree (.maybe .finallyClause)) := do
  if ← seesKeyword "finally" then
    let finallyLead ← lead
    return .present (.finallyClause finallyLead (← block p ctx))
  return .absent

/-- A block with a handler, a finalizer or both. -/
def tryStatement (p : Productions) (ctx : Context) : Parse Stmt := do
  let t ← next
  let guarded ← block p ctx
  let handler ← catchClause p ctx
  let finalizer ← finallyClause p ctx
  if handler.toOption.isNone && finalizer.toOption.isNone then reject .missingHandler t.site
  let span ← finish .tryStmt t.start
  return .tryStmt t.lead guarded handler finalizer span

/-! ## Switches -/

/-- Whether a token ends the statements of a clause. -/
def endsClause (t : Token) : Bool :=
  t.isPunctuator "\x7d" || t.isKeyword "case" || t.isKeyword "default" || t.isEof

/-- The word that begins a clause of a switch, with the test of a `case`. `hasDefault` says whether
there was a default clause before. -/
def clauseHead (p : Productions) (ctx : Context) (hasDefault : Bool) :
    Parse (String × Tree (.maybe .expr)) := do
  let t ← look
  if t.isKeyword "case" then
    let caseLead ← lead
    return (caseLead, .present (← p.expression ctx.inside))
  if hasDefault then reject .repeatedDefault t.site
  return (← expectKeyword ctx "default", .absent)

/-- The clauses of a switch up to its closing brace. -/
def switchCases (p : Productions) (ctx : Context) (hasDefault : Bool) :
    Nat → Parse (List (Tree .switchCase))
  | 0 => stalled
  | rounds + 1 => do
    if ← sees "\x7d" then return []
    let start ← here
    let (clauseLead, test) ← clauseHead p ctx hasDefault
    let colonLead ← expect ctx ":"
    let body ← many endsClause (p.item ctx) p.rounds
    let span ← finish .switchCase start
    let rest ← switchCases p ctx (hasDefault || test.toOption.isNone) rounds
    return .switchCase clauseLead test colonLead (.ofList body) span :: rest

/-- A choice between clauses. -/
def switchStatement (p : Productions) (ctx : Context) : Parse Stmt := do
  let t ← next
  let (openLead, subject, closeLead) ← inParentheses p ctx
  let openBraceLead ← expect ctx "\x7b"
  let cases ← switchCases p ctx.switchBody false p.rounds
  let closeBraceLead ← expect ctx "\x7d"
  let span ← finish .switchStmt t.start
  return .switchStmt t.lead openLead subject closeLead openBraceLead (.ofList cases)
    closeBraceLead span

/-! ## Labels and expressions -/

/-- A statement behind its label; the lookahead is the colon. -/
def labelledStatement (p : Productions) (ctx : Context) (start : Position) (label : Ident) :
    Parse Stmt := do
  if ctx.labels.contains label.name then reject (.repeatedLabel label.name) start.site
  let colonLead ← lead
  let body ← p.statement (ctx.labelled label.name)
  let span ← finish .labeledStmt start
  return .labeledStmt label colonLead body span

/-- The label that an expression is, if a colon follows it. -/
def labelOf? (first after : Token) (value : Expr) : Option Ident :=
  match value with
  | .identifier id => if first.isName && after.isPunctuator ":" then some id else none
  | _ => none

/-- An expression as a statement, or a statement with a label. -/
def expressionStatement (p : Productions) (ctx : Context) : Parse Stmt := do
  let first ← look
  let value ← expression p ctx
  match labelOf? first (← look) value with
  | some label => labelledStatement p ctx first.start label
  | none =>
    let ending ← terminator ctx
    let span ← finish .exprStmt first.start
    return .exprStmt value none ending span

/-! ## Statements and declarations -/

/-- A statement that may begin with a reserved word. -/
def keywordStatement (p : Productions) (ctx : Context) (word : String) : Parse Stmt :=
  match word with
  | "break" => breakStatement ctx
  | "continue" => continueStatement ctx
  | "debugger" => debuggerStatement ctx
  | "do" => doWhileLoop p ctx
  | "for" => forLoop p ctx
  | "function" => nestedFunction p ctx
  | "if" => ifStatement p ctx
  | "return" => returnStatement p ctx
  | "switch" => switchStatement p ctx
  | "throw" => throwStatement p ctx
  | "try" => tryStatement p ctx
  | "var" => variableStatement p ctx
  | "while" => whileLoop p ctx
  | "with" => withStatement p ctx
  | _ => expressionStatement p ctx

/-- A statement. -/
def statement (p : Productions) (ctx : Context) : Parse Stmt := do
  let t ← look
  if t.isPunctuator "\x7b" then .blockStmt <$> block p ctx
  else if t.isPunctuator ";" then emptyStatement
  else if t.kind = .keyword then keywordStatement p ctx t.raw
  else expressionStatement p ctx

/-- Whether the word `import`, which is the lookahead, begins an expression. -/
def isImportExpression : Parse Bool := do
  let t ← peek
  return t.isPunctuator "(" || t.isPunctuator "."

/-- A statement or declaration that begins with a reserved word. -/
def keywordItem (p : Productions) (ctx : Context) (t : Token) : Parse Stmt := do
  match t.raw with
  | "function" => functionDeclaration p ctx
  | "class" => .classStmt <$> classDefinition p ctx true true
  | "const" => variableStatement p ctx
  | "import" =>
    if ← isImportExpression then statement p ctx else reject .misplacedImport t.site
  | "export" => reject .misplacedExport t.site
  | _ => statement p ctx

/-- A statement or declaration. -/
def item (p : Productions) (ctx : Context) : Parse Stmt := do
  let t ← look
  if t.kind = .keyword then keywordItem p ctx t
  else if t.isWord "let" then
    if ← isLexicalDeclaration then variableStatement p ctx else statement p ctx
  else if t.isWord "async" then
    if ← isAsyncFunction then functionDeclaration p ctx else statement p ctx
  else statement p ctx

end Verbatim.Grammar
