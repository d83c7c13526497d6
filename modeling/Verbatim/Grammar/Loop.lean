import Verbatim.Grammar.Declaration

/-!
# Loops

What stands between the parentheses of `for` tells which of three loops it is only behind its first
part, which may be a declaration, a pattern that was read as an expression, or an expression.

## Main definitions

* `Verbatim.Grammar.forLoop` — the three loops with `for`.
* `Verbatim.Grammar.whileLoop`, `Verbatim.Grammar.doWhileLoop` — the loops with `while`.
-/

namespace Verbatim.Grammar

open Verbatim.Parse

/-- An expression in parentheses that belong to a statement: the trivia in front of the
parentheses, and the expression between them. -/
def inParentheses (p : Productions) (ctx : Context) : Parse (String × Expr × String) := do
  let openLead ← expect ctx "("
  let value ← p.expression ctx.inside
  let closeLead ← expect ctx ")"
  return (openLead, value, closeLead)

/-- The body of a loop. -/
def loopBody (p : Productions) (ctx : Context) : Parse Stmt := p.statement ctx.loopBody

/-- What stands in front of the first part of a loop with `for`. -/
structure ForHead where
  /-- Where the loop starts. -/
  start : Position
  /-- The trivia in front of `for`. -/
  lead : String
  /-- The trivia in front of `await`, if it is there. -/
  awaitLead : Option String
  /-- The trivia in front of the opening parenthesis. -/
  openLead : String

/-- An expression that may be missing in front of the given punctuator. -/
def optionalBefore (p : Productions) (ctx : Context) (close : String) :
    Parse (Tree (.maybe .expr)) := do
  if ← sees close then return .absent else return .present (← p.expression ctx.inside)

/-- A loop with a start, a test and a step, behind its start. -/
def finishFor (p : Productions) (ctx : Context) (head : ForHead) (init : Tree (.maybe .forInit)) :
    Parse Stmt := do
  if head.awaitLead.isSome then unexpectedHere ctx
  let firstLead ← expect ctx ";"
  let test ← optionalBefore p ctx ";"
  let secondLead ← expect ctx ";"
  let step ← optionalBefore p ctx ")"
  let closeLead ← expect ctx ")"
  let body ← loopBody p ctx
  let span ← finish .forStmt head.start
  return .forStmt head.lead head.openLead init firstLead test secondLead step closeLead body span

/-- A loop over keys, behind its target. -/
def finishForIn (p : Productions) (ctx : Context) (head : ForHead) (left : Tree .forTarget) :
    Parse Stmt := do
  if head.awaitLead.isSome then unexpectedHere ctx
  let inLead ← lead
  let right ← p.expression ctx.inside
  let closeLead ← expect ctx ")"
  let body ← loopBody p ctx
  let span ← finish .forInStmt head.start
  return .forInStmt head.lead head.openLead left inLead right closeLead body span

/-- A loop over values, behind its target. -/
def finishForOf (p : Productions) (ctx : Context) (head : ForHead) (left : Tree .forTarget) :
    Parse Stmt := do
  let ofLead ← expectWord ctx "of"
  let right ← p.assignment ctx.inside
  let closeLead ← expect ctx ")"
  let body ← loopBody p ctx
  let span ← finish .forOfStmt head.start
  return .forOfStmt head.lead head.awaitLead head.openLead left ofLead right closeLead body span

/-- A loop over keys or values, behind its target. -/
def finishForEach (p : Productions) (ctx : Context) (head : ForHead) (left : Tree .forTarget) :
    Parse Stmt := do
  if ← seesKeyword "in" then finishForIn p ctx head left else finishForOf p ctx head left

/-- Whether a loop over keys may give its variable a value: sloppy code may give one to a single
plain variable. -/
def allowsLoopValue (ctx : Context) (kind : VariableKind) (target : Pattern) (t : Token) : Bool :=
  t.isKeyword "in" && kind == .var && !ctx.strict && target.isName

/-- Fails on a variable of a loop with a start, a test and a step that lacks its value. -/
def checkLoopVariables (kind : VariableKind) (t : Token) : List (Tree .declarator) → Parse Unit
  | [] => return
  | .declarator target .absent _ :: rest => do
    if let some fault := missingValue? kind target then reject fault t.site
    checkLoopVariables kind t rest
  | _ :: rest => checkLoopVariables kind t rest

/-- A loop whose first part is a declaration; the lookahead is its keyword. -/
def forVariables (p : Productions) (ctx : Context) (head : ForHead) : Parse Stmt := do
  let start ← here
  let v ← variableList p ctx.loopHead true
  let span ← finish .variableDeclaration start
  let declaration := v.declare none span
  let t ← look
  match t.isKeyword "in" || t.isWord "of", v.items with
  | true, [.declarator target value _] =>
    if value.toOption.isSome && !allowsLoopValue ctx v.kind target t then
      reject .loopInitializer start.site
    finishForEach p ctx head (.targetDeclaration declaration)
  | _, _ =>
    checkLoopVariables v.kind t v.items
    finishFor p ctx head (.present (.forDeclaration declaration))

/-- A loop whose first part is an expression or a pattern. -/
def forExpression (p : Productions) (ctx : Context) (head : ForHead) : Parse Stmt := do
  let first ← look
  let pendingBefore ← pending
  setPending none
  let value ← p.cover ctx.loopHead
  let t ← look
  if t.isKeyword "in" || (t.isWord "of" && !first.isWord "async") then
    let fault : Fault := if t.isKeyword "in" then .invalidForInTarget else .invalidForOfTarget
    let target ← assignmentTarget ctx value first fault
    setPending pendingBefore
    finishForEach p ctx head (.targetPattern target)
  else
    rejectPending
    setPending pendingBefore
    let init ← sequenceFrom p ctx.loopHead first.start value
    finishFor p ctx head (.present (.forExpr init))

/-- The word `await` behind `for`, if it is there. -/
def forAwait (ctx : Context) : Parse (Option String) := do
  let t ← look
  if !t.isWord "await" then return none
  if !ctx.allowsAwait then unexpected ctx t
  some <$> lead

/-- The three loops with `for`; the lookahead is that word. -/
def forLoop (p : Productions) (ctx : Context) : Parse Stmt := do
  let t ← next
  let awaitLead ← forAwait ctx
  let openLead ← expect ctx "("
  let head : ForHead := { start := t.start, lead := t.lead, awaitLead, openLead }
  let first ← look
  if first.isPunctuator ";" then finishFor p ctx head .absent
  else
    let isDeclaration ←
      if first.isKeyword "var" || first.isKeyword "const" then pure true
      else if first.isWord "let" then isLexicalDeclaration
      else pure false
    if isDeclaration then forVariables p ctx head else forExpression p ctx head

/-- A loop with the test in front; the lookahead is its keyword. -/
def whileLoop (p : Productions) (ctx : Context) : Parse Stmt := do
  let t ← next
  let (openLead, test, closeLead) ← inParentheses p ctx
  let body ← loopBody p ctx
  let span ← finish .whileStmt t.start
  return .whileStmt t.lead openLead test closeLead body span

/-- A loop with the test behind; the lookahead is its keyword. The semicolon behind it may be
missing even in front of other code on the same line. -/
def doWhileLoop (p : Productions) (ctx : Context) : Parse Stmt := do
  let t ← next
  let body ← loopBody p ctx
  let whileLead ← expectKeyword ctx "while"
  let (openLead, test, closeLead) ← inParentheses p ctx
  let ending ← if ← sees ";" then terminator ctx else pure .inserted
  let span ← finish .doWhileStmt t.start
  return .doWhileStmt t.lead body whileLead openLead test closeLead ending span

end Verbatim.Grammar
