import Verbatim.Proofs.Held.Expression

/-!
# Statements and modules of a parser that holds the context

The body of a loop and the clauses of a switch change one field, and a label is put on a stack for
the statement behind it.

## Main definitions

* `Verbatim.Held.statement`, `Verbatim.Held.item`, `Verbatim.Held.moduleItem` — statements.
* `Verbatim.Held.Productions.ofDepth` — the productions of a given depth.

## Main results

* `Verbatim.Held.Productions.follow_ofDepth` — they do what those with an argument do, and leave the
  context as it was.
-/

namespace Verbatim.Held

open Verbatim.Parse Verbatim.Grammar

variable {P : Productions} {p : Verbatim.Productions} {ctx : Context}

/-! ## Declarations -/

/-- The value of a variable, if it has one. -/
def variableValue (P : Productions) (inLoopHead : Bool) (kind : VariableKind) (target : Pattern) :
    Held (Tree (.maybe .initializer)) := do
  let t ← look
  if t.isPunctuator "=" then
    let eqLead ← lead
    return .present (.initializer eqLead (← P.assignment))
  if !inLoopHead then
    if let some fault := missingValue? kind target then reject fault t.site
  return .absent

/-- A single variable. -/
def declarator (P : Productions) (inLoopHead : Bool) (kind : VariableKind) :
    Held (Tree .declarator) := do
  let start ← here
  let target ← P.binding .strictVariableName
  if kind != .var && target.boundNames.any (·.name == "let") then tolerate .letBinding start.site
  let value ← variableValue P inLoopHead kind target
  let span ← finish .declarator start
  return .declarator target value span

/-- The parts of a declaration; the lookahead is its keyword. -/
def variableList (P : Productions) (inLoopHead : Bool) : Held Variables := do
  let t ← next
  let kind := variableKind t.raw
  let item := declarator P inLoopHead kind
  let first ← item
  let (rest, separators) ← afterCommas item P.rounds
  return { lead := t.lead, kind, items := first :: rest, separators }

/-- A declaration as a statement. -/
def variableStatement (P : Productions) : Held Stmt := do
  let start ← here
  let v ← variableList P false
  let ending ← terminator
  let span ← finish .variableDeclaration start
  return .declarationStmt (v.declare (some ending) span)

theorem variableValue_follows (hp : P.Follow p) (inLoopHead : Bool) (kind : VariableKind)
    (target : Pattern) :
    Follows (variableValue P inLoopHead kind target) ctx
      (Grammar.variableValue p ctx inLoopHead kind target) := by
  refine .bind .lift fun _ => .branch (.bind .lift fun _ => .bind (hp.assignment _) fun _ => .pure)
    (.branch ?_ .pure)
  cases missingValue? kind target with
  | none => exact .pure
  | some => exact .bind .lift fun _ => .pure

theorem declarator_follows (hp : P.Follow p) (inLoopHead : Bool) (kind : VariableKind) :
    Follows (declarator P inLoopHead kind) ctx (Grammar.declarator p ctx inLoopHead kind) :=
  .bind .lift fun _ => .bind (hp.binding _ _) fun _ => .check
    (.bind (variableValue_follows hp _ _ _) fun _ => .bind .lift fun _ => .pure) .lift

theorem variableList_follows (hp : P.Follow p) (inLoopHead : Bool) :
    Follows (variableList P inLoopHead) ctx (Grammar.variableList p ctx inLoopHead) :=
  .bind .lift fun _ => .bind (declarator_follows hp _ _) fun _ =>
    .bind (.afterCommas (declarator_follows hp _ _) hp.rounds) fun _ => .pure

theorem variableStatement_follows (hp : P.Follow p) :
    Follows (variableStatement P) ctx (Grammar.variableStatement p ctx) :=
  .bind .lift fun _ => .bind (variableList_follows hp _) fun _ => .bind .reading fun _ =>
    .bind .lift fun _ => .pure

/-! ## Loops -/

/-- An expression in parentheses that belong to a statement. -/
def inParentheses (P : Productions) : Held (String × Expr × String) := do
  let openLead ← expect "("
  let value ← allowingIn true P.expression
  let closeLead ← expect ")"
  return (openLead, value, closeLead)

/-- The body of a loop. -/
def loopBody (P : Productions) : Held Stmt := do
  let saved ← context
  change (·.withLoop true)
  let body ← P.statement
  change (·.withLoop saved.inLoop)
  return body

/-- An expression that may be missing in front of the given punctuator. -/
def optionalBefore (P : Productions) (close : String) : Held (Tree (.maybe .expr)) := do
  if ← sees close then return .absent else return .present (← allowingIn true P.expression)

/-- A loop with a start, a test and a step, behind its start. -/
def finishFor (P : Productions) (head : ForHead) (init : Tree (.maybe .forInit)) : Held Stmt := do
  if head.awaitLead.isSome then unexpectedHere
  let firstLead ← expect ";"
  let test ← optionalBefore P ";"
  let secondLead ← expect ";"
  let step ← optionalBefore P ")"
  let closeLead ← expect ")"
  let body ← loopBody P
  let span ← finish .forStmt head.start
  return .forStmt head.lead head.openLead init firstLead test secondLead step closeLead body span

/-- A loop over keys, behind its target. -/
def finishForIn (P : Productions) (head : ForHead) (left : Tree .forTarget) : Held Stmt := do
  if head.awaitLead.isSome then unexpectedHere
  let inLead ← lead
  let right ← allowingIn true P.expression
  let closeLead ← expect ")"
  let body ← loopBody P
  let span ← finish .forInStmt head.start
  return .forInStmt head.lead head.openLead left inLead right closeLead body span

/-- A loop over values, behind its target. -/
def finishForOf (P : Productions) (head : ForHead) (left : Tree .forTarget) : Held Stmt := do
  let ofLead ← expectWord "of"
  let right ← allowingIn true P.assignment
  let closeLead ← expect ")"
  let body ← loopBody P
  let span ← finish .forOfStmt head.start
  return .forOfStmt head.lead head.awaitLead head.openLead left ofLead right closeLead body span

/-- A loop over keys or values, behind its target. -/
def finishForEach (P : Productions) (head : ForHead) (left : Tree .forTarget) : Held Stmt := do
  if ← seesKeyword "in" then finishForIn P head left else finishForOf P head left

/-- A loop whose first part is a declaration; the lookahead is its keyword. -/
def forVariables (P : Productions) (head : ForHead) : Held Stmt := do
  let start ← here
  let v ← allowingIn false (variableList P true)
  let span ← finish .variableDeclaration start
  let declaration := v.declare none span
  let t ← look
  match t.isKeyword "in" || t.isWord "of", v.items with
  | true, [.declarator target value _] =>
    if value.toOption.isSome && !allowsLoopValue (← context) v.kind target t then
      reject .loopInitializer start.site
    finishForEach P head (.targetDeclaration declaration)
  | _, _ =>
    checkLoopVariables v.kind t v.items
    finishFor P head (.present (.forDeclaration declaration))

/-- A loop whose first part is an expression or a pattern. -/
def forExpression (P : Productions) (head : ForHead) : Held Stmt := do
  let first ← look
  let pendingBefore ← pending
  setPending none
  let value ← allowingIn false P.cover
  let t ← look
  if t.isKeyword "in" || (t.isWord "of" && !first.isWord "async") then
    let fault : Fault := if t.isKeyword "in" then .invalidForInTarget else .invalidForOfTarget
    let target ← reading (assignmentTarget · value first fault)
    setPending pendingBefore
    finishForEach P head (.targetPattern target)
  else
    rejectPending
    setPending pendingBefore
    let init ← allowingIn false (sequenceFrom P first.start value)
    finishFor P head (.present (.forExpr init))

/-- The three loops with `for`; the lookahead is that word. -/
def forLoop (P : Productions) : Held Stmt := do
  let t ← next
  let awaitLead ← reading forAwait
  let openLead ← expect "("
  let head : ForHead := { start := t.start, lead := t.lead, awaitLead, openLead }
  let first ← look
  if first.isPunctuator ";" then finishFor P head .absent
  else
    let isDeclaration ←
      if first.isKeyword "var" || first.isKeyword "const" then pure true
      else if first.isWord "let" then isLexicalDeclaration
      else pure false
    if isDeclaration then forVariables P head else forExpression P head

/-- A loop with the test in front; the lookahead is its keyword. -/
def whileLoop (P : Productions) : Held Stmt := do
  let t ← next
  let (openLead, test, closeLead) ← inParentheses P
  let body ← loopBody P
  let span ← finish .whileStmt t.start
  return .whileStmt t.lead openLead test closeLead body span

/-- A loop with the test behind; the lookahead is its keyword. -/
def doWhileLoop (P : Productions) : Held Stmt := do
  let t ← next
  let body ← loopBody P
  let whileLead ← expectKeyword "while"
  let (openLead, test, closeLead) ← inParentheses P
  let ending ← if ← sees ";" then terminator else pure .inserted
  let span ← finish .doWhileStmt t.start
  return .doWhileStmt t.lead body whileLead openLead test closeLead ending span

theorem inParentheses_follows (hp : P.Follow p) :
    Follows (inParentheses P) ctx (Grammar.inParentheses p ctx) :=
  .bind .reading fun _ => .bind (.inside (hp.expression _)) fun _ => .bind .reading fun _ => .pure

theorem loopBody_follows (hp : P.Follow p) :
    Follows (loopBody P) ctx (Grammar.loopBody p ctx) :=
  Does.read (.change ((hp.statement ctx.loopBody).restoring rfl))

theorem optionalBefore_follows (hp : P.Follow p) (close : String) :
    Follows (optionalBefore P close) ctx (Grammar.optionalBefore p ctx close) :=
  .bind .lift fun _ => .branch .pure (.bind (.inside (hp.expression _)) fun _ => .pure)

theorem finishFor_follows (hp : P.Follow p) (head : ForHead) (init : Tree (.maybe .forInit)) :
    Follows (finishFor P head init) ctx (Grammar.finishFor p ctx head init) := by
  unfold finishFor Grammar.finishFor
  refine .check ?_ .reading
  exact .bind .reading fun _ => .bind (optionalBefore_follows hp _) fun _ => .bind .reading fun _ =>
    .bind (optionalBefore_follows hp _) fun _ => .bind .reading fun _ =>
      .bind (loopBody_follows hp) fun _ => .bind .lift fun _ => .pure

theorem finishForEach_follows (hp : P.Follow p) (head : ForHead) (left : Tree .forTarget) :
    Follows (finishForEach P head left) ctx (Grammar.finishForEach p ctx head left) := by
  refine .bind .lift fun _ => .branch ?_ ?_
  · unfold finishForIn Grammar.finishForIn
    refine .check ?_ .reading
    exact .bind .lift fun _ => .bind (.inside (hp.expression _)) fun _ => .bind .reading fun _ =>
      .bind (loopBody_follows hp) fun _ => .bind .lift fun _ => .pure
  · exact .bind .reading fun _ => .bind (.inside (hp.assignment _)) fun _ => .bind .reading fun _ =>
      .bind (loopBody_follows hp) fun _ => .bind .lift fun _ => .pure

/-- The variables of a loop are read without `in`, which is allowed again behind them. -/
theorem forVariables_follows (hp : P.Follow p) (head : ForHead) :
    Follows (forVariables P head) ctx (Grammar.forVariables p ctx head) := by
  refine .bind .lift fun start => .bind (.loopHead (variableList_follows hp _)) fun v =>
    .bind .lift fun span => .bind .lift fun t => ?_
  have counting : Follows (do
        checkLoopVariables v.kind t v.items
        finishFor P head (.present (.forDeclaration (v.declare none span)))) ctx (do
      checkLoopVariables v.kind t v.items
      Grammar.finishFor p ctx head (.present (.forDeclaration (v.declare none span)))) :=
    .bind .lift fun _ => finishFor_follows hp _ _
  obtain ⟨lead, kind, items, separators⟩ := v
  generalize (t.isKeyword "in" || t.isWord "of") = each
  match each, items with
  | true, [.declarator _ _ _] =>
    exact .read (.check (finishForEach_follows hp _ _) .lift)
  | true, [] | true, .declarator _ _ _ :: _ :: _ | false, _ => exact counting

theorem forExpression_follows (hp : P.Follow p) (head : ForHead) :
    Follows (forExpression P head) ctx (Grammar.forExpression p ctx head) := by
  refine .bind .lift fun _ => .bind .lift fun _ => .bind .lift fun _ =>
    .bind (.loopHead (hp.cover _)) fun _ => .bind .lift fun _ => .branch ?_ ?_
  · exact .bind .reading fun _ => .bind .lift fun _ => finishForEach_follows hp _ _
  · exact .bind .lift fun _ => .bind .lift fun _ => .bind (.loopHead (sequenceFrom_follows hp _ _))
      fun _ => finishFor_follows hp _ _

theorem forLoop_follows (hp : P.Follow p) : Follows (forLoop P) ctx (Grammar.forLoop p ctx) := by
  refine .bind .lift fun _ => .bind .reading fun _ => .bind .reading fun _ => .bind .lift fun _ =>
    .branch (finishFor_follows hp _ _) (.branch (.bind .pure ?_) (.branch (.bind .lift ?_)
      (.bind .pure ?_)))
  all_goals exact fun _ => .branch (forVariables_follows hp _) (forExpression_follows hp _)

theorem whileLoop_follows (hp : P.Follow p) : Follows (whileLoop P) ctx (Grammar.whileLoop p ctx) :=
  .bind .lift fun _ => .bind (inParentheses_follows hp) fun _ =>
    .bind (loopBody_follows hp) fun _ =>
    .bind .lift fun _ => .pure

theorem doWhileLoop_follows (hp : P.Follow p) :
    Follows (doWhileLoop P) ctx (Grammar.doWhileLoop p ctx) :=
  .bind .lift fun _ => .bind (loopBody_follows hp) fun _ => .bind .reading fun _ =>
    .bind (inParentheses_follows hp) fun _ => .bind .lift fun _ =>
      .choice (fun _ => .bind .lift fun _ => .pure) .reading .pure

/-! ## Blocks and branches -/

/-- Statements in braces. -/
def block (P : Productions) : Held (Tree .block) := do
  let start ← here
  let openLead ← expect "\x7b"
  let stmts ← items P
  let closeLead ← expect "\x7d"
  let span ← finish .block start
  return .block openLead (.ofList stmts) closeLead span

/-- The alternative of a branch, if there is one. -/
def elseClause (P : Productions) : Held (Tree (.maybe .elseClause)) := do
  if ← seesKeyword "else" then
    let elseLead ← lead
    return .present (.elseClause elseLead (← P.statement))
  return .absent

/-- A branch. -/
def ifStatement (P : Productions) : Held Stmt := do
  let t ← next
  let (openLead, test, closeLead) ← inParentheses P
  let consequent ← P.statement
  let alternate ← elseClause P
  let span ← finish .ifStmt t.start
  return .ifStmt t.lead openLead test closeLead consequent alternate span

/-- A statement that sees the properties of an object as variables. -/
def withStatement (P : Productions) : Held Stmt := do
  let t ← next
  if (← context).strict then tolerate .strictWith t.site
  let (openLead, subject, closeLead) ← inParentheses P
  let body ← P.statement
  let span ← finish .withStmt t.start
  return .withStmt t.lead openLead subject closeLead body span

/-- A function declaration where a statement is expected. -/
def nestedFunction (P : Productions) : Held Stmt := do
  if (← context).strict then tolerate .strictNestedFunction (← look).site
  functionDeclaration P

/-- The end of a function. -/
def returnStatement (P : Productions) : Held Stmt := do
  let t ← next
  if !(← context).inFunction then tolerate .illegalReturn t.site
  let value : Tree (.maybe .expr) ←
    if endsStatement (← look) then pure .absent else .present <$> P.expression
  let ending ← terminator
  let span ← finish .returnStmt t.start
  return .returnStmt t.lead value ending span

/-- The raising of an exception. -/
def throwStatement (P : Productions) : Held Stmt := do
  let t ← next
  let first ← look
  if first.newlineBefore then reject .newlineAfterThrow first.site
  let value ← P.expression
  let ending ← terminator
  let span ← finish .throwStmt t.start
  return .throwStmt t.lead value ending span

/-- The target of an exception, in parentheses, if there is one. -/
def catchParameter (P : Productions) : Held (Tree (.maybe .catchParam)) := do
  match ← accept "(" with
  | none => return .absent
  | some openLead =>
    let site := (← look).site
    let target ← P.binding .strictCatchVariable
    if repeatsName target.boundNames then reject .repeatedParameter site
    let closeLead ← expect ")"
    return .present (.catchParam openLead target closeLead)

/-- A handler, if there is one. -/
def catchClause (P : Productions) : Held (Tree (.maybe .catchClause)) := do
  let t ← look
  if !t.isKeyword "catch" then return .absent
  let catchLead ← lead
  let param ← catchParameter P
  let body ← block P
  let span ← finish .catchClause t.start
  return .present (.catchClause catchLead param body span)

/-- A finalizer, if there is one. -/
def finallyClause (P : Productions) : Held (Tree (.maybe .finallyClause)) := do
  if ← seesKeyword "finally" then
    let finallyLead ← lead
    return .present (.finallyClause finallyLead (← block P))
  return .absent

/-- A block with a handler, a finalizer or both. -/
def tryStatement (P : Productions) : Held Stmt := do
  let t ← next
  let guarded ← block P
  let handler ← catchClause P
  let finalizer ← finallyClause P
  if handler.toOption.isNone && finalizer.toOption.isNone then reject .missingHandler t.site
  let span ← finish .tryStmt t.start
  return .tryStmt t.lead guarded handler finalizer span

theorem block_follows (hp : P.Follow p) : Follows (block P) ctx (Grammar.block p ctx) :=
  .bind .lift fun _ => .bind .reading fun _ => .bind (items_follows hp) fun _ =>
    .bind .reading fun _ => .bind .lift fun _ => .pure

theorem elseClause_follows (hp : P.Follow p) :
    Follows (elseClause P) ctx (Grammar.elseClause p ctx) :=
  .bind .lift fun _ => .branch (.bind .lift fun _ => .bind (hp.statement _) fun _ => .pure) .pure

theorem ifStatement_follows (hp : P.Follow p) :
    Follows (ifStatement P) ctx (Grammar.ifStatement p ctx) :=
  .bind .lift fun _ => .bind (inParentheses_follows hp) fun _ => .bind (hp.statement _) fun _ =>
    .bind (elseClause_follows hp) fun _ => .bind .lift fun _ => .pure

theorem withStatement_follows (hp : P.Follow p) :
    Follows (withStatement P) ctx (Grammar.withStatement p ctx) := by
  refine .bind .lift fun _ => .read (.check ?_ .lift)
  exact .bind (inParentheses_follows hp) fun _ => .bind (hp.statement _) fun _ =>
    .bind .lift fun _ => .pure

theorem nestedFunction_follows (hp : P.Follow p) :
    Follows (nestedFunction P) ctx (Grammar.nestedFunction p ctx) :=
  .read (.branch (.bind .lift fun _ => .bind .lift fun _ => functionDeclaration_follows hp)
    (functionDeclaration_follows hp))

theorem returnStatement_follows (hp : P.Follow p) :
    Follows (returnStatement P) ctx (Grammar.returnStatement p ctx) := by
  refine .bind .lift fun _ => .read (.check ?_ .lift)
  exact .bind .lift fun _ => .choice (fun _ => .bind .reading fun _ => .bind .lift fun _ => .pure)
    .pure (.map (hp.expression _))

theorem throwStatement_follows (hp : P.Follow p) :
    Follows (throwStatement P) ctx (Grammar.throwStatement p ctx) :=
  .bind .lift fun _ => .bind .lift fun _ => .check (.bind (hp.expression _) fun _ =>
    .bind .reading fun _ => .bind .lift fun _ => .pure) .lift

theorem catchParameter_follows (hp : P.Follow p) :
    Follows (catchParameter P) ctx (Grammar.catchParameter p ctx) := by
  refine .bind .lift fun openLead => ?_
  cases openLead with
  | none => exact .pure
  | some =>
    exact .bind .lift fun _ => .bind (hp.binding _ _) fun _ => .check
      (.bind .reading fun _ => .pure) .lift

theorem catchClause_follows (hp : P.Follow p) :
    Follows (catchClause P) ctx (Grammar.catchClause p ctx) :=
  .bind .lift fun _ => .branch .pure (.bind .lift fun _ =>
    .bind (catchParameter_follows hp) fun _ =>
    .bind (block_follows hp) fun _ => .bind .lift fun _ => .pure)

theorem finallyClause_follows (hp : P.Follow p) :
    Follows (finallyClause P) ctx (Grammar.finallyClause p ctx) :=
  .bind .lift fun _ => .branch (.bind .lift fun _ => .bind (block_follows hp) fun _ => .pure) .pure

theorem tryStatement_follows (hp : P.Follow p) :
    Follows (tryStatement P) ctx (Grammar.tryStatement p ctx) :=
  .bind .lift fun _ => .bind (block_follows hp) fun _ => .bind (catchClause_follows hp) fun _ =>
    .bind (finallyClause_follows hp) fun _ => .check (.bind .lift fun _ => .pure) .lift

/-! ## Switches and labels -/

/-- The word that begins a clause of a switch, with the test of a `case`. -/
def clauseHead (P : Productions) (hasDefault : Bool) : Held (String × Tree (.maybe .expr)) := do
  let t ← look
  if t.isKeyword "case" then
    let caseLead ← lead
    return (caseLead, .present (← allowingIn true P.expression))
  if hasDefault then reject .repeatedDefault t.site
  return (← expectKeyword "default", .absent)

/-- The clauses of a switch up to its closing brace. -/
def switchCases (P : Productions) (hasDefault : Bool) : Nat → Held (List (Tree .switchCase))
  | 0 => stalled
  | rounds + 1 => do
    if ← sees "\x7d" then return []
    let start ← here
    let (clauseLead, test) ← clauseHead P hasDefault
    let colonLead ← expect ":"
    let body ← many endsClause P.item P.rounds
    let span ← finish .switchCase start
    let rest ← switchCases P (hasDefault || test.toOption.isNone) rounds
    return .switchCase clauseLead test colonLead (.ofList body) span :: rest

/-- A choice between clauses. -/
def switchStatement (P : Productions) : Held Stmt := do
  let t ← next
  let (openLead, subject, closeLead) ← inParentheses P
  let openBraceLead ← expect "\x7b"
  let saved ← context
  change (·.withSwitch true)
  let cases ← switchCases P false P.rounds
  change (·.withSwitch saved.inSwitch)
  let closeBraceLead ← expect "\x7d"
  let span ← finish .switchStmt t.start
  return .switchStmt t.lead openLead subject closeLead openBraceLead (.ofList cases)
    closeBraceLead span

/-- A statement behind its label; the lookahead is the colon. -/
def labelledStatement (P : Productions) (start : Position) (label : Ident) : Held Stmt := do
  if (← context).labels.contains label.name then reject (.repeatedLabel label.name) start.site
  let colonLead ← lead
  change (·.pushLabel label.name)
  let body ← P.statement
  change (·.popLabel)
  let span ← finish .labeledStmt start
  return .labeledStmt label colonLead body span

/-- An expression as a statement, or a statement with a label. -/
def expressionStatement (P : Productions) : Held Stmt := do
  let first ← look
  let value ← expression P
  match labelOf? first (← look) value with
  | some label => labelledStatement P first.start label
  | none =>
    let ending ← terminator
    let span ← finish .exprStmt first.start
    return .exprStmt value none ending span

theorem clauseHead_follows (hp : P.Follow p) (hasDefault : Bool) :
    Follows (clauseHead P hasDefault) ctx (Grammar.clauseHead p ctx hasDefault) :=
  .bind .lift fun _ => .branch
    (.bind .lift fun _ => .bind (.inside (hp.expression _)) fun _ => .pure)
    (.check (.bind .reading fun _ => .pure) .lift)

theorem switchCases_follows (hp : P.Follow p) {hasDefault : Bool} {rounds rounds' : Nat}
    (hr : rounds = rounds') :
    Follows (switchCases P hasDefault rounds) ctx
      (Grammar.switchCases p ctx hasDefault rounds') := by
  subst hr
  induction rounds generalizing hasDefault with
  | zero => exact .lift
  | succ rounds ih =>
    exact .bind .lift fun _ => .branch .pure (.bind .lift fun _ => .bind (clauseHead_follows hp _)
      fun _ => .bind .reading fun _ => .bind (.many (hp.item _) hp.rounds) fun _ =>
        .bind .lift fun _ => .bind ih fun _ => .pure)

theorem switchStatement_follows (hp : P.Follow p) :
    Follows (switchStatement P) ctx (Grammar.switchStatement p ctx) := by
  refine .bind .lift fun _ => .bind (inParentheses_follows hp) fun _ => .bind .reading fun _ =>
    .read (.change ?_)
  refine Follows.thenDoes (switchCases_follows hp hp.rounds) fun _ => .change ?_
  exact Follows.bind .reading fun _ => .bind .lift fun _ => .pure

theorem labelledStatement_follows (hp : P.Follow p) (start : Position) (label : Ident) :
    Follows (labelledStatement P start label) ctx
      (Grammar.labelledStatement p ctx start label) := by
  unfold labelledStatement Grammar.labelledStatement
  refine .read (.check ?_ .lift)
  refine Follows.lift.thenDoes fun _ => .change ?_
  refine Follows.thenDoes (hp.statement (ctx.labelled label.name)) fun _ => .change ?_
  exact Follows.lift.thenDoes fun _ => .pure ⟨rfl, rfl⟩

theorem expressionStatement_follows (hp : P.Follow p) :
    Follows (expressionStatement P) ctx (Grammar.expressionStatement p ctx) := by
  refine .bind .lift fun first => .bind (expression_follows hp) fun value => .bind .lift fun t => ?_
  cases labelOf? first t value with
  | some => exact labelledStatement_follows hp _ _
  | none => exact .bind .reading fun _ => .bind .lift fun _ => .pure

/-! ## Statements and declarations -/

/-- A statement that may begin with a reserved word. -/
def keywordStatement (P : Productions) (word : String) : Held Stmt :=
  match word with
  | "break" => reading breakStatement
  | "continue" => reading continueStatement
  | "debugger" => reading debuggerStatement
  | "do" => doWhileLoop P
  | "for" => forLoop P
  | "function" => nestedFunction P
  | "if" => ifStatement P
  | "return" => returnStatement P
  | "switch" => switchStatement P
  | "throw" => throwStatement P
  | "try" => tryStatement P
  | "var" => variableStatement P
  | "while" => whileLoop P
  | "with" => withStatement P
  | _ => expressionStatement P

/-- A statement. -/
def statement (P : Productions) : Held Stmt := do
  let t ← look
  if t.isPunctuator "\x7b" then .blockStmt <$> block P
  else if t.isPunctuator ";" then emptyStatement
  else if t.kind = .keyword then keywordStatement P t.raw
  else expressionStatement P

/-- A statement or declaration that begins with a reserved word. -/
def keywordItem (P : Productions) (t : Token) : Held Stmt := do
  match t.raw with
  | "function" => functionDeclaration P
  | "class" => .classStmt <$> classDefinition P true true
  | "const" => variableStatement P
  | "import" => if ← isImportExpression then statement P else reject .misplacedImport t.site
  | "export" => reject .misplacedExport t.site
  | _ => statement P

/-- A statement or declaration. -/
def item (P : Productions) : Held Stmt := do
  let t ← look
  if t.kind = .keyword then keywordItem P t
  else if t.isWord "let" then
    if ← isLexicalDeclaration then variableStatement P else statement P
  else if t.isWord "async" then
    if ← isAsyncFunction then functionDeclaration P else statement P
  else statement P

/-- Statements that start with a reserved word follow the faithful productions. -/
theorem keywordStatement_follows (hp : P.Follow p) (word : String) :
    Follows (keywordStatement P word) ctx (Grammar.keywordStatement p ctx word) := by
  unfold Grammar.keywordStatement
  split
  case h_1 => exact .reading
  case h_2 => exact .reading
  case h_3 => exact .reading
  case h_4 => exact doWhileLoop_follows hp
  case h_5 => exact forLoop_follows hp
  case h_6 => exact nestedFunction_follows hp
  case h_7 => exact ifStatement_follows hp
  case h_8 => exact returnStatement_follows hp
  case h_9 => exact switchStatement_follows hp
  case h_10 => exact throwStatement_follows hp
  case h_11 => exact tryStatement_follows hp
  case h_12 => exact variableStatement_follows hp
  case h_13 => exact whileLoop_follows hp
  case h_14 => exact withStatement_follows hp
  case h_15 =>
    unfold keywordStatement
    split
    case h_15 => exact expressionStatement_follows hp
    all_goals contradiction

theorem statement_follows (hp : P.Follow p) : Follows (statement P) ctx (Grammar.statement p ctx) :=
  .bind .lift fun _ => .branch (.map (block_follows hp)) (.branch .lift
    (.branch (keywordStatement_follows hp _) (expressionStatement_follows hp)))

/-- Declarations that start with a reserved word follow the faithful productions. -/
theorem keywordItem_follows (hp : P.Follow p) (t : Token) :
    Follows (keywordItem P t) ctx (Grammar.keywordItem p ctx t) := by
  unfold Grammar.keywordItem
  split
  case h_1 h => simpa only [keywordItem, h] using functionDeclaration_follows hp
  case h_2 h => simpa only [keywordItem, h] using .map (classDefinition_follows hp _ _)
  case h_3 h => simpa only [keywordItem, h] using variableStatement_follows hp
  case h_4 h =>
    simp only [keywordItem, h]
    exact .bind .lift fun _ => .branch (statement_follows hp) .lift
  case h_5 h =>
    simp only [keywordItem, h]
    exact .lift
  case h_6 =>
    unfold keywordItem
    split
    case h_6 => exact statement_follows hp
    all_goals contradiction

theorem item_follows (hp : P.Follow p) : Follows (item P) ctx (Grammar.item p ctx) := by
  refine .bind .lift fun _ => .branch (keywordItem_follows hp _) (.branch ?_ (.branch ?_
    (statement_follows hp)))
  · exact .bind .lift fun _ => .branch (variableStatement_follows hp) (statement_follows hp)
  · exact .bind .lift fun _ => .branch (functionDeclaration_follows hp) (statement_follows hp)

/-! ## Modules -/

/-- What a module exports by default. -/
def exportValue (P : Productions) : Held (Tree .exportValue) := do
  let t ← look
  let isFunction ←
    if t.isKeyword "function" then pure true
    else if t.isWord "async" then isAsyncFunction
    else pure false
  if isFunction then .exportFunction <$> function P true true
  else if t.isKeyword "class" then .exportClass <$> classDefinition P true false
  else
    let value ← P.assignment
    let ending ← terminator
    return .exportExpr value ending

/-- The default export; the lookahead is `default`. -/
def exportDefault (P : Productions) (t : Token) : Held Stmt := do
  let defaultLead ← lead
  let value ← exportValue P
  let span ← finish .exportDefault t.start
  return .exportDefault t.lead defaultLead value span

/-- The export of a declaration. -/
def exportedDeclaration (P : Productions) (t : Token) : Held Stmt := do
  if !(← seesDeclaration) then unexpectedHere
  let declaration ← P.item
  let span ← finish .exportNamed t.start
  return .exportNamed t.lead (.present declaration) none none none span

/-- An export declaration; the lookahead is its keyword. -/
def exportDeclaration (P : Productions) : Held Stmt := do
  let t ← next
  if ← seesKeyword "default" then exportDefault P t
  else if ← sees "*" then reading (exportAll · t)
  else if ← sees "\x7b" then reading (exportNames · P.rounds t)
  else exportedDeclaration P t

/-- What stands at the top of a module. -/
def moduleItem (P : Productions) : Held Stmt := do
  let t ← look
  if t.isKeyword "import" then
    if ← isImportExpression then P.item else reading (importDeclaration · P.rounds)
  else if t.isKeyword "export" then exportDeclaration P
  else P.item

theorem exportValue_follows (hp : P.Follow p) :
    Follows (exportValue P) ctx (Grammar.exportValue p ctx) := by
  refine .bind .lift fun _ => .branch (.bind .pure ?_) (.branch (.bind .lift ?_) (.bind .pure ?_))
  all_goals
    exact fun _ => .branch (.map (function_follows hp _ _))
      (.branch (.map (classDefinition_follows hp _ _))
        (.bind (hp.assignment _) fun _ => .bind .reading fun _ => .pure))

theorem exportedDeclaration_follows (hp : P.Follow p) (t : Token) :
    Follows (exportedDeclaration P t) ctx (Grammar.exportedDeclaration p ctx t) :=
  .bind .lift fun _ => .check (.bind (hp.item _) fun _ => .bind .lift fun _ => .pure) .reading

theorem exportDeclaration_follows (hp : P.Follow p) :
    Follows (exportDeclaration P) ctx (Grammar.exportDeclaration p ctx) := by
  have names : ∀ t : Token, Follows (reading (exportNames · P.rounds t)) ctx
      (exportNames ctx p.rounds t) := by
    intro t
    rw [hp.rounds]
    exact .reading
  refine .bind .lift fun t => .bind .lift fun _ => .branch ?_ (.bind .lift fun _ =>
    .branch .reading (.bind .lift fun _ => .branch (names t) (exportedDeclaration_follows hp t)))
  exact .bind .lift fun _ => .bind (exportValue_follows hp) fun _ => .bind .lift fun _ => .pure

theorem moduleItem_follows (hp : P.Follow p) :
    Follows (moduleItem P) ctx (Grammar.moduleItem p ctx) := by
  have imports : Follows (reading (importDeclaration · P.rounds)) ctx
      (importDeclaration ctx p.rounds) := by
    rw [hp.rounds]
    exact .reading
  exact .bind .lift fun _ => .branch (.bind .lift fun _ => .branch (hp.item _) imports)
    (.branch (exportDeclaration_follows hp) (hp.item _))

/-! ## The language -/

namespace Productions

/-- The productions that call the given ones on the parts behind their first token. -/
def deepen (P : Productions) : Productions where
  rounds := P.rounds + 1
  expression := Held.expression P
  assignment := Held.assignment P
  cover := Held.cover P
  binary := Held.binary P
  exponentiation := Held.exponentiation P
  unary := Held.unary P
  chain := Held.chain P
  callee := Held.callee P
  binding := Held.binding P
  statement := Held.statement P
  item := Held.item P
  markup := Held.markup P

/-- The productions of a given depth. -/
def ofDepth : Nat → Productions
  | 0 => .exhausted
  | depth + 1 => (ofDepth depth).deepen

/-- The productions of every depth do what those with an argument do, and leave the context as it
was. -/
theorem follow_ofDepth (depth : Nat) : (ofDepth depth).Follow (.ofDepth depth) := by
  induction depth with
  | zero => constructor <;> intros <;> first | rfl | exact Follows.lift
  | succ depth ih =>
    exact {
      rounds := congrArg (· + 1) ih.rounds
      expression := fun _ => expression_follows ih
      assignment := fun _ => assignment_follows ih
      cover := fun _ => cover_follows ih
      binary := fun _ _ => binary_follows ih _
      exponentiation := fun _ => exponentiation_follows ih
      unary := fun _ => unary_follows ih
      chain := fun _ => chain_follows ih
      callee := fun _ => callee_follows ih
      binding := fun _ _ => binding_follows ih _
      statement := fun _ => statement_follows ih
      item := fun _ => item_follows ih
      markup := fun _ _ _ _ => markup_follows ih _ _ _ }

end Productions

end Verbatim.Held
