import Verbatim.Grammar.Binding

/-!
# Functions

Functions, methods and accessors: parameters, the directives in front of a body, and the body. A
directive may make the code strict, which then also holds of the name and the parameters in front
of it.

## Main definitions

* `Verbatim.Grammar.prologue` — the directives in front of a body or source.
* `Verbatim.Grammar.functionBody` — bodies of functions.
* `Verbatim.Grammar.function` — functions with the word `function`.
* `Verbatim.Grammar.methodFunction` — the functions of methods and accessors.
-/

namespace Verbatim.Grammar

open Verbatim.Parse Verbatim.Text

/-! ## Directives -/

/-- Whether an expression is the literal that the given token spells. -/
def isLiteralOf (t : Token) : Expr → Bool
  | .literal lit => lit.raw == t.raw
  | _ => false

/-- The text of a string token between its quotes. -/
def directiveText (t : Token) : String :=
  let inner := t.raw.toList.drop 1
  String.ofList (inner.take (inner.length - 1))

/-- The string statements in front of a body or source, together with whether the code behind them
is strict. The first statement that is no directive ends the prologue. `octal` is the first
directive with an octal escape so far, which is a fault once the code is found to be strict. -/
def prologueFrom (p : Productions) (ctx : Context) (octal : Option Token) :
    Nat → Parse (List Stmt × Bool)
  | 0 => stalled
  | rounds + 1 => do
    let t ← look
    if !t.isString then return ([], ctx.strict)
    let value ← p.expression ctx
    let ending ← terminator ctx
    if !isLiteralOf t value then
      let span ← finish .exprStmt t.start
      return ([.exprStmt value none ending span], ctx.strict)
    let text := directiveText t
    let isStrict := text == "use strict"
    if isStrict then
      if let some first := octal then tolerate .strictOctal first.site
    let span ← finish .directive t.start
    let octal := if isStrict then none else if t.octal then octal.or (some t) else octal
    let (stmts, strict) ←
      prologueFrom p { ctx with strict := ctx.strict || isStrict } octal rounds
    return (.exprStmt value (some text) ending span :: stmts, strict)

/-- The string statements in front of a body or source, together with whether the code behind them
is strict. -/
def prologue (p : Productions) (ctx : Context) : Parse (List Stmt × Bool) :=
  prologueFrom p ctx none p.rounds

/-! ## Bodies -/

/-- Whether a token ends the statements in braces. -/
def endsBlock (t : Token) : Bool := t.isPunctuator "\x7d" || t.isEof

/-- Statements up to a closing brace. -/
def items (p : Productions) (ctx : Context) : Parse (List Stmt) :=
  many endsBlock (p.item ctx) p.rounds

/-- The body of a function, together with whether its code is strict. -/
def functionBody (p : Productions) (ctx : Context) : Parse (Tree .body × Bool) := do
  let start ← here
  let openLead ← expect ctx "\x7b"
  let (directives, strict) ← prologue p ctx
  let ctx := { ctx with strict }
  let rest ← items p ctx
  let closeLead ← expect ctx "\x7d"
  let span ← finish .block start
  return (.bodyBlock openLead (.ofList (directives ++ rest)) closeLead span, strict)

/-- Whether the prologue of a body has the directive that makes code strict. -/
def hasUseStrict : Tree .body → Bool
  | .bodyBlock _ stmts _ _ => stmts.toList.any (·.isUseStrict)

/-! ## Parameters -/

/-- One parameter. -/
def parameterRound (p : Productions) (ctx : Context) : Parse (Round Pattern) := do
  if ← sees "..." then
    return .last (← bindingRest p .strictParameterName ctx ")" .parameterAfterRest)
  return .item (← bindingElement p .strictParameterName ctx)

/-- The parameters in parentheses. -/
def parameterList (p : Productions) (ctx : Context) : Parse (Tree .params) := do
  let openLead ← expect ctx "("
  let (params, separators) ← listed ctx ")" (parameterRound p ctx) p.rounds
  let closeLead ← expect ctx ")"
  return .paramList openLead (.ofList params) separators closeLead

/-- Checks the name of a function whose body made its code strict. -/
def checkFunctionName (site : Site) : Option Ident → Parse Unit
  | none => return
  | some id => do
    if isRestricted id.name then tolerate .strictFunctionName site
    else if isStrictReserved id.name then tolerate .strictReservedWord site

/-- The parameters and the body of a function. `site` is where faults of its name and parameters
are reported. -/
def paramsAndBody (p : Productions) (ctx : Context) (isAsync isGenerator : Bool)
    (name : Option Ident) (site : Site) (unique : Bool) : Parse (Tree .params × Tree .body) := do
  let inner := ctx.callable isAsync isGenerator
  let pendingBefore ← pending
  setPending none
  let params ← parameterList p { inner with inParameters := true }
  let (body, strict) ← functionBody p inner
  if hasUseStrict body && !params.isSimple then reject .illegalUseStrict site
  if strict && !ctx.strict then checkFunctionName site name
  checkParameters strict (unique || !params.isSimple) site params.parameters
  setPending pendingBefore
  return (params, body)

/-! ## Functions -/

/-- The context in which the name of a function is read: that of the function around it for a
declaration, and that of its own body for an expression. -/
def nameContext (ctx : Context) (isDeclaration isAsync isGenerator : Bool) : Context :=
  if isDeclaration then ctx else { ctx with allowsYield := isGenerator, allowsAwait := isAsync }

/-- The name of a function, which a declaration must have unless `nameOptional`. -/
def functionName (ctx : Context) (isDeclaration nameOptional isAsync isGenerator : Bool) :
    Parse (Option Ident) := do
  if (← look).isName then
    return some (← bindingName .strictFunctionName
      (nameContext ctx isDeclaration isAsync isGenerator))
  if isDeclaration && !nameOptional then unexpectedHere ctx
  return none

/-- A function declaration or expression. -/
def function (p : Productions) (ctx : Context) (isDeclaration nameOptional : Bool) :
    Parse (Tree .function) := do
  let start ← here
  let asyncLead ← if ← seesWord "async" then some <$> lead else pure none
  let keywordLead ← expectKeyword ctx "function"
  let starLead ← accept "*"
  let nameSite := (← look).site
  let isAsync := asyncLead.isSome
  let isGenerator := starLead.isSome
  let name ← functionName ctx isDeclaration nameOptional isAsync isGenerator
  let (params, body) ← paramsAndBody p ctx isAsync isGenerator name nameSite false
  let span ← finish (if isDeclaration then .functionDecl else .functionExpr) start
  let head : FunctionHead :=
    { isAsync, asyncLead := asyncLead.getD "", keywordLead, isGenerator
      starLead := starLead.getD "", name }
  return .function head params body span

/-- A function declaration, which must have a name. -/
def functionDeclaration (p : Productions) (ctx : Context) : Parse Stmt :=
  .functionStmt <$> function p ctx true false

/-- A function expression. -/
def functionExpression (p : Productions) (ctx : Context) : Parse Expr :=
  .functionExpr <$> function p ctx false true

/-- Checks the number of parameters of an accessor. -/
def checkAccessor (kind : PropertyKind) (site : Site) (params : List Pattern) : Parse Unit :=
  match kind, params with
  | .getter, _ :: _ => tolerate .getterParameters site
  | .setter, [.restPattern ..] => tolerate .setterRest site
  | .setter, [_] => return
  | .setter, _ => tolerate .setterParameters site
  | _, _ => return

/-- The parameters and body of a method or accessor; its key and modifiers stand in front. -/
def methodFunction (p : Productions) (ctx : Context) (isAsync isGenerator : Bool)
    (kind : PropertyKind) : Parse (Tree .function) := do
  let start ← here
  let (params, body) ← paramsAndBody p ctx isAsync isGenerator none start.site true
  checkAccessor kind start.site params.parameters
  let span ← finish .functionExpr start
  return .function { isAsync, isGenerator } params body span

end Verbatim.Grammar
