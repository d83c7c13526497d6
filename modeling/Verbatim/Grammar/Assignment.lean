import Verbatim.Grammar.Operation

/-!
# Assignments, arrow functions and sequences

What follows an expression tells what it was: an arrow makes it a parameter list, and an equals
sign makes an array or object literal a pattern. Until then a shorthand property with a default,
which only a pattern may have, stays pending.

## Main definitions

* `Verbatim.Grammar.arrow` — arrow functions, in front of the arrow.
* `Verbatim.Grammar.cover` — expressions that may turn out to be patterns.
* `Verbatim.Grammar.assignment` — expressions that do not.
* `Verbatim.Grammar.expression` — expressions with commas.
-/

namespace Verbatim.Grammar

open Verbatim.Parse Verbatim.Text

/-! ## Arrow functions -/

/-- The body of an arrow function, together with whether its code is strict. -/
def arrowBody (p : Productions) (ctx : Context) : Parse (Tree .arrowBody × Bool) := do
  if ← sees "\x7b" then
    let (body, strict) ← functionBody p ctx
    return (.blockBody body, strict)
  return (.exprBody (← p.assignment ctx), ctx.strict)

/-- Whether the body of an arrow function has the directive that makes code strict. -/
def arrowHasUseStrict : Tree .arrowBody → Bool
  | .blockBody body => hasUseStrict body
  | .exprBody _ => false

/-- The parameters of an arrow function as patterns. -/
def arrowPatterns : Tree .arrowParams → List Pattern
  | .bareParam id => [.namePattern id]
  | .listedParams params => params.parameters

/-- An arrow function behind its parameters. `site` is where faults of the parameters are
reported. -/
def arrow (p : Productions) (ctx : Context) (start : Position) (asyncLead : Option String)
    (params : Tree .arrowParams) (site : Site) : Parse Expr := do
  let arrowLead ← expect ctx "=>"
  let pendingBefore ← pending
  setPending none
  let (body, strict) ← arrowBody p (ctx.arrowBody asyncLead.isSome)
  setPending pendingBefore
  let patterns := arrowPatterns params
  if arrowHasUseStrict body && !patterns.all (·.isName) then reject .illegalUseStrict site
  checkParameters strict true site patterns
  let span ← finish .arrow start
  return .arrow asyncLead.isSome (asyncLead.getD "") params arrowLead body span

/-- An arrow function with one parameter without parentheses, the given name and token. -/
def bareArrow (p : Productions) (ctx : Context) (start : Position) (asyncLead : Option String)
    (id : Ident) (t : Token) : Parse Expr := do
  if asyncLead.isSome && id.name == "await" then unexpected ctx t
  if ctx.strict && isRestricted id.name then tolerate .strictParameterName t.site
  arrow p ctx start asyncLead (.bareParam id) t.site

/-- The items of a group as parameters. `trailing` says that a comma follows the last item. An
item that is no parameter makes the whole group malformed. -/
def groupParameters (ctx : Context) (site : Site) (trailing : Bool) :
    List Expr → Parse (List Pattern)
  | [] => return []
  | .spread dotsLead operand span :: rest => do
    if trailing || !rest.isEmpty then reject .parameterAfterRest site
    let target ← convert site do
      let target ← operand.asTarget .binding ctx.strict false
      Tree.checkRest target
      return target
    return [.restPattern dotsLead target span]
  | .yield .. :: _ => reject .yieldInParameter site
  | .await .. :: _ => reject .awaitInParameter site
  | item :: rest => do
    let head ← convertAs .parameters site (item.asTarget .binding ctx.strict false)
    let tail ← groupParameters ctx site trailing rest
    return head :: tail

/-- An arrow function behind its parameters in parentheses. -/
def groupArrow (p : Productions) (ctx : Context) (start : Position) (asyncLead : Option String)
    (openLead : String) (items : List Expr) (separators : List String) (closeLead : String) :
    Parse Expr := do
  let site := start.site
  let patterns ← groupParameters ctx site (separators.length ≥ items.length) items
  if asyncLead.isSome && (patterns.flatMap (·.boundNames)).any (·.name == "await") then
    reject (.unexpectedToken "await") site
  let params : Tree .params := .paramList openLead (.ofList patterns) separators closeLead
  arrow p ctx start asyncLead (.listedParams params) site

/-- An asynchronous arrow function with one parameter without parentheses; the lookahead is
`async`. -/
def asyncBareArrow (p : Productions) (ctx : Context) : Parse Expr := do
  let start ← here
  let asyncLead ← lead
  let t ← next
  let id ← finishName t
  let after ← look
  if !after.isPunctuator "=>" || after.newlineBefore then unexpected ctx after
  bareArrow p ctx start (some asyncLead) id t

/-- Whether an asynchronous arrow function with one parameter without parentheses begins at the
lookahead. -/
def seesAsyncBareArrow : Parse Bool := do
  if ← seesWord "async" then
    let t ← peek
    return t.isName && !t.newlineBefore
  return false

/-! ## Yield -/

/-- Whether a token can begin the operand of `yield`. -/
def startsYieldOperand (t : Token) : Bool :=
  !(t.isEof || (t.kind = .template && !t.isTemplateHead)
    || t.isOneOf [")", "]", "\x7d", ",", ";", ":", "?", "=>"]
    || t.isKeyword "in" || t.isWord "of")

/-- A value handed to the consumer of a generator; the lookahead is `yield`. -/
def yieldExpression (p : Productions) (ctx : Context) : Parse Expr := do
  if ctx.inParameters then reject .yieldInParameter (← look).site
  let t ← next
  let first ← look
  let (starLead, operand) : Option String × Tree (.maybe .expr) ←
    if first.newlineBefore then pure (none, .absent)
    else if first.isPunctuator "*" then
      let starLead ← lead
      pure (some starLead, .present (← p.assignment ctx))
    else if startsYieldOperand first then pure (none, .present (← p.assignment ctx))
    else pure (none, .absent)
  let span ← finish .yield t.start
  return .yield t.lead starLead operand span

/-! ## Assignments -/

/-- The assignment operator that a token spells. -/
def assignOp? (t : Token) : Option AssignOp :=
  if t.kind = .punctuator then AssignOp.ofText? t.raw else none

/-- Whether an expression is an array or object literal. -/
def isLiteralPattern : Expr → Bool
  | .array .. | .object .. => true
  | _ => false

/-- An assignment behind its left side, which starts with the given token. -/
def assignTo (p : Productions) (ctx : Context) (first : Token) (left : Expr) (op : AssignOp)
    (pendingBefore : Option Site) : Parse Expr := do
  let target ←
    if op = .assign then assignmentTarget ctx left first .invalidAssignmentTarget
    else simpleTarget ctx left first .invalidAssignmentTarget
  setPending pendingBefore
  let opLead ← lead
  let value ← p.assignment ctx
  let span ← finish .assignment first.start
  return .assignment target opLead op value span

/-- Closes an expression that is neither an assignment nor an arrow function. Only an array or
object literal may hand a pending shorthand property on. -/
def settle (value : Expr) (pendingBefore : Option Site) : Parse Expr := do
  let now ← pending
  if let some site := now then
    if !isLiteralPattern value then reject .shorthandInitializer site
  setPending (pendingBefore.or now)
  return value

/-- An arrow function if the lookahead is an arrow and the expression in front of it can be
parameters. -/
def arrowAfter? (p : Productions) (ctx : Context) (first : Token) (value : Expr)
    (pendingBefore : Option Site) : Parse (Option Expr) := do
  let t ← look
  if !t.isPunctuator "=>" then return none
  match value with
  | .cover asyncLead openLead items separators closeLead _ =>
    if t.newlineBefore then unexpected ctx t
    setPending pendingBefore
    some <$> groupArrow p ctx first.start asyncLead openLead items.toList separators closeLead
  | .identifier id =>
    if t.newlineBefore then unexpected ctx t
    setPending pendingBefore
    some <$> bareArrow p ctx first.start none id first
  | _ => return none

/-- An expression that begins with a conditional one: that one, an assignment to it, or an arrow
function with it as parameters. -/
def plainCover (p : Productions) (ctx : Context) : Parse Expr := do
  let first ← look
  let pendingBefore ← pending
  setPending none
  let value ← conditional p ctx
  match ← arrowAfter? p ctx first value pendingBefore with
  | some value => return value
  | none =>
    match assignOp? (← look) with
    | some op => assignTo p ctx first value op pendingBefore
    | none => settle value pendingBefore

/-- An expression without commas that may turn out to be a pattern: a shorthand property with a
default stays pending. -/
def cover (p : Productions) (ctx : Context) : Parse Expr := do
  let t ← look
  if ctx.allowsYield && t.isWord "yield" then yieldExpression p ctx
  else if ← seesAsyncBareArrow then asyncBareArrow p ctx
  else plainCover p ctx

/-- An expression without commas, in which no shorthand property has a default. -/
def assignment (p : Productions) (ctx : Context) : Parse Expr := do
  let pendingBefore ← pending
  setPending none
  let value ← cover p ctx
  rejectPending
  setPending pendingBefore
  return value

/-- The expressions behind commas, if there are any, with a first expression in front. -/
def sequenceFrom (p : Productions) (ctx : Context) (start : Position) (first : Expr) :
    Parse Expr := do
  if !(← sees ",") then return first
  let (rest, separators) ← afterCommas ctx (p.assignment ctx) p.rounds
  let span ← finish .sequence start
  return .sequence (.ofList (first :: rest)) separators span

/-- An expression, with commas. -/
def expression (p : Productions) (ctx : Context) : Parse Expr := do
  let start ← here
  let first ← assignment p ctx
  sequenceFrom p ctx start first

end Verbatim.Grammar
