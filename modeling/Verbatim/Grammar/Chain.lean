import Verbatim.Grammar.Operand

/-!
# Chains of accesses and calls

An operand may be followed by property accesses, calls, optional links and templates. The callee of
`new` has no calls of its own, since the first argument list belongs to `new`.

## Main definitions

* `Verbatim.Grammar.chain` — operands with accesses and calls.
* `Verbatim.Grammar.callee` — operands with accesses only.
* `Verbatim.Grammar.construct` — the creation of objects.
* `Verbatim.Grammar.importExpression` — imports by a call, and the record of the module.
-/

namespace Verbatim.Grammar

open Verbatim.Parse

/-! ## Links -/

/-- The name behind a dot. -/
def accessName (ctx : Context) : Parse (Tree .access) := do
  let t ← look
  if t.isAnyName then return .nameAccess (← anyName)
  if t.kind = .privateName then return .privateAccess (← finishPrivateName (← next))
  unexpected ctx t

/-- An expression in brackets. -/
def accessIndex (p : Productions) (ctx : Context) : Parse (Tree .access) := do
  let openLead ← expect ctx "["
  let inner ← p.expression ctx.inside
  let closeLead ← expect ctx "]"
  return .computedAccess openLead inner closeLead

/-- Closes a property access. -/
def finishAccess (start : Position) (base : Expr) (isOptional : Bool) (dotLead : String)
    (prop : Tree .access) : Parse Expr := do
  let span ← finish .memberAccess start
  return .memberAccess base isOptional dotLead prop span

/-- Closes a call. -/
def finishCall (start : Position) (base : Expr) (isOptional : Bool) (optionalLead : String)
    (args : Tree .arguments) : Parse Expr := do
  let span ← finish .call start
  return .call base isOptional optionalLead args span

/-- A template behind the function that interprets it. -/
def taggedTemplate (p : Productions) (ctx : Context) (start : Position) (tag : Expr) :
    Parse Expr := do
  let quasi ← template p ctx true
  let span ← finish .taggedTemplate start
  return .tagged tag quasi span

/-- What follows the mark of an optional link. -/
def optionalLink (p : Productions) (ctx : Context) (start : Position) (base : Expr) :
    Parse Expr := do
  let optionalLead ← lead
  let t ← look
  if t.isPunctuator "(" then
    finishCall start base true optionalLead (← argumentList p ctx)
  else if t.isPunctuator "[" then
    finishAccess start base true optionalLead (← accessIndex p ctx)
  else if t.kind = .template then reject .optionalChainTemplate t.site
  else finishAccess start base true optionalLead (← accessName ctx)

/-- A link by a dot, a bracket or an argument list, if the lookahead is one. -/
def plainLink (p : Productions) (ctx : Context) (start : Position) (base : Expr) :
    Parse (Option Expr) := do
  let t ← look
  if t.isPunctuator "." then
    let dotLead ← lead
    some <$> finishAccess start base false dotLead (← accessName ctx)
  else if t.isPunctuator "[" then
    some <$> finishAccess start base false "" (← accessIndex p ctx)
  else if t.isPunctuator "(" then
    some <$> finishCall start base false "" (← argumentList p ctx)
  else return none

/-- A chain under construction. -/
structure Chain where
  /-- What has been read. -/
  value : Expr
  /-- Whether it has an optional link. -/
  isOptional : Bool := false

/-- One further link of a chain, if there is one. -/
def chainLink (p : Productions) (ctx : Context) (start : Position) (c : Chain) :
    Parse (Option Chain) := do
  let t ← look
  if t.isPunctuator "?." then
    return some { value := ← optionalLink p ctx start c.value, isOptional := true }
  if t.isTemplateHead then
    if c.isOptional then reject .optionalChainTemplate t.site
    return some { c with value := ← taggedTemplate p ctx start c.value }
  return (← plainLink p ctx start c.value).map ({ c with value := · })

/-! ## Beginnings -/

/-- The superclass as callee or object. -/
def superclass (ctx : Context) : Parse Expr := do
  let t ← next
  if !((← look).isOneOf ["(", ".", "["]) then unexpected ctx t
  let span ← finish .superclass t.start
  return .superclass t.lead span

/-- Closes a pair of words, the first of which is the given token that was consumed before the
dot, and the second of which must be `word`. -/
def metaProperty (ctx : Context) (first : Token) (word : String) (check : Parse Unit) :
    Parse Expr := do
  let subjectSpan ← finish .identifier first.start
  let subject : Ident := { lead := first.lead, name := first.raw, raw := first.raw
                           span := subjectSpan }
  let dotLead ← lead
  if !(← seesWord word) then unexpectedHere ctx
  let prop ← anyName
  check
  let span ← finish .metaProperty first.start
  return .metaProperty subject dotLead prop span

/-- The creation of an object, or the target of a constructor. -/
def construct (p : Productions) (ctx : Context) : Parse Expr := do
  let t ← next
  if ← sees "." then
    metaProperty ctx t "target" do
      if !ctx.inFunction then tolerate .misplacedNewTarget t.site
  else
    if ← seesKeyword "import" then unexpectedHere ctx
    let base ← p.callee ctx
    if base.isCover then unexpectedHere ctx
    let args : Tree (.maybe .arguments) ←
      if ← sees "(" then .present <$> argumentList p ctx else pure .absent
    let span ← finish .construct t.start
    return .construct t.lead base args span

/-- An import by a call, or the record of the module. -/
def importExpression (p : Productions) (ctx : Context) : Parse Expr := do
  let t ← next
  if ← sees "." then
    metaProperty ctx t "meta" do
      if !ctx.isModule then reject .misplacedImportMeta t.site
  else
    let openLead ← expect ctx "("
    let source ← p.assignment ctx.inside
    let closeLead ← expect ctx ")"
    let span ← finish .importCall t.start
    return .importCall t.lead openLead source closeLead span

/-! ## Chains -/

/-- Behind the name `async` and in front of a parenthesis: the parameters of an arrow function if an
arrow follows on the same line, and a call otherwise, which only plain links may follow. -/
def asyncCall (p : Productions) (ctx : Context) (start : Position) (name : Ident) :
    Parse Expr := do
  let pendingBefore ← pending
  setPending none
  let g ← readGroup p ctx
  let t ← look
  if t.isPunctuator "=>" && !t.newlineBefore then
    setPending pendingBefore
    return g.unresolved (some name.lead) (← extent start)
  rejectPending
  setPending pendingBefore
  let args : Tree .arguments :=
    .argumentList g.openLead (.ofList g.values) g.separators g.closeLead
  let value ← finishCall start (.identifier name) false "" args
  iterate (plainLink p ctx start) p.rounds value

/-- The beginning of a chain. -/
def chainHead (p : Productions) (ctx : Context) : Parse Expr := do
  let t ← look
  if t.isKeyword "super" then superclass ctx
  else if t.isKeyword "new" then construct p ctx
  else if t.isKeyword "import" then importExpression p ctx
  else operand p ctx

/-- The name `async`, if it is what a chain begins with and an argument list follows on the same
line. -/
def asyncCallee (first : Token) (value : Expr) : Parse (Option Ident) := do
  let t ← look
  match value with
  | .identifier id =>
    if first.isWord "async" && t.isPunctuator "(" && !t.newlineBefore then return some id
    else return none
  | _ => return none

/-- An operand with accesses and calls. -/
def chain (p : Productions) (ctx : Context) : Parse Expr := do
  let first ← look
  let value ← chainHead p ctx
  match ← asyncCallee first value with
  | some name => asyncCall p ctx first.start name
  | none => return (← iterate (chainLink p ctx first.start) p.rounds { value }).value

/-- One further access of a callee, if there is one. -/
def calleeLink (p : Productions) (ctx : Context) (start : Position) (base : Expr) :
    Parse (Option Expr) := do
  let t ← look
  if t.isPunctuator "?." then unexpected ctx t
  if t.isTemplateHead then some <$> taggedTemplate p ctx start base
  else if t.isPunctuator "(" then return none
  else plainLink p ctx start base

/-- An operand with accesses only. -/
def callee (p : Productions) (ctx : Context) : Parse Expr := do
  let t ← look
  let value ←
    if t.isKeyword "new" then construct p ctx
    else if t.isKeyword "super" then superclass ctx
    else operand p ctx
  iterate (calleeLink p ctx t.start) p.rounds value

end Verbatim.Grammar
