import Verbatim.Proofs.Held.Basic

/-!
# Patterns, functions and classes of a parser that holds the context

A function replaces the whole context for its parameters and its body, and the mark that parameters
are read is set and taken back inside. The name of a function expression is read with two fields
changed. A class changes one field until its last member was read. The directives in front of a body
make code strict for good, which only the end of the function undoes.

## Main definitions

* `Verbatim.Held.prologue`, `Verbatim.Held.functionBody` — what may leave the code strict.
* `Verbatim.Held.paramsAndBody`, `Verbatim.Held.functionName` — the parts of functions.
* `Verbatim.Held.classDefinition` — classes.

## Main results

* `Verbatim.Held.prologue_does`, `Verbatim.Held.functionBody_does` — the code is strict behind them
  if it was before, or if a directive makes it so, and all else is as it was.
-/

namespace Verbatim.Held

open Verbatim.Parse Verbatim.Grammar

variable {P : Productions} {p : Verbatim.Productions} {ctx : Context}

/-! ## Names and literals -/

/-- A literal. -/
def literal : Held Literal := reading Grammar.literal

/-- Checks a name that is used. -/
def checkReference (t : Token) : Held Unit := reading (Grammar.checkReference · t)

/-- A name that is bound. -/
def bindingName (restricted : Fault) : Held Ident := reading (Grammar.bindingName restricted)

/-! ## Templates and keys -/

/-- The pieces of a template and the expressions between them. -/
def templateParts (P : Productions) (tagged : Bool) : Nat → Held (List Quasi × List Expr)
  | 0 => stalled
  | rounds + 1 => do
    let piece ← reading (templatePiece · tagged)
    if piece.isTail then return ([piece], [])
    let value ← allowingIn true P.expression
    let (pieces, values) ← templateParts P tagged rounds
    return (piece :: pieces, value :: values)

/-- A template. -/
def template (P : Productions) (tagged : Bool) : Held (Tree .template) := do
  let start ← here
  let (quasis, values) ← templateParts P tagged P.rounds
  let span ← finish .template start
  return .templateLit quasis (.ofList values) span

/-- The key of a property or member. -/
def key (P : Productions) (allowsPrivate : Bool) : Held (Tree .key) := do
  let t ← look
  if t.isAnyName then return .nameKey (← anyName)
  match t.kind with
  | .string | .numeric | .bigint => return .literalKey (← literal)
  | .privateName =>
    if allowsPrivate then return .privateKey (← finishPrivateName (← next)) else unexpected t
  | _ =>
    if t.isPunctuator "[" then
      let openLead ← lead
      let inner ← allowingIn true P.assignment
      let closeLead ← expect "]"
      return .computedKey openLead inner closeLead
    else unexpected t

theorem templateParts_follows (hp : P.Follow p) (tagged : Bool) {rounds rounds' : Nat}
    (hr : rounds = rounds') :
    Follows (templateParts P tagged rounds) ctx (Grammar.templateParts p ctx tagged rounds') := by
  subst hr
  induction rounds with
  | zero => exact .lift
  | succ rounds ih =>
    exact .bind .reading fun _ => .branch .pure (.bind (.inside (hp.expression _)) fun _ =>
      .bind ih fun _ => .pure)

theorem template_follows (hp : P.Follow p) (tagged : Bool) :
    Follows (template P tagged) ctx (Grammar.template p ctx tagged) :=
  .bind .lift fun _ => .bind (templateParts_follows hp tagged hp.rounds) fun _ =>
    .bind .lift fun _ => .pure

theorem key_follows (hp : P.Follow p) (allowsPrivate : Bool) :
    Follows (key P allowsPrivate) ctx (Grammar.key p ctx allowsPrivate) := by
  refine .bind .lift fun t => .branch (.bind .lift fun _ => .pure) ?_
  cases t.kind
  case string | numeric | bigint => exact .bind .reading fun _ => .pure
  case privateName =>
    exact .branch (.bind .lift fun _ => .bind .lift fun _ => .pure) .reading
  all_goals
    exact .branch (.bind .lift fun _ => .bind (.inside (hp.assignment _)) fun _ =>
      .bind .reading fun _ => .pure) .reading

/-! ## Bindings -/

/-- A default behind a target, if there is one. -/
def withDefault (P : Productions) (start : Position) (target : Pattern) : Held Pattern := do
  match ← accept "=" with
  | none => return target
  | some eqLead =>
    let value ← allowingIn true P.assignment
    let span ← finish .defaultPattern start
    return .defaultPattern target eqLead value span

/-- A target with an optional default. -/
def bindingElement (P : Productions) (restricted : Fault) : Held Pattern := do
  let start ← here
  let target ← P.binding restricted
  withDefault P start target

/-- A target for all that remains. -/
def bindingRest (P : Productions) (restricted : Fault) (close : String) (misplaced : Fault) :
    Held Pattern := do
  let start ← here
  let dotsLead ← expect "..."
  let target ← P.binding restricted
  let t ← look
  if t.isPunctuator "=" then reject .defaultedRest t.site
  if !t.isPunctuator close then reject misplaced t.site
  let span ← finish .rest start
  return .restPattern dotsLead target span

/-- One element of an array pattern. -/
def arrayBindingRound (P : Productions) (restricted : Fault) :
    Held (Round (Tree (.maybe .pattern))) := do
  if ← sees "," then return .hole .absent (← separator)
  if ← sees "..." then
    return .last (.present (← bindingRest P restricted "]" .misplacedRest))
  return .item (.present (← bindingElement P restricted))

/-- An array pattern. -/
def arrayBinding (P : Productions) (restricted : Fault) : Held Pattern := do
  let start ← here
  let openLead ← expect "["
  let (elements, separators) ← listed "]" (arrayBindingRound P restricted) P.rounds
  let closeLead ← expect "]"
  let span ← finish .arrayPattern start
  return .arrayPattern openLead (.ofList elements) separators closeLead span

/-- One property of an object pattern. -/
def bindingProperty (P : Productions) (restricted : Fault) : Held (Tree .patternMember) := do
  let start ← here
  let isShorthand ←
    if (← look).isName then pure !((← peek).isPunctuator ":") else pure false
  if isShorthand then
    let id ← bindingName restricted
    let value ← withDefault P start (.namePattern id)
    let span ← finish .property start
    return .patternProperty (.nameKey id.bare) value true "" span
  let name ← key P false
  let colonLead ← expect ":"
  let value ← bindingElement P restricted
  let span ← finish .property start
  return .patternProperty name value false colonLead span

/-- One member of an object pattern. -/
def objectBindingRound (P : Productions) (restricted : Fault) :
    Held (Round (Tree .patternMember)) := do
  if ← sees "..." then return .last (← reading (bindingMemberRest restricted))
  return .item (← bindingProperty P restricted)

/-- An object pattern. -/
def objectBinding (P : Productions) (restricted : Fault) : Held Pattern := do
  let start ← here
  let openLead ← expect "\x7b"
  let (members, separators) ← listed "\x7d" (objectBindingRound P restricted) P.rounds
  let closeLead ← expect "\x7d"
  let span ← finish .objectPattern start
  return .objectPattern openLead (.ofList members) separators closeLead span

/-- A name, an array pattern or an object pattern. -/
def binding (P : Productions) (restricted : Fault) : Held Pattern := do
  if ← sees "[" then arrayBinding P restricted
  else if ← sees "\x7b" then objectBinding P restricted
  else return .namePattern (← bindingName restricted)

theorem withDefault_follows (hp : P.Follow p) (start : Position) (target : Pattern) :
    Follows (withDefault P start target) ctx (Grammar.withDefault p ctx start target) := by
  refine .bind .lift fun eqLead => ?_
  cases eqLead with
  | none => exact .pure
  | some => exact .bind (.inside (hp.assignment _)) fun _ => .bind .lift fun _ => .pure

theorem bindingElement_follows (hp : P.Follow p) (restricted : Fault) :
    Follows (bindingElement P restricted) ctx (Grammar.bindingElement p restricted ctx) :=
  .bind .lift fun _ => .bind (hp.binding _ _) fun _ => withDefault_follows hp _ _

theorem bindingRest_follows (hp : P.Follow p) (restricted : Fault) (close : String)
    (misplaced : Fault) :
    Follows (bindingRest P restricted close misplaced) ctx
      (Grammar.bindingRest p restricted ctx close misplaced) :=
  .bind .lift fun _ => .bind .reading fun _ => .bind (hp.binding _ _) fun _ => .bind .lift fun _ =>
    .check (.check (.bind .lift fun _ => .pure) .lift) .lift

theorem arrayBinding_follows (hp : P.Follow p) (restricted : Fault) :
    Follows (arrayBinding P restricted) ctx (Grammar.arrayBinding p restricted ctx) := by
  have round : Follows (arrayBindingRound P restricted) ctx
      (Grammar.arrayBindingRound p restricted ctx) :=
    .bind .lift fun _ => .branch (.bind .reading fun _ => .pure) (.bind .lift fun _ => .branch
      (.bind (bindingRest_follows hp _ _ _) fun _ => .pure)
      (.bind (bindingElement_follows hp _) fun _ => .pure))
  exact .bind .lift fun _ => .bind .reading fun _ => .bind (.listed round hp.rounds rfl) fun _ =>
    .bind .reading fun _ => .bind .lift fun _ => .pure

theorem bindingProperty_follows (hp : P.Follow p) (restricted : Fault) :
    Follows (bindingProperty P restricted) ctx (Grammar.bindingProperty p restricted ctx) := by
  refine .bind .lift fun _ => .bind .lift fun _ => .branch (.bind .lift fun _ => .bind .pure ?_)
    (.bind .pure ?_)
  all_goals
    exact fun _ => .branch
      (.bind .reading fun _ => .bind (withDefault_follows hp _ _) fun _ =>
        .bind .lift fun _ => .pure)
      (.bind (key_follows hp _) fun _ => .bind .reading fun _ =>
        .bind (bindingElement_follows hp _) fun _ => .bind .lift fun _ => .pure)

theorem objectBinding_follows (hp : P.Follow p) (restricted : Fault) :
    Follows (objectBinding P restricted) ctx (Grammar.objectBinding p restricted ctx) := by
  have round : Follows (objectBindingRound P restricted) ctx
      (Grammar.objectBindingRound p restricted ctx) :=
    .bind .lift fun _ => .branch (.bind .reading fun _ => .pure)
      (.bind (bindingProperty_follows hp _) fun _ => .pure)
  exact .bind .lift fun _ => .bind .reading fun _ => .bind (.listed round hp.rounds rfl) fun _ =>
    .bind .reading fun _ => .bind .lift fun _ => .pure

theorem binding_follows (hp : P.Follow p) (restricted : Fault) :
    Follows (binding P restricted) ctx (Grammar.binding p restricted ctx) :=
  .bind .lift fun _ => .branch (arrayBinding_follows hp _) (.bind .lift fun _ =>
    .branch (objectBinding_follows hp _) (.bind .reading fun _ => .pure))

/-! ## Bodies -/

/-- The string statements in front of a body or source. The code is strict behind a directive that
makes it so. -/
def prologueFrom (P : Productions) (octal : Option Token) : Nat → Held (List Stmt)
  | 0 => stalled
  | rounds + 1 => do
    let t ← look
    if !t.isString then return []
    let value ← P.expression
    let ending ← terminator
    if !isLiteralOf t value then
      let span ← finish .exprStmt t.start
      return [.exprStmt value none ending span]
    let text := directiveText t
    let isStrict := text == "use strict"
    if isStrict then
      change (·.withStrict true)
      if let some first := octal then tolerate .strictOctal first.site
    let span ← finish .directive t.start
    let octal := if isStrict then none else if t.octal then octal.or (some t) else octal
    let stmts ← prologueFrom P octal rounds
    return .exprStmt value (some text) ending span :: stmts

/-- The string statements in front of a body or source. -/
def prologue (P : Productions) : Held (List Stmt) := prologueFrom P none P.rounds

/-- Statements up to a closing brace. -/
def items (P : Productions) : Held (List Stmt) := many endsBlock P.item P.rounds

/-- The body of a function. -/
def functionBody (P : Productions) : Held (Tree .body) := do
  let start ← here
  let openLead ← expect "\x7b"
  let directives ← prologue P
  let rest ← items P
  let closeLead ← expect "\x7d"
  let span ← finish .block start
  return .bodyBlock openLead (.ofList (directives ++ rest)) closeLead span

/-- What the directives leave: the statements and the strictness of the code are those that are
handed on, and all else is as it was. -/
def LeavesStrict (ctx : Context) {α : Type} (r : α × Bool) (value : α) (ctx' : Context) : Prop :=
  value = r.1 ∧ ctx' = ctx.withStrict r.2

/-- Directives do what the faithful ones do, and may leave the held context strict. -/
theorem prologueFrom_does (hp : P.Follow p) (octal : Option Token) {rounds rounds' : Nat}
    (hr : rounds = rounds') :
    Does (prologueFrom P octal rounds) ctx (Grammar.prologueFrom p ctx octal rounds')
      (LeavesStrict ctx) := by
  subst hr
  induction rounds generalizing ctx octal with
  | zero =>
    intro depth q
    rfl
  | succ rounds ih =>
    refine Follows.lift.thenDoes fun t => .branch (fun _ => .pure ⟨rfl, rfl⟩) fun _ =>
      (hp.expression ctx).thenDoes fun value => Follows.reading.thenDoes fun ending =>
        .branch (fun _ => Follows.lift.thenDoes fun _ => .pure ⟨rfl, rfl⟩) fun _ => ?_
    have rest (octal : Option Token) {isStrict strict : Bool}
      (h : (ctx.strict || isStrict) = strict) :
        Does (do
            let span ← finish .directive t.start
            let stmts ← prologueFrom P octal rounds
            return .exprStmt value (some (directiveText t)) ending span :: stmts)
          (ctx.withStrict strict) (do
            let span ← finish .directive t.start
            let r ← Grammar.prologueFrom p { ctx with strict := ctx.strict || isStrict }
              octal rounds
            return (.exprStmt value (some (directiveText t)) ending span :: r.1, r.2))
          (LeavesStrict ctx) := by
      subst h
      refine Follows.lift.thenDoes fun _ => .bind (ih octal) ?_
      rintro r _ _ ⟨rfl, rfl⟩
      exact .pure ⟨rfl, rfl⟩
    dsimp only
    generalize (directiveText t == "use strict") = isStrict
    cases isStrict with
    | false => exact rest _ (Bool.or_false _)
    | true =>
      refine .change ?_
      cases octal with
      | none => exact rest none (Bool.or_true _)
      | some first => exact Follows.lift.thenDoes fun _ => rest none (Bool.or_true _)

/-- Behind the directives, the code is as strict as it is handed on, and all else is as it was. -/
theorem prologue_does (hp : P.Follow p) :
    Does (prologue P) ctx (Grammar.prologue p ctx) (LeavesStrict ctx) :=
  prologueFrom_does hp none hp.rounds

theorem items_follows (hp : P.Follow p) : Follows (items P) ctx (Grammar.items p ctx) :=
  .many (hp.item _) hp.rounds

/-- A body leaves the code as strict as its directives do. -/
theorem functionBody_does (hp : P.Follow p) :
    Does (functionBody P) ctx (Grammar.functionBody p ctx) (LeavesStrict ctx) := by
  refine Follows.lift.thenDoes fun _ => Follows.reading.thenDoes fun _ =>
    .bind (prologue_does hp) ?_
  rintro r _ _ ⟨rfl, rfl⟩
  exact (items_follows hp).thenDoes fun _ => Follows.reading.thenDoes fun _ =>
    Follows.lift.thenDoes fun _ => .pure ⟨rfl, rfl⟩

/-! ## Functions -/

/-- One parameter. -/
def parameterRound (P : Productions) : Held (Round Pattern) := do
  if ← sees "..." then
    return .last (← bindingRest P .strictParameterName ")" .parameterAfterRest)
  return .item (← bindingElement P .strictParameterName)

/-- The parameters in parentheses. -/
def parameterList (P : Productions) : Held (Tree .params) := do
  let openLead ← expect "("
  let (params, separators) ← listed ")" (parameterRound P) P.rounds
  let closeLead ← expect ")"
  return .paramList openLead (.ofList params) separators closeLead

/-- The parameters and the body of a function, in a context of their own. -/
def paramsAndBody (P : Productions) (isAsync isGenerator : Bool) (name : Option Ident) (site : Site)
    (unique : Bool) : Held (Tree .params × Tree .body) :=
  within (·.callable isAsync isGenerator) do
    let wasStrict := (← context).strict
    let pendingBefore ← pending
    setPending none
    change (·.withParameters true)
    let params ← parameterList P
    change (·.withParameters false)
    let body ← functionBody P
    let strict := (← context).strict
    if hasUseStrict body && !params.isSimple then reject .illegalUseStrict site
    if strict && !wasStrict then checkFunctionName site name
    checkParameters strict (unique || !params.isSimple) site params.parameters
    setPending pendingBefore
    return (params, body)

/-- The name of a function. That of an expression is read as in its body. -/
def functionName (isDeclaration nameOptional isAsync isGenerator : Bool) : Held (Option Ident) := do
  if (← look).isName then
    if isDeclaration then return some (← bindingName .strictFunctionName)
    let saved ← context
    change (·.withOperators isGenerator isAsync)
    let id ← bindingName .strictFunctionName
    change (·.withOperators saved.allowsYield saved.allowsAwait)
    return some id
  if isDeclaration && !nameOptional then unexpectedHere
  return none

/-- A function declaration or expression. -/
def function (P : Productions) (isDeclaration nameOptional : Bool) : Held (Tree .function) := do
  let start ← here
  let asyncLead ← if ← seesWord "async" then some <$> lead else pure none
  let keywordLead ← expectKeyword "function"
  let starLead ← accept "*"
  let nameSite := (← look).site
  let isAsync := asyncLead.isSome
  let isGenerator := starLead.isSome
  let name ← functionName isDeclaration nameOptional isAsync isGenerator
  let (params, body) ← paramsAndBody P isAsync isGenerator name nameSite false
  let span ← finish (if isDeclaration then .functionDecl else .functionExpr) start
  let head : FunctionHead :=
    { isAsync, asyncLead := asyncLead.getD "", keywordLead, isGenerator
      starLead := starLead.getD "", name }
  return .function head params body span

/-- A function declaration, which must have a name. -/
def functionDeclaration (P : Productions) : Held Stmt := .functionStmt <$> function P true false

/-- A function expression. -/
def functionExpression (P : Productions) : Held Expr := .functionExpr <$> function P false true

/-- The parameters and body of a method or accessor. -/
def methodFunction (P : Productions) (isAsync isGenerator : Bool) (kind : PropertyKind) :
    Held (Tree .function) := do
  let start ← here
  let (params, body) ← paramsAndBody P isAsync isGenerator none start.site true
  checkAccessor kind start.site params.parameters
  let span ← finish .functionExpr start
  return .function { isAsync, isGenerator } params body span

theorem parameterList_follows (hp : P.Follow p) :
    Follows (parameterList P) ctx (Grammar.parameterList p ctx) := by
  have round : Follows (parameterRound P) ctx (Grammar.parameterRound p ctx) :=
    .bind .lift fun _ => .branch (.bind (bindingRest_follows hp _ _ _) fun _ => .pure)
      (.bind (bindingElement_follows hp _) fun _ => .pure)
  exact .bind .reading fun _ => .bind (.listed round hp.rounds rfl) fun _ =>
    .bind .reading fun _ => .pure

/-- Parameters and body set the context of the function and give the old one back behind it. -/
theorem paramsAndBody_follows (hp : P.Follow p) (isAsync isGenerator : Bool) (name : Option Ident)
    (site : Site) (unique : Bool) :
    Follows (paramsAndBody P isAsync isGenerator name site unique) ctx
      (Grammar.paramsAndBody p ctx isAsync isGenerator name site unique) := by
  refine .within (.read (Follows.lift.thenDoes fun _ => Follows.lift.thenDoes fun _ => .change ?_))
  refine (parameterList_follows hp).thenDoes fun params => .change (.bind (functionBody_does hp) ?_)
  rintro r _ _ ⟨rfl, rfl⟩
  exact .read (.imp (Follows.check (.check (.bind .lift fun _ => .bind .lift fun _ => .pure) .lift)
    .lift) fun _ _ _ h => h.1)

theorem functionName_follows (isDeclaration nameOptional isAsync isGenerator : Bool) :
    Follows (functionName isDeclaration nameOptional isAsync isGenerator) ctx
      (Grammar.functionName ctx isDeclaration nameOptional isAsync isGenerator) := by
  refine .bind .lift fun _ => .branch ?_ (.check .pure .reading)
  cases isDeclaration with
  | true => exact .bind .reading fun _ => .pure
  | false => exact .read (.change (Follows.reading.thenDoes fun _ => .change (.pure ⟨rfl, rfl⟩)))

theorem function_follows (hp : P.Follow p) (isDeclaration nameOptional : Bool) :
    Follows (function P isDeclaration nameOptional) ctx
      (Grammar.function p ctx isDeclaration nameOptional) := by
  refine .bind .lift fun _ => .bind .lift fun _ => .choice ?_ (.map .lift) .pure
  exact fun _ => .bind .reading fun _ => .bind .lift fun _ => .bind .lift fun _ =>
    .bind (functionName_follows _ _ _ _) fun _ => .bind
      (paramsAndBody_follows hp _ _ _ _ _) fun _ =>
      .bind .lift fun _ => .pure

theorem functionDeclaration_follows (hp : P.Follow p) :
    Follows (functionDeclaration P) ctx (Grammar.functionDeclaration p ctx) :=
  .map (function_follows hp _ _)

theorem functionExpression_follows (hp : P.Follow p) :
    Follows (functionExpression P) ctx (Grammar.functionExpression p ctx) :=
  .map (function_follows hp _ _)

theorem methodFunction_follows (hp : P.Follow p) (isAsync isGenerator : Bool)
    (kind : PropertyKind) :
    Follows (methodFunction P isAsync isGenerator kind) ctx
      (Grammar.methodFunction p ctx isAsync isGenerator kind) :=
  .bind .lift fun _ => .bind (paramsAndBody_follows hp _ _ _ _ _) fun _ => .bind .lift fun _ =>
    .bind .lift fun _ => .pure

/-! ## Classes -/

/-- A static block, behind the word `static`. -/
def staticBlock (P : Productions) (start : Position) (staticLead : String) :
    Held (Tree .classMember) := do
  let openLead ← expect "\x7b"
  let pendingBefore ← pending
  setPending none
  let stmts ← within Context.staticBlock (items P)
  setPending pendingBefore
  let closeLead ← expect "\x7d"
  let span ← finish .staticBlock start
  return .staticBlock staticLead openLead (.ofList stmts) closeLead span

/-- The value of a field, if it has one. -/
def fieldInitializer (P : Productions) : Held (Tree (.maybe .initializer)) := do
  match ← accept "=" with
  | none => return .absent
  | some eqLead =>
    let pendingBefore ← pending
    setPending none
    let value ← within Context.fieldValue P.assignment
    setPending pendingBefore
    return .present (.initializer eqLead value)

/-- A field, behind its key. -/
def field (P : Productions) (start : Position) (mods : Modifiers) (name : Tree .key) :
    Held (Tree .classMember) := do
  let value ← fieldInitializer P
  let ending ← terminator
  let span ← finish .field start
  return .field mods name value ending span

/-- A method, accessor or field, behind its modifiers. -/
def keyedMember (P : Productions) (start : Position) (mods : Modifiers) (kind : PropertyKind)
    (hasConstructor : Bool) : Held (Tree .classMember × Bool) := do
  let site := (← look).site
  let memberKey ← key P true
  let name := memberKey.staticName
  let isAsync := mods.asyncLead.isSome
  let isGenerator := mods.starLead.isSome
  if mods.staticLead.isSome && name == some "prototype" then reject .staticPrototype site
  if !(← sees "(") && !isAsync && !isGenerator && kind == .plain then
    if name == some "constructor" then reject .constructorField site
    return (← field P start mods memberKey, hasConstructor)
  let methodKind ← methodKind mods kind name hasConstructor site
  let value ← methodFunction P isAsync isGenerator kind
  let span ← finish .method start
  return (.method mods methodKind memberKey value span,
    hasConstructor || methodKind == .constructor)

/-- A member of a class. -/
def classMember (P : Productions) (hasConstructor : Bool) : Held (Tree .classMember × Bool) := do
  let t ← look
  let start := t.start
  if t.isPunctuator ";" then
    let semicolonLead ← lead
    return (.strayTerminator semicolonLead (← extent start), hasConstructor)
  let isStatic ← if t.isWord "static" then isModifier false else pure false
  let staticLead ← if isStatic then some <$> lead else pure none
  if let some staticLead := staticLead then
    if ← sees "\x7b" then return (← staticBlock P start staticLead, hasConstructor)
  let (mods, kind) ← modifiers
  keyedMember P start { mods with staticLead } kind hasConstructor

/-- The members of a class up to its closing brace. -/
def classMembers (P : Productions) (hasConstructor : Bool) : Nat → Held (List (Tree .classMember))
  | 0 => stalled
  | rounds + 1 => do
    let t ← look
    if t.isPunctuator "\x7d" then return []
    if t.isEof then unexpected t
    let (head, hasConstructor) ← classMember P hasConstructor
    let tail ← classMembers P hasConstructor rounds
    return head :: tail

/-- The class that another extends, if there is one. -/
def heritage (P : Productions) : Held (Tree (.maybe .heritage)) := do
  if !(← seesKeyword "extends") then return .absent
  let extendsLead ← lead
  let base ← P.chain
  if base.isCover then unexpectedHere
  return .present (.heritage extendsLead base)

/-- A class. Its code is strict from behind the word `class` to behind its closing brace. -/
def classDefinition (P : Productions) (isDeclaration nameRequired : Bool) :
    Held (Tree .classDef) := do
  let start ← here
  let classLead ← expectKeyword "class"
  let saved ← context
  change (·.withStrict true)
  let name ←
    if (← look).isName then some <$> bindingName .strictVariableName
    else if nameRequired then unexpectedHere
    else pure none
  let base ← heritage P
  let openLead ← expect "\x7b"
  let members ← classMembers P false P.rounds
  let closeLead ← expect "\x7d"
  change (·.withStrict saved.strict)
  let span ← finish (if isDeclaration then .classDecl else .classExpr) start
  return .classDef classLead name base openLead (.ofList members) closeLead span

theorem staticBlock_follows (hp : P.Follow p) (start : Position) (staticLead : String) :
    Follows (staticBlock P start staticLead) ctx (Grammar.staticBlock p ctx start staticLead) :=
  .bind .reading fun _ => .bind .lift fun _ => .bind .lift fun _ =>
    .bind (.within (.imp (items_follows hp) fun _ _ _ h => h.1)) fun _ => .bind .lift fun _ =>
      .bind .reading fun _ => .bind .lift fun _ => .pure

theorem fieldInitializer_follows (hp : P.Follow p) :
    Follows (fieldInitializer P) ctx (Grammar.fieldInitializer p ctx) := by
  refine .bind .lift fun eqLead => ?_
  cases eqLead with
  | none => exact .pure
  | some =>
    exact .bind .lift fun _ => .bind .lift fun _ =>
      .bind (.within (.imp (hp.assignment _) fun _ _ _ h => h.1)) fun _ =>
        .bind .lift fun _ => .pure

theorem field_follows (hp : P.Follow p) (start : Position) (mods : Modifiers) (name : Tree .key) :
    Follows (field P start mods name) ctx (Grammar.field p ctx start mods name) :=
  .bind (fieldInitializer_follows hp) fun _ => .bind .reading fun _ => .bind .lift fun _ => .pure

theorem keyedMember_follows (hp : P.Follow p) (start : Position) (mods : Modifiers)
    (kind : PropertyKind) (hasConstructor : Bool) :
    Follows (keyedMember P start mods kind hasConstructor) ctx
      (Grammar.keyedMember p ctx start mods kind hasConstructor) := by
  refine .bind .lift fun _ => .bind (key_follows hp _) fun _ => .check (.bind .lift fun _ =>
    .branch (.check (.bind (field_follows hp _ _ _) fun _ => .pure) .lift) ?_) .lift
  exact .bind .lift fun _ => .bind (methodFunction_follows hp _ _ _) fun _ => .bind .lift fun _ =>
    .pure

theorem classMember_follows (hp : P.Follow p) (hasConstructor : Bool) :
    Follows (classMember P hasConstructor) ctx (Grammar.classMember p ctx hasConstructor) := by
  refine .bind .lift fun t => .branch (.bind .lift fun _ => .bind .lift fun _ => .pure)
    (.choice (fun isStatic => .choice (fun staticLead => ?_) (.map .lift) .pure) .lift .pure)
  cases staticLead with
  | none => exact .bind .lift fun _ => keyedMember_follows hp _ _ _ _
  | some =>
    exact .bind .lift fun _ => .branch (.bind (staticBlock_follows hp _ _) fun _ => .pure)
      (.bind .lift fun _ => keyedMember_follows hp _ _ _ _)

theorem classMembers_follows (hp : P.Follow p) {hasConstructor : Bool} {rounds rounds' : Nat}
    (hr : rounds = rounds') :
    Follows (classMembers P hasConstructor rounds) ctx
      (Grammar.classMembers p ctx hasConstructor rounds') := by
  subst hr
  induction rounds generalizing hasConstructor with
  | zero => exact .lift
  | succ rounds ih =>
    exact .bind .lift fun _ => .branch .pure (.check (.bind (classMember_follows hp _) fun _ =>
      .bind ih fun _ => .pure) .reading)

theorem heritage_follows (hp : P.Follow p) :
    Follows (heritage P) ctx (Grammar.heritage p ctx) :=
  .bind .lift fun _ => .branch .pure (.bind .lift fun _ => .bind (hp.chain _) fun _ =>
    .check .pure .reading)

theorem classDefinition_follows (hp : P.Follow p) (isDeclaration nameRequired : Bool) :
    Follows (classDefinition P isDeclaration nameRequired) ctx
      (Grammar.classDefinition p ctx isDeclaration nameRequired) := by
  refine .bind .lift fun _ => .bind .reading fun _ =>
    .read (.change (Follows.lift.thenDoes fun _ => ?_))
  refine .branch (fun _ => (Follows.map .reading).thenDoes fun _ => ?_) fun _ =>
    .branch (fun _ => Follows.reading.thenDoes fun _ => ?_) fun _ =>
      Follows.pure.thenDoes fun _ => ?_
  all_goals
    exact (heritage_follows hp).thenDoes fun _ => Follows.reading.thenDoes fun _ =>
      (classMembers_follows hp hp.rounds).thenDoes fun _ => Follows.reading.thenDoes fun _ =>
        .change (Follows.lift.thenDoes fun _ => .pure ⟨rfl, rfl⟩)

end Verbatim.Held
