import Verbatim.Proofs.Tree.Conversion

/-!
# Shorthand properties with a default

`\x7ba = 1\x7d` is no expression. It is read as one because it may turn out to be a pattern, and
then it is converted. A tree is resolved if no object literal in it has such a property, but for two
places that the grammar does not look at: the front of a superclass, and the front of a property
that is assigned to. The front of an expression is what it begins with, up to a literal and the
elements and members of that.

## Main definitions

* `Verbatim.Tree.Resolved` — trees without shorthand properties with a default.

## Main results

* `Verbatim.Tree.Resolved.of_becomes` — the conversion to a target resolves a literal.
-/

namespace Verbatim

namespace Tree

/-- Whether an expression is an assignment. -/
def isAssignment : Expr → Bool
  | .assignment .. => true
  | _ => false

/-- No object literal in the tree has a shorthand property with a default, but for the fronts of
superclasses, of assigned properties, and of the items of groups that are still to be resolved.
`front` says that the tree itself is such a front. -/
inductive Resolved : {c : Category} → (front : Bool) → Tree c → Prop where
  | nil {c : Category} {front : Bool} : Resolved front (.nil : Tree (.many c))
  | cons {front : Bool} {head tail} (hHead : Resolved front head) (hTail : Resolved front tail) :
      Resolved front (.cons head tail)
  | absent {c : Category} {front : Bool} : Resolved front (.absent : Tree (.maybe c))
  | present {front : Bool} {part} (hPart : Resolved front part) : Resolved front (.present part)
  | identifier {front : Bool} {id} : Resolved front (.identifier id)
  | literal {front : Bool} {lit} : Resolved front (.literal lit)
  | template {front : Bool} {t} (hT : Resolved false t) : Resolved front (.template t)
  | tagged {front : Bool} {tag quasi span} (hTag : Resolved front tag)
      (hQuasi : Resolved false quasi) : Resolved front (.tagged tag quasi span)
  | receiver {front : Bool} {lead span} : Resolved front (.receiver lead span)
  | superclass {front : Bool} {lead span} : Resolved front (.superclass lead span)
  | array {front : Bool} {lead elements separators closeLead span}
      (hElements : Resolved front elements) :
      Resolved front (.array lead elements separators closeLead span)
  | object {front : Bool} {lead members separators closeLead span}
      (hMembers : Resolved front members) :
      Resolved front (.object lead members separators closeLead span)
  | functionExpr {front : Bool} {f} (hF : Resolved false f) : Resolved front (.functionExpr f)
  | arrow {front : Bool} {isAsync asyncLead params arrowLead body span}
      (hParams : Resolved false params) (hBody : Resolved false body) :
      Resolved front (.arrow isAsync asyncLead params arrowLead body span)
  | classExpr {front : Bool} {c} (hC : Resolved false c) : Resolved front (.classExpr c)
  | unary {front : Bool} {lead op operand span} (hOperand : Resolved false operand) :
      Resolved front (.unary lead op operand span)
  | update {front : Bool} {op isBefore opLead operand span} (hOperand : Resolved false operand) :
      Resolved front (.update op isBefore opLead operand span)
  | binary {front : Bool} {left opLead op right span} (hLeft : Resolved false left)
      (hRight : Resolved false right) : Resolved front (.binary left opLead op right span)
  | assignment {front : Bool} {target opLead op value span} (hTarget : Resolved false target)
      (hValue : Resolved false value) : Resolved front (.assignment target opLead op value span)
  | conditional {front : Bool} {test questionLead consequent colonLead alternate span}
      (hTest : Resolved false test) (hConsequent : Resolved false consequent)
      (hAlternate : Resolved false alternate) :
      Resolved front (.conditional test questionLead consequent colonLead alternate span)
  | sequence {front : Bool} {items separators span} (hItems : Resolved false items) :
      Resolved front (.sequence items separators span)
  | call {front : Bool} {callee isOptional optionalLead args span}
      (hCallee : Resolved front callee) (hArgs : Resolved false args) :
      Resolved front (.call callee isOptional optionalLead args span)
  | construct {front : Bool} {lead callee args span} (hCallee : Resolved front callee)
      (hArgs : Resolved false args) : Resolved front (.construct lead callee args span)
  | memberAccess {front : Bool} {base isOptional dotLead prop span} (hBase : Resolved front base)
      (hProp : Resolved false prop) :
      Resolved front (.memberAccess base isOptional dotLead prop span)
  | metaProperty {front : Bool} {subject dotLead property span} :
      Resolved front (.metaProperty subject dotLead property span)
  | importCall {front : Bool} {lead openLead source closeLead span}
      (hSource : Resolved false source) :
      Resolved front (.importCall lead openLead source closeLead span)
  | parenthesized {front : Bool} {lead inner closeLead span} (hInner : Resolved false inner) :
      Resolved front (.parenthesized lead inner closeLead span)
  | spread {front : Bool} {lead operand span} (hOperand : Resolved front operand) :
      Resolved front (.spread lead operand span)
  | yield {front : Bool} {lead starLead operand span} (hOperand : Resolved false operand) :
      Resolved front (.yield lead starLead operand span)
  | await {front : Bool} {lead operand span} (hOperand : Resolved false operand) :
      Resolved front (.await lead operand span)
  | elementExpr {front : Bool} {e} (hE : Resolved false e) : Resolved front (.elementExpr e)
  | fragmentExpr {front : Bool} {f} (hF : Resolved false f) : Resolved front (.fragmentExpr f)
  | cover {front : Bool} {asyncLead openLead items separators closeLead span}
      (hItems : Resolved true items) :
      Resolved front (.cover asyncLead openLead items separators closeLead span)
  | templateLit {front : Bool} {quasis exprs span} (hExprs : Resolved false exprs) :
      Resolved front (.templateLit quasis exprs span)
  | argumentList {front : Bool} {openLead items separators closeLead}
      (hItems : Resolved false items) :
      Resolved front (.argumentList openLead items separators closeLead)
  | property {front : Bool} {modifiers key value kind isMethod isShorthand colonLead span}
      (hKey : Resolved false key) (hValue : Resolved front value)
      (allowed : (isShorthand && value.isAssignment) = true → front = true) :
      Resolved front (.property modifiers key value kind isMethod isShorthand colonLead span)
  | spreadMember {front : Bool} {lead operand span} (hOperand : Resolved front operand) :
      Resolved front (.spreadMember lead operand span)
  | nameKey {front : Bool} {id} : Resolved front (.nameKey id)
  | literalKey {front : Bool} {lit} : Resolved front (.literalKey lit)
  | privateKey {front : Bool} {name} : Resolved front (.privateKey name)
  | computedKey {front : Bool} {openLead inner closeLead} (hInner : Resolved false inner) :
      Resolved front (.computedKey openLead inner closeLead)
  | nameAccess {front : Bool} {id} : Resolved front (.nameAccess id)
  | privateAccess {front : Bool} {name} : Resolved front (.privateAccess name)
  | computedAccess {front : Bool} {openLead inner closeLead} (hInner : Resolved false inner) :
      Resolved front (.computedAccess openLead inner closeLead)
  | paramList {front : Bool} {openLead items separators closeLead} (hItems : Resolved false items)
      : Resolved front (.paramList openLead items separators closeLead)
  | bodyBlock {front : Bool} {openLead stmts closeLead span} (hStmts : Resolved false stmts) :
      Resolved front (.bodyBlock openLead stmts closeLead span)
  | function {front : Bool} {head params body span} (hParams : Resolved false params)
      (hBody : Resolved false body) : Resolved front (.function head params body span)
  | bareParam {front : Bool} {id} : Resolved front (.bareParam id)
  | listedParams {front : Bool} {params} (hParams : Resolved false params) :
      Resolved front (.listedParams params)
  | blockBody {front : Bool} {body} (hBody : Resolved false body) : Resolved front (.blockBody body)
  | exprBody {front : Bool} {value} (hValue : Resolved false value) :
      Resolved front (.exprBody value)
  | heritage {front : Bool} {lead base} (hBase : Resolved true base) :
      Resolved front (.heritage lead base)
  | classDef {front : Bool} {lead name base openLead members closeLead span}
      (hBase : Resolved false base) (hMembers : Resolved false members) :
      Resolved front (.classDef lead name base openLead members closeLead span)
  | method {front : Bool} {modifiers kind key value span} (hKey : Resolved false key)
      (hValue : Resolved false value) : Resolved front (.method modifiers kind key value span)
  | field {front : Bool} {modifiers key value terminator span} (hKey : Resolved false key)
      (hValue : Resolved false value) : Resolved front (.field modifiers key value terminator span)
  | staticBlock {front : Bool} {lead openLead stmts closeLead span} (hStmts : Resolved false stmts)
      : Resolved front (.staticBlock lead openLead stmts closeLead span)
  | strayTerminator {front : Bool} {lead span} : Resolved front (.strayTerminator lead span)
  | initializer {front : Bool} {lead value} (hValue : Resolved false value) :
      Resolved front (.initializer lead value)
  | namePattern {front : Bool} {id} : Resolved front (.namePattern id)
  | exprPattern {front : Bool} {target} (hTarget : Resolved true target) :
      Resolved front (.exprPattern target)
  | arrayPattern {front : Bool} {lead elements separators closeLead span}
      (hElements : Resolved false elements) :
      Resolved front (.arrayPattern lead elements separators closeLead span)
  | objectPattern {front : Bool} {lead members separators closeLead span}
      (hMembers : Resolved false members) :
      Resolved front (.objectPattern lead members separators closeLead span)
  | defaultPattern {front : Bool} {target eqLead value span} (hTarget : Resolved false target)
      (hValue : Resolved false value) : Resolved front (.defaultPattern target eqLead value span)
  | restPattern {front : Bool} {lead target span} (hTarget : Resolved false target) :
      Resolved front (.restPattern lead target span)
  | patternProperty {front : Bool} {key value isShorthand colonLead span}
      (hKey : Resolved false key) (hValue : Resolved false value) :
      Resolved front (.patternProperty key value isShorthand colonLead span)
  | restMember {front : Bool} {lead target span} (hTarget : Resolved false target) :
      Resolved front (.restMember lead target span)
  | exprStmt {front : Bool} {value directive terminator span} (hValue : Resolved false value) :
      Resolved front (.exprStmt value directive terminator span)
  | declarationStmt {front : Bool} {d} (hD : Resolved false d) : Resolved front (.declarationStmt d)
  | functionStmt {front : Bool} {f} (hF : Resolved false f) : Resolved front (.functionStmt f)
  | classStmt {front : Bool} {c} (hC : Resolved false c) : Resolved front (.classStmt c)
  | blockStmt {front : Bool} {b} (hB : Resolved false b) : Resolved front (.blockStmt b)
  | emptyStmt {front : Bool} {lead span} : Resolved front (.emptyStmt lead span)
  | ifStmt {front : Bool} {lead openLead test closeLead consequent alternate span}
      (hTest : Resolved false test) (hConsequent : Resolved false consequent)
      (hAlternate : Resolved false alternate) :
      Resolved front (.ifStmt lead openLead test closeLead consequent alternate span)
  | forStmt {front : Bool} {lead openLead init firstLead test secondLead step closeLead body span}
      (hInit : Resolved false init) (hTest : Resolved false test) (hStep : Resolved false step)
      (hBody : Resolved false body) :
      Resolved front (.forStmt lead openLead init firstLead test secondLead step closeLead body
        span)
  | forInStmt {front : Bool} {lead openLead left inLead right closeLead body span}
      (hLeft : Resolved false left) (hRight : Resolved false right) (hBody : Resolved false body) :
      Resolved front (.forInStmt lead openLead left inLead right closeLead body span)
  | forOfStmt {front : Bool} {lead awaitLead openLead left ofLead right closeLead body span}
      (hLeft : Resolved false left) (hRight : Resolved false right) (hBody : Resolved false body) :
      Resolved front (.forOfStmt lead awaitLead openLead left ofLead right closeLead body span)
  | whileStmt {front : Bool} {lead openLead test closeLead body span} (hTest : Resolved false test)
      (hBody : Resolved false body) :
      Resolved front (.whileStmt lead openLead test closeLead body span)
  | doWhileStmt {front : Bool} {lead body whileLead openLead test closeLead terminator span}
      (hBody : Resolved false body) (hTest : Resolved false test) :
      Resolved front (.doWhileStmt lead body whileLead openLead test closeLead terminator span)
  | returnStmt {front : Bool} {lead value terminator span} (hValue : Resolved false value) :
      Resolved front (.returnStmt lead value terminator span)
  | breakStmt {front : Bool} {lead label terminator span} :
      Resolved front (.breakStmt lead label terminator span)
  | continueStmt {front : Bool} {lead label terminator span} :
      Resolved front (.continueStmt lead label terminator span)
  | throwStmt {front : Bool} {lead value terminator span} (hValue : Resolved false value) :
      Resolved front (.throwStmt lead value terminator span)
  | tryStmt {front : Bool} {lead guarded handler finalizer span}
      (hGuarded : Resolved false guarded) (hHandler : Resolved false handler)
      (hFinalizer : Resolved false finalizer) :
      Resolved front (.tryStmt lead guarded handler finalizer span)
  | switchStmt {front : Bool}
      {lead openLead subject closeLead openBraceLead cases closeBraceLead span}
      (hSubject : Resolved false subject) (hCases : Resolved false cases) :
      Resolved front (.switchStmt lead openLead subject closeLead openBraceLead cases
        closeBraceLead span)
  | labeledStmt {front : Bool} {label colonLead body span} (hBody : Resolved false body) :
      Resolved front (.labeledStmt label colonLead body span)
  | debuggerStmt {front : Bool} {lead terminator span} :
      Resolved front (.debuggerStmt lead terminator span)
  | withStmt {front : Bool} {lead openLead subject closeLead body span}
      (hSubject : Resolved false subject) (hBody : Resolved false body) :
      Resolved front (.withStmt lead openLead subject closeLead body span)
  | importStmt {front : Bool} {d} : Resolved front (.importStmt d)
  | exportNamed {front : Bool} {lead decl specifiers origin terminator span}
      (hDecl : Resolved false decl) :
      Resolved front (.exportNamed lead decl specifiers origin terminator span)
  | exportDefault {front : Bool} {lead defaultLead value span} (hValue : Resolved false value) :
      Resolved front (.exportDefault lead defaultLead value span)
  | exportAll {front : Bool} {d} : Resolved front (.exportAll d)
  | block {front : Bool} {lead stmts closeLead span} (hStmts : Resolved false stmts) :
      Resolved front (.block lead stmts closeLead span)
  | elseClause {front : Bool} {lead body} (hBody : Resolved false body) :
      Resolved front (.elseClause lead body)
  | declaration {front : Bool} {lead kind items separators terminator span}
      (hItems : Resolved false items) :
      Resolved front (.declaration lead kind items separators terminator span)
  | declarator {front : Bool} {target init span} (hTarget : Resolved false target)
      (hInit : Resolved false init) : Resolved front (.declarator target init span)
  | forDeclaration {front : Bool} {d} (hD : Resolved false d) : Resolved front (.forDeclaration d)
  | forExpr {front : Bool} {e} (hE : Resolved false e) : Resolved front (.forExpr e)
  | targetDeclaration {front : Bool} {d} (hD : Resolved false d) :
      Resolved front (.targetDeclaration d)
  | targetPattern {front : Bool} {p} (hP : Resolved false p) : Resolved front (.targetPattern p)
  | catchClause {front : Bool} {lead param body span} (hParam : Resolved false param)
      (hBody : Resolved false body) : Resolved front (.catchClause lead param body span)
  | catchParam {front : Bool} {openLead target closeLead} (hTarget : Resolved false target) :
      Resolved front (.catchParam openLead target closeLead)
  | finallyClause {front : Bool} {lead body} (hBody : Resolved false body) :
      Resolved front (.finallyClause lead body)
  | switchCase {front : Bool} {lead test colonLead body span} (hTest : Resolved false test)
      (hBody : Resolved false body) : Resolved front (.switchCase lead test colonLead body span)
  | exportFunction {front : Bool} {f} (hF : Resolved false f) : Resolved front (.exportFunction f)
  | exportClass {front : Bool} {c} (hC : Resolved false c) : Resolved front (.exportClass c)
  | exportExpr {front : Bool} {value terminator} (hValue : Resolved false value) :
      Resolved front (.exportExpr value terminator)
  | element {front : Bool}
      {lead name attributes selfClosing closeLead openingSpan children closing span}
      (hAttributes : Resolved false attributes) (hChildren : Resolved false children) :
      Resolved front (.element lead name attributes selfClosing closeLead openingSpan children
        closing span)
  | fragment {front : Bool} {lead openingLead children closingLead slashLead closeLead span}
      (hChildren : Resolved false children) :
      Resolved front (.fragment lead openingLead children closingLead slashLead closeLead span)
  | attribute {front : Bool} {name eqLead value span} (hValue : Resolved false value) :
      Resolved front (.attribute name eqLead value span)
  | spreadAttribute {front : Bool} {lead dotsLead operand closeLead span}
      (hOperand : Resolved false operand) :
      Resolved front (.spreadAttribute lead dotsLead operand closeLead span)
  | stringValue {front : Bool} {lit} : Resolved front (.stringValue lit)
  | exprValue {front : Bool} {c} (hC : Resolved false c) : Resolved front (.exprValue c)
  | elementValue {front : Bool} {e} (hE : Resolved false e) : Resolved front (.elementValue e)
  | fragmentValue {front : Bool} {f} (hF : Resolved false f) : Resolved front (.fragmentValue f)
  | emptyContainer {front : Bool} {lead inside insideSpan closeLead span} :
      Resolved front (.emptyContainer lead inside insideSpan closeLead span)
  | exprContainer {front : Bool} {lead value closeLead span} (hValue : Resolved false value) :
      Resolved front (.exprContainer lead value closeLead span)
  | textChild {front : Bool} {text} : Resolved front (.textChild text)
  | exprChild {front : Bool} {c} (hC : Resolved false c) : Resolved front (.exprChild c)
  | spreadChild {front : Bool} {lead dotsLead operand closeLead span}
      (hOperand : Resolved false operand) :
      Resolved front (.spreadChild lead dotsLead operand closeLead span)
  | elementChild {front : Bool} {e} (hE : Resolved false e) : Resolved front (.elementChild e)
  | fragmentChild {front : Bool} {f} (hF : Resolved false f) : Resolved front (.fragmentChild f)

attribute [simp] Resolved.nil Resolved.cons Resolved.absent Resolved.present Resolved.identifier
  Resolved.literal Resolved.template Resolved.tagged Resolved.receiver Resolved.superclass
  Resolved.array Resolved.object Resolved.functionExpr Resolved.arrow Resolved.classExpr
  Resolved.unary Resolved.update Resolved.binary Resolved.assignment Resolved.conditional
  Resolved.sequence Resolved.call Resolved.construct Resolved.memberAccess Resolved.metaProperty
  Resolved.importCall Resolved.parenthesized Resolved.spread Resolved.yield Resolved.await
  Resolved.elementExpr Resolved.fragmentExpr Resolved.cover Resolved.templateLit
  Resolved.argumentList Resolved.property Resolved.spreadMember Resolved.nameKey Resolved.literalKey
  Resolved.privateKey Resolved.computedKey Resolved.nameAccess Resolved.privateAccess
  Resolved.computedAccess Resolved.paramList Resolved.bodyBlock Resolved.function Resolved.bareParam
  Resolved.listedParams Resolved.blockBody Resolved.exprBody Resolved.heritage Resolved.classDef
  Resolved.method Resolved.field Resolved.staticBlock Resolved.strayTerminator Resolved.initializer
  Resolved.namePattern Resolved.exprPattern Resolved.arrayPattern Resolved.objectPattern
  Resolved.defaultPattern Resolved.restPattern Resolved.patternProperty Resolved.restMember
  Resolved.exprStmt Resolved.declarationStmt Resolved.functionStmt Resolved.classStmt
  Resolved.blockStmt Resolved.emptyStmt Resolved.ifStmt Resolved.forStmt Resolved.forInStmt
  Resolved.forOfStmt Resolved.whileStmt Resolved.doWhileStmt Resolved.returnStmt Resolved.breakStmt
  Resolved.continueStmt Resolved.throwStmt Resolved.tryStmt Resolved.switchStmt Resolved.labeledStmt
  Resolved.debuggerStmt Resolved.withStmt Resolved.importStmt Resolved.exportNamed
  Resolved.exportDefault Resolved.exportAll Resolved.block Resolved.elseClause Resolved.declaration
  Resolved.declarator Resolved.forDeclaration Resolved.forExpr Resolved.targetDeclaration
  Resolved.targetPattern Resolved.catchClause Resolved.catchParam Resolved.finallyClause
  Resolved.switchCase Resolved.exportFunction Resolved.exportClass Resolved.exportExpr
  Resolved.element Resolved.fragment Resolved.attribute Resolved.spreadAttribute
  Resolved.stringValue Resolved.exprValue Resolved.elementValue Resolved.fragmentValue
  Resolved.emptyContainer Resolved.exprContainer Resolved.textChild Resolved.exprChild
  Resolved.spreadChild Resolved.elementChild Resolved.fragmentChild

namespace Resolved

variable {c : Category} {front front' : Bool}

@[simp]
theorem cons_iff {head : Tree c} {tail : Tree (.many c)} :
    Resolved front (.cons head tail) ↔ Resolved front head ∧ Resolved front tail :=
  ⟨fun | .cons hHead hTail => ⟨hHead, hTail⟩, fun h => .cons h.1 h.2⟩

/-- A list is resolved if its items are. -/
@[simp]
theorem ofList_iff {items : List (Tree c)} :
    Resolved front (ofList items) ↔ ∀ item ∈ items, Resolved front item := by
  induction items with
  | nil => simp [ofList]
  | cons head tail ih => simp [ofList, ih]

/-- The items of a resolved list are resolved. -/
theorem toList {list : Tree (.many c)} (h : Resolved front list) :
    ∀ item ∈ list.toList, Resolved front item :=
  ofList_iff.1 (list.ofList_toList.symm ▸ h)

/-- A resolved tree is resolved where more is allowed. -/
theorem mono {t : Tree c} (h : Resolved front t) (hle : front = true → front' = true) :
    Resolved front' t := by
  induction h generalizing front' <;> constructor <;> try assumption
  all_goals solve_by_elim

/-- The front of an expression that is converted to a target is no front any more. -/
theorem of_becomes {c d : Category} {use : TargetUse} {trailing : Bool} {t : Tree c} {p : Tree d}
    (h : Becomes use trailing t p) (ht : Resolved true t) : Resolved false p := by
  induction h with
  | identifier | nil | absent => constructor
  | array _ ih =>
    cases ht with
    | array hElements => exact .arrayPattern (ih hElements)
  | object _ ih =>
    cases ht with
    | object hMembers => exact .objectPattern (ih hMembers)
  | assignment =>
    cases ht with
    | assignment hTarget hValue => exact .defaultPattern hTarget hValue
  | other => exact .exprPattern ht
  | property _ ih =>
    cases ht with
    | property hKey hValue => exact .patternProperty hKey (ih hValue)
  | cons _ _ _ ih ih' =>
    cases ht with
    | cons hHead hTail => exact .cons (ih hHead) (ih' hTail)
  | restElement _ _ ih =>
    cases ht with
    | cons hHead =>
      cases hHead with
      | present hPart =>
        cases hPart with
        | spread hOperand => exact .cons (.present (.restPattern (ih hOperand))) .nil
  | restMember _ _ _ ih =>
    cases ht with
    | cons hHead =>
      cases hHead with
      | spreadMember hOperand => exact .cons (.restMember (ih hOperand)) .nil
  | present _ ih =>
    cases ht with
    | present hPart => exact .present (ih hPart)

end Resolved

end Tree

end Verbatim
