import Verbatim.Proofs.Sites.Operation

/-!
# Where errors in statements are reported

Declarations, loops, statements, imports and exports, and from them the productions of every depth
and a whole source.

## Main results

* `Verbatim.Productions.Sited.ofDepth` — the productions of every depth report errors in the source.
* `Verbatim.Parse.Sited.program` — so does the production of a whole source.
-/

namespace Verbatim

open Verbatim.Grammar

namespace Parse.Sited

variable {source : String} {p : Productions} {ctx : Context} {t : Token}

/-! ## Declarations -/

@[simp]
theorem variableValue (hp : p.Sited source) {inLoopHead : Bool} {kind : VariableKind}
    {target : Pattern} {Q : Tree (.maybe .initializer) → Prop} (h : ∀ v, Q v) :
    (Grammar.variableValue p ctx inLoopHead kind target).Sited source Q := by
  simp only [Grammar.variableValue, sited_bind, sited_look, sited_ite]
  refine fun t ht => ⟨fun _ => lead fun _ => hp.ofAssignment fun _ => h _,
    fun _ => ⟨fun _ => ?_, ?_⟩⟩
  · cases missingValue? kind target with
    | none => exact h _
    | some fault => exact reject ht.site
  · exact fun _ => h _

@[simp]
theorem declarator (hp : p.Sited source) {inLoopHead : Bool} {kind : VariableKind}
    {Q : Tree .declarator → Prop} (h : ∀ v, Q v) :
    (Grammar.declarator p ctx inLoopHead kind).Sited source Q := by
  simp +contextual [Grammar.declarator, hp, h]

@[simp]
theorem variableList (hp : p.Sited source) {inLoopHead : Bool} {Q : Variables → Prop}
    (h : ∀ v, Q v) : (Grammar.variableList p ctx inLoopHead).Sited source Q := by
  simp [Grammar.variableList, hp, h]

@[simp]
theorem variableStatement (hp : p.Sited source) {Q : Stmt → Prop} (h : ∀ v, Q v) :
    (Grammar.variableStatement p ctx).Sited source Q := by
  simp [Grammar.variableStatement, hp, h]

@[simp]
theorem isLexicalDeclaration {Q : Bool → Prop} (h : ∀ v, Q v) :
    Grammar.isLexicalDeclaration.Sited source Q := by
  simp [Grammar.isLexicalDeclaration, h]

@[simp]
theorem isAsyncFunction {Q : Bool → Prop} (h : ∀ v, Q v) :
    Grammar.isAsyncFunction.Sited source Q := by
  simp [Grammar.isAsyncFunction, h]

/-! ## Loops -/

@[simp]
theorem inParentheses (hp : p.Sited source) {Q : String × Expr × String → Prop} (h : ∀ v, Q v) :
    (Grammar.inParentheses p ctx).Sited source Q := by
  simp [Grammar.inParentheses, hp, h]

@[simp]
theorem loopBody (hp : p.Sited source) {Q : Stmt → Prop} (h : ∀ v, Q v) :
    (Grammar.loopBody p ctx).Sited source Q := hp.ofStatement h

@[simp]
theorem optionalBefore (hp : p.Sited source) {close : String} {Q : Tree (.maybe .expr) → Prop}
    (h : ∀ v, Q v) : (Grammar.optionalBefore p ctx close).Sited source Q := by
  simp [Grammar.optionalBefore, hp, h]

section

variable {head : ForHead} {Q : Stmt → Prop}

@[simp]
theorem finishFor (hp : p.Sited source) {init : Tree (.maybe .forInit)} (h : ∀ v, Q v) :
    (Grammar.finishFor p ctx head init).Sited source Q := by
  simp [Grammar.finishFor, hp, h]

@[simp]
theorem finishForEach (hp : p.Sited source) {left : Tree .forTarget} (h : ∀ v, Q v) :
    (Grammar.finishForEach p ctx head left).Sited source Q := by
  simp [Grammar.finishForEach, Grammar.finishForIn, Grammar.finishForOf, hp, h]

@[simp]
theorem checkLoopVariables {kind : VariableKind} {items : List (Tree .declarator)}
    {Q : Unit → Prop} (ht : t.IsOf source) (h : Q ()) :
    (Grammar.checkLoopVariables kind t items).Sited source Q :=
  Meets.checkLoopVariables (fun _ _ => ht.site) h

@[simp]
theorem forVariables (hp : p.Sited source) (h : ∀ v, Q v) :
    (Grammar.forVariables p ctx head).Sited source Q := by
  simp only [Grammar.forVariables, sited_bind, here, sited_look]
  refine fun first hfirst => variableList hp fun v => finish fun span t ht => ?_
  split
  · simp [hp, hfirst, h]
  · exact sited_bind.2 (checkLoopVariables ht (finishFor hp h))

@[simp]
theorem forExpression (hp : p.Sited source) (h : ∀ v, Q v) :
    (Grammar.forExpression p ctx head).Sited source Q := by
  simp only [Grammar.forExpression, sited_bind, sited_look, sited_pending, sited_ite]
  refine fun first hfirst before hb => sited_setPending.2
    ⟨fun _ h => absurd h (Option.not_mem_none _), hp.ofCover fun value t _ =>
      ⟨fun _ => ?_, fun _ => ?_⟩⟩
  · exact assignmentTarget hfirst fun target => ⟨hb, finishForEach hp h⟩
  · exact rejectPending ⟨hb, sequenceFrom hp fun init => finishFor hp h⟩

@[simp]
theorem forAwait {Q : Option String → Prop} (h : ∀ v, Q v) :
    (Grammar.forAwait ctx).Sited source Q := by
  simp +contextual [Grammar.forAwait, h]

@[simp]
theorem forLoop (hp : p.Sited source) (h : ∀ v, Q v) :
    (Grammar.forLoop p ctx).Sited source Q := by
  simp [Grammar.forLoop, hp, h]

@[simp]
theorem whileLoop (hp : p.Sited source) (h : ∀ v, Q v) :
    (Grammar.whileLoop p ctx).Sited source Q := by
  simp [Grammar.whileLoop, hp, h]

@[simp]
theorem doWhileLoop (hp : p.Sited source) (h : ∀ v, Q v) :
    (Grammar.doWhileLoop p ctx).Sited source Q := by
  simp [Grammar.doWhileLoop, hp, h]

end

/-! ## Statements -/

section

variable {Q : Stmt → Prop}

@[simp]
theorem block (hp : p.Sited source) {Q : Tree .block → Prop} (h : ∀ v, Q v) :
    (Grammar.block p ctx).Sited source Q := by
  simp [Grammar.block, hp, h]

@[simp]
theorem emptyStatement (h : ∀ v, Q v) : Grammar.emptyStatement.Sited source Q := by
  simp [Grammar.emptyStatement, h]

@[simp]
theorem elseClause (hp : p.Sited source) {Q : Tree (.maybe .elseClause) → Prop} (h : ∀ v, Q v) :
    (Grammar.elseClause p ctx).Sited source Q := by
  simp [Grammar.elseClause, hp, h]

@[simp]
theorem ifStatement (hp : p.Sited source) (h : ∀ v, Q v) :
    (Grammar.ifStatement p ctx).Sited source Q := by
  simp [Grammar.ifStatement, hp, h]

@[simp]
theorem withStatement (hp : p.Sited source) (h : ∀ v, Q v) :
    (Grammar.withStatement p ctx).Sited source Q := by
  simp +contextual [Grammar.withStatement, hp, h]

@[simp]
theorem nestedFunction (hp : p.Sited source) (h : ∀ v, Q v) :
    (Grammar.nestedFunction p ctx).Sited source Q := by
  simp +contextual [Grammar.nestedFunction, hp, h]

@[simp]
theorem jumpLabel {Q : Option Ident → Prop} (h : ∀ v, Q v) :
    (Grammar.jumpLabel ctx).Sited source Q := by
  simp +contextual [Grammar.jumpLabel, h]

@[simp]
theorem breakStatement (h : ∀ v, Q v) : (Grammar.breakStatement ctx).Sited source Q := by
  simp +contextual [Grammar.breakStatement, h]

@[simp]
theorem continueStatement (h : ∀ v, Q v) : (Grammar.continueStatement ctx).Sited source Q := by
  simp +contextual [Grammar.continueStatement, h]

@[simp]
theorem returnStatement (hp : p.Sited source) (h : ∀ v, Q v) :
    (Grammar.returnStatement p ctx).Sited source Q := by
  simp +contextual [Grammar.returnStatement, hp, h]

@[simp]
theorem throwStatement (hp : p.Sited source) (h : ∀ v, Q v) :
    (Grammar.throwStatement p ctx).Sited source Q := by
  simp +contextual [Grammar.throwStatement, hp, h]

@[simp]
theorem debuggerStatement (h : ∀ v, Q v) : (Grammar.debuggerStatement ctx).Sited source Q := by
  simp [Grammar.debuggerStatement, h]

@[simp]
theorem catchParameter (hp : p.Sited source) {Q : Tree (.maybe .catchParam) → Prop}
    (h : ∀ v, Q v) : (Grammar.catchParameter p ctx).Sited source Q := by
  simp only [Grammar.catchParameter, sited_bind]
  refine accept fun openLead => ?_
  cases openLead <;> simp +contextual [hp, h]

@[simp]
theorem catchClause (hp : p.Sited source) {Q : Tree (.maybe .catchClause) → Prop}
    (h : ∀ v, Q v) : (Grammar.catchClause p ctx).Sited source Q := by
  simp [Grammar.catchClause, hp, h]

@[simp]
theorem finallyClause (hp : p.Sited source) {Q : Tree (.maybe .finallyClause) → Prop}
    (h : ∀ v, Q v) : (Grammar.finallyClause p ctx).Sited source Q := by
  simp [Grammar.finallyClause, hp, h]

@[simp]
theorem tryStatement (hp : p.Sited source) (h : ∀ v, Q v) :
    (Grammar.tryStatement p ctx).Sited source Q := by
  simp +contextual [Grammar.tryStatement, hp, h]

@[simp]
theorem clauseHead (hp : p.Sited source) {hasDefault : Bool}
    {Q : String × Tree (.maybe .expr) → Prop} (h : ∀ v, Q v) :
    (Grammar.clauseHead p ctx hasDefault).Sited source Q := by
  simp +contextual [Grammar.clauseHead, hp, h]

@[simp]
theorem switchCases (hp : p.Sited source) {hasDefault : Bool} {rounds : Nat}
    {Q : List (Tree .switchCase) → Prop} (h : ∀ v, Q v) :
    (Grammar.switchCases p ctx hasDefault rounds).Sited source Q := by
  induction rounds generalizing hasDefault Q with
  | zero => exact stalled
  | succ rounds ih => simp [Grammar.switchCases, hp, h, ih]

@[simp]
theorem switchStatement (hp : p.Sited source) (h : ∀ v, Q v) :
    (Grammar.switchStatement p ctx).Sited source Q := by
  simp [Grammar.switchStatement, hp, h]

@[simp]
theorem labelledStatement (hp : p.Sited source) {start : Position} {label : Ident}
    (hs : start.site.IsOf source) (h : ∀ v, Q v) :
    (Grammar.labelledStatement p ctx start label).Sited source Q := by
  simp [Grammar.labelledStatement, hp, hs, h]

@[simp]
theorem expressionStatement (hp : p.Sited source) (h : ∀ v, Q v) :
    (Grammar.expressionStatement p ctx).Sited source Q := by
  simp only [Grammar.expressionStatement, sited_bind, sited_look]
  refine fun first hfirst => expression hp fun value after _ => ?_
  cases labelOf? first after value <;> simp [hp, hfirst, h]

@[simp]
theorem keywordStatement (hp : p.Sited source) {word : String} (h : ∀ v, Q v) :
    (Grammar.keywordStatement p ctx word).Sited source Q := by
  unfold Grammar.keywordStatement
  split <;> simp [hp, h]

theorem statement (hp : p.Sited source) (h : ∀ v, Q v) :
    (Grammar.statement p ctx).Sited source Q := by
  simp [Grammar.statement, hp, h]

@[simp]
theorem isImportExpression {Q : Bool → Prop} (h : ∀ v, Q v) :
    Grammar.isImportExpression.Sited source Q := by
  simp [Grammar.isImportExpression, h]

@[simp]
theorem keywordItem (hp : p.Sited source) (ht : t.IsOf source) (h : ∀ v, Q v) :
    (Grammar.keywordItem p ctx t).Sited source Q := by
  unfold Grammar.keywordItem
  split <;> simp [hp, ht, h, statement]

theorem item (hp : p.Sited source) (h : ∀ v, Q v) : (Grammar.item p ctx).Sited source Q := by
  simp +contextual [Grammar.item, hp, h, statement]

end

/-! ## Imports and exports -/

@[simp]
theorem moduleSource {Q : Literal → Prop} (h : ∀ v, Q v) :
    (Grammar.moduleSource ctx).Sited source Q := by
  simp [Grammar.moduleSource, h]

@[simp]
theorem exportName {Q : ExportName → Prop} (h : ∀ v, Q v) :
    (Grammar.exportName ctx).Sited source Q := by
  simp +contextual [Grammar.exportName, h]

@[simp]
theorem expectFrom {Q : String → Prop} (h : ∀ v, Q v) : Grammar.expectFrom.Sited source Q := by
  simp +contextual [Grammar.expectFrom, h]

@[simp]
theorem exportAlias {Q : Option ExportAlias → Prop} (h : ∀ v, Q v) :
    (Grammar.exportAlias ctx).Sited source Q := by
  simp [Grammar.exportAlias, h]

@[simp]
theorem importAlias {Q : Option ImportAlias → Prop} (ht : t.IsOf source) (h : ∀ v, Q v) :
    (Grammar.importAlias ctx t).Sited source Q := by
  simp [Grammar.importAlias, ht, h]

@[simp]
theorem importSpecifier {Q : ImportSpecifier → Prop} (h : ∀ v, Q v) :
    (Grammar.importSpecifier ctx).Sited source Q := by
  simp +contextual [Grammar.importSpecifier, h]

@[simp]
theorem namedImports {rounds : Nat} {Q : NamedImports → Prop} (h : ∀ v, Q v) :
    (Grammar.namedImports ctx rounds).Sited source Q := by
  simp [Grammar.namedImports, h]

@[simp]
theorem namespaceImport {Q : NamespaceImport → Prop} (h : ∀ v, Q v) :
    (Grammar.namespaceImport ctx).Sited source Q := by
  simp [Grammar.namespaceImport, h]

@[simp]
theorem importParts {rounds : Nat} {main : Option Ident} {commaLead : String}
    {Q : ImportClause → Prop} (h : ∀ v, Q v) :
    (Grammar.importParts ctx rounds main commaLead).Sited source Q := by
  simp [Grammar.importParts, h]

@[simp]
theorem importClause {rounds : Nat} {Q : ImportClause → Prop} (h : ∀ v, Q v) :
    (Grammar.importClause ctx rounds).Sited source Q := by
  simp only [Grammar.importClause, sited_bind, sited_look, sited_ite]
  refine fun t _ => ⟨fun _ => bindingName fun main => accept fun commaLead => ?_, fun _ => ?_⟩
  · cases commaLead <;> simp [h]
  · exact importParts h

@[simp]
theorem importDeclaration {rounds : Nat} {Q : Stmt → Prop} (h : ∀ v, Q v) :
    (Grammar.importDeclaration ctx rounds).Sited source Q := by
  simp [Grammar.importDeclaration, h]

section

variable {Q : Stmt → Prop}

@[simp]
theorem exportValue (hp : p.Sited source) {Q : Tree .exportValue → Prop} (h : ∀ v, Q v) :
    (Grammar.exportValue p ctx).Sited source Q := by
  simp [Grammar.exportValue, hp, h]

@[simp]
theorem exportDefault (hp : p.Sited source) (h : ∀ v, Q v) :
    (Grammar.exportDefault p ctx t).Sited source Q := by
  simp [Grammar.exportDefault, hp, h]

@[simp]
theorem exportAll (h : ∀ v, Q v) : (Grammar.exportAll ctx t).Sited source Q := by
  simp [Grammar.exportAll, h]

/-- The token that an entry begins with lies in the source. -/
theorem exportSpecifier :
    (Grammar.exportSpecifier ctx).Sited source fun entry => entry.2.IsOf source := by
  simp +contextual [Grammar.exportSpecifier]

@[simp]
theorem checkLocalNames {locals : List Token} {Q : Unit → Prop}
    (hl : ∀ t ∈ locals, t.IsOf source) (h : Q ()) :
    (Grammar.checkLocalNames ctx locals).Sited source Q := by
  induction locals with
  | nil => exact h
  | cons t ts ih =>
    have hrest := ih fun t ht => hl t (List.mem_cons_of_mem _ ht)
    simp [Grammar.checkLocalNames, hl t List.mem_cons_self, hrest]

@[simp]
theorem exportOrigin {locals : List Token} {Q : Option FromClause → Prop}
    (hl : ∀ t ∈ locals, t.IsOf source) (h : ∀ v, Q v) :
    (Grammar.exportOrigin ctx locals).Sited source Q := by
  simp only [Grammar.exportOrigin, sited_bind, sited_ite]
  refine seesWord fun _ => ⟨fun _ => lead fun _ => moduleSource fun _ => h _, fun _ => ?_⟩
  exact checkLocalNames hl (h _)

@[simp]
theorem exportNames {rounds : Nat} (h : ∀ v, Q v) :
    (Grammar.exportNames ctx rounds t).Sited source Q := by
  simp only [Grammar.exportNames, sited_bind]
  refine expect fun openLead => (listedAll exportSpecifier).imp fun read hread => ?_
  refine expect fun closeLead => exportOrigin (fun t ht => ?_) fun origin => by simp [h]
  obtain ⟨entry, hmem, rfl⟩ := List.mem_map.1 ht
  exact hread entry hmem

@[simp]
theorem seesDeclaration {Q : Bool → Prop} (h : ∀ v, Q v) :
    Grammar.seesDeclaration.Sited source Q := by
  simp [Grammar.seesDeclaration, h]

@[simp]
theorem exportedDeclaration (hp : p.Sited source) (h : ∀ v, Q v) :
    (Grammar.exportedDeclaration p ctx t).Sited source Q := by
  simp [Grammar.exportedDeclaration, hp, h]

@[simp]
theorem exportDeclaration (hp : p.Sited source) (h : ∀ v, Q v) :
    (Grammar.exportDeclaration p ctx).Sited source Q := by
  simp [Grammar.exportDeclaration, hp, h]

@[simp]
theorem moduleItem (hp : p.Sited source) (h : ∀ v, Q v) :
    (Grammar.moduleItem p ctx).Sited source Q := by
  simp [Grammar.moduleItem, hp, h]

end

end Parse.Sited

/-! ## The language -/

namespace Productions.Sited

open Parse.Sited

variable {source : String} {p : Productions}

/-- Productions of no depth fail at the lookahead. -/
theorem exhausted : Productions.exhausted.Sited source where
  expression _ := stalled
  assignment _ := stalled
  cover _ := stalled
  binary _ _ := stalled
  exponentiation _ := stalled
  unary _ := stalled
  chain _ := stalled
  callee _ := stalled
  binding _ _ := stalled
  statement _ := stalled
  item _ := stalled
  markup _ _ _ _ := stalled

/-- Productions that call ones whose errors have places of the source are such. -/
theorem deepen (hp : p.Sited source) : p.deepen.Sited source where
  expression _ := Parse.Sited.expression hp fun _ => trivial
  assignment _ := Parse.Sited.assignment hp fun _ => trivial
  cover _ := Parse.Sited.cover hp fun _ => trivial
  binary _ _ := Parse.Sited.binary hp fun _ => trivial
  exponentiation _ := Parse.Sited.exponentiation hp fun _ => trivial
  unary _ := Parse.Sited.unary hp fun _ => trivial
  chain _ := Parse.Sited.chain hp fun _ => trivial
  callee _ := Parse.Sited.callee hp fun _ => trivial
  binding _ _ := Parse.Sited.binding hp fun _ => trivial
  statement _ := Parse.Sited.statement hp fun _ => trivial
  item _ := Parse.Sited.item hp fun _ => trivial
  markup _ _ _ _ := Parse.Sited.markup hp fun _ => trivial

/-- The productions of every depth report errors in the source. -/
theorem ofDepth (depth : Nat) : (Productions.ofDepth depth).Sited source := by
  induction depth with
  | zero => exact exhausted
  | succ depth ih => exact ih.deepen

end Productions.Sited

/-- So does the production of a whole source. -/
theorem Parse.Sited.program {source : String} {p : Productions} (hp : p.Sited source) (goal : Goal)
    (allowsMarkup : Bool) :
    (Grammar.program p goal allowsMarkup).Sited source fun _ => True := by
  cases goal <;> simp [Grammar.program, hp]

end Verbatim
