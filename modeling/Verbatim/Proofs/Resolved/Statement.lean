import Verbatim.Proofs.Resolved.Operation

/-!
# Statements and the whole source

The statements that a source consists of are resolved, to every depth of the productions.

## Main results

* `Verbatim.Productions.Resolves.ofDepth` — productions of every depth.
* `Verbatim.Parse.Resolves.program` — the production of a whole source.
-/

namespace Verbatim

open Verbatim.Grammar

namespace Parse.Resolves

variable {p : Productions} {ctx : Context} {t : Token} {s : Bool}

/-! ## Declarations -/

theorem variableValue (hp : p.Resolves) {inLoopHead : Bool} {kind : VariableKind} {target : Pattern}
    {post : Tree (.maybe .initializer) → Bool → Prop} (h : ∀ v, v.Resolved false → post v s) :
    (Grammar.variableValue p ctx inLoopHead kind target).Resolves s post := by
  simp only [Grammar.variableValue, resolves_bind, resolves_look, resolves_ite, resolves_pure]
  refine fun _ =>
    ⟨fun _ => lead fun _ => hp.ofAssignment fun _ hv => h _ (.present (.initializer hv)),
    fun _ => ⟨fun _ => ?_, fun _ => h _ .absent⟩⟩
  cases Grammar.missingValue? kind target with
  | none => exact h _ .absent
  | some fault => trivial

theorem declarator (hp : p.Resolves) {inLoopHead : Bool} {kind : VariableKind} :
    (Grammar.declarator p ctx inLoopHead kind).Resolves s fun v s' => s' = s ∧
    v.Resolved false := by
  simp only [Grammar.declarator, resolves_bind, resolves_ite, resolves_tolerate, implies_true,
    true_and]
  exact here fun _ => hp.ofBinding fun _ htarget _ => variableValue hp fun _ hv => finish fun _ =>
    ⟨rfl, .declarator htarget hv⟩

theorem variableList (hp : p.Resolves) {inLoopHead : Bool} {post : Variables → Bool → Prop}
    (h : ∀ v, (∀ ending span, (v.declare ending span).Resolved false) → post v s) :
    (Grammar.variableList p ctx inLoopHead).Resolves s post :=
  fun _ => (declarator hp).imp fun _ _ hfirst => hfirst.1 ▸ afterCommas (declarator hp) fun _ hr =>
    h _ fun _ _ => .declaration (Tree.Resolved.ofList_iff.2 (List.forall_mem_cons.2 ⟨hfirst.2, hr⟩))

theorem variableStatement (hp : p.Resolves) {post : Stmt → Bool → Prop}
    (h : ∀ v, v.Resolved false → post v s) : (Grammar.variableStatement p ctx).Resolves s post :=
  here fun _ => variableList hp fun _ hv => terminator fun _ => finish fun _ =>
    h _ (.declarationStmt (hv _ _))

@[simp]
theorem isLexicalDeclaration {post : Bool → Bool → Prop} (h : ∀ v, post v s) :
    Grammar.isLexicalDeclaration.Resolves s post := fun _ => h _

@[simp]
theorem isAsyncFunction {post : Bool → Bool → Prop} (h : ∀ v, post v s) :
    Grammar.isAsyncFunction.Resolves s post := fun _ => h _

/-! ## Loops -/

theorem inParentheses (hp : p.Resolves) {post : String × Expr × String → Bool → Prop}
    (h : ∀ v, v.2.1.Resolved false → post v s) : (Grammar.inParentheses p ctx).Resolves s post :=
  expect fun _ => hp.ofExpression fun v hv => expect fun closeLead => h (_, v, closeLead) hv

theorem optionalBefore (hp : p.Resolves) {close : String} {post : Tree (.maybe .expr) → Bool → Prop}
    (h : ∀ v, v.Resolved false → post v s) :
    (Grammar.optionalBefore p ctx close).Resolves s post := by
  simp only [Grammar.optionalBefore, resolves_bind, resolves_ite, resolves_pure]
  exact sees fun _ => ⟨fun _ => h _ .absent, fun _ => hp.ofExpression fun _ hv => h _ (.present hv)⟩

section

variable {head : ForHead} {post : Stmt → Bool → Prop}

theorem finishFor (hp : p.Resolves) {init : Tree (.maybe .forInit)} (hinit : init.Resolved false)
    (h : ∀ v s', v.Resolved false → post v s') :
    (Grammar.finishFor p ctx head init).Resolves s post := by
  simp only [Grammar.finishFor, resolves_bind, resolves_ite, unexpectedHere, implies_true, true_and]
  exact fun _ => expect fun _ => optionalBefore hp fun _ htest => expect fun _ => optionalBefore hp
    fun _ hstep => expect fun _ => hp.ofStatement fun _ s' hbody => finish fun _ =>
      h _ s' (.forStmt hinit htest hstep hbody)

theorem finishForEach (hp : p.Resolves) {left : Tree .forTarget} (hleft : left.Resolved false)
    (h : ∀ v s', v.Resolved false → post v s') :
    (Grammar.finishForEach p ctx head left).Resolves s post := by
  simp only [Grammar.finishForEach, Grammar.finishForIn, Grammar.finishForOf, resolves_bind,
    resolves_ite, unexpectedHere, implies_true, true_and]
  refine seesKeyword fun _ => ⟨fun _ _ => lead fun _ => hp.ofExpression fun _ hright => ?_,
    fun _ => expectWord fun _ => hp.ofAssignment fun _ hright => ?_⟩
  · exact expect fun _ => hp.ofStatement fun _ s' hbody => finish fun _ =>
      h _ s' (.forInStmt hleft hright hbody)
  · exact expect fun _ => hp.ofStatement fun _ s' hbody => finish fun _ =>
      h _ s' (.forOfStmt hleft hright hbody)

@[simp]
theorem checkLoopVariables {kind : VariableKind} {items : List (Tree .declarator)}
    {post : Unit → Bool → Prop} (h : post () s) :
    (Grammar.checkLoopVariables kind t items).Resolves s post :=
  Meets.checkLoopVariables (fun _ _ => trivial) h

theorem forVariables (hp : p.Resolves) (h : ∀ v s', v.Resolved false → post v s') :
    (Grammar.forVariables p ctx head).Resolves s post := by
  simp only [Grammar.forVariables, resolves_bind, resolves_look]
  refine here fun _ => variableList hp fun _ hv => finish fun _ _ => ?_
  split
  · simp only [resolves_ite, resolves_bind, resolves_reject, implies_true, true_and]
    exact fun _ => finishForEach hp (.targetDeclaration (hv _ _)) h
  · exact checkLoopVariables (finishFor hp (.present (.forDeclaration (hv _ _))) h)

/-- What is read in front of `in` or `of` becomes a target; in front of a semicolon it must be
resolved. -/
theorem forExpression (hp : p.Resolves) (h : ∀ v s', v.Resolved false → post v s') :
    (Grammar.forExpression p ctx head).Resolves s post := by
  simp only [Grammar.forExpression, resolves_bind, resolves_look, resolves_ite]
  refine fun _ before hbefore => clear (hp.ofCover fun value s' _ hvalue t =>
    ⟨fun _ => assignmentTarget (.of_resolved hvalue) fun _ htarget => restore hbefore ?_,
      fun _ => rejectPending fun hs => restore hbefore ?_⟩)
  · exact finishForEach hp (.targetPattern htarget) h
  · exact sequenceFrom hp (hs ▸ hvalue) fun _ hinit => finishFor hp (.present (.forExpr hinit)) h

@[simp]
theorem forAwait {post : Option String → Bool → Prop} (h : ∀ v, post v s) :
    (Grammar.forAwait ctx).Resolves s post := by
  simp [Grammar.forAwait, h]

/-- A loop is resolved, its head included. -/
theorem forLoop (hp : p.Resolves) (h : ∀ v s', v.Resolved false → post v s') :
    (Grammar.forLoop p ctx).Resolves s post := by
  have hvariables : ∀ {head}, (Grammar.forVariables p ctx head).Resolves s post := forVariables hp h
  have hexpression : ∀ {head}, (Grammar.forExpression p ctx head).Resolves s post :=
    forExpression hp h
  simp only [Grammar.forLoop, resolves_bind, resolves_next, resolves_look]
  refine fun _ => forAwait fun _ => expect fun _ _ => resolves_ite.mpr
    ⟨fun _ => finishFor hp .absent h,
    fun _ => ?_⟩
  simp only [resolves_bind, resolves_ite, resolves_pure]
  refine ⟨fun _ => ?_, fun _ => ⟨fun _ => isLexicalDeclaration fun _ => ?_, fun _ => ?_⟩⟩
  all_goals exact ⟨fun _ => hvariables, fun _ => hexpression⟩

theorem whileLoop (hp : p.Resolves) (h : ∀ v s', v.Resolved false → post v s') :
    (Grammar.whileLoop p ctx).Resolves s post :=
  fun _ => inParentheses hp fun _ htest => hp.ofStatement fun _ s' hbody => finish fun _ =>
    h _ s' (.whileStmt htest hbody)

theorem doWhileLoop (hp : p.Resolves) (h : ∀ v s', v.Resolved false → post v s') :
    (Grammar.doWhileLoop p ctx).Resolves s post := by
  simp only [Grammar.doWhileLoop, resolves_bind, resolves_next, resolves_ite, resolves_pure]
  refine fun _ => hp.ofStatement fun _ s' hbody => expectKeyword fun _ => inParentheses hp
    fun _ htest => sees fun _ => ⟨fun _ => terminator fun _ => finish fun _ => ?_,
      fun _ => finish fun _ => ?_⟩
  · exact h _ s' (.doWhileStmt hbody htest)
  · exact h _ s' (.doWhileStmt hbody htest)

end

/-! ## Statements -/

theorem block (hp : p.Resolves) {post : Tree .block → Bool → Prop}
    (h : ∀ v s', v.Resolved false → post v s') : (Grammar.block p ctx).Resolves s post :=
  here fun _ => expect fun _ => items hp fun _ s' hstmts => expect fun _ => finish fun _ =>
    h _ s' (.block (Tree.Resolved.ofList_iff.2 hstmts))

@[simp]
theorem jumpLabel {post : Option Ident → Bool → Prop} (h : ∀ v, post v s) :
    (Grammar.jumpLabel ctx).Resolves s post := by
  simp [Grammar.jumpLabel, h]

theorem catchParameter (hp : p.Resolves) {post : Tree (.maybe .catchParam) → Bool → Prop}
    (h : ∀ v, v.Resolved false → post v s) : (Grammar.catchParameter p ctx).Resolves s post := by
  simp only [Grammar.catchParameter, resolves_bind]
  refine accept fun openLead => ?_
  cases openLead with
  | none => exact h _ .absent
  | some openLead =>
    simp only [resolves_bind, resolves_look, resolves_ite, resolves_reject, implies_true, true_and]
    exact fun _ => hp.ofBinding fun _ hv _ => expect fun _ => h _ (.present (.catchParam hv))

theorem catchClause (hp : p.Resolves) {post : Tree (.maybe .catchClause) → Bool → Prop}
    (h : ∀ v s', v.Resolved false → post v s') : (Grammar.catchClause p ctx).Resolves s post := by
  simp only [Grammar.catchClause, resolves_bind, resolves_look, resolves_ite, resolves_pure]
  refine fun _ =>
    ⟨fun _ => h _ s .absent, fun _ => lead fun _ => catchParameter hp fun _ hparam => ?_⟩
  exact block hp fun _ s' hbody => finish fun _ => h _ s' (.present (.catchClause hparam hbody))

theorem finallyClause (hp : p.Resolves) {post : Tree (.maybe .finallyClause) → Bool → Prop}
    (h : ∀ v s', v.Resolved false → post v s') : (Grammar.finallyClause p ctx).Resolves s post := by
  simp only [Grammar.finallyClause, resolves_bind, resolves_ite, resolves_pure]
  exact seesKeyword fun _ => ⟨fun _ => lead fun _ => block hp fun _ s' hbody =>
    h _ s' (.present (.finallyClause hbody)), fun _ => h _ s .absent⟩

theorem elseClause (hp : p.Resolves) {post : Tree (.maybe .elseClause) → Bool → Prop}
    (h : ∀ v s', v.Resolved false → post v s') : (Grammar.elseClause p ctx).Resolves s post := by
  simp only [Grammar.elseClause, resolves_bind, resolves_ite, resolves_pure]
  exact seesKeyword fun _ => ⟨fun _ => lead fun _ => hp.ofStatement fun _ s' hbody =>
    h _ s' (.present (.elseClause hbody)), fun _ => h _ s .absent⟩

theorem clauseHead (hp : p.Resolves) {hasDefault : Bool}
    {post : String × Tree (.maybe .expr) → Bool → Prop} (h : ∀ r, r.2.Resolved false → post r s) :
    (Grammar.clauseHead p ctx hasDefault).Resolves s post := by
  simp only [Grammar.clauseHead, resolves_bind, resolves_look, resolves_ite, resolves_pure,
    resolves_reject, implies_true, true_and]
  refine fun _ => ⟨fun _ => lead fun caseLead => hp.ofExpression fun v hv => ?_, fun _ _ => ?_⟩
  · exact h (caseLead, .present v) (.present hv)
  · exact expectKeyword fun _ => h (_, .absent) .absent

/-- The cases of a switch are resolved. -/
theorem switchCases (hp : p.Resolves) {hasDefault : Bool} {rounds : Nat}
    {post : List (Tree .switchCase) → Bool → Prop}
    (h : ∀ vs s', (∀ v ∈ vs, v.Resolved false) → post vs s') :
    (Grammar.switchCases p ctx hasDefault rounds).Resolves s post := by
  induction rounds generalizing s hasDefault post with
  | zero => exact stalled
  | succ rounds ih =>
    simp only [Grammar.switchCases, resolves_bind, resolves_ite, resolves_pure]
    refine sees fun _ => ⟨fun _ => h _ s (List.forall_mem_nil _),
      fun _ => here fun _ => clauseHead hp fun _ htest => ?_⟩
    refine expect fun _ => manyAny (hp.item ctx) fun _ _ hbody => finish fun _ =>
      ih fun vs s' hvs => ?_
    refine h _ s' (List.forall_mem_cons.2 ⟨.switchCase htest ?_, hvs⟩)
    exact Tree.Resolved.ofList_iff.2 hbody

section

variable {post : Stmt → Bool → Prop}

theorem emptyStatement (h : ∀ v, v.Resolved false → post v s) :
    Grammar.emptyStatement.Resolves s post := fun _ => finish fun _ => h _ .emptyStmt

theorem ifStatement (hp : p.Resolves) (h : ∀ v s', v.Resolved false → post v s') :
    (Grammar.ifStatement p ctx).Resolves s post :=
  fun _ => inParentheses hp fun _ htest => hp.ofStatement fun _ _ hthen => elseClause hp
    fun _ s' helse => finish fun _ => h _ s' (.ifStmt htest hthen helse)

theorem withStatement (hp : p.Resolves) (h : ∀ v s', v.Resolved false → post v s') :
    (Grammar.withStatement p ctx).Resolves s post := by
  simp only [Grammar.withStatement, resolves_bind, resolves_next, resolves_ite, resolves_tolerate,
    implies_true, true_and]
  exact fun _ _ => inParentheses hp fun _ hsubject => hp.ofStatement fun _ s' hbody =>
    finish fun _ =>
    h _ s' (.withStmt hsubject hbody)

theorem nestedFunction (hp : p.Resolves) (h : ∀ v, v.Resolved false → post v s) :
    (Grammar.nestedFunction p ctx).Resolves s post := by
  simp only [Grammar.nestedFunction, resolves_bind, resolves_look, resolves_ite, resolves_tolerate,
    implies_true, true_and]
  exact fun _ => functionDeclaration hp h

theorem breakStatement (h : ∀ v, v.Resolved false → post v s) :
    (Grammar.breakStatement ctx).Resolves s post := by
  simp only [Grammar.breakStatement, resolves_bind, resolves_next, resolves_ite, resolves_reject,
    implies_true, true_and]
  exact fun _ => jumpLabel fun _ _ => terminator fun _ => finish fun _ => h _ .breakStmt

theorem continueStatement (h : ∀ v, v.Resolved false → post v s) :
    (Grammar.continueStatement ctx).Resolves s post := by
  simp only [Grammar.continueStatement, resolves_bind, resolves_next, resolves_ite, resolves_reject,
    implies_true, true_and]
  exact fun _ _ => jumpLabel fun _ => terminator fun _ => finish fun _ => h _ .continueStmt

theorem debuggerStatement (h : ∀ v, v.Resolved false → post v s) :
    (Grammar.debuggerStatement ctx).Resolves s post :=
  fun _ => terminator fun _ => finish fun _ => h _ .debuggerStmt

theorem returnStatement (hp : p.Resolves) (h : ∀ v, v.Resolved false → post v s) :
    (Grammar.returnStatement p ctx).Resolves s post := by
  have hrest : ∀ {lead : String} {start : Position} {value : Tree (.maybe .expr)},
      value.Resolved false → (Parse.terminator ctx).Resolves s fun ending s' =>
        (Parse.finish .returnStmt start).Resolves s' fun span s' =>
          post (.returnStmt lead value ending span) s' :=
    fun hv => terminator fun _ => finish fun _ => h _ (.returnStmt hv)
  simp only [Grammar.returnStatement, resolves_bind, resolves_next, resolves_look, resolves_ite,
    resolves_tolerate, resolves_pure, resolves_map, implies_true, true_and]
  exact fun _ _ _ =>
    ⟨fun _ => hrest .absent, fun _ => hp.ofExpression fun _ hv => hrest (.present hv)⟩

theorem throwStatement (hp : p.Resolves) (h : ∀ v, v.Resolved false → post v s) :
    (Grammar.throwStatement p ctx).Resolves s post := by
  simp only [Grammar.throwStatement, resolves_bind, resolves_next, resolves_look, resolves_ite,
    resolves_reject, implies_true, true_and]
  exact fun _ _ _ => hp.ofExpression fun _ hv => terminator fun _ => finish fun _ =>
    h _ (.throwStmt hv)

theorem tryStatement (hp : p.Resolves) (h : ∀ v s', v.Resolved false → post v s') :
    (Grammar.tryStatement p ctx).Resolves s post := by
  simp only [Grammar.tryStatement, resolves_bind, resolves_next, resolves_ite, resolves_reject,
    implies_true, true_and]
  exact fun _ => block hp fun _ _ hguarded => catchClause hp fun _ _ hhandler => finallyClause hp
    fun _ s' hfinalizer _ => finish fun _ => h _ s' (.tryStmt hguarded hhandler hfinalizer)

theorem switchStatement (hp : p.Resolves) (h : ∀ v s', v.Resolved false → post v s') :
    (Grammar.switchStatement p ctx).Resolves s post :=
  fun _ => inParentheses hp fun _ hsubject => expect fun _ => switchCases hp fun _ s' hcases =>
    expect fun _ => finish fun _ => h _ s'
      (.switchStmt hsubject (Tree.Resolved.ofList_iff.2 hcases))

theorem labelledStatement (hp : p.Resolves) {start : Position} {label : Ident}
    (h : ∀ v s', v.Resolved false → post v s') :
    (Grammar.labelledStatement p ctx start label).Resolves s post := by
  simp only [Grammar.labelledStatement, resolves_bind, resolves_ite, resolves_reject, implies_true,
    true_and]
  exact fun _ => lead fun _ => hp.ofStatement fun _ s' hbody => finish fun _ =>
    h _ s' (.labeledStmt hbody)

theorem expressionStatement (hp : p.Resolves) (h : ∀ v s', v.Resolved false → post v s') :
    (Grammar.expressionStatement p ctx).Resolves s post := by
  simp only [Grammar.expressionStatement, resolves_bind, resolves_look]
  refine fun first => expression hp fun value hvalue after => ?_
  cases labelOf? first after value with
  | some label => exact labelledStatement hp h
  | none => exact terminator fun _ => finish fun _ => h _ s (.exprStmt hvalue)

/-- Statements that start with a reserved word are resolved. -/
theorem keywordStatement (hp : p.Resolves) {word : String}
    (h : ∀ v s', v.Resolved false → post v s') :
    (Grammar.keywordStatement p ctx word).Resolves s post := by
  unfold Grammar.keywordStatement
  split
  · exact breakStatement (h · s)
  · exact continueStatement (h · s)
  · exact debuggerStatement (h · s)
  · exact doWhileLoop hp h
  · exact forLoop hp h
  · exact nestedFunction hp (h · s)
  · exact ifStatement hp h
  · exact returnStatement hp (h · s)
  · exact switchStatement hp h
  · exact throwStatement hp (h · s)
  · exact tryStatement hp h
  · exact variableStatement hp (h · s)
  · exact whileLoop hp h
  · exact withStatement hp h
  · exact expressionStatement hp h

theorem statement (hp : p.Resolves) (h : ∀ v s', v.Resolved false → post v s') :
    (Grammar.statement p ctx).Resolves s post := by
  simp only [Grammar.statement, resolves_bind, resolves_look, resolves_ite, resolves_map]
  refine fun _ => ⟨fun _ => block hp fun _ s' hv => h _ s' (.blockStmt hv), fun _ =>
    ⟨fun _ => emptyStatement (h · s), fun _ => ⟨fun _ => keywordStatement hp h, fun _ => ?_⟩⟩⟩
  exact expressionStatement hp h

@[simp]
theorem isImportExpression {post : Bool → Bool → Prop} (h : ∀ v, post v s) :
    Grammar.isImportExpression.Resolves s post := fun _ => h _

theorem keywordItem (hp : p.Resolves) (h : ∀ v s', v.Resolved false → post v s') :
    (Grammar.keywordItem p ctx t).Resolves s post := by
  unfold Grammar.keywordItem
  split
  · exact functionDeclaration hp (h · s)
  · exact classDefinition hp fun _ s' _ hv => h _ s' (.classStmt hv)
  · exact variableStatement hp (h · s)
  · exact isImportExpression fun _ => resolves_ite.mpr ⟨fun _ => statement hp h, fun _ => trivial⟩
  · trivial
  · exact statement hp h

theorem item (hp : p.Resolves) (h : ∀ v s', v.Resolved false → post v s') :
    (Grammar.item p ctx).Resolves s post := by
  simp only [Grammar.item, resolves_bind, resolves_look, resolves_ite]
  refine fun _ => ⟨fun _ => keywordItem hp h, fun _ => ⟨fun _ => isLexicalDeclaration fun _ => ?_,
    fun _ => ⟨fun _ => isAsyncFunction fun _ => ?_, fun _ => statement hp h⟩⟩⟩
  · exact ⟨fun _ => variableStatement hp (h · s), fun _ => statement hp h⟩
  · exact ⟨fun _ => functionDeclaration hp (h · s), fun _ => statement hp h⟩

/-! ## Imports and exports -/

@[simp]
theorem moduleSource {post : Literal → Bool → Prop} (h : ∀ v, post v s) :
    (Grammar.moduleSource ctx).Resolves s post := by
  simp [Grammar.moduleSource, h]

@[simp]
theorem exportName {post : ExportName → Bool → Prop} (h : ∀ v, post v s) :
    (Grammar.exportName ctx).Resolves s post := by
  simp [Grammar.exportName, h]

@[simp]
theorem expectFrom {post : String → Bool → Prop} (h : ∀ v, post v s) :
    Grammar.expectFrom.Resolves s post := by
  simp [Grammar.expectFrom, h]

@[simp]
theorem exportAlias {post : Option ExportAlias → Bool → Prop} (h : ∀ v, post v s) :
    (Grammar.exportAlias ctx).Resolves s post := by
  simp only [Grammar.exportAlias, resolves_bind, resolves_ite, resolves_pure]
  exact seesWord fun _ => ⟨fun _ => lead fun _ => exportName fun _ => h _, fun _ => h _⟩

@[simp]
theorem importAlias {post : Option ImportAlias → Bool → Prop} (h : ∀ v, post v s) :
    (Grammar.importAlias ctx t).Resolves s post := by
  simp only [Grammar.importAlias, resolves_bind, resolves_ite, resolves_pure, unexpected,
    implies_true, true_and]
  exact seesWord fun _ => ⟨fun _ => lead fun _ => bindingName fun _ => h _,
    fun _ _ => checkReference (h _)⟩

@[simp]
theorem namedImports {rounds : Nat} {post : NamedImports → Bool → Prop} (h : ∀ v, post v s) :
    (Grammar.namedImports ctx rounds).Resolves s post := by
  refine expect fun _ => listedAll (P := fun _ => True) ?_ fun _ _ => expect fun _ => h _
  exact fun _ => exportName fun _ => importAlias fun _ => finish fun _ => ⟨rfl, trivial⟩

@[simp]
theorem importParts {rounds : Nat} {main : Option Ident} {commaLead : String}
    {post : ImportClause → Bool → Prop} (h : ∀ v, post v s) :
    (Grammar.importParts ctx rounds main commaLead).Resolves s post := by
  simp only [Grammar.importParts, Grammar.namespaceImport, resolves_bind, resolves_ite,
    resolves_pure, unexpectedHere, implies_true, and_true]
  refine sees fun _ => ⟨fun _ => here fun _ => lead fun _ => expectWord fun _ => ?_, fun _ => ?_⟩
  · exact bindingName fun _ => finish fun _ => h _
  · exact sees fun _ _ => namedImports fun _ => h _

@[simp]
theorem importClause {rounds : Nat} {post : ImportClause → Bool → Prop} (h : ∀ v, post v s) :
    (Grammar.importClause ctx rounds).Resolves s post := by
  simp only [Grammar.importClause, resolves_bind, resolves_look, resolves_ite]
  refine fun _ => ⟨fun _ => bindingName fun _ => accept fun commaLead => ?_, fun _ => importParts h⟩
  cases commaLead <;> simp [h]

theorem importDeclaration {rounds : Nat} (h : ∀ v, v.Resolved false → post v s) :
    (Grammar.importDeclaration ctx rounds).Resolves s post := by
  have hrest : ∀ {lead fromLead : String} {clause : Option ImportClause} {start : Position},
      (Grammar.moduleSource ctx).Resolves s fun source s' =>
        (Parse.terminator ctx).Resolves s' fun ending s' =>
          (Parse.finish .importDecl start).Resolves s' fun span s' =>
            post (.importStmt { lead, clause, fromLead, source, terminator := ending, span }) s' :=
    moduleSource fun _ => terminator fun _ => finish fun _ => h _ .importStmt
  simp only [Grammar.importDeclaration, resolves_bind, resolves_next, resolves_look, resolves_ite,
    resolves_pure]
  exact fun _ _ => ⟨fun _ => hrest, fun _ => importClause fun _ => expectFrom fun _ => hrest⟩

/-- What is exported by default is resolved. -/
theorem exportValue (hp : p.Resolves) {post : Tree .exportValue → Bool → Prop}
    (h : ∀ v s', v.Resolved false → post v s') : (Grammar.exportValue p ctx).Resolves s post := by
  have hfunction : (Grammar.function p ctx true true).Resolves s fun v s' =>
      post (.exportFunction v) s' := function hp fun _ hv => h _ s (.exportFunction hv)
  have hclass : (Grammar.classDefinition p ctx true false).Resolves s fun v s' =>
      post (.exportClass v) s' := classDefinition hp fun _ s' _ hv => h _ s' (.exportClass hv)
  have hvalue : (p.assignment ctx).Resolves s fun v s' =>
      (Parse.terminator ctx).Resolves s' fun ending s' => post (.exportExpr v ending) s' :=
    hp.ofAssignment fun _ hv => terminator fun _ => h _ s (.exportExpr hv)
  simp only [Grammar.exportValue, resolves_bind, resolves_look, resolves_ite, resolves_pure,
    resolves_map]
  refine fun _ => ⟨fun _ => ?_, fun _ => ⟨fun _ => isAsyncFunction fun _ => ?_, fun _ => ?_⟩⟩
  all_goals exact ⟨fun _ => hfunction, fun _ => ⟨fun _ => hclass, fun _ => hvalue⟩⟩

@[simp]
theorem checkLocalNames {locals : List Token} {post : Unit → Bool → Prop} (h : post () s) :
    (Grammar.checkLocalNames ctx locals).Resolves s post := by
  induction locals with
  | nil => exact h
  | cons t ts ih => simp [Grammar.checkLocalNames, ih]

@[simp]
theorem exportOrigin {locals : List Token} {post : Option FromClause → Bool → Prop}
    (h : ∀ v, post v s) : (Grammar.exportOrigin ctx locals).Resolves s post := by
  simp only [Grammar.exportOrigin, resolves_bind, resolves_ite, resolves_pure]
  exact seesWord fun _ => ⟨fun _ => lead fun _ => moduleSource fun _ => h _,
    fun _ => checkLocalNames (h _)⟩

theorem exportNames {rounds : Nat} (h : ∀ v, v.Resolved false → post v s) :
    (Grammar.exportNames ctx rounds t).Resolves s post := by
  refine expect fun _ => listedAll (P := fun _ => True) ?_ fun _ _ => expect fun _ =>
    exportOrigin fun _ => terminator fun _ => finish fun _ => h _ (.exportNamed .absent)
  exact fun _ => exportName fun _ => exportAlias fun _ => finish fun _ => ⟨rfl, trivial⟩

@[simp]
theorem seesDeclaration {post : Bool → Bool → Prop} (h : ∀ v, post v s) :
    Grammar.seesDeclaration.Resolves s post := by
  simp [Grammar.seesDeclaration, h]

theorem exportAll (h : ∀ v, v.Resolved false → post v s) :
    (Grammar.exportAll ctx t).Resolves s post :=
  lead fun _ => exportAlias fun _ => expectFrom fun _ => moduleSource fun _ => terminator fun _ =>
    finish fun _ => h _ .exportAll

theorem exportDeclaration (hp : p.Resolves) (h : ∀ v s', v.Resolved false → post v s') :
    (Grammar.exportDeclaration p ctx).Resolves s post := by
  simp only [Grammar.exportDeclaration, Grammar.exportedDeclaration, resolves_bind, resolves_next,
    resolves_ite, unexpectedHere, implies_true, true_and]
  refine fun _ => seesKeyword fun _ => ⟨fun _ => ?_, fun _ => sees fun _ => ⟨fun _ => ?_, fun _ =>
    sees fun _ => ⟨fun _ => exportNames (h · s), fun _ => seesDeclaration fun _ _ => ?_⟩⟩⟩
  · exact lead fun _ => exportValue hp fun _ s' hv => finish fun _ => h _ s' (.exportDefault hv)
  · exact exportAll (h · s)
  · exact (hp.item ctx s).imp fun _ s' hv => finish fun _ => h _ s' (.exportNamed (.present hv))

theorem moduleItem (hp : p.Resolves) (h : ∀ v s', v.Resolved false → post v s') :
    (Grammar.moduleItem p ctx).Resolves s post := by
  have hitem : (p.item ctx).Resolves s post := (hp.item ctx s).imp h
  simp only [Grammar.moduleItem, resolves_bind, resolves_look, resolves_ite]
  refine fun _ => ⟨fun _ => isImportExpression fun _ => ⟨fun _ => hitem, fun _ => ?_⟩,
    fun _ => ⟨fun _ => exportDeclaration hp h, fun _ => hitem⟩⟩
  exact importDeclaration (h · s)

end

end Parse.Resolves

/-! ## The language -/

namespace Productions.Resolves

open Parse.Resolves

variable {p : Productions}

/-- Productions of no depth read nothing. -/
theorem exhausted : Productions.exhausted.Resolves where
  expression _ _ := stalled
  assignment _ _ := stalled
  cover _ _ := stalled
  binary _ _ _ := stalled
  exponentiation _ _ := stalled
  unary _ _ := stalled
  chain _ _ := stalled
  callee _ _ := stalled
  binding _ _ _ := stalled
  statement _ _ := stalled
  item _ _ := stalled
  markup _ _ _ _ _ := stalled

/-- Productions that call ones whose results are resolved are such. -/
theorem deepen (hp : p.Resolves) : p.deepen.Resolves where
  expression _ _ := Parse.Resolves.expression hp fun _ hv => ⟨rfl, hv⟩
  assignment _ _ := Parse.Resolves.assignment hp fun _ hv => ⟨rfl, hv⟩
  cover _ _ := Parse.Resolves.cover hp fun _ _ hs hv => ⟨hs, hv⟩
  binary _ _ _ := Parse.Resolves.binary hp fun _ _ hs hv => ⟨hs, hv⟩
  exponentiation _ _ := Parse.Resolves.exponentiation hp fun _ _ hs hv => ⟨hs, hv⟩
  unary _ _ := Parse.Resolves.unary hp fun _ _ hs hv => ⟨hs, hv⟩
  chain _ _ := Parse.Resolves.chain hp fun _ _ hs hv => ⟨hs, hv⟩
  callee _ _ := Parse.Resolves.callee hp fun _ _ hs hv => ⟨hs, hv⟩
  binding _ _ _ := Parse.Resolves.binding hp fun _ hv => ⟨rfl, hv⟩
  statement _ _ := Parse.Resolves.statement hp fun _ _ hv => hv
  item _ _ := Parse.Resolves.item hp fun _ _ hv => hv
  markup _ _ _ _ _ := Parse.Resolves.markup hp

/-- What the productions of every depth read is resolved. -/
theorem ofDepth (depth : Nat) : (Productions.ofDepth depth).Resolves := by
  induction depth with
  | zero => exact exhausted
  | succ depth ih => exact ih.deepen

end Productions.Resolves

/-- So is a whole source. -/
theorem Parse.Resolves.program {p : Productions} {s : Bool} (hp : p.Resolves) (goal : Goal)
    (allowsMarkup : Bool) :
    (Grammar.program p goal allowsMarkup).Resolves s fun program _ =>
      ∀ stmt ∈ program.body, stmt.Resolved false := by
  have hbody : ∀ {first : List Stmt} {one : Parse Stmt} {start : Position},
      (∀ stmt ∈ first, stmt.Resolved false) → (∀ s, one.Resolves s fun v _ => v.Resolved false) →
      (Parse.many Token.isEof one p.rounds).Resolves s fun rest s' =>
        ∀ _t : Token, (Parse.finish .program start).Resolves s' fun _ _ =>
          ∀ stmt ∈ first ++ rest, stmt.Resolved false := fun hfirst hone =>
    manyAny hone fun _ _ hrest _ => finish fun _ stmt hmem =>
      (List.mem_append.1 hmem).elim (hfirst stmt) (hrest stmt)
  refine here fun _ => prologueFrom hp fun r hr => ?_
  cases goal with
  | script => exact hbody hr fun s => hp.item _ s
  | module => exact hbody hr fun _ => moduleItem hp fun _ _ hv => hv

end Verbatim
