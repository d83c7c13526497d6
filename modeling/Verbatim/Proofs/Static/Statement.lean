import Verbatim.Proofs.Static.Operation

/-!
# Statements and the whole source

The statements of a source obey the rules, to every depth of the productions.

## Main results

* `Verbatim.Productions.Reads.ofDepth` — productions of every depth.
* `Verbatim.Parse.Reads.program` — the production of a whole source.
-/

namespace Verbatim

open Verbatim.Grammar

namespace Parse.Reads

variable {p : Productions} {clean : Bool} {ctx : Context} {s : Ahead} {t : CodeToken}

/-! ## Declarations -/

theorem variableValue (hp : p.Reads clean) {inLoopHead : Bool} {kind : VariableKind}
    {target : Pattern} {post : Tree (.maybe .initializer) → Ahead → Prop}
    (h : ∀ v u, v.Fits clean ctx → post v (.code u)) :
    (Grammar.variableValue p ctx inLoopHead kind target).Reads clean (.code t) post := by
  simp only [Grammar.variableValue, reads_bind, reads_look, reads_ite, reads_pure]
  refine ⟨fun _ _ => hp.ofAssignment fun _ u hv => h _ u (.present (.one hv trivial rfl)), fun _ =>
    ⟨fun _ => ?_, fun _ => h _ t .absent⟩⟩
  cases missingValue? kind target with
  | none => exact h _ t .absent
  | some fault => trivial

theorem declarator (hp : p.Reads clean) {inLoopHead : Bool} {kind : VariableKind} :
    (Grammar.declarator p ctx inLoopHead kind).Reads clean (.code t)
      (InCode (Tree.Fits clean ctx)) := by
  refine hp.ofBinding fun _ _ htarget => ite_tolerate fun _ => variableValue hp fun _ _ hv => ?_
  exact finish fun _ => .intro (.two htarget.fits hv htarget.mayBind rfl)

theorem variableList (hp : p.Reads clean) {inLoopHead : Bool} {post : Variables → Ahead → Prop}
    (h : ∀ v u, (∀ ending span, (v.declare ending span).Fits clean ctx) → post v (.code u)) :
    (Grammar.variableList p ctx inLoopHead).Reads clean (.code t) post :=
  fun _ => (declarator hp).into fun _ _ hfirst => afterCommas (fun _ => declarator hp) fun _ u hr =>
    h _ u fun _ _ => .one (.ofList (List.forall_mem_cons.2 ⟨hfirst, hr⟩)) trivial rfl

theorem isLexicalDeclaration {post : Bool → Ahead → Prop} (h : ∀ v, post v s) :
    Grammar.isLexicalDeclaration.Reads clean s post := fun _ => h _

theorem isAsyncFunction {post : Bool → Ahead → Prop} (h : ∀ v, post v s) :
    Grammar.isAsyncFunction.Reads clean s post := fun _ => h _

section

variable {head : ForHead} {post : Stmt → Ahead → Prop}

theorem variableStatement (hp : p.Reads clean) (h : ∀ v u, v.Stands clean ctx → post v (.code u)) :
    (Grammar.variableStatement p ctx).Reads clean (.code t) post :=
  variableList hp fun _ _ hv => terminator fun _ u => finish fun _ =>
    h (.declarationStmt _) u ⟨.one (hv _ _) trivial rfl, rfl⟩

/-! ## Loops -/

theorem inParentheses (hp : p.Reads clean) {post : String × Expr × String → Ahead → Prop}
    (h : ∀ r u, r.2.1.Fits clean ctx → post r (.code u)) :
    (Grammar.inParentheses p ctx).Reads clean (.code t) post :=
  expect fun openLead _ => hp.ofExpression fun v _ hv => expect fun closeLead u =>
    h (openLead, v, closeLead) u hv

theorem optionalBefore (hp : p.Reads clean) {close : String}
    {post : Tree (.maybe .expr) → Ahead → Prop} (h : ∀ v u, v.Fits clean ctx → post v (.code u)) :
    (Grammar.optionalBefore p ctx close).Reads clean (.code t) post := by
  simp only [Grammar.optionalBefore, reads_bind, reads_sees, reads_ite, reads_pure]
  exact ⟨fun _ => h _ t .absent, fun _ => hp.ofExpression fun _ u hv => h _ u (.present hv)⟩

theorem finishFor (hp : p.Reads clean) {init : Tree (.maybe .forInit)} (hinit : init.Fits clean ctx)
    (h : ∀ v u, v.Stands clean ctx → post v (.code u)) :
    (Grammar.finishFor p ctx head init).Reads clean (.code t) post := by
  simp only [Grammar.finishFor, reads_bind, reads_ite, reads_unexpectedHere, implies_true, true_and]
  exact fun _ => expect fun _ _ => optionalBefore hp fun _ _ htest => expect fun _ _ =>
    optionalBefore hp fun _ _ hstep => expect fun _ _ => hp.ofStatement fun _ u hbody =>
      finish fun _ => h (.forStmt ..) u ⟨.four hinit htest hstep hbody trivial rfl, rfl⟩

theorem finishForEach (hp : p.Reads clean) {left : Tree .forTarget} (hleft : left.Fits clean ctx)
    (h : ∀ v u, v.Stands clean ctx → post v (.code u)) :
    (Grammar.finishForEach p ctx head left).Reads clean (.code t) post := by
  simp only [Grammar.finishForEach, Grammar.finishForIn, Grammar.finishForOf, reads_bind,
    reads_seesKeyword, reads_lead, reads_ite, reads_unexpectedHere, implies_true, true_and]
  refine ⟨fun _ _ _ => hp.ofExpression fun _ _ hright => expect fun _ _ => ?_,
    fun _ => expectWord fun _ _ => hp.ofAssignment fun _ _ hright => expect fun _ _ => ?_⟩
  · exact hp.ofStatement fun _ u hbody => finish fun _ =>
      h (.forInStmt ..) u ⟨.three hleft hright hbody trivial rfl, rfl⟩
  · exact hp.ofStatement fun _ u hbody => finish fun _ =>
      h (.forOfStmt ..) u ⟨.three hleft hright hbody trivial rfl, rfl⟩

theorem forVariables (hp : p.Reads clean) (h : ∀ v u, v.Stands clean ctx → post v (.code u)) :
    (Grammar.forVariables p ctx head).Reads clean (.code t) post := by
  simp only [Grammar.forVariables, reads_bind, reads_here, reads_look]
  refine variableList hp fun v u hv => finish fun _ => ?_
  split
  · exact ite_reject fun _ => finishForEach hp (.one (hv _ _) trivial rfl) h
  · refine Meets.checkLoopVariables (fun _ _ => trivial) (finishFor hp (.present ?_) h)
    exact .one (hv _ _) trivial rfl

/-- What is read in front of `in` or `of` becomes a target that strict code may assign to. -/
theorem forExpression (hp : p.Reads clean) (h : ∀ v u, v.Stands clean ctx → post v (.code u)) :
    (Grammar.forExpression p ctx head).Reads clean (.code t) post := by
  simp only [Grammar.forExpression, reads_bind, reads_look, reads_pending,
    reads_setPending, reads_ite]
  refine fun _ => hp.ofCover fun value u hvalue => ⟨fun _ => ?_, fun _ => rejectPending ?_⟩
  · exact @assignmentTarget clean ctx _ _ _ _ _ hvalue fun _ htarget hnames =>
      finishForEach hp (.one htarget hnames rfl) h
  · exact sequenceFrom hp hvalue fun _ _ hinit => finishFor hp (.present (.one hinit trivial rfl)) h

theorem forAwait {post : Option String → Ahead → Prop} (h : ∀ v u, post v (.code u)) :
    (Grammar.forAwait ctx).Reads clean (.code t) post := by
  simp [Grammar.forAwait, h]

theorem forLoop (hp : p.Reads clean) (h : ∀ v u, v.Stands clean ctx → post v (.code u)) :
    (Grammar.forLoop p ctx).Reads clean (.code t) post := by
  have hvariables : ∀ {head u}, (Grammar.forVariables p ctx head).Reads clean (.code u) post :=
    forVariables hp h
  have hexpression : ∀ {head u}, (Grammar.forExpression p ctx head).Reads clean (.code u) post :=
    forExpression hp h
  refine fun _ => forAwait fun _ _ => expect fun _ u => reads_ite.mpr ⟨fun _ => ?_, fun _ => ?_⟩
  · exact finishFor hp .absent h
  · simp only [reads_bind, reads_ite, reads_pure]
    refine ⟨fun _ => ?_, fun _ => ⟨fun _ => isLexicalDeclaration fun _ => ?_, fun _ => ?_⟩⟩
    all_goals exact ⟨fun _ => hvariables, fun _ => hexpression⟩

theorem whileLoop (hp : p.Reads clean) (h : ∀ v u, v.Stands clean ctx → post v (.code u)) :
    (Grammar.whileLoop p ctx).Reads clean (.code t) post :=
  fun _ => inParentheses hp fun _ _ htest => hp.ofStatement fun _ u hbody => finish fun _ =>
    h (.whileStmt ..) u ⟨.two htest hbody trivial rfl, rfl⟩

theorem doWhileLoop (hp : p.Reads clean) (h : ∀ v u, v.Stands clean ctx → post v (.code u)) :
    (Grammar.doWhileLoop p ctx).Reads clean (.code t) post := by
  simp only [Grammar.doWhileLoop, reads_bind, reads_next, reads_sees, reads_ite, reads_pure]
  refine fun _ => hp.ofStatement fun _ _ hbody => expectKeyword fun _ _ => inParentheses hp
    fun _ u htest => ⟨fun _ => terminator fun _ u => finish fun _ => ?_,
      fun _ => finish fun _ => ?_⟩
  · exact h (.doWhileStmt ..) u ⟨.two hbody htest trivial rfl, rfl⟩
  · exact h (.doWhileStmt ..) u ⟨.two hbody htest trivial rfl, rfl⟩

end

/-! ## Statements -/

theorem block (hp : p.Reads clean) {post : Tree .block → Ahead → Prop}
    (h : ∀ v u, v.Fits clean ctx → post v (.code u)) :
    (Grammar.block p ctx).Reads clean (.code t) post :=
  expect fun _ _ => items hp fun _ _ hstmts => expect fun _ u => finish fun _ =>
    h _ u (.one (.ofList fun stmt hmem => (hstmts stmt hmem).fits) trivial rfl)

/-- The label of a jump is in scope. -/
theorem jumpLabel {post : Option Ident → Ahead → Prop}
    (h : ∀ label u, (∀ id ∈ label, ctx.labels.contains id.name = true) → post label (.code u)) :
    (Grammar.jumpLabel ctx).Reads clean (.code t) post := by
  simp only [Grammar.jumpLabel, reads_bind, reads_look, reads_ite, reads_pure, reads_reject,
    implies_true, true_and]
  refine ⟨fun _ => h none t (fun _ hid => by cases hid), fun _ => anyName fun id u hscope => ?_⟩
  refine h (some id) u fun id' hid => ?_
  cases hid
  simpa using hscope

theorem catchParameter (hp : p.Reads clean) {post : Tree (.maybe .catchParam) → Ahead → Prop}
    (h : ∀ v u, v.Fits clean ctx → post v (.code u)) :
    (Grammar.catchParameter p ctx).Reads clean (.code t) post := by
  refine accept fun openLead u => ?_
  cases openLead with
  | none => exact h _ u .absent
  | some openLead =>
    exact hp.ofBinding fun _ _ hv => ite_reject fun _ => expect fun _ u =>
      h _ u (.present (.one hv.fits hv.mayBind rfl))

theorem catchClause (hp : p.Reads clean) {post : Tree (.maybe .catchClause) → Ahead → Prop}
    (h : ∀ v u, v.Fits clean ctx → post v (.code u)) :
    (Grammar.catchClause p ctx).Reads clean (.code t) post := by
  simp only [Grammar.catchClause, reads_bind, reads_look, reads_ite, reads_pure, reads_lead]
  refine ⟨fun _ => h _ t .absent, fun _ _ => catchParameter hp fun _ _ hparam => ?_⟩
  exact block hp fun _ u hbody => finish fun _ => h _ u (.present (.two hparam hbody trivial rfl))

theorem finallyClause (hp : p.Reads clean) {post : Tree (.maybe .finallyClause) → Ahead → Prop}
    (h : ∀ v u, v.Fits clean ctx → post v (.code u)) :
    (Grammar.finallyClause p ctx).Reads clean (.code t) post := by
  simp only [Grammar.finallyClause, reads_bind, reads_seesKeyword, reads_ite,
    reads_pure, reads_lead]
  exact ⟨fun _ _ => block hp fun _ u hbody => h _ u (.present (.one hbody trivial rfl)),
    fun _ => h _ t .absent⟩

theorem elseClause (hp : p.Reads clean) {post : Tree (.maybe .elseClause) → Ahead → Prop}
    (h : ∀ v u, v.Fits clean ctx → post v (.code u)) :
    (Grammar.elseClause p ctx).Reads clean (.code t) post := by
  simp only [Grammar.elseClause, reads_bind, reads_seesKeyword, reads_ite, reads_pure, reads_lead]
  exact ⟨fun _ _ => hp.ofStatement fun _ u hbody => h _ u (.present (.one hbody trivial rfl)),
    fun _ => h _ t .absent⟩

theorem clauseHead (hp : p.Reads clean) {hasDefault : Bool}
    {post : String × Tree (.maybe .expr) → Ahead → Prop}
    (h : ∀ r u, r.2.Fits clean ctx → post r (.code u)) :
    (Grammar.clauseHead p ctx hasDefault).Reads clean (.code t) post := by
  simp only [Grammar.clauseHead, reads_bind, reads_look, reads_ite, reads_pure, reads_reject,
    reads_lead, implies_true, true_and]
  refine ⟨fun _ _ => hp.ofExpression fun v u hv => ?_, fun _ _ => expectKeyword fun _ u => ?_⟩
  · exact h (_, .present v) u (.present hv)
  · exact h (_, .absent) u .absent

/-- The cases of a switch obey the rules. -/
theorem switchCases (hp : p.Reads clean) {hasDefault : Bool} {rounds : Nat}
    {post : List (Tree .switchCase) → Ahead → Prop}
    (h : ∀ vs u, (∀ v ∈ vs, v.Fits clean ctx) → post vs (.code u)) :
    (Grammar.switchCases p ctx hasDefault rounds).Reads clean (.code t) post := by
  induction rounds generalizing t hasDefault post with
  | zero => trivial
  | succ rounds ih =>
    simp only [Grammar.switchCases, reads_bind, reads_sees, reads_ite, reads_pure, reads_here]
    refine ⟨fun _ => h _ t (List.forall_mem_nil _), fun _ => clauseHead hp fun _ _ htest => ?_⟩
    refine expect fun _ _ => many (hp.item ctx) fun body _ hbody => finish fun _ =>
      ih fun vs u hvs => ?_
    refine h _ u
      (List.forall_mem_cons.2 ⟨.two htest (.ofList fun stmt hmem => ?_) trivial rfl, hvs⟩)
    exact (hbody stmt hmem).fits

section

variable {post : Stmt → Ahead → Prop}

theorem emptyStatement (h : ∀ v u, v.Stands clean ctx → post v (.code u)) :
    Grammar.emptyStatement.Reads clean (.code t) post :=
  fun u => finish fun _ => h (.emptyStmt ..) u ⟨.leaf trivial rfl, rfl⟩

theorem ifStatement (hp : p.Reads clean) (h : ∀ v u, v.Stands clean ctx → post v (.code u)) :
    (Grammar.ifStatement p ctx).Reads clean (.code t) post :=
  fun _ => inParentheses hp fun _ _ htest => hp.ofStatement fun _ _ hthen => elseClause hp
    fun _ u helse => finish fun _ => h (.ifStmt ..) u ⟨.three htest hthen helse trivial rfl, rfl⟩

theorem withStatement (hp : p.Reads clean) (h : ∀ v u, v.Stands clean ctx → post v (.code u)) :
    (Grammar.withStatement p ctx).Reads clean (.code t) post :=
  fun _ => ite_tolerate fun _ => inParentheses hp fun _ _ hsubject => hp.ofStatement
    fun _ u hbody => finish fun _ => h (.withStmt ..) u ⟨.two hsubject hbody trivial rfl, rfl⟩

theorem nestedFunction (hp : p.Reads clean) (h : ∀ v u, v.Stands clean ctx → post v (.code u)) :
    (Grammar.nestedFunction p ctx).Reads clean (.code t) post := by
  simp only [Grammar.nestedFunction, reads_bind, reads_look, reads_ite, reads_tolerate]
  exact ⟨fun _ _ => functionDeclaration hp h, fun _ => functionDeclaration hp h⟩

theorem breakStatement (h : ∀ v u, v.Stands clean ctx → post v (.code u)) :
    (Grammar.breakStatement ctx).Reads clean (.code t) post := by
  refine fun _ => jumpLabel fun label _ hlabel => ite_reject fun hplace => terminator fun _ u =>
    finish fun _ => h (.breakStmt ..) u ⟨.leaf ?_ rfl, rfl⟩
  cases label with
  | none =>
    change (ctx.inLoop || ctx.inSwitch) = true
    cases hloop : ctx.inLoop <;> simp_all
  | some id => exact hlabel id rfl

theorem continueStatement (h : ∀ v u, v.Stands clean ctx → post v (.code u)) :
    (Grammar.continueStatement ctx).Reads clean (.code t) post := by
  refine fun _ => ite_reject fun hplace => jumpLabel fun label _ hlabel => terminator fun _ u =>
    finish fun _ => h (.continueStmt ..) u ⟨.leaf ⟨?_, ?_⟩ rfl, rfl⟩
  · change ctx.inLoop = true
    simpa using hplace
  cases label with
  | none => rfl
  | some id => exact hlabel id rfl

theorem debuggerStatement (h : ∀ v u, v.Stands clean ctx → post v (.code u)) :
    (Grammar.debuggerStatement ctx).Reads clean (.code t) post :=
  fun _ => terminator fun _ u => finish fun _ => h (.debuggerStmt ..) u ⟨.leaf trivial rfl, rfl⟩

/-- A return statement obeys the rules of its place. -/
theorem returnStatement (hp : p.Reads clean) (h : ∀ v u, v.Stands clean ctx → post v (.code u)) :
    (Grammar.returnStatement p ctx).Reads clean (.code t) post := by
  refine fun u => ite_tolerate fun hplace => ?_
  have hinside : clean = true → ctx.inFunction = true := by simpa using hplace
  have hrest : ∀ {u : CodeToken} {value : Tree (.maybe .expr)}, value.Fits clean ctx →
      (Parse.terminator ctx).Reads clean (.code u) fun ending s =>
        (Parse.finish .returnStmt t.token.start).Reads clean s fun span s =>
          post (.returnStmt t.token.lead value ending span) s :=
    fun hv => terminator fun _ u => finish fun _ => h (.returnStmt ..) u
      ⟨.one hv hinside rfl, rfl⟩
  simp only [reads_bind, reads_look, reads_ite, reads_pure, reads_map]
  exact ⟨fun _ => hrest .absent, fun _ => hp.ofExpression fun _ _ hv => hrest (.present hv)⟩

theorem throwStatement (hp : p.Reads clean) (h : ∀ v u, v.Stands clean ctx → post v (.code u)) :
    (Grammar.throwStatement p ctx).Reads clean (.code t) post :=
  fun _ => ite_reject fun _ => hp.ofExpression fun _ _ hv => terminator fun _ u => finish fun _ =>
    h (.throwStmt ..) u ⟨.one hv trivial rfl, rfl⟩

theorem tryStatement (hp : p.Reads clean) (h : ∀ v u, v.Stands clean ctx → post v (.code u)) :
    (Grammar.tryStatement p ctx).Reads clean (.code t) post :=
  fun _ => block hp fun _ _ hguarded => catchClause hp fun _ _ hhandler => finallyClause hp
    fun _ u hfinalizer => ite_reject fun _ => finish fun _ =>
      h (.tryStmt ..) u ⟨.three hguarded hhandler hfinalizer trivial rfl, rfl⟩

theorem switchStatement (hp : p.Reads clean) (h : ∀ v u, v.Stands clean ctx → post v (.code u)) :
    (Grammar.switchStatement p ctx).Reads clean (.code t) post :=
  fun _ => inParentheses hp fun _ _ hsubject => expect fun _ _ => switchCases hp fun _ _ hcases =>
    expect fun _ u => finish fun _ =>
      h (.switchStmt ..) u ⟨.two hsubject (.ofList hcases) trivial rfl, rfl⟩

theorem labelledStatement (hp : p.Reads clean) {start : Position} {label : Ident}
    (h : ∀ v u, v.Stands clean ctx → post v (.code u)) :
    (Grammar.labelledStatement p ctx start label).Reads clean (.code t) post :=
  ite_reject fun hfresh _ => hp.ofStatement fun _ u hbody => finish fun _ =>
    h (.labeledStmt ..) u ⟨.one hbody (Bool.eq_false_iff.2 hfresh) rfl, rfl⟩

theorem expressionStatement (hp : p.Reads clean)
    (h : ∀ v u, v.Stands clean ctx → post v (.code u)) :
    (Grammar.expressionStatement p ctx).Reads clean (.code t) post := by
  simp only [Grammar.expressionStatement, reads_bind, reads_look]
  refine expression hp fun value u hvalue => ?_
  split
  · exact labelledStatement hp h
  · exact terminator fun _ u => finish fun _ => h (.exprStmt ..) u ⟨.one hvalue trivial rfl, rfl⟩

/-- A statement that starts with a reserved word obeys the rules of its place. -/
theorem keywordStatement (hp : p.Reads clean) {word : String}
    (h : ∀ v u, v.Stands clean ctx → post v (.code u)) :
    (Grammar.keywordStatement p ctx word).Reads clean (.code t) post := by
  unfold Grammar.keywordStatement
  split
  · exact breakStatement h
  · exact continueStatement h
  · exact debuggerStatement h
  · exact doWhileLoop hp h
  · exact forLoop hp h
  · exact nestedFunction hp h
  · exact ifStatement hp h
  · exact returnStatement hp h
  · exact switchStatement hp h
  · exact throwStatement hp h
  · exact tryStatement hp h
  · exact variableStatement hp h
  · exact whileLoop hp h
  · exact withStatement hp h
  · exact expressionStatement hp h

theorem statement (hp : p.Reads clean) (h : ∀ v u, v.Stands clean ctx → post v (.code u)) :
    (Grammar.statement p ctx).Reads clean (.code t) post := by
  simp only [Grammar.statement, reads_bind, reads_look, reads_ite, reads_map]
  refine ⟨fun _ => block hp fun _ u hv => h (.blockStmt _) u ⟨.one hv trivial rfl, rfl⟩, fun _ =>
    ⟨fun _ => emptyStatement h, fun _ => ⟨fun _ => keywordStatement hp h, fun _ => ?_⟩⟩⟩
  exact expressionStatement hp h

theorem isImportExpression {post : Bool → Ahead → Prop} (h : ∀ v, post v s) :
    Grammar.isImportExpression.Reads clean s post := fun _ => h _

theorem keywordItem (hp : p.Reads clean) {u : Token}
    (h : ∀ v u, v.Stands clean ctx → post v (.code u)) :
    (Grammar.keywordItem p ctx u).Reads clean (.code t) post := by
  unfold Grammar.keywordItem
  split
  · exact functionDeclaration hp h
  · exact classDefinition hp fun _ u hv => h (.classStmt _) u ⟨.one hv trivial rfl, rfl⟩
  · exact variableStatement hp h
  · exact isImportExpression fun _ => reads_ite.mpr ⟨fun _ => statement hp h, fun _ => trivial⟩
  · trivial
  · exact statement hp h

theorem item (hp : p.Reads clean) (h : ∀ v u, v.Stands clean ctx → post v (.code u)) :
    (Grammar.item p ctx).Reads clean (.code t) post := by
  simp only [Grammar.item, reads_bind, reads_look, reads_ite]
  refine ⟨fun _ => keywordItem hp h, fun _ => ⟨fun _ => isLexicalDeclaration fun _ => ?_,
    fun _ => ⟨fun _ => isAsyncFunction fun _ => ?_, fun _ => statement hp h⟩⟩⟩
  · exact ⟨fun _ => variableStatement hp h, fun _ => statement hp h⟩
  · exact ⟨fun _ => functionDeclaration hp h, fun _ => statement hp h⟩

end

/-! ## Imports and exports -/

theorem moduleSource {post : Literal → Ahead → Prop}
    (h : ∀ lit u, (clean = true → ctx.MaySpell [lit]) → post lit (.code u)) :
    (Grammar.moduleSource ctx).Reads clean (.code t) post := by
  simp only [Grammar.moduleSource, reads_bind, reads_look, reads_ite, reads_unexpectedHere,
    implies_true, and_true]
  exact fun _ => literal h

theorem exportName {post : ExportName → Ahead → Prop}
    (h : ∀ name u, (clean = true → ctx.MaySpell name.strings) → post name (.code u)) :
    (Grammar.exportName ctx).Reads clean (.code t) post := by
  simp only [Grammar.exportName, reads_bind, reads_look, reads_ite, reads_pure, reads_unexpected,
    implies_true, and_true]
  exact ⟨fun _ => literal fun lit u hlit => h (.string lit) u hlit,
    fun _ _ => anyName fun id u => h (.ident id) u fun _ => .nil⟩

theorem expectFrom {post : String → Ahead → Prop} (h : ∀ v u, post v (.code u)) :
    Grammar.expectFrom.Reads clean (.code t) post := by
  simp [Grammar.expectFrom, h]

theorem exportAlias {post : Option ExportAlias → Ahead → Prop}
    (h : ∀ v u, (clean = true → ctx.MaySpell (ExportAlias.strings v)) → post v (.code u)) :
    (Grammar.exportAlias ctx).Reads clean (.code t) post := by
  simp only [Grammar.exportAlias, reads_bind, reads_seesWord, reads_ite, reads_pure, reads_lead]
  exact ⟨fun _ _ => exportName fun name u hname => h (some _) u hname,
    fun _ => h none t fun _ => .nil⟩

/-- Strict code may bind a local name that is given by an alias. -/
theorem importAlias {first : Token} {post : Option ImportAlias → Ahead → Prop}
    (h : ∀ v u, (clean = true → ctx.MayBind (v.toList.map (·.binding.name))) → post v (.code u)) :
    (Grammar.importAlias ctx first).Reads clean (.code t) post := by
  simp only [Grammar.importAlias, reads_bind, reads_seesWord, reads_ite, reads_pure, reads_lead,
    reads_unexpected, implies_true, true_and]
  exact ⟨fun _ _ => bindingName fun id u hid => h (some _) u hid,
    fun _ _ => checkReference (h none t fun _ => .nil)⟩

/-- An import clause whose strings strict code may spell, and whose aliases it may bind. -/
structure ImportsAllowed (clean : Bool) (ctx : Context) (c : ImportClause) : Prop where
  /-- The strings. -/
  strings : clean = true → ctx.MaySpell (c.entries.flatMap (·.imported.strings))
  /-- The aliases. -/
  aliases : clean = true → ctx.MayBind (c.main.toList.map (·.name) ++
    c.space.toList.map (·.binding.name) ++
    c.entries.flatMap fun s => s.alias?.toList.map (·.binding.name))

/-- The entries of an import list. -/
theorem namedImports {rounds : Nat} {post : NamedImports → Ahead → Prop}
    (h : ∀ v u, (∀ entry ∈ v.specifiers, clean = true → ctx.MaySpell entry.imported.strings ∧
      ctx.MayBind (entry.alias?.toList.map (·.binding.name))) → post v (.code u)) :
    (Grammar.namedImports ctx rounds).Reads clean (.code t) post := by
  have hentry : ∀ t, (Grammar.importSpecifier ctx).Reads clean (.code t) (InCode fun entry =>
      clean = true → ctx.MaySpell entry.imported.strings ∧
        ctx.MayBind (entry.alias?.toList.map (·.binding.name))) := fun _ =>
    exportName fun _ _ hname => importAlias fun _ _ halias => finish fun _ =>
      .intro fun hc => ⟨hname hc, halias hc⟩
  exact expect fun _ _ => listed hentry fun r _ hr => expect fun _ u => h _ u hr

/-- The clause of an import obeys the rules if the names so far do. -/
theorem importParts {rounds : Nat} {main : Option Ident} {commaLead : String}
    {post : ImportClause → Ahead → Prop}
    (hmain : clean = true → ctx.MayBind (main.toList.map (·.name)))
    (h : ∀ v u, ImportsAllowed clean ctx v → post v (.code u)) :
    (Grammar.importParts ctx rounds main commaLead).Reads clean (.code t) post := by
  simp only [Grammar.importParts, Grammar.namespaceImport, reads_bind, reads_sees, reads_ite,
    reads_pure, reads_here, reads_lead, reads_unexpectedHere, implies_true, and_true]
  refine ⟨fun _ _ => expectWord fun _ _ => bindingName fun id u hid => finish fun _ => h _ u ?_,
    fun _ _ => namedImports fun v u hv => h _ u ?_⟩
  · exact ⟨fun _ => .nil, fun hc => ((hmain hc).append (hid hc)).append .nil⟩
  · exact ⟨fun hc => .flatMap fun entry hmem => (hv entry hmem hc).1,
      fun hc => ((hmain hc).append .nil).append (.flatMap fun entry hmem => (hv entry hmem hc).2)⟩

theorem importClause {rounds : Nat} {post : ImportClause → Ahead → Prop}
    (h : ∀ v u, ImportsAllowed clean ctx v → post v (.code u)) :
    (Grammar.importClause ctx rounds).Reads clean (.code t) post := by
  simp only [Grammar.importClause, reads_bind, reads_look, reads_ite]
  refine ⟨fun _ => bindingName fun main u hmain => accept fun commaLead u => ?_,
    fun _ => importParts (fun _ => .nil) h⟩
  cases commaLead with
  | none => exact h _ u ⟨fun _ => .nil, fun hc => ((hmain hc).append .nil).append .nil⟩
  | some commaLead => exact importParts hmain h

section

variable {post : Stmt → Ahead → Prop}

/-- An import obeys the rules of its place. -/
theorem importDeclaration {rounds : Nat} (h : ∀ v u, v.Stands clean ctx → post v (.code u)) :
    (Grammar.importDeclaration ctx rounds).Reads clean (.code t) post := by
  have hrest : ∀ {u : CodeToken} {lead fromLead : String} {clause : Option ImportClause}
      {start : Position}, (∀ c ∈ clause, ImportsAllowed clean ctx c) →
      (Grammar.moduleSource ctx).Reads clean (.code u) fun source s =>
        (Parse.terminator ctx).Reads clean s fun ending s =>
          (Parse.finish .importDecl start).Reads clean s fun span s =>
            post (.importStmt
              { lead, clause, fromLead, source, terminator := ending, span }) s := by
    intro u lead fromLead clause start hclause
    refine moduleSource fun source _ hsource => terminator fun _ u => finish fun _ =>
      h (.importStmt _) u ⟨.leaf (fun hc => ?_) rfl, rfl⟩
    cases clause with
    | none => exact ⟨hsource hc, .nil⟩
    | some c => exact ⟨((hclause c rfl).strings hc).append (hsource hc), (hclause c rfl).aliases hc⟩
  simp only [Grammar.importDeclaration, reads_bind, reads_next, reads_look, reads_ite, reads_pure]
  refine fun _ => ⟨fun _ => hrest (fun _ hm => by cases hm), fun _ => importClause fun c _ hc =>
    expectFrom fun _ _ => hrest fun _ hm => ?_⟩
  cases hm
  exact hc

/-- What is exported by default obeys the rules. -/
theorem exportValue (hp : p.Reads clean) {post : Tree .exportValue → Ahead → Prop}
    (h : ∀ v u, v.Fits clean ctx → post v (.code u)) :
    (Grammar.exportValue p ctx).Reads clean (.code t) post := by
  have hfunction : (Grammar.function p ctx true true).Reads clean (.code t) fun v s =>
      post (.exportFunction v) s := function hp fun _ u hv => h _ u (.one hv trivial rfl)
  have hclass : (Grammar.classDefinition p ctx true false).Reads clean (.code t) fun v s =>
      post (.exportClass v) s := classDefinition hp fun _ u hv => h _ u (.one hv trivial rfl)
  have hvalue : (p.assignment ctx).Reads clean (.code t) fun v s =>
      (Parse.terminator ctx).Reads clean s fun ending s => post (.exportExpr v ending) s :=
    hp.ofAssignment fun _ _ hv => terminator fun _ u => h _ u (.one hv trivial rfl)
  simp only [Grammar.exportValue, reads_bind, reads_look, reads_ite, reads_pure, reads_map]
  refine ⟨fun _ => ?_, fun _ => ⟨fun _ => isAsyncFunction fun _ => ?_, fun _ => ?_⟩⟩
  all_goals exact ⟨fun _ => hfunction, fun _ => ⟨fun _ => hclass, fun _ => hvalue⟩⟩

theorem checkLocalNames {locals : List Token} {post : Unit → Ahead → Prop} (h : post () s) :
    (Grammar.checkLocalNames ctx locals).Reads clean s post := by
  induction locals with
  | nil => exact h
  | cons t ts ih => simp [Grammar.checkLocalNames, ih]

theorem exportOrigin {locals : List Token} {post : Option FromClause → Ahead → Prop}
    (h : ∀ v u, (clean = true → ctx.MaySpell (FromClause.strings v)) → post v (.code u)) :
    (Grammar.exportOrigin ctx locals).Reads clean (.code t) post := by
  simp only [Grammar.exportOrigin, reads_bind, reads_seesWord, reads_ite, reads_pure, reads_lead]
  exact ⟨fun _ _ => moduleSource fun _ u hsource => h (some _) u hsource,
    fun _ => checkLocalNames (h none t fun _ => .nil)⟩

/-- A list of exported names obeys the rules of its place. -/
theorem exportNames {rounds : Nat} {u : Token} (h : ∀ v u, v.Stands clean ctx → post v (.code u)) :
    (Grammar.exportNames ctx rounds u).Reads clean (.code t) post := by
  have hentry : ∀ t, (Grammar.exportSpecifier ctx).Reads clean (.code t) (InCode fun r =>
      clean = true → ctx.MaySpell (r.1.binding.strings ++ ExportAlias.strings r.1.alias?)) :=
        fun _ =>
    exportName fun _ _ hname => exportAlias fun _ _ halias => finish fun _ =>
      .intro fun hc => (hname hc).append (halias hc)
  have hnone : (Tree.absent : Tree (.maybe .stmt)).Fits clean ctx := .absent
  refine expect fun _ _ => listed hentry fun r _ hr => expect fun _ _ => exportOrigin
    fun origin _ horigin => terminator fun _ u => finish fun _ =>
      h (.exportNamed ..) u
        ⟨.one hnone (fun hc => .append (.flatMap fun entry hmem => ?_) (horigin hc)) rfl, rfl⟩
  obtain ⟨r, hr', rfl⟩ := List.mem_map.1 hmem
  exact hr r hr' hc

theorem seesDeclaration {post : Bool → Ahead → Prop} (h : ∀ v, post v s) :
    Grammar.seesDeclaration.Reads clean s post := by
  simp [Grammar.seesDeclaration, isAsyncFunction, h]

theorem exportAll {u : Token} (h : ∀ v u, v.Stands clean ctx → post v (.code u)) :
    (Grammar.exportAll ctx u).Reads clean (.code t) post :=
  fun _ => exportAlias fun _ _ halias => expectFrom fun _ _ => moduleSource fun _ _ hsource =>
    terminator fun _ u => finish fun _ => h (.exportAll _) u
      ⟨.leaf (fun hc => (halias hc).append (hsource hc)) rfl, rfl⟩

theorem exportDeclaration (hp : p.Reads clean)
    (h : ∀ v u, v.Stands clean ctx → post v (.code u)) :
    (Grammar.exportDeclaration p ctx).Reads clean (.code t) post := by
  simp only [Grammar.exportDeclaration, Grammar.exportedDeclaration, reads_bind, reads_next,
    reads_seesKeyword, reads_sees, reads_ite, reads_unexpectedHere, implies_true, true_and]
  refine fun _ => ⟨fun _ _ => exportValue hp fun _ u hv => finish fun _ => ?_, fun _ =>
    ⟨fun _ => exportAll h,
      fun _ => ⟨fun _ => exportNames h, fun _ => seesDeclaration fun _ _ => ?_⟩⟩⟩
  · exact h (.exportDefault ..) u ⟨.one hv trivial rfl, rfl⟩
  · exact hp.ofItem fun _ u hv => finish fun _ =>
      h (.exportNamed ..) u ⟨.one hv.fits.present (fun _ => .nil) rfl, rfl⟩

theorem moduleItem (hp : p.Reads clean) (h : ∀ v u, v.Stands clean ctx → post v (.code u)) :
    (Grammar.moduleItem p ctx).Reads clean (.code t) post := by
  simp only [Grammar.moduleItem, reads_bind, reads_look, reads_ite]
  refine ⟨fun _ => isImportExpression fun _ => ⟨fun _ => hp.ofItem h, fun _ => ?_⟩,
    fun _ => ⟨fun _ => exportDeclaration hp h, fun _ => hp.ofItem h⟩⟩
  exact importDeclaration h

end

end Parse.Reads

/-! ## The language -/

namespace Productions.Reads

variable {p : Productions} {clean : Bool}

/-- Productions of no depth read nothing. -/
theorem exhausted : Productions.exhausted.Reads clean where
  expression _ _ := trivial
  assignment _ _ := trivial
  cover _ _ := trivial
  binary _ _ _ _ := trivial
  exponentiation _ _ := trivial
  unary _ _ := trivial
  chain _ _ := trivial
  callee _ _ := trivial
  binding _ _ _ := trivial
  statement _ _ := trivial
  item _ _ := trivial
  markup _ _ _ _ _ := trivial

/-- Productions that call ones which obey the rules obey them. -/
theorem deepen (hp : p.Reads clean) : p.deepen.Reads clean where
  expression _ _ := Parse.Reads.expression hp fun _ _ hv => .intro hv
  assignment _ _ := Parse.Reads.assignment hp fun _ _ hv => .intro hv
  cover _ _ := Parse.Reads.cover hp fun _ _ hv => .intro hv
  binary _ _ _ hleast := Parse.Reads.binary hp hleast fun _ _ hv hbinds hone hstops =>
    ⟨.intro ⟨hv, hbinds, hone⟩, hstops⟩
  exponentiation _ _ := Parse.Reads.exponentiation hp fun _ _ hv hbinds => .intro ⟨hv, hbinds⟩
  unary _ _ := Parse.Reads.unary hp fun _ _ hv hbinds hfront => .intro ⟨hv, hbinds, hfront⟩
  chain _ _ := Parse.Reads.chain hp fun _ _ hv => .intro hv
  callee _ _ := Parse.Reads.callee hp fun _ _ hv => .intro hv
  binding _ _ _ := Parse.Reads.binding hp fun _ _ hv => .intro hv
  statement _ _ := Parse.Reads.statement hp fun _ _ hv => .intro hv
  item _ _ := Parse.Reads.item hp fun _ _ hv => .intro hv
  markup _ _ _ _ _ := Parse.Reads.markup hp

/-- What the productions of every depth read obeys the rules. -/
theorem ofDepth (depth : Nat) : (Productions.ofDepth depth).Reads clean := by
  induction depth with
  | zero => exact exhausted
  | succ depth ih => exact ih.deepen

end Productions.Reads

/-- What surrounds the statements of a source: its directives count for all of them. -/
def Context.ofSource (goal : Goal) (allowsMarkup : Bool) (body : List Stmt) : Context :=
  let ctx := Context.start goal allowsMarkup
  { ctx with strict := ctx.strict || body.any (·.isUseStrict) }

open Parse.Reads in
/-- The statements of a whole source obey the rules. -/
theorem Parse.Reads.program {p : Productions} {clean : Bool} {t : CodeToken} (hp : p.Reads clean)
    (goal : Goal) (allowsMarkup : Bool) :
    (Grammar.program p goal allowsMarkup).Reads clean (.code t) fun program _ =>
      ∀ stmt ∈ program.body, stmt.Fits clean (.ofSource goal allowsMarkup program.body) := by
  have hbody : ∀ {u : CodeToken} {r : List Stmt × Bool} {one : Parse Stmt} {start : Position},
      Prologue clean (.start goal allowsMarkup) (none : Option Token).isSome r →
      (∀ t, one.Reads clean (.code t)
        (InCode (Tree.Stands clean { Context.start goal allowsMarkup with strict := r.2 }))) →
      (Parse.many Token.isEof one p.rounds).Reads clean (.code u) fun rest s =>
        (Parse.finish .program start).Reads clean s fun _ _ => ∀ stmt ∈ r.1 ++ rest,
          stmt.Fits clean (.ofSource goal allowsMarkup (r.1 ++ rest)) :=
    fun hr hone => many hone fun rest _ hrest => finish fun _ => (hr.body hrest).2
  refine prologueFrom hp fun r u hr => ?_
  cases goal with
  | script => exact hbody hr (hp.item _)
  | module => exact hbody hr fun _ => moduleItem hp fun _ _ hv => .intro hv

end Verbatim
