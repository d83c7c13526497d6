import Verbatim.Proofs.Formed.Operation
import Verbatim.Proofs.Legality

/-!
# Well-formed statements and programs

Statements, and the declarations at the top of a module. A statement may end in front of an arrow,
at which no other statement begins; what encloses it with a token has a well-formed tree. The end of
the source is such a token.

## Main definitions

* `Verbatim.Grammar.Variables.Drafts` — what is known of a declaration that was read.

## Main results

* `Verbatim.Productions.Forms.ofDepth` — the productions read drafts.
* `Verbatim.parse_formed` — parsed programs are well formed.
-/

namespace Verbatim

open Grammar Parse

/-- The variables of a declaration are drafts. -/
def Grammar.Variables.Drafts (v : Variables) (s : Sight) : Prop := ∀ item ∈ v.items, item.Draft s

theorem Grammar.Variables.Drafts.declare {v : Variables} {s : Sight} {ending : Option Terminator}
    {span : Span} (h : v.Drafts s) : (v.declare ending span).Draft s :=
  (Tree.Draft.ofList h).wrap (fun hv => .one hv trivial rfl rfl) rfl rfl

namespace Parse.Drafts

variable {p : Productions} {ctx : Context} {s : Sight}

/-! ## Declarations -/

theorem variableValue (hp : p.Forms) {inLoopHead : Bool} {kind : VariableKind} {target : Pattern}
    {post : Tree (.maybe .initializer) → Sight → Prop} (h : ∀ v s', v.Draft s' → post v s') :
    (Grammar.variableValue p ctx inLoopHead kind target).Sees s post := by
  have hnone : post .absent s := h _ _ Tree.Plain.absent.draft
  refine sees_ite.mpr ⟨fun _ => Sees.bindAny fun eqLead _ => ?_, fun _ => sees_ite.mpr ⟨fun _ => ?_,
    fun _ => hnone⟩⟩
  · refine (hp.assignment _).into fun _ value s' hv => h _ _ ?_
    exact hv.wrap (fun hv => .present (.one hv trivial rfl rfl)) rfl rfl
  · split
    · trivial
    · exact hnone

theorem declarator (hp : p.Forms) {inLoopHead : Bool} {kind : VariableKind} :
    (Grammar.declarator p ctx inLoopHead kind).Sees s fun v s' => v.Draft s' := by
  refine (hp.binding _ _ _).imp fun target s' ht => ?_
  have hrest : ∀ {start}, (Grammar.variableValue p ctx inLoopHead kind target).Sees s'
    fun value s₁ =>
      (Parse.finish .declarator start).Sees s₁ fun span s₂ =>
        (Tree.declarator target value span).Draft s₂ := by
    refine variableValue hp fun value s₁ hv => finish fun span => ?_
    exact hv.wrap (fun hv => .two ht.plain hv ⟨ht.target, ht.binding⟩ rfl rfl) rfl rfl
  exact sees_ite.mpr ⟨fun _ => hrest, fun _ => hrest⟩

theorem variableList (hp : p.Forms) {inLoopHead : Bool} {post : Variables → Sight → Prop}
    (h : ∀ v s', v.Drafts s' → post v s') :
    (Grammar.variableList p ctx inLoopHead).Sees s post := by
  refine Sees.bindAny fun t _ => (declarator hp).imp fun first s' hfirst => ?_
  refine afterCommas (fun _ => declarator hp)
    (fun _ => h _ _ (List.forall_mem_singleton.2 hfirst)) ?_
  exact fun hs r s₁ hr => h _ _ (List.forall_mem_cons.2 ⟨(hfirst.plain hs).draft, hr⟩)

variable {post : Stmt → Sight → Prop}

theorem variableStatement (hp : p.Forms) (h : ∀ v s', v.Draft s' → post v s') :
    (Grammar.variableStatement p ctx).Sees s post := by
  refine variableList hp fun v s' hv => terminator fun ending s₁ hlater =>
    finish fun span => h _ _ ?_
  have hdeclaration : (v.declare (some ending) span).Draft s' := hv.declare
  exact (hdeclaration.later hlater).wrap (fun hd => .one hd trivial rfl rfl) rfl rfl

/-! ## Loops -/

theorem inParentheses (hp : p.Forms) {post : String × Expr × String → Sight → Prop}
    (h : ∀ r s', r.2.1.Plain → post r s') : (Grammar.inParentheses p ctx).Sees s post := by
  refine expect nofun fun _ _ _ => (hp.expression _).into fun _ value s' hv =>
    expect nofun fun hs _ _ => ?_
  exact h _ _ (hv.plain hs)

theorem loopBody (hp : p.Forms) (h : ∀ v s', v.Draft s' → post v s') :
    (Grammar.loopBody p ctx).Sees s post :=
  (hp.statement _).into fun _ => h

theorem optionalBefore (hp : p.Forms) {close : String} {post : Tree (.maybe .expr) → Sight → Prop}
    (h : ∀ v s', v.Draft s' → post v s') : (Grammar.optionalBefore p ctx close).Sees s post := by
  refine sees_ite.mpr ⟨fun _ => h _ _ Tree.Plain.absent.draft, fun _ => ?_⟩
  exact (hp.expression _).into fun _ value s' hv => h _ _ (hv.wrap Tree.Plain.present hv.noDots rfl)

theorem finishFor (hp : p.Forms) {head : ForHead} {init : Tree (.maybe .forInit)}
    (hinit : init.Draft s) (h : ∀ v s', v.Draft s' → post v s') :
    (Grammar.finishFor p ctx head init).Sees s post := by
  refine sees_ite.mpr ⟨fun _ => trivial, fun _ => expect nofun fun hfirst _ _ => ?_⟩
  refine optionalBefore hp fun test _ htest => expect nofun fun hsecond _ _ => ?_
  refine optionalBefore hp fun step _ hstep => expect nofun fun hclose _ _ => ?_
  refine loopBody hp fun body s' hbody => finish fun span => h _ _ ?_
  exact hbody.wrap (fun hv => .four (hinit.plain hfirst) (htest.plain hsecond)
    (hstep.plain hclose) hv
    trivial rfl rfl) rfl rfl

theorem finishForIn (hp : p.Forms) {head : ForHead} {left : Tree .forTarget} (hleft : left.Plain)
    (h : ∀ v s', v.Draft s' → post v s') : (Grammar.finishForIn p ctx head left).Sees s post := by
  refine sees_ite.mpr ⟨fun _ => trivial, fun _ => Sees.bindAny fun _ _ => ?_⟩
  refine (hp.expression _).into fun _ right _ hright => expect nofun fun hclose _ _ => ?_
  refine loopBody hp fun body s' hbody => finish fun span => h _ _ ?_
  exact hbody.wrap (fun hv => .three hleft (hright.plain hclose) hv trivial rfl rfl) rfl rfl

theorem finishForOf (hp : p.Forms) {head : ForHead} {left : Tree .forTarget} (hleft : left.Draft s)
    (h : ∀ v s', v.Draft s' → post v s') : (Grammar.finishForOf p ctx head left).Sees s post := by
  refine expectWord fun hof _ _ => (hp.assignment _).into fun _ right _ hright => ?_
  refine expect nofun fun hclose _ _ => loopBody hp fun body s' hbody => finish fun span => h _ _ ?_
  exact hbody.wrap
    (fun hv => .three (hleft.plain hof) (hright.plain hclose) hv trivial rfl rfl) rfl rfl

theorem finishForEach (hp : p.Forms) {head : ForHead} {left : Tree .forTarget}
    (hleft : left.Draft s)
    (h : ∀ v s', v.Draft s' → post v s') : (Grammar.finishForEach p ctx head left).Sees s post := by
  refine sees_ite.mpr ⟨fun hin => finishForIn hp (hleft.plain ?_) h,
    fun _ => finishForOf hp hleft h⟩
  exact Sight.not_atArrow_of_isKeyword hin

/-- The check of the variables of a loop takes nothing. -/
theorem checkLoopVariables {kind : VariableKind} {t : Token} {items : List (Tree .declarator)}
    {post : Unit → Sight → Prop} (h : post () s) :
    (Grammar.checkLoopVariables kind t items).Sees s post := by
  induction items with
  | nil => exact h
  | cons item rest ih =>
    cases item with
    | declarator target value span =>
      cases value with
      | present => exact ih
      | absent =>
        simp only [Grammar.checkLoopVariables]
        split
        · trivial
        · exact ih

theorem forVariables (hp : p.Forms) {head : ForHead} (h : ∀ v s', v.Draft s' → post v s') :
    (Grammar.forVariables p ctx head).Sees s post := by
  refine variableList hp fun v s' hv => finish fun span => sees_bind.mpr (sees_look.mpr ?_)
  have hdeclaration : (v.declare none span).Draft s' := hv.declare
  split
  · have hleft : (Tree.targetDeclaration (v.declare none span)).Draft s' :=
      hdeclaration.wrap (fun hv => .one hv trivial rfl rfl) rfl rfl
    exact sees_ite.mpr ⟨fun _ => trivial, fun _ => finishForEach hp hleft h⟩
  · refine checkLoopVariables (finishFor hp ?_ h)
    exact hdeclaration.wrap (fun hv => .present (.one hv trivial rfl rfl)) rfl rfl

theorem forExpression (hp : p.Forms) {head : ForHead} (h : ∀ v s', v.Draft s' → post v s') :
    (Grammar.forExpression p ctx head).Sees s post := by
  refine fun _ => (hp.cover _).into fun _ value s' hv => sees_ite.mpr ⟨fun heach => ?_, fun _ => ?_⟩
  · have hs : ¬ s'.AtArrow := by
      rcases Bool.or_eq_true_iff.1 heach with hin | hof
      · exact Sight.not_atArrow_of_isKeyword hin
      · exact Sight.not_atArrow_of_isWord (Bool.and_eq_true_iff.1 hof).1
    refine assignmentTarget (hv.plain hs) fun target htarget _ => finishForEach hp ?_ h
    exact Tree.Plain.draft (.one htarget trivial rfl rfl)
  · refine rejectPending (sequenceFrom hp hv fun init s₁ hinit => finishFor hp ?_ h)
    exact hinit.wrap (fun hv => .present (.one hv trivial rfl rfl)) rfl rfl

theorem forLoop (hp : p.Forms) (h : ∀ v s', v.Draft s' → post v s') :
    (Grammar.forLoop p ctx).Sees s post := by
  have hrest : ∀ (isDeclaration : Bool) {head : ForHead} {s₁}, Sees (if isDeclaration then
      Grammar.forVariables p ctx head else Grammar.forExpression p ctx head) s₁ post := fun _ =>
    sees_ite.mpr ⟨fun _ => forVariables hp h, fun _ => forExpression hp h⟩
  refine Sees.bindAny fun t _ => Sees.bindAny fun awaitLead _ =>
    expect nofun fun _ openLead s' => ?_
  refine sees_ite.mpr ⟨fun _ => finishFor hp Tree.Plain.absent.draft h,
    fun _ => sees_ite.mpr ⟨fun _ =>
    hrest true, fun _ => sees_ite.mpr ⟨fun _ => Sees.bindAny fun b _ => hrest b,
      fun _ => hrest false⟩⟩⟩

theorem whileLoop (hp : p.Forms) (h : ∀ v s', v.Draft s' → post v s') :
    (Grammar.whileLoop p ctx).Sees s post := by
  refine Sees.bindAny fun t _ => inParentheses hp fun r _ htest => ?_
  refine loopBody hp fun body s' hbody => finish fun span => h _ _ ?_
  exact hbody.wrap (fun hv => .two htest hv trivial rfl rfl) rfl rfl

theorem doWhileLoop (hp : p.Forms) (h : ∀ v s', v.Draft s' → post v s') :
    (Grammar.doWhileLoop p ctx).Sees s post := by
  refine Sees.bindAny fun t _ => loopBody hp fun body _ hbody =>
    expectKeyword fun hwhile whileLead _ => ?_
  refine inParentheses hp fun r _ htest => ?_
  have hend : ∀ {ending span s'},
      post (.doWhileStmt t.lead body whileLead r.1 r.2.1 r.2.2 ending span) s' :=
        h _ _ (Tree.Plain.draft (.two (hbody.plain hwhile) htest trivial rfl rfl))
  exact sees_ite.mpr ⟨fun _ => Sees.bindAny fun _ _ => finish fun _ => hend,
    fun _ => finish fun _ => hend⟩

/-! ## Blocks and branches -/

theorem block (hp : p.Forms) {post : Tree .block → Sight → Prop} (h : ∀ v s', v.Plain → post v s') :
    (Grammar.block p ctx).Sees s post := by
  refine expect nofun fun _ _ _ => items hp fun _ stmts _ hstmts => expect nofun fun _ _ _ =>
    finish fun span => ?_
  exact h _ _ (.one (.ofList hstmts) trivial rfl rfl)

theorem ifStatement (hp : p.Forms) (h : ∀ v s', v.Draft s' → post v s') :
    (Grammar.ifStatement p ctx).Sees s post := by
  refine Sees.bindAny fun t _ => inParentheses hp fun r _ htest => ?_
  refine (hp.statement _).into fun _ consequent s' hc => sees_ite.mpr ⟨fun helse => ?_, fun _ => ?_⟩
  · have hconsequent := hc.plain (Sight.not_atArrow_of_isKeyword helse)
    refine Sees.bindAny fun elseLead _ => (hp.statement _).into fun _ other s₁ ho =>
      finish fun _ => ?_
    have hclause : (Tree.present (.elseClause elseLead other)).Draft s₁ :=
      ho.wrap (fun hv => .present (.one hv trivial rfl rfl)) rfl rfl
    exact h _ _ (hclause.wrap (fun hv => .three htest hconsequent hv trivial rfl rfl) rfl rfl)
  · refine finish fun span => h _ _ ?_
    exact hc.wrap (fun hv => .three htest hv .absent trivial rfl rfl) rfl rfl

theorem withStatement (hp : p.Forms) (h : ∀ v s', v.Draft s' → post v s') :
    (Grammar.withStatement p ctx).Sees s post := by
  have hrest : ∀ {t : Token} {s₁}, (Grammar.inParentheses p ctx).Sees s₁ fun r s₁ =>
      (p.statement ctx).Sees s₁ fun body s₁ =>
      (Parse.finish .withStmt t.start).Sees s₁ fun span s₁ =>
        post (.withStmt t.lead r.1 r.2.1 r.2.2 body span) s₁ := by
    refine inParentheses hp fun r _ hsubject => (hp.statement _).into fun _ body s' hbody => ?_
    refine finish fun span => h _ _ ?_
    exact hbody.wrap (fun hv => .two hsubject hv trivial rfl rfl) rfl rfl
  exact Sees.bindAny fun t _ => sees_ite.mpr ⟨fun _ => hrest, fun _ => hrest⟩

theorem functionDeclaration (hp : p.Forms) (h : ¬ s.AtArrow → ∀ v s', v.Draft s' → post v s') :
    (Grammar.functionDeclaration p ctx).Sees s post :=
  sees_map.mpr <| function hp fun hs _ _ hv =>
    h hs _ _ (Tree.Plain.draft (.one hv trivial rfl rfl))

theorem nestedFunction (hp : p.Forms) (h : ∀ v s', v.Draft s' → post v s') :
    (Grammar.nestedFunction p ctx).Sees s post :=
  sees_ite.mpr ⟨fun _ => functionDeclaration hp fun _ => h,
    fun _ => functionDeclaration hp fun _ => h⟩

/-! ## Jumps -/

theorem breakStatement (h : ∀ v s', v.Draft s' → post v s') :
    (Grammar.breakStatement ctx).Sees s post := by
  refine Sees.bindAny fun t _ => Sees.bindAny fun label _ =>
    sees_ite.mpr ⟨fun _ => trivial, fun _ => ?_⟩
  exact Sees.bindAny fun ending _ => finish fun span =>
    h _ _ (Tree.Plain.draft (.leaf trivial rfl rfl))

theorem continueStatement (h : ∀ v s', v.Draft s' → post v s') :
    (Grammar.continueStatement ctx).Sees s post := by
  refine Sees.bindAny fun t _ => sees_ite.mpr
    ⟨fun _ => trivial, fun _ => Sees.bindAny fun label _ => ?_⟩
  exact Sees.bindAny fun ending _ => finish fun span =>
    h _ _ (Tree.Plain.draft (.leaf trivial rfl rfl))

/-- A return statement is well formed unless an arrow is ahead. -/
theorem returnStatement (hp : p.Forms) (h : ∀ v s', v.Draft s' → post v s') :
    (Grammar.returnStatement p ctx).Sees s post := by
  have hend : ∀ {t : Token} {value : Tree (.maybe .expr)} {s₁}, value.Draft s₁ →
      (Parse.terminator ctx).Sees s₁ fun ending s₁ => (Parse.finish .returnStmt t.start).Sees s₁
        fun span s₁ => post (.returnStmt t.lead value ending span) s₁ := by
    refine fun hv => terminator fun ending s' hlater => finish fun span => h _ _ ?_
    exact (hv.later hlater).wrap (fun hv => .one hv trivial rfl rfl) rfl rfl
  have hvalue : ∀ {t : Token} {s₁ : Sight}, (p.expression ctx).Sees s₁ fun value s₁ =>
      (Parse.terminator ctx).Sees s₁ fun ending s₁ => (Parse.finish .returnStmt t.start).Sees s₁
        fun span s₁ => post (.returnStmt t.lead (.present value) ending span) s₁ :=
    (hp.expression _).into fun _ value s' hv => hend (hv.wrap Tree.Plain.present hv.noDots rfl)
  have hnone : ∀ {s₁}, (Tree.absent : Tree (.maybe .expr)).Draft s₁ := Tree.Plain.absent.draft
  refine Sees.bindAny fun t _ => sees_ite.mpr ⟨fun _ => ?_, fun _ => ?_⟩
  · exact sees_ite.mpr ⟨fun _ => hend hnone, fun _ => hvalue⟩
  · exact sees_ite.mpr ⟨fun _ => hend hnone, fun _ => hvalue⟩

theorem throwStatement (hp : p.Forms) (h : ∀ v s', v.Draft s' → post v s') :
    (Grammar.throwStatement p ctx).Sees s post := by
  refine Sees.bindAny fun t _ => sees_ite.mpr ⟨fun _ => trivial, fun _ => ?_⟩
  refine (hp.expression _).into fun _ value _ hv => terminator fun ending s' hlater => ?_
  refine finish fun span => h _ _ ?_
  exact (hv.later hlater).wrap (fun hv => .one hv trivial rfl rfl) rfl rfl

theorem debuggerStatement (h : ∀ v s', v.Draft s' → post v s') :
    (Grammar.debuggerStatement ctx).Sees s post :=
  Sees.bindAny fun _ _ => Sees.bindAny fun _ _ => finish fun _ =>
    h _ _ (Tree.Plain.draft (.leaf trivial rfl rfl))

/-! ## Handlers -/

theorem catchParameter (hp : p.Forms) {post : Tree (.maybe .catchParam) → Sight → Prop}
    (h : ∀ v s', v.Plain → post v s') : (Grammar.catchParameter p ctx).Sees s post := by
  refine accept nofun (fun _ openLead _ => ?_) (h _ _ .absent)
  refine (hp.binding _ _ _).imp fun target _ ht => sees_ite.mpr ⟨fun _ => trivial, fun _ => ?_⟩
  exact expect nofun fun _ _ _ => h _ _ (.present (.one ht.plain ⟨ht.target, ht.binding⟩ rfl rfl))

theorem catchClause (hp : p.Forms) {post : Tree (.maybe .catchClause) → Sight → Prop}
    (h : ∀ v s', v.Plain → post v s') : (Grammar.catchClause p ctx).Sees s post := by
  refine sees_ite.mpr ⟨fun _ => h _ _ .absent, fun _ => Sees.bindAny fun catchLead _ => ?_⟩
  refine catchParameter hp fun param _ hparam => block hp fun body _ hbody => finish fun span => ?_
  exact h _ _ (.present (.two hparam hbody trivial rfl rfl))

theorem finallyClause (hp : p.Forms) {post : Tree (.maybe .finallyClause) → Sight → Prop}
    (h : ∀ v s', v.Plain → post v s') : (Grammar.finallyClause p ctx).Sees s post := by
  refine sees_ite.mpr ⟨fun _ => Sees.bindAny fun finallyLead _ => ?_, fun _ => h _ _ .absent⟩
  exact block hp fun body _ hbody => h _ _ (.present (.one hbody trivial rfl rfl))

theorem tryStatement (hp : p.Forms) (h : ∀ v s', v.Draft s' → post v s') :
    (Grammar.tryStatement p ctx).Sees s post := by
  refine Sees.bindAny fun t _ => block hp fun guarded _ hguarded => ?_
  refine catchClause hp fun handler _ hhandler => finallyClause hp fun finalizer _ hfinalizer => ?_
  refine sees_ite.mpr ⟨fun _ => trivial, fun _ => finish fun span => h _ _ ?_⟩
  exact Tree.Plain.draft (.three hguarded hhandler hfinalizer trivial rfl rfl)

/-! ## Switches -/

theorem clauseHead (hp : p.Forms) {hasDefault : Bool}
    {post : String × Tree (.maybe .expr) → Sight → Prop}
    (h : ∀ r s', r.2.Draft s' → post r s') : (Grammar.clauseHead p ctx hasDefault).Sees s post := by
  refine sees_ite.mpr ⟨fun _ => Sees.bindAny fun caseLead _ => ?_, fun _ => sees_ite.mpr
    ⟨fun _ => trivial, fun _ => expectKeyword fun _ _ _ => h _ _ Tree.Plain.absent.draft⟩⟩
  exact (hp.expression _).into fun _ _ _ hv => h _ _ (hv.wrap Tree.Plain.present hv.noDots rfl)

/-- The cases of a switch are well formed. -/
theorem switchCases (hp : p.Forms) {hasDefault : Bool} {rounds : Nat}
    {post : List (Tree .switchCase) → Sight → Prop}
    (h : ∀ vs s', (∀ v ∈ vs, v.Plain) → post vs s') :
    (Grammar.switchCases p ctx hasDefault rounds).Sees s post := by
  induction rounds generalizing hasDefault s post with
  | zero => trivial
  | succ rounds ih =>
    refine sees_ite.mpr ⟨fun _ => h _ _ (List.forall_mem_nil _), fun _ => ?_⟩
    refine clauseHead hp fun r _ htest => expect nofun fun hcolon _ _ => ?_
    refine many (P := Tree.Plain) (fun t ht => Bool.eq_false_iff.2 fun ha => ?_)
      (fun s => (hp.item _).into fun hs v s' hv => ⟨hs, hv.plain_or⟩) ?_
    · simp_all [endsClause, Token.isPunctuator, Token.isKeyword, Token.isEof]
    refine fun _ body _ hbody => finish fun span => ih fun rest s' hrest => h _ _ ?_
    exact List.forall_mem_cons.2 ⟨.two (htest.plain hcolon) (.ofList hbody) trivial rfl rfl, hrest⟩

theorem switchStatement (hp : p.Forms) (h : ∀ v s', v.Draft s' → post v s') :
    (Grammar.switchStatement p ctx).Sees s post := by
  refine Sees.bindAny fun t _ => inParentheses hp fun r _ hsubject => expect nofun fun _ _ _ => ?_
  refine switchCases hp fun cases _ hcases => expect nofun fun _ _ _ => finish fun span => h _ _ ?_
  exact Tree.Plain.draft (.two hsubject (.ofList hcases) trivial rfl rfl)

/-! ## Statements -/

theorem expressionStatement (hp : p.Forms) (h : ¬ s.AtArrow → ∀ v s', v.Draft s' → post v s') :
    (Grammar.expressionStatement p ctx).Sees s post := by
  refine expression hp fun hs value s' hv => sees_bind.mpr (sees_look.mpr ?_)
  split
  · refine sees_ite.mpr ⟨fun _ => trivial, fun _ => Sees.bindAny fun colonLead _ => ?_⟩
    refine (hp.statement _).into fun _ body s₁ hbody => finish fun span => h hs _ _ ?_
    exact hbody.wrap (fun hv => .one hv trivial rfl rfl) rfl rfl
  · refine terminator fun ending s₁ hlater => finish fun span => h hs _ _ ?_
    exact (hv.later hlater).wrap (fun hv => .one hv trivial rfl rfl) rfl rfl

/-- A statement that starts with a reserved word is well formed unless an arrow is ahead. -/
theorem keywordStatement (hp : p.Forms) {word : String} (h : ∀ v s', v.Draft s' → post v s') :
    (Grammar.keywordStatement p ctx word).Sees s post := by
  unfold Grammar.keywordStatement
  split
  · exact breakStatement h
  · exact continueStatement h
  · exact debuggerStatement h
  · exact doWhileLoop hp h
  · exact forLoop hp h
  · exact nestedFunction hp h
  · exact ifStatement hp h
  · exact returnStatement hp h
  · exact switchStatement hp h
  · exact throwStatement hp h
  · exact tryStatement hp h
  · exact variableStatement hp h
  · exact whileLoop hp h
  · exact withStatement hp h
  · exact expressionStatement hp fun _ => h

theorem statement (hp : p.Forms) (h : ¬ s.AtArrow → ∀ v s', v.Draft s' → post v s') :
    (Grammar.statement p ctx).Sees s post := by
  refine sees_ite.mpr ⟨fun hopen => sees_map.mpr (block hp fun v s' hv => ?_), fun _ => sees_ite.mpr
    ⟨fun hsemi => Sees.bindAny fun _ _ => finish fun _ => ?_, fun _ => sees_ite.mpr
    ⟨fun hkind => ?_, fun _ => expressionStatement hp h⟩⟩⟩
  · have hs := Sight.not_atArrow_of_isPunctuator hopen (by decide)
    exact h hs _ _ (Tree.Plain.draft (.one hv trivial rfl rfl))
  · have hs := Sight.not_atArrow_of_isPunctuator hsemi (by decide)
    exact h hs _ _ (Tree.Plain.draft (.leaf trivial rfl rfl))
  · exact keywordStatement hp (h (Sight.not_atArrow_of_kind hkind (by decide)))

theorem keywordItem (hp : p.Forms) {t : Token} (h : ∀ v s', v.Draft s' → post v s') :
    (Grammar.keywordItem p ctx t).Sees s post := by
  unfold Grammar.keywordItem
  split
  · exact functionDeclaration hp fun _ => h
  · refine sees_map.mpr (classDefinition hp fun _ v s' hv => h _ _ ?_)
    exact Tree.Plain.draft (.one hv trivial rfl rfl)
  · exact variableStatement hp h
  · exact Sees.bindAny fun _ _ => sees_ite.mpr ⟨fun _ => statement hp fun _ => h, fun _ => trivial⟩
  · trivial
  · exact statement hp fun _ => h

/-- An item is well formed unless an arrow is ahead. -/
theorem item (hp : p.Forms) (h : ¬ s.AtArrow → ∀ v s', v.Draft s' → post v s') :
    (Grammar.item p ctx).Sees s post := by
  have hword : ∀ {word : String} {choose : Parse Bool} {yes : Parse Stmt},
    s.token.isWord word = true →
      (∀ s', yes.Sees s' post) →
      (choose >>= fun b => if b then yes else Grammar.statement p ctx).Sees s post := by
    intro word choose yes hword hyes
    refine Sees.bindAny fun _ s' => sees_ite.mpr ⟨fun _ => hyes s', fun _ => ?_⟩
    exact statement hp fun _ => h (Sight.not_atArrow_of_isWord hword)
  refine sees_ite.mpr
    ⟨fun hkind => keywordItem hp (h (Sight.not_atArrow_of_kind hkind (by decide))),
    fun _ => sees_ite.mpr ⟨fun hlet => ?_, fun _ => sees_ite.mpr ⟨fun hasync => ?_,
    fun _ => statement hp h⟩⟩⟩
  · exact hword hlet fun _ => variableStatement hp (h (Sight.not_atArrow_of_isWord hlet))
  · exact hword hasync fun _ => functionDeclaration hp fun _ =>
      h (Sight.not_atArrow_of_isWord hasync)

/-! ## Modules -/

theorem importDeclaration {rounds : Nat} (h : ∀ v s', v.Draft s' → post v s') :
    (Grammar.importDeclaration ctx rounds).Sees s post := by
  have hleaf : ∀ {d s'}, post (.importStmt d) s' := h _ _ (Tree.Plain.draft (.leaf trivial rfl rfl))
  refine Sees.bindAny fun t _ => sees_ite.mpr ⟨fun _ => ?_, fun _ => ?_⟩
  · exact Sees.bindAny fun _ _ => Sees.bindAny fun _ _ => Sees.bindAny fun _ _ =>
      finish fun _ => hleaf
  · refine Sees.bindAny fun _ _ => Sees.bindAny fun _ _ => Sees.bindAny fun _ _ => ?_
    exact Sees.bindAny fun _ _ => Sees.bindAny fun _ _ => finish fun _ => hleaf

/-- What is exported by default is well formed unless an arrow is ahead. -/
theorem exportValue (hp : p.Forms) {post : Tree .exportValue → Sight → Prop}
    (h : ∀ v s', v.Draft s' → post v s') : (Grammar.exportValue p ctx).Sees s post := by
  have hfunction : ∀ {s'}, (Grammar.function p ctx true true).Sees s' fun f s' =>
      post (.exportFunction f) s' := by
    refine function hp fun _ v s' hv => h _ _ ?_
    exact Tree.Plain.draft (.one hv trivial rfl rfl)
  have hother : ∀ {s'}, Sees (if s.token.isKeyword "class" then
      Tree.exportClass <$> Grammar.classDefinition p ctx true false else do
        let value ← p.assignment ctx
        let ending ← Parse.terminator ctx
        return Tree.exportExpr value ending) s' post := by
    refine sees_ite.mpr ⟨fun _ => sees_map.mpr (classDefinition hp fun _ v s' hv => h _ _ ?_),
      fun _ => ?_⟩
    · exact Tree.Plain.draft (.one hv trivial rfl rfl)
    · refine (hp.assignment _).into fun _ value _ hv => terminator fun ending s' hlater => h _ _ ?_
      exact (hv.later hlater).wrap (fun hv => .one hv trivial rfl rfl) rfl rfl
  refine sees_ite.mpr ⟨fun _ => hfunction,
    fun _ => sees_ite.mpr ⟨fun _ => Sees.bindAny fun isFunction _ =>
    sees_ite.mpr ⟨fun _ => hfunction, fun _ => hother⟩, fun _ => hother⟩⟩

/-- An export is well formed unless an arrow is ahead. -/
theorem exportDeclaration (hp : p.Forms) (h : ∀ v s', v.Draft s' → post v s') :
    (Grammar.exportDeclaration p ctx).Sees s post := by
  refine Sees.bindAny fun t _ => sees_ite.mpr
    ⟨fun _ => ?_, fun _ => sees_ite.mpr ⟨fun _ => ?_, fun _ =>
    sees_ite.mpr ⟨fun _ => ?_, fun _ => ?_⟩⟩⟩
  · refine Sees.bindAny fun defaultLead _ => exportValue hp fun value s' hv => finish fun span => ?_
    exact h _ _ (hv.wrap (fun hv => .one hv trivial rfl rfl) rfl rfl)
  · refine Sees.bindAny fun starLead _ => Sees.bindAny fun alias? _ =>
      Sees.bindAny fun fromLead _ => ?_
    refine Sees.bindAny fun source _ => Sees.bindAny fun ending _ => finish fun span => h _ _ ?_
    exact Tree.Plain.draft (.leaf trivial rfl rfl)
  · refine Sees.bindAny fun openLead _ => Sees.bindAny fun entries _ =>
      Sees.bindAny fun closeLead _ => ?_
    refine Sees.bindAny fun origin _ => Sees.bindAny fun ending _ => finish fun span => h _ _ ?_
    exact Tree.Plain.draft (.one .absent trivial rfl rfl)
  · refine Sees.bindAny fun declares _ => sees_ite.mpr ⟨fun _ => trivial, fun _ => ?_⟩
    refine (hp.item _).into fun _ declaration s' hv => finish fun span => h _ _ ?_
    exact hv.wrap (fun hv => .one hv.present trivial rfl rfl) rfl rfl

theorem moduleItem (hp : p.Forms) (h : ¬ s.AtArrow → ∀ v s', v.Draft s' → post v s') :
    (Grammar.moduleItem p ctx).Sees s post := by
  refine sees_ite.mpr ⟨fun himport => ?_, fun _ => sees_ite.mpr ⟨fun hexport => ?_, fun _ => ?_⟩⟩
  · have hs := Sight.not_atArrow_of_isKeyword himport
    refine Sees.bindAny fun _ _ => sees_ite.mpr
      ⟨fun _ => (hp.item _).into fun _ => h hs, fun _ => ?_⟩
    exact importDeclaration (h hs)
  · exact exportDeclaration hp (h (Sight.not_atArrow_of_isKeyword hexport))
  · exact (hp.item _).into h

end Parse.Drafts

/-! ## The language -/

/-- The productions that are never reached yield nothing. -/
theorem Productions.Forms.exhausted : Productions.exhausted.Forms := by
  constructor <;> intros <;> first | exact fun _ => trivial | trivial

/-- Productions that call ones whose results are well formed are such. -/
theorem Productions.Forms.deepen {p : Productions} (hp : p.Forms) : p.deepen.Forms where
  expression _ _ := Parse.Drafts.expression hp fun hs _ _ hv => ⟨hs, hv⟩
  assignment _ _ := Parse.Drafts.assignment hp fun hs _ _ hv => ⟨hs, hv⟩
  cover _ _ := Parse.Drafts.cover hp fun hs _ _ hv => ⟨hs, hv⟩
  binary _ _ _ := Parse.Drafts.binary hp fun hs _ _ hv => ⟨hs, hv⟩
  exponentiation _ _ := Parse.Drafts.exponentiation hp fun hs _ _ hv => ⟨hs, hv⟩
  unary _ _ := Parse.Drafts.unary hp fun hs _ _ hv => ⟨hs, hv⟩
  chain _ _ := Parse.Drafts.chain hp fun hs _ _ hv => ⟨hs, hv⟩
  callee _ _ := Parse.Drafts.callee hp fun hs _ _ hv => ⟨hs, hv⟩
  binding _ _ _ := Parse.Drafts.binding hp fun _ _ hv => hv
  statement _ _ := Parse.Drafts.statement hp fun hs _ _ hv => ⟨hs, hv⟩
  item _ _ := Parse.Drafts.item hp fun hs _ _ hv => ⟨hs, hv⟩
  markup _ _ _ _ _ := Parse.Drafts.markup hp

/-- Productions of any depth read well-formed trees. -/
theorem Productions.Forms.ofDepth (depth : Nat) : (Productions.ofDepth depth).Forms := by
  induction depth with
  | zero => exact .exhausted
  | succ depth ih => exact ih.deepen

/-- The statements of a program are well formed. -/
theorem Parse.Drafts.program {p : Productions} {goal : Goal} {allowsMarkup : Bool} {s : Sight}
    (hp : p.Forms) : (Grammar.program p goal allowsMarkup).Sees s fun v _ =>
      ∀ stmt ∈ v.body, stmt.Sound := by
  have heof : ∀ t : Token, t.isEof = true → t.isPunctuator "=>" = false := fun t ht =>
    Bool.eq_false_iff.2 fun ha => by simp_all [Token.isEof, Token.isPunctuator]
  refine prologueFrom hp fun r s' _ hr => ?_
  refine many (P := Tree.Plain) heof (fun s => ?_) fun hs rest _ hrest => finish fun _ => ?_
  · cases goal with
    | script => exact (hp.item _).into fun hs v s' hv => ⟨hs, hv.plain_or⟩
    | module => exact moduleItem hp fun hs v s' hv => ⟨hs, hv.plain_or⟩
  · exact List.forall_mem_append.2 ⟨fun v hv => ((hr v hv).plain hs).sound,
      fun v hv => (hrest v hv).sound⟩

/-- Every construct in a parsed program obeys the rules, also where faults were tolerated. -/
theorem parse_formed {o : Options} {source : String} {out : Parsed}
    (h : parse o source = .ok out) {c : Category} {ctx : Context} {x : Tree c}
    (hx : out.program.Contains o ctx x) : x.Formed := by
  obtain ⟨first, program, last, hstart, hrun, rfl⟩ := exists_run_of_parse h
  have hdrafts : (Grammar.program (.ofDepth (source.length + 3)) o.goal o.jsx).Sees
      { token := first.lookahead } _ := Parse.Drafts.program (.ofDepth (source.length + 3))
  have hend := Parse.Meets.run sights_holds hdrafts (.of_lookahead rfl)
  rw [Productions.forSource] at hrun
  rw [hrun] at hend
  obtain ⟨_, -, hbody⟩ := hend
  obtain ⟨stmt, hstmt, hx⟩ := hx
  exact (hbody stmt hstmt).formed hx

/-- The parameters of an arrow function, which were read as an expression first. -/
theorem parse_formed_parameters :
    ∃ out ctx items, parse { tolerant := true } "([a,...b],c=d)=>c" = .ok out ∧
      out.program.Contains { tolerant := true } ctx (.paramList "" items [","] "") ∧
      items.toList.length = 2 ∧ (Tree.paramList "" items [","] "").Formed := by
  have hparse : (parse { tolerant := true } "([a,...b],c=d)=>c").toOption.map (·.program.body) =
      some [.exprStmt (.arrow false "" (.listedParams (.paramList "" (.cons (.arrayPattern ""
        (.cons (.present (.namePattern { name := "a", raw := "a" }))
          (.cons (.present (.restPattern ""
        (.namePattern { name := "b", raw := "b" }) {})) .nil)) [","] "" {}) (.cons (.defaultPattern
        (.namePattern { name := "c", raw := "c" }) "" (.identifier { name := "d", raw := "d" }) {})
        .nil)) [","] "")) "" (.exprBody (.identifier { name := "c", raw := "c" })) {})
          none .inserted
        {}] := by decide +kernel
  obtain ⟨out, h, hbody⟩ := Except.exists_ok_of_map hparse
  have hx : out.program.Contains { tolerant := true } _ _ :=
    .of_body hbody (List.mem_singleton_self _) (.inPart _ (List.mem_singleton_self _)
      (.inPart _ (List.mem_cons_self ..) (.inPart _ (List.mem_singleton_self _) .whole)))
  exact ⟨out, _, _, h, hx, rfl, parse_formed h hx⟩

end Verbatim
