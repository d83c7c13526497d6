import Verbatim.Proofs.Course.Assignment

/-!
# Statements

Statements are read as they are laid out. The first part of a loop is a declaration or an
expression, and the latter may become a target, which is laid out over the same tokens.

## Main results

* `Verbatim.Parse.Proceeds.variableStatement`, `Verbatim.Parse.Proceeds.forLoop`, … — one lemma for
  each production.
* `Verbatim.Parse.Proceeds.statement`, `Verbatim.Parse.Proceeds.item` — statements and declarations.
-/

namespace Verbatim

open Verbatim.Grammar Verbatim.Course Verbatim.Layout

/-- What is read of a declaration in front of its end, which a loop does not have. -/
def Grammar.Variables.layout (v : Variables) : Layout :=
  .seq (.token (v.lead ++ v.kind.text)) (Tree.listOf (.ofList v.items) v.separators)

/-- What stands in front of the first part of a loop with `for` is read. -/
structure Grammar.ForHead.IsRead {source : String} (head : ForHead)
    (c c' : Course source) : Prop where
  /-- The loop starts there. -/
  start : head.start = c.ahead.start
  /-- The word `for` is read, the word `await` if it is there, and the parenthesis. -/
  parts : ∃ c₁ c₂, c.Passes (.token (head.lead ++ "for")) c₁ ∧
    c₁.Passes (.mark head.awaitLead "await") c₂ ∧ c₂.Passes (.token (head.openLead ++ "(")) c'

namespace Parse.Proceeds

variable {source : String} {p : Productions} {ctx : Context} {c c₀ c₁ : Course source}

/-! ## Declarations -/

/-- The initial value of a variable is laid out as it was read. -/
theorem variableValue (hp : p.Proceeds source) {inLoopHead : Bool} {kind : VariableKind}
    {target : Pattern} {post : Tree (.maybe .initializer) → Outlook source → Prop}
    (h : ∀ v c', c.Builds v c' → post v (.on c')) :
    (Grammar.variableValue p ctx inLoopHead kind target).Proceeds c post := by
  have habsent : post .absent (.on c) := h _ _ (.part .blank rfl)
  simp only [Grammar.variableValue, proceeds_bind, proceeds_look, meets_on, proceeds_ite,
    proceeds_pure]
  refine ⟨fun ht => lead (raw_of_isPunctuator ht) fun eqLead c₁ h₁ => ?_,
    fun _ => ⟨fun _ => ?_, fun _ => habsent⟩⟩
  · exact hp.ofAssignment fun value c₂ h₂ => h _ _ (.part (.part (h₁.seq h₂) rfl) rfl)
  · cases Grammar.missingValue? kind target with
    | none => exact habsent
    | some fault => trivial

theorem declarator (hp : p.Proceeds source) {inLoopHead : Bool} {kind : VariableKind}
    (c : Course source) :
    (Grammar.declarator p ctx inLoopHead kind).Yields c fun v c' => c.Builds v c' := by
  refine Yields.of_rule fun post h => hp.ofBinding fun target c₁ h₁ => ?_
  simp only [meets_on, proceeds_bind, proceeds_ite, proceeds_tolerate]
  have hrest : (Grammar.variableValue p ctx inLoopHead kind target).Proceeds c₁ fun value o =>
      (Parse.finish .declarator c.ahead.start).Meets (courses source) o fun span o =>
        post (.declarator target value span) o :=
    variableValue hp fun value c₂ h₂ => finish (h₁.seq h₂) rfl (by decide) fun span c' hr =>
      h _ _ (.part hr rfl)
  exact ⟨fun _ => hrest, fun _ => hrest⟩

theorem variableList (hp : p.Proceeds source) {inLoopHead : Bool}
    {post : Variables → Outlook source → Prop}
    (ht : (Grammar.variableKind c.ahead.raw).text = c.ahead.raw)
    (h : ∀ v c', c.Passes v.layout c' → post v (.on c')) :
    (Grammar.variableList p ctx inLoopHead).Proceeds c post := by
  intro u hu
  have hword : c.Passes (.token (c.ahead.lead ++ (Grammar.variableKind c.ahead.raw).text))
      (c.take u hu) := .token ht.symm
  refine (declarator hp _).use fun first c₁ h₁ => ?_
  refine afterCommas (F := fun v c c' => c.Builds v c') h₁ (declarator hp) fun vs commas c₂ h₂ => ?_
  exact h _ _ (hword.seq h₂.builds)

theorem variableStatement (hp : p.Proceeds source) {post : Stmt → Outlook source → Prop}
    (ht : (Grammar.variableKind c.ahead.raw).text = c.ahead.raw)
    (h : ∀ v c', c.Builds v c' → post v (.on c')) :
    (Grammar.variableStatement p ctx).Proceeds c post := by
  refine variableList hp ht fun v c₁ h₁ => terminator fun ending c₂ h₂ => ?_
  exact finish (h₁.seq h₂).assoc rfl (by decide) fun span c' hr => h _ _ (.part (.part hr rfl) rfl)

@[simp]
theorem isLexicalDeclaration {post : Bool → Outlook source → Prop} (h : ∀ b, post b (.on c)) :
    Grammar.isLexicalDeclaration.Proceeds c post := fun _ => h _

@[simp]
theorem isAsyncFunction {post : Bool → Outlook source → Prop} (h : ∀ b, post b (.on c)) :
    Grammar.isAsyncFunction.Proceeds c post := fun _ => h _

/-! ## Loops -/

theorem inParentheses (hp : p.Proceeds source)
    {post : String × Expr × String → Outlook source → Prop}
    (h : ∀ r c₁ c₂ c', c.Passes (.token (r.1 ++ "(")) c₁ → c₁.Builds r.2.1 c₂ →
      c₂.Passes (.token (r.2.2 ++ ")")) c' → post r (.on c')) :
    (Grammar.inParentheses p ctx).Proceeds c post := by
  refine expect fun openLead c₁ h₁ => hp.ofExpression fun value c₂ h₂ => ?_
  exact expect fun closeLead c₃ h₃ => h (openLead, value, closeLead) _ _ _ h₁ h₂ h₃

theorem optionalBefore (hp : p.Proceeds source) {close : String}
    {post : Tree (.maybe .expr) → Outlook source → Prop}
    (h : ∀ v c', c.Builds v c' → post v (.on c')) :
    (Grammar.optionalBefore p ctx close).Proceeds c post := by
  simp only [Grammar.optionalBefore, proceeds_bind, proceeds_sees, meets_on, proceeds_ite,
    proceeds_pure]
  exact ⟨fun _ => h _ _ (.part .blank rfl), fun _ => hp.ofExpression fun v c' hv =>
    h _ _ (.part hv rfl)⟩

section

variable {head : ForHead} {post : Stmt → Outlook source → Prop}

/-- A loop with three parts is laid out as it was read. -/
theorem finishFor (hp : p.Proceeds source) {init : Tree (.maybe .forInit)}
    (hhead : head.IsRead c₀ c₁) (hinit : c₁.Builds init c)
    (h : ∀ v c', c₀.Builds v c' → post v (.on c')) :
    (Grammar.finishFor p ctx head init).Proceeds c post := by
  obtain ⟨hstart, cFor, cAwait, hfor, hawait, hopen⟩ := hhead
  simp only [Grammar.finishFor, proceeds_bind, proceeds_ite, proceeds_unexpectedHere, implies_true,
    true_and]
  intro hnone
  have hnone : head.awaitLead = none := by simpa using hnone
  rw [hnone] at hawait
  have hopen : cFor.Passes (.token (head.openLead ++ "(")) c₁ := (hawait.seq hopen).drop
  refine expect fun firstLead c₂ h₂ => optionalBefore hp fun test c₃ h₃ => ?_
  refine expect fun secondLead c₄ h₄ => optionalBefore hp fun step c₅ h₅ => ?_
  refine expect fun closeLead c₆ h₆ => hp.ofStatement fun body c₇ h₇ => ?_
  rw [hstart]
  have hrest := hinit.seq (h₂.seq (h₃.seq (h₄.seq (h₅.seq (h₆.seq h₇)))))
  exact finish (hfor.seq (hopen.seq hrest)) rfl (by decide) fun span c' hr => h _ _ (.part hr rfl)

/-- A loop over keys is laid out as it was read. -/
theorem finishForIn (hp : p.Proceeds source) {left : Tree .forTarget} (hhead : head.IsRead c₀ c₁)
    (hleft : c₁.Builds left c) (ht : c.ahead.isKeyword "in" = true)
    (h : ∀ v c', c₀.Builds v c' → post v (.on c')) :
    (Grammar.finishForIn p ctx head left).Proceeds c post := by
  obtain ⟨hstart, cFor, cAwait, hfor, hawait, hopen⟩ := hhead
  simp only [Grammar.finishForIn, proceeds_bind, proceeds_ite, proceeds_unexpectedHere,
    implies_true,
    true_and]
  intro hnone
  have hnone : head.awaitLead = none := by simpa using hnone
  rw [hnone] at hawait
  have hopen : cFor.Passes (.token (head.openLead ++ "(")) c₁ := (hawait.seq hopen).drop
  refine lead (raw_of_isKeyword ht) fun inLead c₂ h₂ => hp.ofExpression fun right c₃ h₃ => ?_
  refine expect fun closeLead c₄ h₄ => hp.ofStatement fun body c₅ h₅ => ?_
  rw [hstart]
  have hrest := hleft.seq (h₂.seq (h₃.seq (h₄.seq h₅)))
  exact finish (hfor.seq (hopen.seq hrest)) rfl (by decide) fun span c' hr => h _ _ (.part hr rfl)

theorem finishForOf (hp : p.Proceeds source) {left : Tree .forTarget} (hhead : head.IsRead c₀ c₁)
    (hleft : c₁.Builds left c) (h : ∀ v c', c₀.Builds v c' → post v (.on c')) :
    (Grammar.finishForOf p ctx head left).Proceeds c post := by
  obtain ⟨hstart, cFor, cAwait, hfor, hawait, hopen⟩ := hhead
  refine expectWord fun ofLead c₂ h₂ => hp.ofAssignment fun right c₃ h₃ => ?_
  refine expect fun closeLead c₄ h₄ => hp.ofStatement fun body c₅ h₅ => ?_
  rw [hstart]
  have hrest := hleft.seq (h₂.seq (h₃.seq (h₄.seq h₅)))
  exact finish (hfor.seq (hawait.seq (hopen.seq hrest))) rfl (by decide) fun span c' hr =>
    h _ _ (.part hr rfl)

theorem finishForEach (hp : p.Proceeds source) {left : Tree .forTarget} (hhead : head.IsRead c₀ c₁)
    (hleft : c₁.Builds left c) (h : ∀ v c', c₀.Builds v c' → post v (.on c')) :
    (Grammar.finishForEach p ctx head left).Proceeds c post := by
  simp only [Grammar.finishForEach, proceeds_bind, proceeds_seesKeyword, meets_on, proceeds_ite]
  exact ⟨fun ht => finishForIn hp hhead hleft ht h, fun _ => finishForOf hp hhead hleft h⟩

/-- The check of the variables of a loop takes nothing. -/
@[simp]
theorem checkLoopVariables {kind : VariableKind} {t : Token} {items : List (Tree .declarator)}
    {post : Unit → Outlook source → Prop} (h : post () (.on c)) :
    (Grammar.checkLoopVariables kind t items).Proceeds c post := by
  induction items with
  | nil => exact h
  | cons item rest ih =>
    cases item with
    | declarator target init span =>
      cases init with
      | present value => exact ih
      | absent =>
        rw [Grammar.checkLoopVariables]
        cases Grammar.missingValue? kind target with
        | none => exact ih
        | some fault => trivial

/-- A loop that declares variables is laid out as it was read. -/
theorem forVariables (hp : p.Proceeds source) (hhead : head.IsRead c₀ c)
    (ht : (Grammar.variableKind c.ahead.raw).text = c.ahead.raw)
    (h : ∀ v c', c₀.Builds v c' → post v (.on c')) :
    (Grammar.forVariables p ctx head).Proceeds c post := by
  simp only [Grammar.forVariables, proceeds_bind, proceeds_here, meets_on]
  refine variableList hp ht fun v c₁ h₁ => ?_
  refine finish (h₁.seq .blank).assoc rfl (by decide) fun span c₂ h₂ => ?_
  have hdeclaration : c.Builds (v.declare none span) c₂ := .part h₂ rfl
  simp only [meets_on, proceeds_bind, proceeds_look]
  split
  · simp only [proceeds_ite, proceeds_bind, proceeds_reject, implies_true, true_and]
    have htarget : c.Builds (.targetDeclaration (v.declare none span)) c₂ := .part hdeclaration rfl
    exact fun _ => finishForEach hp hhead htarget h
  · have hinit : c.Builds (.present (.forDeclaration (v.declare none span))) c₂ :=
      .part (.part hdeclaration rfl) rfl
    exact checkLoopVariables (finishFor hp hhead hinit h)

/-- What is read in front of `in` or `of` becomes a target, and what is read in front of a semicolon
stays an expression. -/
theorem forExpression (hp : p.Proceeds source) (hhead : head.IsRead c₀ c)
    (h : ∀ v c', c₀.Builds v c' → post v (.on c')) :
    (Grammar.forExpression p ctx head).Proceeds c post := by
  simp only [Grammar.forExpression, proceeds_bind, proceeds_look, meets_on, proceeds_pending,
    proceeds_setPending]
  refine fun before => hp.ofCover fun value c₁ h₁ => ?_
  simp only [meets_on, proceeds_ite, proceeds_bind, proceeds_look]
  refine ⟨fun _ => assignmentTarget fun target htarget => ?_, fun _ => rejectPending ?_⟩
  · have hleft : c.Builds (.targetPattern target) c₁ := .part (h₁.recast htarget) rfl
    exact finishForEach hp hhead hleft h
  · refine sequenceFrom hp h₁ fun init c₂ h₂ => ?_
    have hinit : c.Builds (.present (.forExpr init)) c₂ := .part (.part h₂ rfl) rfl
    exact finishFor hp hhead hinit h

theorem forAwait {post : Option String → Outlook source → Prop}
    (h : ∀ awaitLead c', c.Passes (.mark awaitLead "await") c' → post awaitLead (.on c')) :
    (Grammar.forAwait ctx).Proceeds c post := by
  simp only [Grammar.forAwait, proceeds_bind, proceeds_look, meets_on, proceeds_ite, proceeds_pure,
    proceeds_unexpected, proceeds_map, implies_true, true_and, Bool.not_eq_true', Bool.not_eq_false]
  exact ⟨fun _ => h none _ .blank, fun ht _ => lead (raw_of_isWord ht) fun _ c' hr =>
    h (some _) c' hr⟩

/-- A loop is laid out as it was read. -/
theorem forLoop (hp : p.Proceeds source) (ht : c.ahead.raw = "for")
    (h : ∀ v c', c.Builds v c' → post v (.on c')) : (Grammar.forLoop p ctx).Proceeds c post := by
  intro u hu
  have hword : c.Passes (.token (c.ahead.lead ++ "for")) (c.take u hu) := .token ht
  refine forAwait fun awaitLead c₁ h₁ => expect fun openLead c₂ h₂ => ?_
  let head : ForHead := { start := c.ahead.start, lead := c.ahead.lead, awaitLead, openLead }
  have hhead : head.IsRead c c₂ := ⟨rfl, _, _, hword, h₁, h₂⟩
  simp only [meets_on, proceeds_bind, proceeds_look, proceeds_ite, proceeds_pure]
  refine ⟨fun _ => finishFor hp hhead (.part .blank rfl) h,
    fun _ => ⟨fun hkind => ⟨fun _ => ?_, by simp⟩,
    fun _ => ⟨fun hlet => isLexicalDeclaration fun b => ?_,
      fun _ => ⟨fun hf => absurd hf Bool.false_ne_true, fun _ => ?_⟩⟩⟩⟩
  · refine forVariables hp hhead ?_ h
    rcases Bool.or_eq_true_iff.1 hkind with hkind | hkind <;> rw [raw_of_isKeyword hkind] <;> rfl
  · refine proceeds_ite.mpr ⟨fun _ => forVariables hp hhead ?_ h, fun _ => forExpression hp hhead h⟩
    rw [raw_of_isWord hlet]
    rfl
  · exact forExpression hp hhead h

theorem whileLoop (hp : p.Proceeds source) (ht : c.ahead.raw = "while")
    (h : ∀ v c', c.Builds v c' → post v (.on c')) : (Grammar.whileLoop p ctx).Proceeds c post := by
  intro u hu
  have hword : c.Passes (.token (c.ahead.lead ++ "while")) (c.take u hu) := .token ht
  refine inParentheses hp fun r c₁ c₂ c₃ h₁ h₂ h₃ => hp.ofStatement fun body c₄ h₄ => ?_
  exact finish (hword.seq (h₁.seq (h₂.seq (h₃.seq h₄)))) rfl (by decide) fun span c' hr =>
    h _ _ (.part hr rfl)

/-- A loop with its test behind the body is laid out as it was read. -/
theorem doWhileLoop (hp : p.Proceeds source) (ht : c.ahead.raw = "do")
    (h : ∀ v c', c.Builds v c' → post v (.on c')) :
    (Grammar.doWhileLoop p ctx).Proceeds c post := by
  intro u hu
  have hword : c.Passes (.token (c.ahead.lead ++ "do")) (c.take u hu) := .token ht
  refine hp.ofStatement fun body c₁ h₁ => expectKeyword fun whileLead c₂ h₂ => ?_
  refine inParentheses hp fun r c₃ c₄ c₅ h₃ h₄ h₅ => ?_
  have hrest : ∀ {ending : Terminator} {c₆ : Course source}, c₅.Passes ending.layout c₆ →
      (Parse.finish .doWhileStmt c.ahead.start).Proceeds c₆ fun span o => post
        (.doWhileStmt c.ahead.lead body whileLead r.1 r.2.1 r.2.2 ending span) o := fun h₆ =>
    finish (hword.seq (h₁.seq (h₂.seq (h₃.seq (h₄.seq (h₅.seq h₆)))))) rfl (by decide)
      fun span c' hr =>
      h _ _ (.part hr rfl)
  simp only [meets_on, proceeds_bind, proceeds_sees, proceeds_ite, proceeds_pure]
  exact ⟨fun _ => terminator fun _ _ h₆ => hrest h₆, fun _ => hrest .blank⟩

end

/-! ## Blocks and branches -/

theorem block (hp : p.Proceeds source) {post : Tree .block → Outlook source → Prop}
    (h : ∀ v c', c.Builds v c' → post v (.on c')) : (Grammar.block p ctx).Proceeds c post := by
  refine expect fun openLead c₁ h₁ => items hp fun stmts c₂ h₂ => expect fun closeLead c₃ h₃ => ?_
  exact finish (h₁.seq (h₂.seq h₃)) rfl (by decide) fun span c' hr => h _ _ (.part hr rfl)

theorem elseClause (hp : p.Proceeds source)
    {post : Tree (.maybe .elseClause) → Outlook source → Prop}
    (h : ∀ v c', c.Builds v c' → post v (.on c')) : (Grammar.elseClause p ctx).Proceeds c post := by
  simp only [Grammar.elseClause, proceeds_bind, proceeds_seesKeyword, meets_on, proceeds_ite,
    proceeds_pure]
  refine ⟨fun ht => lead (raw_of_isKeyword ht) fun elseLead c₁ h₁ => ?_,
    fun _ => h _ _ (.part .blank rfl)⟩
  exact hp.ofStatement fun body c₂ h₂ => h _ _ (.part (.part (h₁.seq h₂) rfl) rfl)

section

variable {post : Stmt → Outlook source → Prop}

theorem emptyStatement (ht : c.ahead.isPunctuator ";" = true)
    (h : ∀ v c', c.Builds v c' → post v (.on c')) : Grammar.emptyStatement.Proceeds c post := by
  intro u hu
  have hmark : c.Passes (.token (c.ahead.lead ++ ";")) (c.take u hu) :=
    .token (raw_of_isPunctuator ht)
  exact finish hmark rfl (by decide) fun span c' hr => h _ _ (.part hr rfl)

theorem ifStatement (hp : p.Proceeds source) (ht : c.ahead.raw = "if")
    (h : ∀ v c', c.Builds v c' → post v (.on c')) :
    (Grammar.ifStatement p ctx).Proceeds c post := by
  intro u hu
  have hword : c.Passes (.token (c.ahead.lead ++ "if")) (c.take u hu) := .token ht
  refine inParentheses hp fun r c₁ c₂ c₃ h₁ h₂ h₃ => hp.ofStatement fun consequent c₄ h₄ => ?_
  refine elseClause hp fun alternate c₅ h₅ => ?_
  exact finish (hword.seq (h₁.seq (h₂.seq (h₃.seq (h₄.seq h₅))))) rfl (by decide) fun span c' hr =>
    h _ _ (.part hr rfl)

theorem withStatement (hp : p.Proceeds source) (ht : c.ahead.raw = "with")
    (h : ∀ v c', c.Builds v c' → post v (.on c')) :
    (Grammar.withStatement p ctx).Proceeds c post := by
  simp only [Grammar.withStatement, proceeds_bind, proceeds_next, meets_on, proceeds_ite,
    proceeds_tolerate]
  intro u hu
  have hword : c.Passes (.token (c.ahead.lead ++ "with")) (c.take u hu) := .token ht
  rw [← or_imp]
  refine fun _ => inParentheses hp fun r c₁ c₂ c₃ h₁ h₂ h₃ => hp.ofStatement fun body c₄ h₄ => ?_
  exact finish (hword.seq (h₁.seq (h₂.seq (h₃.seq h₄)))) rfl (by decide) fun span c' hr =>
    h _ _ (.part hr rfl)

theorem nestedFunction (hp : p.Proceeds source) (h : ∀ v c', c.Builds v c' → post v (.on c')) :
    (Grammar.nestedFunction p ctx).Proceeds c post := by
  simp only [Grammar.nestedFunction, proceeds_bind, proceeds_look, meets_on, proceeds_ite,
    proceeds_tolerate, ← or_imp]
  exact fun _ => functionDeclaration hp h

/-! ## Jumps -/

theorem jumpLabel {post : Option Ident → Outlook source → Prop}
    (h : ∀ label c', c.Passes (nameLayout label) c' → post label (.on c')) :
    (Grammar.jumpLabel ctx).Proceeds c post := by
  simp only [Grammar.jumpLabel, proceeds_bind, proceeds_look, meets_on, proceeds_ite, proceeds_pure]
  refine ⟨fun _ => h none _ .blank, fun _ => anyName fun label c₁ h₁ => ?_⟩
  simp only [meets_on, proceeds_bind, proceeds_ite, proceeds_reject, implies_true, true_and]
  exact fun _ => h (some label) _ h₁

theorem breakStatement (ht : c.ahead.raw = "break") (h : ∀ v c', c.Builds v c' → post v (.on c')) :
    (Grammar.breakStatement ctx).Proceeds c post := by
  intro u hu
  have hword : c.Passes (.token (c.ahead.lead ++ "break")) (c.take u hu) := .token ht
  refine jumpLabel fun label c₁ h₁ => ?_
  simp only [meets_on, proceeds_bind, proceeds_ite, proceeds_reject, implies_true, true_and]
  refine fun _ => terminator fun ending c₂ h₂ => ?_
  exact finish (hword.seq (h₁.seq h₂)) rfl (by decide) fun span c' hr => h _ _ (.part hr rfl)

theorem continueStatement (ht : c.ahead.raw = "continue")
    (h : ∀ v c', c.Builds v c' → post v (.on c')) :
    (Grammar.continueStatement ctx).Proceeds c post := by
  simp only [Grammar.continueStatement, proceeds_bind, proceeds_next, meets_on, proceeds_ite,
    proceeds_reject, implies_true, true_and]
  intro u hu _
  have hword : c.Passes (.token (c.ahead.lead ++ "continue")) (c.take u hu) := .token ht
  refine jumpLabel fun label c₁ h₁ => terminator fun ending c₂ h₂ => ?_
  exact finish (hword.seq (h₁.seq h₂)) rfl (by decide) fun span c' hr => h _ _ (.part hr rfl)

/-- A return statement is laid out as it was read. -/
theorem returnStatement (hp : p.Proceeds source) (ht : c.ahead.raw = "return")
    (h : ∀ v c', c.Builds v c' → post v (.on c')) :
    (Grammar.returnStatement p ctx).Proceeds c post := by
  simp only [Grammar.returnStatement, proceeds_bind, proceeds_next, meets_on, proceeds_ite,
    proceeds_tolerate, proceeds_look, proceeds_pure, proceeds_map, ← or_imp]
  intro u hu _
  have hword : c.Passes (.token (c.ahead.lead ++ "return")) (c.take u hu) := .token ht
  have hrest : ∀ {value : Tree (.maybe .expr)} {c₁ : Course source}, (c.take u hu).Builds value c₁ →
      (Parse.terminator ctx).Proceeds c₁ fun ending o =>
        (Parse.finish .returnStmt c.ahead.start).Meets (courses source) o fun span o =>
          post (.returnStmt c.ahead.lead value ending span) o := fun h₁ =>
    terminator fun ending c₂ h₂ => finish (hword.seq (h₁.seq h₂)) rfl (by decide) fun span c' hr =>
      h _ _ (.part hr rfl)
  exact ⟨fun _ => hrest (.part .blank rfl), fun _ => hp.ofExpression fun value c₁ h₁ =>
    hrest (.part h₁ rfl)⟩

theorem throwStatement (hp : p.Proceeds source) (ht : c.ahead.raw = "throw")
    (h : ∀ v c', c.Builds v c' → post v (.on c')) :
    (Grammar.throwStatement p ctx).Proceeds c post := by
  simp only [Grammar.throwStatement, proceeds_bind, proceeds_next, meets_on, proceeds_ite,
    proceeds_reject, proceeds_look, implies_true, true_and]
  intro u hu _
  have hword : c.Passes (.token (c.ahead.lead ++ "throw")) (c.take u hu) := .token ht
  refine hp.ofExpression fun value c₁ h₁ => terminator fun ending c₂ h₂ => ?_
  exact finish (hword.seq (h₁.seq h₂)) rfl (by decide) fun span c' hr => h _ _ (.part hr rfl)

theorem debuggerStatement (ht : c.ahead.raw = "debugger")
    (h : ∀ v c', c.Builds v c' → post v (.on c')) :
    (Grammar.debuggerStatement ctx).Proceeds c post := by
  intro u hu
  have hword : c.Passes (.token (c.ahead.lead ++ "debugger")) (c.take u hu) := .token ht
  refine terminator fun ending c₁ h₁ => ?_
  exact finish (hword.seq h₁) rfl (by decide) fun span c' hr => h _ _ (.part hr rfl)

end

/-! ## Handlers -/

theorem catchParameter (hp : p.Proceeds source)
    {post : Tree (.maybe .catchParam) → Outlook source → Prop}
    (h : ∀ v c', c.Builds v c' → post v (.on c')) :
    (Grammar.catchParameter p ctx).Proceeds c post := by
  refine accept (h _ _ (.part .blank rfl)) fun openLead c₁ h₁ => ?_
  simp only [meets_on, proceeds_bind, proceeds_look]
  refine hp.ofBinding fun target c₂ h₂ => ?_
  simp only [meets_on, proceeds_bind, proceeds_ite, proceeds_reject, implies_true, true_and]
  exact fun _ => expect fun closeLead c₃ h₃ => h _ _ (.part (.part (h₁.seq (h₂.seq h₃)) rfl) rfl)

theorem catchClause (hp : p.Proceeds source)
    {post : Tree (.maybe .catchClause) → Outlook source → Prop}
    (h : ∀ v c', c.Builds v c' → post v (.on c')) :
    (Grammar.catchClause p ctx).Proceeds c post := by
  simp only [Grammar.catchClause, proceeds_bind, proceeds_look, meets_on, proceeds_ite,
    proceeds_pure, Bool.not_eq_true', Bool.not_eq_false]
  refine ⟨fun _ => h _ _ (.part .blank rfl),
    fun ht => lead (raw_of_isKeyword ht) fun catchLead c₁ h₁ => ?_⟩
  refine catchParameter hp fun param c₂ h₂ => block hp fun body c₃ h₃ => ?_
  exact finish (h₁.seq (h₂.seq h₃)) rfl (by decide) fun span c' hr =>
    h _ _ (.part (.part hr rfl) rfl)

theorem finallyClause (hp : p.Proceeds source)
    {post : Tree (.maybe .finallyClause) → Outlook source → Prop}
    (h : ∀ v c', c.Builds v c' → post v (.on c')) :
    (Grammar.finallyClause p ctx).Proceeds c post := by
  simp only [Grammar.finallyClause, proceeds_bind, proceeds_seesKeyword, meets_on, proceeds_ite,
    proceeds_pure]
  refine ⟨fun ht => lead (raw_of_isKeyword ht) fun finallyLead c₁ h₁ => ?_,
    fun _ => h _ _ (.part .blank rfl)⟩
  exact block hp fun body c₂ h₂ => h _ _ (.part (.part (h₁.seq h₂) rfl) rfl)

section

variable {post : Stmt → Outlook source → Prop}

theorem tryStatement (hp : p.Proceeds source) (ht : c.ahead.raw = "try")
    (h : ∀ v c', c.Builds v c' → post v (.on c')) :
    (Grammar.tryStatement p ctx).Proceeds c post := by
  intro u hu
  have hword : c.Passes (.token (c.ahead.lead ++ "try")) (c.take u hu) := .token ht
  refine block hp fun guarded c₁ h₁ => catchClause hp fun handler c₂ h₂ => ?_
  refine finallyClause hp fun finalizer c₃ h₃ => ?_
  simp only [meets_on, proceeds_bind, proceeds_ite, proceeds_reject, implies_true, true_and]
  exact fun _ => finish (hword.seq (h₁.seq (h₂.seq h₃))) rfl (by decide) fun span c' hr =>
    h _ _ (.part hr rfl)

/-! ## Switches -/

theorem clauseHead (hp : p.Proceeds source) {hasDefault : Bool}
    {post : String × Tree (.maybe .expr) → Outlook source → Prop}
    (h : ∀ r c₁ c',
      c.Passes (.token (r.1 ++ if r.2.toOption.isSome then "case" else "default")) c₁ →
      c₁.Builds r.2 c' → post r (.on c')) :
    (Grammar.clauseHead p ctx hasDefault).Proceeds c post := by
  simp only [Grammar.clauseHead, proceeds_bind, proceeds_look, meets_on, proceeds_ite,
    proceeds_reject, implies_true, true_and]
  refine ⟨fun ht => lead (raw_of_isKeyword ht) fun caseLead c₁ h₁ => ?_, fun _ _ => ?_⟩
  · exact hp.ofExpression fun test c₂ h₂ => h (caseLead, .present test) _ _ h₁ (.part h₂ rfl)
  · exact expectKeyword fun defaultLead c₁ h₁ => h (defaultLead, .absent) _ _ h₁ (.part .blank rfl)

/-- The cases of a switch are laid out as they were read. -/
theorem switchCases (hp : p.Proceeds source) {hasDefault : Bool} {rounds : Nat}
    {post : List (Tree .switchCase) → Outlook source → Prop}
    (h : ∀ vs c', c.Builds (.ofList vs) c' → post vs (.on c')) :
    (Grammar.switchCases p ctx hasDefault rounds).Proceeds c post := by
  induction rounds generalizing c hasDefault post with
  | zero => trivial
  | succ rounds ih =>
    simp only [Grammar.switchCases, proceeds_bind, proceeds_sees, meets_on, proceeds_ite,
      proceeds_pure, proceeds_here]
    refine ⟨fun _ => h _ _ (.part .blank rfl), fun _ => clauseHead hp fun r c₁ c₂ h₁ h₂ => ?_⟩
    refine expect fun colonLead c₃ h₃ => many (hp.item ctx) fun body c₄ h₄ => ?_
    refine finish (h₁.seq (h₂.seq (h₃.seq h₄))) rfl (by decide) fun span c₅ h₅ => ?_
    have hcase : c.Builds (.switchCase r.1 r.2 colonLead (.ofList body) span) c₅ := .part h₅ rfl
    exact ih fun vs c' hvs => h _ _ (.part (hcase.seq hvs) rfl)

theorem switchStatement (hp : p.Proceeds source) (ht : c.ahead.raw = "switch")
    (h : ∀ v c', c.Builds v c' → post v (.on c')) :
    (Grammar.switchStatement p ctx).Proceeds c post := by
  intro u hu
  have hword : c.Passes (.token (c.ahead.lead ++ "switch")) (c.take u hu) := .token ht
  refine inParentheses hp fun r c₁ c₂ c₃ h₁ h₂ h₃ => expect fun openBraceLead c₄ h₄ => ?_
  refine switchCases hp fun cases c₅ h₅ => expect fun closeBraceLead c₆ h₆ => ?_
  exact finish (hword.seq (h₁.seq (h₂.seq (h₃.seq (h₄.seq (h₅.seq h₆)))))) rfl (by decide)
    fun span c' hr => h _ _ (.part hr rfl)

/-! ## Labels and expressions -/

theorem labelledStatement (hp : p.Proceeds source) {label : Ident}
    (hlabel : c₀.Passes (.ident label) c) (ht : c.ahead.isPunctuator ":" = true)
    (h : ∀ v c', c₀.Builds v c' → post v (.on c')) :
    (Grammar.labelledStatement p ctx c₀.ahead.start label).Proceeds c post := by
  simp only [Grammar.labelledStatement, proceeds_bind, proceeds_ite, proceeds_reject, implies_true,
    true_and]
  refine fun _ => lead (raw_of_isPunctuator ht) fun colonLead c₁ h₁ => ?_
  refine hp.ofStatement fun body c₂ h₂ => ?_
  exact finish (hlabel.seq (h₁.seq h₂)) rfl (by decide) fun span c' hr => h _ _ (.part hr rfl)

/-- An expression in front of a colon is a label only if it is a name. -/
theorem labelOf?_eq_some {first after : Token} {value : Expr} {label : Ident}
    (h : Grammar.labelOf? first after value = some label) :
    value = .identifier label ∧ after.isPunctuator ":" = true := by
  unfold Grammar.labelOf? at h
  split at h
  · split at h
    · cases h
      exact ⟨rfl, (Bool.and_eq_true_iff.1 ‹_›).2⟩
    · cases h
  · cases h

/-- An expression as a statement, or a labelled one, is laid out as it was read. -/
theorem expressionStatement (hp : p.Proceeds source) (h : ∀ v c', c.Builds v c' → post v (.on c')) :
    (Grammar.expressionStatement p ctx).Proceeds c post := by
  simp only [Grammar.expressionStatement, proceeds_bind, proceeds_look, meets_on]
  refine expression hp fun value c₁ h₁ => ?_
  simp only [meets_on, proceeds_bind, proceeds_look]
  cases hlabel : Grammar.labelOf? c.ahead c₁.ahead value with
  | none =>
    refine terminator fun ending c₂ h₂ => ?_
    exact finish (h₁.seq h₂) rfl (by decide) fun span c' hr => h _ _ (.part hr rfl)
  | some label =>
    obtain ⟨rfl, hcolon⟩ := labelOf?_eq_some hlabel
    refine labelledStatement hp (h₁.imp fun us hl => ?_) hcolon h
    cases hl with
    | part inner => exact inner

/-! ## Statements and declarations -/

/-- A statement that starts with a reserved word is laid out as it was read. -/
theorem keywordStatement (hp : p.Proceeds source) (h : ∀ v c', c.Builds v c' → post v (.on c')) :
    (Grammar.keywordStatement p ctx c.ahead.raw).Proceeds c post := by
  unfold Grammar.keywordStatement
  split <;> rename_i hword
  · exact breakStatement hword h
  · exact continueStatement hword h
  · exact debuggerStatement hword h
  · exact doWhileLoop hp hword h
  · exact forLoop hp hword h
  · exact nestedFunction hp h
  · exact ifStatement hp hword h
  · exact returnStatement hp hword h
  · exact switchStatement hp hword h
  · exact throwStatement hp hword h
  · exact tryStatement hp hword h
  · exact variableStatement hp (by rw [hword]; rfl) h
  · exact whileLoop hp hword h
  · exact withStatement hp hword h
  · exact expressionStatement hp h

theorem statement (hp : p.Proceeds source) (h : ∀ v c', c.Builds v c' → post v (.on c')) :
    (Grammar.statement p ctx).Proceeds c post := by
  simp only [Grammar.statement, proceeds_bind, proceeds_look, meets_on, proceeds_ite, proceeds_map]
  exact ⟨fun _ => block hp fun _ _ hb => h _ _ (.part hb rfl),
    fun _ => ⟨fun ht => emptyStatement ht h,
    fun _ => ⟨fun _ => keywordStatement hp h, fun _ => expressionStatement hp h⟩⟩⟩

@[simp]
theorem isImportExpression {post : Bool → Outlook source → Prop} (h : ∀ b, post b (.on c)) :
    Grammar.isImportExpression.Proceeds c post := fun _ => h _

theorem keywordItem (hp : p.Proceeds source) (h : ∀ v c', c.Builds v c' → post v (.on c')) :
    (Grammar.keywordItem p ctx c.ahead).Proceeds c post := by
  unfold Grammar.keywordItem
  split <;> rename_i hword
  · exact functionDeclaration hp h
  · exact classDefinition hp fun _ _ hc => h _ _ (.part hc rfl)
  · exact variableStatement hp (by rw [hword]; rfl) h
  · refine isImportExpression fun b => ?_
    simp only [meets_on, proceeds_ite, proceeds_reject, implies_true, and_true]
    exact fun _ => statement hp h
  · trivial
  · exact statement hp h

theorem item (hp : p.Proceeds source) (h : ∀ v c', c.Builds v c' → post v (.on c')) :
    (Grammar.item p ctx).Proceeds c post := by
  simp only [Grammar.item, proceeds_bind, proceeds_look, meets_on, proceeds_ite]
  refine ⟨fun _ => keywordItem hp h, fun _ => ⟨fun hlet => isLexicalDeclaration fun b => ?_,
    fun _ => ⟨fun _ => isAsyncFunction fun b => ?_, fun _ => statement hp h⟩⟩⟩
  · simp only [meets_on, proceeds_ite]
    refine ⟨fun _ => variableStatement hp ?_ h, fun _ => statement hp h⟩
    rw [raw_of_isWord hlet]
    rfl
  · simp only [meets_on, proceeds_ite]
    exact ⟨fun _ => functionDeclaration hp h, fun _ => statement hp h⟩

end

end Parse.Proceeds

end Verbatim
