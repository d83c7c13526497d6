import Verbatim.Proofs.Consumed
import Verbatim.Proofs.Legality
import Verbatim.Proofs.Recorded.Operation

/-!
# Statements and programs

What these productions read obeys the rules, and so does a whole program: everything in it, with the
commas of its import and export lists.

## Main results

* `Verbatim.Productions.Record.ofDepth` — the productions read what obeys the rules.
* `Verbatim.Program.Contains.records` — what occurs in a parsed program obeys them.
-/

namespace Verbatim

open Grammar Parse

/-- The variables of a declaration obey the rules, and the commas between them match them. -/
structure Grammar.Variables.Faithful (v : Variables) : Prop where
  /-- The variables obey the rules. -/
  items : ∀ item ∈ v.items, item.Faithful
  /-- Each comma is one. -/
  commas : ∀ comma ∈ v.separators, IsComma comma
  /-- There is one behind each variable but the last. -/
  length : v.items.length = v.separators.length + 1

theorem Grammar.Variables.Faithful.declare {v : Variables} (h : v.Faithful)
    {ending : Option Terminator} {span : Span} : (v.declare ending span).Faithful := by
  refine .one (Tree.Faithful.ofItems h.items) (.of_list ?_ rfl trivial rfl trivial) rfl
  refine .of_bare ?_ h.commas (Tree.endsInHole_eq_false _ nofun)
  change (Tree.ofList v.items).toList.length = _
  rw [Tree.toList_ofList]
  exact h.length

namespace Parse.Notes

variable {p : Productions} {ctx : Context}

/-! ## Declarations -/

theorem variableValue (hp : p.Record) {inLoopHead : Bool} {kind : VariableKind} {target : Pattern} :
    (Grammar.variableValue p ctx inLoopHead kind target).Notes true Tree.Faithful := by
  unfold Grammar.variableValue
  refine bindAny fun _ => ite (fun _ => bindAny fun _ => ?_) fun _ => ite (fun _ => ?_) fun _ =>
    pure .absent
  · refine (hp.assignment _).behind.bind fun value hvalue => pure (.present ?_)
    exact .one hvalue (.of_none rfl trivial rfl trivial) rfl
  · split
    · exact bindAny fun _ => pure .absent
    · exact pure .absent

theorem declarator (hp : p.Record) {inLoopHead : Bool} {kind : VariableKind} :
    (Grammar.declarator p ctx inLoopHead kind).Notes false Tree.Faithful := by
  unfold Grammar.declarator
  refine bindAny fun _ => (hp.binding _ _).bind fun target ht => check fun _ => ?_
  refine (variableValue hp).bind fun value hvalue => bindAny fun _ => pure ?_
  exact .two ht hvalue (.of_none rfl trivial rfl trivial) rfl

theorem variableList (hp : p.Record) {inLoopHead : Bool} :
    (Grammar.variableList p ctx inLoopHead).Notes false Variables.Faithful := by
  unfold Grammar.variableList
  refine nextThen fun t => (declarator hp).behind.bind fun first hfirst => ?_
  refine (afterCommas (declarator hp).behind).bind
    fun (rest, separators) ⟨hrest, hcommas, hlength⟩ => pure ?_
  exact ⟨List.forall_mem_cons.2 ⟨hfirst, hrest⟩, hcommas, congrArg (· + 1) hlength.symm⟩

theorem variableStatement (hp : p.Record) :
    (Grammar.variableStatement p ctx).Notes false Tree.Faithful := by
  unfold Grammar.variableStatement
  refine bindAny fun _ => (variableList hp).bind fun v hv => bindAny fun _ =>
    bindAny fun _ => pure ?_
  exact .one hv.declare (.of_none rfl trivial rfl trivial) rfl

/-! ## Loops -/

theorem inParentheses (hp : p.Record) :
    (Grammar.inParentheses p ctx).Notes false fun r => r.2.1.Faithful := by
  unfold Grammar.inParentheses
  exact expectThen fun _ => (hp.expression _).behind.bind fun v hv => bindAny fun _ => pure hv

theorem optionalBefore (hp : p.Record) {close : String} :
    (Grammar.optionalBefore p ctx close).Notes true Tree.Faithful := by
  unfold Grammar.optionalBefore
  refine bindAny fun _ => ite (fun _ => pure .absent) fun _ => ?_
  exact (hp.expression _).behind.bind fun v hv => pure hv.present

theorem finishFor (hp : p.Record) {head : ForHead} {init : Tree (.maybe .forInit)}
    (hinit : init.Faithful) : (Grammar.finishFor p ctx head init).Notes true Tree.Faithful := by
  unfold Grammar.finishFor
  refine check fun _ => bindAny fun _ => (optionalBefore hp).bind fun test htest =>
    bindAny fun _ => ?_
  refine (optionalBefore hp).bind fun step hstep => bindAny fun _ => ?_
  refine (hp.statement _).behind.bind fun body hbody => bindAny fun _ => pure ?_
  exact .four hinit htest hstep hbody (.of_none rfl trivial rfl trivial) rfl

/-- A loop over values obeys the rules if its target does. -/
theorem finishForEach (hp : p.Record) {head : ForHead} {left : Tree .forTarget}
    (hleft : left.Faithful) : (Grammar.finishForEach p ctx head left).Notes true Tree.Faithful := by
  unfold Grammar.finishForEach
  refine bindAny fun _ => ite (fun _ => ?_) fun _ => ?_
  · unfold Grammar.finishForIn
    refine check fun _ => bindAny fun _ => (hp.expression _).behind.bind fun right hr =>
      bindAny fun _ => ?_
    refine (hp.statement _).behind.bind fun body hbody => bindAny fun _ => pure ?_
    exact .three hleft hr hbody (.of_none rfl trivial rfl trivial) rfl
  · unfold Grammar.finishForOf
    refine bindAny fun _ => (hp.assignment _).behind.bind fun right hr => bindAny fun _ => ?_
    refine (hp.statement _).behind.bind fun body hbody => bindAny fun _ => pure ?_
    exact .three hleft hr hbody (.of_none rfl trivial rfl trivial) rfl

theorem forVariables (hp : p.Record) {head : ForHead} :
    (Grammar.forVariables p ctx head).Notes true Tree.Faithful := by
  unfold Grammar.forVariables
  refine bindAny fun _ => (variableList hp).behind.bind fun v hv => bindAny fun _ =>
    bindAny fun _ => ?_
  split
  · refine check fun _ => finishForEach hp (.one hv.declare (.of_none rfl trivial rfl trivial) rfl)
  · refine bindAny fun _ => finishFor hp (.present ?_)
    exact .one hv.declare (.of_none rfl trivial rfl trivial) rfl

theorem forExpression (hp : p.Record) {head : ForHead} :
    (Grammar.forExpression p ctx head).Notes true Tree.Faithful := by
  unfold Grammar.forExpression
  refine bindAny fun _ => bindAny fun _ => bindAny fun _ =>
    (hp.cover _).behind.bind fun value hv => ?_
  refine bindAny fun _ => ite (fun _ => ?_) fun _ => ?_
  · refine bindReturns (.faithful_assignmentTarget hv) fun target ht => bindAny fun _ => ?_
    exact finishForEach hp (.one ht (.of_none rfl trivial rfl trivial) rfl)
  · refine bindAny fun _ => bindAny fun _ => (sequenceFrom hp hv).bind fun init hinit => ?_
    exact finishFor hp (.present (.one hinit (.of_none rfl trivial rfl trivial) rfl))

theorem forLoop (hp : p.Record) : (Grammar.forLoop p ctx).Notes false Tree.Faithful := by
  unfold Grammar.forLoop
  refine nextThen fun t => bindAny fun _ => bindAny fun _ => bindAny fun first => ?_
  refine ite (fun _ => finishFor hp .absent) fun _ => ?_
  refine ite (fun _ => bindAny fun _ => ?_) fun _ => choose fun _ => ?_
  all_goals exact ite (fun _ => forVariables hp) fun _ => forExpression hp

theorem whileLoop (hp : p.Record) : (Grammar.whileLoop p ctx).Notes false Tree.Faithful := by
  unfold Grammar.whileLoop
  refine nextThen fun t => (inParentheses hp).behind.bind fun r htest => ?_
  refine (hp.statement _).behind.bind fun body hbody => bindAny fun _ => pure ?_
  exact .two htest hbody (.of_none rfl trivial rfl trivial) rfl

theorem doWhileLoop (hp : p.Record) : (Grammar.doWhileLoop p ctx).Notes false Tree.Faithful := by
  unfold Grammar.doWhileLoop
  refine nextThen fun t => (hp.statement _).behind.bind fun body hbody => bindAny fun _ => ?_
  refine (inParentheses hp).behind.bind fun r htest => bindAny fun _ => choose fun _ => ?_
  exact bindAny fun _ => pure (.two hbody htest (.of_none rfl trivial rfl trivial) rfl)

/-! ## Blocks, branches and jumps -/

theorem block (hp : p.Record) : (Grammar.block p ctx).Notes false Tree.Faithful := by
  unfold Grammar.block
  refine bindAny fun _ => expectThen fun _ => (items hp).bind fun stmts hstmts => ?_
  refine bindAny fun _ => bindAny fun _ => pure ?_
  exact .one (Tree.Faithful.ofItems hstmts) (.of_none rfl trivial rfl trivial) rfl

theorem elseClause (hp : p.Record) : (Grammar.elseClause p ctx).Notes true Tree.Faithful := by
  unfold Grammar.elseClause
  refine bindAny fun _ => ite (fun _ => bindAny fun _ => ?_) fun _ => pure .absent
  refine (hp.statement _).behind.bind fun body hbody => pure (.present ?_)
  exact .one hbody (.of_none rfl trivial rfl trivial) rfl

theorem ifStatement (hp : p.Record) : (Grammar.ifStatement p ctx).Notes false Tree.Faithful := by
  unfold Grammar.ifStatement
  refine nextThen fun t => (inParentheses hp).behind.bind fun r htest => ?_
  refine (hp.statement _).behind.bind fun consequent hc => (elseClause hp).bind fun other ho => ?_
  exact bindAny fun _ => pure (.three htest hc ho (.of_none rfl trivial rfl trivial) rfl)

theorem withStatement (hp : p.Record) :
    (Grammar.withStatement p ctx).Notes false Tree.Faithful := by
  unfold Grammar.withStatement
  refine nextThen fun t => check fun _ => (inParentheses hp).behind.bind fun r hsubject => ?_
  refine (hp.statement _).behind.bind fun body hbody => bindAny fun _ => pure ?_
  exact .two hsubject hbody (.of_none rfl trivial rfl trivial) rfl

theorem functionDeclaration (hp : p.Record) :
    (Grammar.functionDeclaration p ctx).Notes false Tree.Faithful :=
  (function hp).map fun _ hv => .one hv (.of_none rfl trivial rfl trivial) rfl

theorem nestedFunction (hp : p.Record) :
    (Grammar.nestedFunction p ctx).Notes false Tree.Faithful := by
  unfold Grammar.nestedFunction
  exact ite (fun _ => bindAny fun _ => bindAny fun _ => functionDeclaration hp) fun _ =>
    functionDeclaration hp

theorem breakStatement : (Grammar.breakStatement ctx).Notes false Tree.Faithful := by
  unfold Grammar.breakStatement
  refine nextThen fun t => bindAny fun _ => check fun _ => bindAny fun _ => bindAny fun _ => pure ?_
  exact .leaf (.of_none rfl trivial rfl trivial) rfl

theorem continueStatement : (Grammar.continueStatement ctx).Notes false Tree.Faithful := by
  unfold Grammar.continueStatement
  refine nextThen fun t => check fun _ => bindAny fun _ => bindAny fun _ => bindAny fun _ => pure ?_
  exact .leaf (.of_none rfl trivial rfl trivial) rfl

theorem returnStatement (hp : p.Record) :
    (Grammar.returnStatement p ctx).Notes false Tree.Faithful := by
  have hend : ∀ {t : Token} {value : Tree (.maybe .expr)}, value.Faithful →
      (Parse.terminator ctx >>= fun ending => Parse.finish .returnStmt t.start >>= fun span =>
        Pure.pure (Tree.returnStmt t.lead value ending span)).Notes true Tree.Faithful :=
    fun hv => bindAny fun _ => bindAny fun _ =>
      pure (.one hv (.of_none rfl trivial rfl trivial) rfl)
  unfold Grammar.returnStatement
  refine nextThen fun t => check fun _ => bindAny fun _ =>
    ite (fun _ => bindPure (hend .absent)) fun _ => ?_
  exact bind ((hp.expression _).behind.map fun _ hv => hv.present) fun _ hv => hend hv

theorem throwStatement (hp : p.Record) :
    (Grammar.throwStatement p ctx).Notes false Tree.Faithful := by
  unfold Grammar.throwStatement
  refine nextThen fun t => bindAny fun _ => check fun _ =>
    (hp.expression _).behind.bind fun v hv => ?_
  exact bindAny fun _ => bindAny fun _ => pure (.one hv (.of_none rfl trivial rfl trivial) rfl)

theorem debuggerStatement : (Grammar.debuggerStatement ctx).Notes false Tree.Faithful := by
  unfold Grammar.debuggerStatement
  exact nextThen fun t => bindAny fun _ => bindAny fun _ =>
    pure (.leaf (.of_none rfl trivial rfl trivial) rfl)

/-! ## Handlers -/

theorem catchParameter (hp : p.Record) :
    (Grammar.catchParameter p ctx).Notes true Tree.Faithful := by
  unfold Grammar.catchParameter
  refine bindAny fun openLead => ?_
  cases openLead with
  | none => exact pure .absent
  | some openLead =>
    refine bindAny fun _ => (hp.binding _ _).behind.bind fun target ht => check fun _ => ?_
    exact bindAny fun _ => pure (.present (.one ht (.of_none rfl trivial rfl trivial) rfl))

theorem catchClause (hp : p.Record) : (Grammar.catchClause p ctx).Notes true Tree.Faithful := by
  unfold Grammar.catchClause
  refine bindAny fun t => ite (fun _ => pure .absent) fun _ => bindAny fun _ => ?_
  refine (catchParameter hp).bind fun param hparam => (block hp).behind.bind fun body hbody => ?_
  exact bindAny fun _ => pure (.present (.two hparam hbody (.of_none rfl trivial rfl trivial) rfl))

theorem finallyClause (hp : p.Record) :
    (Grammar.finallyClause p ctx).Notes true Tree.Faithful := by
  unfold Grammar.finallyClause
  refine bindAny fun _ => ite (fun _ => bindAny fun _ => ?_) fun _ => pure .absent
  exact (block hp).behind.bind fun body hbody =>
    pure (.present (.one hbody (.of_none rfl trivial rfl trivial) rfl))

theorem tryStatement (hp : p.Record) : (Grammar.tryStatement p ctx).Notes false Tree.Faithful := by
  unfold Grammar.tryStatement
  refine nextThen fun t => (block hp).behind.bind fun guarded hg =>
    (catchClause hp).bind fun handler hh => ?_
  refine (finallyClause hp).bind fun finalizer hf => check fun _ => bindAny fun _ => pure ?_
  exact .three hg hh hf (.of_none rfl trivial rfl trivial) rfl

/-! ## Switches -/

theorem clauseHead (hp : p.Record) {hasDefault : Bool} :
    (Grammar.clauseHead p ctx hasDefault).Notes true fun r => r.2.Faithful := by
  unfold Grammar.clauseHead
  refine bindAny fun _ => ite (fun _ => bindAny fun _ => ?_) fun _ => check fun _ => ?_
  · exact (hp.expression _).behind.bind fun v hv => pure hv.present
  · exact bindAny fun _ => pure .absent

/-- The cases of a switch obey the rules. -/
theorem switchCases (hp : p.Record) {hasDefault : Bool} {rounds : Nat} :
    (Grammar.switchCases p ctx hasDefault rounds).Notes true fun vs => ∀ v ∈ vs, v.Faithful := by
  induction rounds generalizing hasDefault with
  | zero => exact stalled
  | succ rounds ih =>
    unfold Grammar.switchCases
    refine bindAny fun _ => ite (fun _ => pure (List.forall_mem_nil _)) fun _ => bindAny fun _ => ?_
    refine (clauseHead hp).bind fun r htest => bindAny fun _ => ?_
    refine (many (hp.item _).behind).bind fun body hbody => bindAny fun _ =>
      ih.bind fun vs hvs => pure ?_
    refine List.forall_mem_cons.2 ⟨?_, hvs⟩
    exact .two htest (Tree.Faithful.ofItems hbody) (.of_none rfl trivial rfl trivial) rfl

theorem switchStatement (hp : p.Record) :
    (Grammar.switchStatement p ctx).Notes false Tree.Faithful := by
  unfold Grammar.switchStatement
  refine nextThen fun t => (inParentheses hp).behind.bind fun r hsubject => bindAny fun _ => ?_
  refine (switchCases hp).bind fun cases hcases => bindAny fun _ => bindAny fun _ => pure ?_
  exact .two hsubject (Tree.Faithful.ofItems hcases) (.of_none rfl trivial rfl trivial) rfl

/-! ## Statements -/

theorem expressionStatement (hp : p.Record) :
    (Grammar.expressionStatement p ctx).Notes false Tree.Faithful := by
  unfold Grammar.expressionStatement
  refine bindAny fun first => (expression hp).bind fun value hv => bindAny fun _ => ?_
  split
  · unfold Grammar.labelledStatement
    refine check fun _ => bindAny fun _ => (hp.statement _).behind.bind fun body hbody => ?_
    exact bindAny fun _ => pure (.one hbody (.of_none rfl trivial rfl trivial) rfl)
  · exact bindAny fun _ => bindAny fun _ => pure (.one hv (.of_none rfl trivial rfl trivial) rfl)

/-- A statement that starts with a reserved word obeys the rules. -/
theorem keywordStatement (hp : p.Record) {word : String} :
    (Grammar.keywordStatement p ctx word).Notes false Tree.Faithful := by
  unfold Grammar.keywordStatement
  split
  · exact breakStatement
  · exact continueStatement
  · exact debuggerStatement
  · exact doWhileLoop hp
  · exact forLoop hp
  · exact nestedFunction hp
  · exact ifStatement hp
  · exact returnStatement hp
  · exact switchStatement hp
  · exact throwStatement hp
  · exact tryStatement hp
  · exact variableStatement hp
  · exact whileLoop hp
  · exact withStatement hp
  · exact expressionStatement hp

theorem statement (hp : p.Record) : (Grammar.statement p ctx).Notes false Tree.Faithful := by
  unfold Grammar.statement
  refine bindAny fun _ => ite (fun _ => (block hp).map fun _ hv => ?_) fun _ => ite (fun _ => ?_)
    fun _ => ite (fun _ => keywordStatement hp) fun _ => expressionStatement hp
  · exact .one hv (.of_none rfl trivial rfl trivial) rfl
  · exact nextThen fun _ => bindAny fun _ => pure (.leaf (.of_none rfl trivial rfl trivial) rfl)

theorem keywordItem (hp : p.Record) {t : Token} :
    (Grammar.keywordItem p ctx t).Notes false Tree.Faithful := by
  unfold Grammar.keywordItem
  split
  · exact functionDeclaration hp
  · exact (classDefinition hp).map fun _ hv => .one hv (.of_none rfl trivial rfl trivial) rfl
  · exact variableStatement hp
  · exact bindAny fun _ => ite (fun _ => statement hp) fun _ => reject
  · exact reject
  · exact statement hp

theorem item (hp : p.Record) : (Grammar.item p ctx).Notes false Tree.Faithful := by
  unfold Grammar.item
  refine bindAny fun _ => ite (fun _ => keywordItem hp) fun _ => ite (fun _ => bindAny fun _ => ?_)
    fun _ => ite (fun _ => bindAny fun _ => ?_) fun _ => statement hp
  · exact ite (fun _ => variableStatement hp) fun _ => statement hp
  · exact ite (fun _ => functionDeclaration hp) fun _ => statement hp

/-! ## Modules -/

/-- The commas of an import or export list match its entries. -/
theorem entries {α : Type} {action : Parse α} {close : String} {rounds : Nat} :
    (Parse.listed ctx close (Round.item <$> action) rounds).Notes true
      (Listed (fun _ => True) fun _ => false) :=
  listed (any.map fun _ _ => ⟨trivial, rfl⟩)

theorem namedImports {rounds : Nat} :
    (Grammar.namedImports ctx rounds).Notes true fun n => n.commaList.Matched := by
  unfold Grammar.namedImports
  exact bindAny fun _ => entries.bind fun r hr => bindAny fun _ =>
    pure (hr.matched rfl rfl rfl nofun)

/-- The list of an import, if there is one. -/
theorem importClause {rounds : Nat} : (Grammar.importClause ctx rounds).Notes true
    fun c => ∀ n ∈ c.named, n.commaList.Matched := by
  have hparts : ∀ {main : Option Ident} {commaLead : String},
      (Grammar.importParts ctx rounds main commaLead).Notes true
        fun c => ∀ n ∈ c.named, n.commaList.Matched := by
    unfold Grammar.importParts
    refine bindAny fun _ => ite (fun _ => bindAny fun _ => pure nofun) fun _ => bindAny fun _ => ?_
    refine ite (fun _ => namedImports.bind fun n hn => pure ?_) fun _ => unexpectedHere
    rintro _ ⟨⟩
    exact hn
  unfold Grammar.importClause
  refine bindAny fun _ => ite (fun _ => bindAny fun _ => bindAny fun commaLead => ?_)
    fun _ => hparts
  cases commaLead with
  | none => exact pure nofun
  | some commaLead => exact hparts

theorem importDeclaration {rounds : Nat} :
    (Grammar.importDeclaration ctx rounds).Notes false Tree.Faithful := by
  unfold Grammar.importDeclaration
  refine nextThen fun t => bindAny fun _ => ite (fun _ => bindPure ?_) fun _ => ?_
  · refine bindAny fun _ => bindAny fun _ => bindAny fun _ => pure ?_
    exact .leaf (.of_none rfl trivial rfl trivial) rfl
  · refine importClause.bind fun c hc => bindAny fun _ => bindPure ?_
    refine bindAny fun _ => bindAny fun _ => bindAny fun _ =>
      pure (.leaf ⟨?_, trivial, nofun, trivial⟩ rfl)
    change ∀ l ∈ c.named.toList.map NamedImports.commaList, l.Matched
    refine List.forall_mem_map.2 fun n hn => hc n (Option.mem_toList.1 hn)

/-- What is exported by default obeys the rules. -/
theorem exportValue (hp : p.Record) : (Grammar.exportValue p ctx).Notes true Tree.Faithful := by
  have hfunction : (Tree.exportFunction <$> Grammar.function p ctx true true).Notes true
      Tree.Faithful :=
    (function hp).behind.map fun _ hv => .one hv (.of_none rfl trivial rfl trivial) rfl
  have hclass : (Tree.exportClass <$> Grammar.classDefinition p ctx true false).Notes true
      Tree.Faithful :=
    (classDefinition hp).behind.map fun _ hv => .one hv (.of_none rfl trivial rfl trivial) rfl
  have hvalue : (p.assignment ctx >>= fun value => Parse.terminator ctx >>= fun ending =>
      Pure.pure (Tree.exportExpr value ending)).Notes true Tree.Faithful :=
    (hp.assignment _).behind.bind fun v hv => bindAny fun _ =>
      pure (.one hv (.of_none rfl trivial rfl trivial) rfl)
  unfold Grammar.exportValue
  refine bindAny fun _ => ite (fun _ => bindAny fun _ => ?_) fun _ => choose fun _ => ?_
  all_goals exact ite (fun _ => hfunction) fun _ => ite (fun _ => hclass) fun _ => hvalue

theorem exportNames {rounds : Nat} {t : Token} :
    (Grammar.exportNames ctx rounds t).Notes true Tree.Faithful := by
  unfold Grammar.exportNames
  refine bindAny fun _ => entries.bind fun r hr => bindAny fun _ => bindAny fun _ =>
    bindAny fun _ => ?_
  refine bindAny fun _ => pure (.one Tree.Faithful.absent (.of_list ?_ rfl trivial rfl trivial) rfl)
  exact hr.matched (List.length_map ..) rfl rfl nofun

/-- An export obeys the rules. -/
theorem exportDeclaration (hp : p.Record) :
    (Grammar.exportDeclaration p ctx).Notes false Tree.Faithful := by
  unfold Grammar.exportDeclaration
  refine nextThen fun t => bindAny fun _ => ite (fun _ => ?_) fun _ => bindAny fun _ =>
    ite (fun _ => ?_) fun _ => bindAny fun _ => ite (fun _ => exportNames) fun _ => ?_
  · unfold Grammar.exportDefault
    refine bindAny fun _ => (exportValue hp).bind fun v hv => bindAny fun _ => pure ?_
    exact .one hv (.of_none rfl trivial rfl trivial) rfl
  · unfold Grammar.exportAll
    refine bindAny fun _ => bindAny fun _ => bindAny fun _ => bindAny fun _ => bindAny fun _ => ?_
    exact bindAny fun _ => pure (.leaf (.of_none rfl trivial rfl trivial) rfl)
  · unfold Grammar.exportedDeclaration
    refine bindAny fun _ => check fun _ => (hp.item _).behind.bind fun v hv =>
      bindAny fun _ => pure ?_
    exact .one hv.present (.of_none rfl trivial rfl trivial) rfl

theorem moduleItem (hp : p.Record) : (Grammar.moduleItem p ctx).Notes false Tree.Faithful := by
  unfold Grammar.moduleItem
  refine bindAny fun _ => ite (fun _ => bindAny fun _ => ?_) fun _ =>
    ite (fun _ => exportDeclaration hp) fun _ => hp.item _
  exact ite (fun _ => hp.item _) fun _ => importDeclaration

end Parse.Notes

/-! ## The language -/

/-- The productions that are never reached yield nothing. -/
theorem Productions.Record.exhausted : Productions.exhausted.Record := by
  constructor <;> intros <;> exact Parse.Notes.stalled

/-- Productions that call ones which obey the rules obey them. -/
theorem Productions.Record.deepen {p : Productions} (hp : p.Record) : p.deepen.Record where
  expression _ := Parse.Notes.expression hp
  assignment _ := Parse.Notes.assignment hp
  cover _ := Parse.Notes.cover hp
  binary _ _ := Parse.Notes.binary hp
  exponentiation _ := Parse.Notes.exponentiation hp
  unary _ := Parse.Notes.unary hp
  chain _ := Parse.Notes.chain hp
  callee _ := Parse.Notes.callee hp
  binding _ _ := Parse.Notes.binding hp
  statement _ := Parse.Notes.statement hp
  item _ := Parse.Notes.item hp
  markup _ _ _ _ := Parse.Notes.markup hp

/-- Productions of any depth read what obeys the rules. -/
theorem Productions.Record.ofDepth (depth : Nat) : (Productions.ofDepth depth).Record := by
  induction depth with
  | zero => exact .exhausted
  | succ depth ih => exact ih.deepen

/-- The statements of a program obey the rules. -/
theorem Parse.Keeps.program {p : Productions} {goal : Goal} {allowsMarkup : Bool} (hp : p.Record) :
    (Grammar.program p goal allowsMarkup).Keeps fun v => ∀ stmt ∈ v.body, stmt.Faithful := by
  unfold Grammar.program
  refine bindAny fun _ => Keeps.bind (Notes.prologueFrom hp) fun r hr => ?_
  refine Keeps.bind (.many (P := Tree.Faithful) ?_) fun rest hrest => ?_
  · cases goal with
    | script => exact hp.item _
    | module => exact Notes.moduleItem hp
  · exact bindAny fun _ => bindAny fun _ => .pure (List.forall_mem_append.2 ⟨hr, hrest⟩)

/-! ## Parses -/

/-- What is known of a parser at the start of a source. -/
theorem Parser.Shows.of_start {o : Options} {source : String} {first : Parser}
    (h : Parser.start source (o.goal = .module) o.tolerant = .ok first) :
    ∃ s : Prospect, first.Shows s := by
  unfold Parser.start at h
  dsimp only at h
  split at h
  · rename_i t s hs
    cases h
    obtain ⟨ht, hscanner, htext⟩ := Scan.next_genuine false hs nofun
    exact ⟨⟨t, false, ht⟩, ⟨rfl, nofun, hscanner, htext⟩⟩
  · cases h

/-- The statements of a reading obey the rules. -/
theorem Reading.faithful {o : Options} {source : String} (r : Reading o source) :
    ∀ stmt ∈ r.program.body, stmt.Faithful := by
  obtain ⟨s, hs⟩ := Parser.Shows.of_start r.start_eq
  have hkeeps : (Grammar.program (.ofDepth (source.length + 3)) o.goal o.jsx).Keeps
      fun v => ∀ stmt ∈ v.body, stmt.Faithful := Parse.Keeps.program (.ofDepth (source.length + 3))
  have hrun := Parse.Meets.run prospects_holds (hkeeps s) hs
  have heq : (Grammar.program (.ofDepth (source.length + 3)) o.goal o.jsx).run r.first =
      .ok r.program r.last := r.run_eq
  rw [heq] at hrun
  obtain ⟨_, -, -, hbody⟩ := hrun
  exact hbody

/-- Every construct in a parsed program obeys the rules, also where faults were tolerated. -/
theorem Program.Contains.records {o : Options} {source : String} {out : Parsed}
    (h : parse o source = .ok out) {c : Category} {ctx : Context} {x : Tree c}
    (hx : out.program.Contains o ctx x) : x.Records := by
  obtain ⟨r, rfl⟩ := Reading.of_parse h
  obtain ⟨stmt, hstmt, hx⟩ := hx
  have hstmt : stmt ∈ (r.program.mapSpans (·.select o)).body := hstmt
  rw [Program.mapSpans_eq] at hstmt
  obtain ⟨full, hmem, rfl⟩ := List.mem_map.1 hstmt
  have hfull : (full.mapSpans (·.select o)).Faithful :=
    (r.faithful full hmem).mapSpans _ fun h => h.mapSpans _
  exact hfull.of_contains hx

end Verbatim
