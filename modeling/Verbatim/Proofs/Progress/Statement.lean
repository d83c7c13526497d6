import Verbatim.Proofs.Grammar.Language
import Verbatim.Proofs.Progress.Operation

/-!
# Statements and whole sources take tokens

## Main results

* `Verbatim.Productions.Ready.statement_step`, `Verbatim.Productions.Ready.item_step` — statements.
* `Verbatim.Productions.Ready.deepen` — one more call and one more round.
* `Verbatim.Productions.ready_ofDepth` — productions of any two depths beyond the number of
  characters.
* `Verbatim.Productions.Ready.program` — whole sources.
-/

namespace Verbatim

namespace Productions.Ready

open Verbatim.Parse Verbatim.Parse.Concur

variable {p p' : Productions} {n : Nat} {b : Bool} {t : Token} {ctx : Context}

/-! ## Declarations -/

theorem missingValue_ne_stalled {kind : VariableKind} {target : Pattern} {fault : Fault}
    (h : Grammar.missingValue? kind target = some fault) : fault ≠ .stalled := by
  unfold Grammar.missingValue? at h
  split at h
  · cases h
    nofun
  · split at h <;> cases h
    nofun

theorem variableValue (hp : Ready n p p') {inLoopHead : Bool} {kind : VariableKind}
    {target : Pattern} :
    Concur n true t (Grammar.variableValue p ctx inLoopHead kind target)
      (Grammar.variableValue p' ctx inLoopHead kind target) Took := by
  refine look (branch (fun hs => ?_) fun _ => branch (fun _ => ?_) fun _ => pure rfl)
  · exact lead (Token.isEof_of_isPunctuator hs) fun _ =>
      (hp.assignment _).thenDo fun _ _ => pure rfl
  · cases hfault : Grammar.missingValue? kind target with
    | none => exact pure rfl
    | some fault => exact rejectThen (missingValue_ne_stalled hfault)

theorem declarator (hp : Ready n p p') {inLoopHead : Bool} {kind : VariableKind} :
    (Grammar.declarator p ctx inLoopHead kind).Advances n
      (Grammar.declarator p' ctx inLoopHead kind) := fun m hm t =>
  here (call (hp.binding (by nofun) ctx m hm t) fun _ _ =>
    checked nofun (call (hp.below hm).variableValue
    fun _ _ => finish fun _ => pure rfl))

theorem variableList (hp : Ready n p p') {inLoopHead : Bool} (ht : t.isEof = false) :
    Concur n b t (Grammar.variableList p ctx inLoopHead) (Grammar.variableList p' ctx inLoopHead)
      Took :=
  next ht fun _ => hp.declarator.thenDo fun _ _ => call (hp.afterCommas hp.declarator) fun _ _ =>
    pure rfl

theorem variableStatement (hp : Ready n p p') (ht : t.isEof = false) :
    Concur n b t (Grammar.variableStatement p ctx) (Grammar.variableStatement p' ctx) Took :=
  here (call (hp.variableList ht) fun _ _ => terminator fun _ _ => finish fun _ => pure rfl)

/-- Looking at the token behind the lookahead takes nothing. -/
theorem ahead {α : Type} {c : Token → Bool} {f f' : Bool → Parse α}
    {post : α → Bool → Token → Prop} (h : ∀ v, Concur n b t (f v) (f' v) post) :
    Concur n b t ((Parse.peek >>= fun u => Pure.pure (c u)) >>= f)
      ((Parse.peek >>= fun u => Pure.pure (c u)) >>= f') post :=
  aside (peek fun _ => pure ⟨rfl, rfl⟩) h

/-! ## Loops -/

theorem inParentheses (hp : Ready n p p') :
    Concur n b t (Grammar.inParentheses p ctx) (Grammar.inParentheses p' ctx) Took :=
  expect fun _ _ => (hp.expression _).thenDo fun _ _ => expect fun _ _ => pure rfl

theorem loopBody (hp : Ready n p p') :
    Concur n true t (Grammar.loopBody p ctx) (Grammar.loopBody p' ctx) Took :=
  (hp.statement _).concur

theorem optionalBefore (hp : Ready n p p') {close : String} :
    Concur n true t (Grammar.optionalBefore p ctx close) (Grammar.optionalBefore p' ctx close)
      Took :=
  sees (branch (fun _ => pure rfl) fun _ => (hp.expression _).thenDo fun _ _ => pure rfl)

theorem finishFor (hp : Ready n p p') {head : Grammar.ForHead} {init : Tree (.maybe .forInit)} :
    Concur n b t (Grammar.finishFor p ctx head init) (Grammar.finishFor p' ctx head init) Took :=
  branch (fun _ => unexpectedHereThen) fun _ => expect fun _ _ => call hp.optionalBefore fun _ _ =>
    expect fun _ _ => call hp.optionalBefore fun _ _ => expect fun _ _ =>
      call hp.loopBody fun _ _ =>
      finish fun _ => pure rfl

theorem finishForEach (hp : Ready n p p') {head : Grammar.ForHead} {left : Tree .forTarget} :
    Concur n b t (Grammar.finishForEach p ctx head left) (Grammar.finishForEach p' ctx head left)
      Took := by
  refine seesKeyword (branch (fun hs => branch (fun _ => unexpectedHereThen) fun _ => ?_)
    fun _ => ?_)
  · exact lead (Token.isEof_of_isKeyword hs) fun _ => (hp.expression _).thenDo fun _ _ =>
      expect fun _ _ => call hp.loopBody fun _ _ => finish fun _ => pure rfl
  · exact expectWord fun _ _ => (hp.assignment _).thenDo fun _ _ => expect fun _ _ =>
      call hp.loopBody fun _ _ => finish fun _ => pure rfl

/-- The check of the variables of a loop takes no token. -/
theorem checkLoopVariables {kind : VariableKind} {u : Token} {items : List (Tree .declarator)}
    {α : Type} {f f' : Unit → Parse α} {post : α → Bool → Token → Prop}
    (h : Concur n b t (f ()) (f' ()) post) :
    Concur n b t (Grammar.checkLoopVariables kind u items >>= f)
      (Grammar.checkLoopVariables kind u items >>= f') post := by
  refine aside ?_ fun _ => h
  induction items with
  | nil => exact pure ⟨rfl, rfl⟩
  | cons item items ih =>
    cases item with
    | declarator target value span =>
      cases value with
      | present => exact ih
      | absent =>
        cases hfault : Grammar.missingValue? kind target with
        | none =>
          simp only [Grammar.checkLoopVariables, hfault]
          exact ih
        | some fault =>
          simp only [Grammar.checkLoopVariables, hfault]
          exact rejectThen (missingValue_ne_stalled hfault)

theorem forVariables (hp : Ready n p p') {head : Grammar.ForHead} (ht : t.isEof = false) :
    Concur n b t (Grammar.forVariables p ctx head) (Grammar.forVariables p' ctx head) Took := by
  refine here (call (hp.variableList ht) fun v u => finish fun _ => look ?_)
  dsimp only
  split
  · exact branch (fun _ => rejectThen nofun) fun _ => hp.finishForEach
  · exact checkLoopVariables hp.finishFor

theorem forExpression (hp : Ready n p p') {head : Grammar.ForHead} :
    Concur n true t (Grammar.forExpression p ctx head)
      (Grammar.forExpression p' ctx head) Took := by
  refine look
    (pending fun _ => setPending ((hp.cover _).thenDo fun _ u => look (branch (fun _ => ?_)
    fun _ => ?_)))
  · refine assignmentTarget ?_ fun _ => setPending hp.finishForEach
    split <;> nofun
  · exact rejectPending (setPending (call hp.sequenceFrom fun _ _ => hp.finishFor))

/-- A loop takes a token, its first word. -/
theorem forLoop (hp : Ready n p p') (ht : t.isEof = false) :
    Concur n b t (Grammar.forLoop p ctx) (Grammar.forLoop p' ctx) Took := by
  have hawait : ∀ u, Concur n true u (Grammar.forAwait ctx) (Grammar.forAwait ctx) Took := fun u =>
    look (branch (fun _ => pure rfl) fun hs => branch (fun _ => unexpectedThen) fun _ =>
      map (last (lead (Token.isEof_of_isWord (by simpa using hs)) fun _ => pure rfl)))
  refine next ht fun _ => call (hawait _) fun _ _ => expect fun _ u => look (branch
    (fun _ => hp.finishFor) fun _ => branch (fun hs => ?_) fun _ =>
    branch (fun hs => ?_) fun _ => ?_)
  · have hu := (Bool.or_eq_true_iff.1 hs).elim Token.isEof_of_isKeyword Token.isEof_of_isKeyword
    exact pureThen (branch (fun _ => hp.forVariables hu) fun _ => hp.forExpression)
  · exact ahead fun v => branch (fun _ => hp.forVariables (Token.isEof_of_isWord hs)) fun _ =>
      hp.forExpression
  · exact pureThen (branch nofun fun _ => hp.forExpression)

theorem whileLoop (hp : Ready n p p') (ht : t.isEof = false) :
    Concur n b t (Grammar.whileLoop p ctx) (Grammar.whileLoop p' ctx) Took :=
  next ht fun _ => call hp.inParentheses fun _ _ => call hp.loopBody fun _ _ =>
    finish fun _ => pure rfl

theorem doWhileLoop (hp : Ready n p p') (ht : t.isEof = false) :
    Concur n b t (Grammar.doWhileLoop p ctx) (Grammar.doWhileLoop p' ctx) Took := by
  refine next ht fun _ => call hp.loopBody fun _ _ => expectKeyword fun _ _ => call hp.inParentheses
    fun _ _ => sees (branch (fun _ => ?_) fun _ => pureThen (finish fun _ => pure rfl))
  exact terminator fun _ _ => finish fun _ => pure rfl

/-! ## Statements -/

theorem block (hp : Ready n p p') :
    Concur n b t (Grammar.block p ctx) (Grammar.block p' ctx) Took :=
  here (expect fun _ _ => call hp.items fun _ _ => expect fun _ _ => finish fun _ => pure rfl)

theorem ifStatement (hp : Ready n p p') (ht : t.isEof = false) :
    Concur n b t (Grammar.ifStatement p ctx) (Grammar.ifStatement p' ctx) Took := by
  have helse : ∀ u, Concur n true u (Grammar.elseClause p ctx) (Grammar.elseClause p' ctx) Took :=
    fun u => seesKeyword (branch (fun hs => lead (Token.isEof_of_isKeyword hs) fun _ =>
      (hp.statement _).thenDo fun _ _ => pure rfl) fun _ => pure rfl)
  exact next ht fun _ => call hp.inParentheses fun _ _ => (hp.statement _).thenDo fun _ _ =>
    call (helse _) fun _ _ => finish fun _ => pure rfl

theorem withStatement (hp : Ready n p p') (ht : t.isEof = false) :
    Concur n b t (Grammar.withStatement p ctx) (Grammar.withStatement p' ctx) Took :=
  next ht fun _ => checked nofun (call hp.inParentheses fun _ _ =>
    (hp.statement _).thenDo fun _ _ =>
    finish fun _ => pure rfl)

theorem functionDeclaration (hp : Ready n p p') :
    Concur n b t (Grammar.functionDeclaration p ctx) (Grammar.functionDeclaration p' ctx) Took :=
  map hp.function

theorem nestedFunction (hp : Ready n p p') :
    Concur n b t (Grammar.nestedFunction p ctx) (Grammar.nestedFunction p' ctx) Took :=
  branch (fun _ => look (tolerate nofun hp.functionDeclaration)) fun _ => hp.functionDeclaration

/-! ### Jumps -/

theorem jumpLabel {α : Type} {f f' : Option Ident → Parse α} {post : α → Bool → Token → Prop}
    (h : ∀ o u, Concur n true u (f o) (f' o) post) :
    Concur n true t (Grammar.jumpLabel ctx >>= f) (Grammar.jumpLabel ctx >>= f') post := by
  refine call (look (branch (fun _ => pure rfl) fun hs => anyName ?_ fun _ _ =>
    branch (fun _ => rejectThen nofun) fun _ => pure rfl)) h
  simp only [Bool.or_eq_true, Bool.not_eq_true', not_or, Bool.not_eq_false] at hs
  exact Token.isEof_of_isName hs.1

theorem breakStatement (ht : t.isEof = false) :
    Concur n b t (Grammar.breakStatement ctx) (Grammar.breakStatement ctx) Took :=
  next ht fun _ => jumpLabel fun _ _ => branch (fun _ => rejectThen nofun) fun _ =>
    terminator fun _ _ =>
    finish fun _ => pure rfl

theorem continueStatement (ht : t.isEof = false) :
    Concur n b t (Grammar.continueStatement ctx) (Grammar.continueStatement ctx) Took :=
  next ht fun _ => branch (fun _ => rejectThen nofun) fun _ => jumpLabel fun _ _ =>
    terminator fun _ _ =>
    finish fun _ => pure rfl

theorem returnStatement (hp : Ready n p p') (ht : t.isEof = false) :
    Concur n b t (Grammar.returnStatement p ctx) (Grammar.returnStatement p' ctx) Took := by
  refine next ht fun _ => checked nofun (look (branch (fun _ => pureThen ?_) fun _ =>
    call (map (hp.expression _).concur) fun _ _ => ?_))
  all_goals exact terminator fun _ _ => finish fun _ => pure rfl

theorem throwStatement (hp : Ready n p p') (ht : t.isEof = false) :
    Concur n b t (Grammar.throwStatement p ctx) (Grammar.throwStatement p' ctx) Took :=
  next ht fun _ => look (branch (fun _ => rejectThen nofun) fun _ =>
    (hp.expression _).thenDo fun _ _ =>
    terminator fun _ _ => finish fun _ => pure rfl)

theorem debuggerStatement (ht : t.isEof = false) :
    Concur n b t (Grammar.debuggerStatement ctx) (Grammar.debuggerStatement ctx) Took :=
  next ht fun _ => terminator fun _ _ => finish fun _ => pure rfl

/-! ### Handlers and switches -/

theorem catchClause (hp : Ready n p p') :
    Concur n true t (Grammar.catchClause p ctx) (Grammar.catchClause p' ctx) Took := by
  have hparam : ∀ u, Concur n true u (Grammar.catchParameter p ctx) (Grammar.catchParameter p' ctx)
      Took := fun u => accept (fun _ _ => look ((hp.binding (by nofun) _).thenDo fun _ _ =>
        branch (fun _ => rejectThen nofun) fun _ => expect fun _ _ => pure rfl)) (pure rfl)
  refine look (branch (fun _ => pure rfl) fun hs => ?_)
  exact lead (Token.isEof_of_isKeyword (by simpa using hs)) fun _ => call (hparam _) fun _ _ =>
    call hp.block fun _ _ => finish fun _ => pure rfl

theorem tryStatement (hp : Ready n p p') (ht : t.isEof = false) :
    Concur n b t (Grammar.tryStatement p ctx) (Grammar.tryStatement p' ctx) Took := by
  have hfinally : ∀ u, Concur n true u (Grammar.finallyClause p ctx) (Grammar.finallyClause p' ctx)
      Took := fun u => seesKeyword (branch (fun hs => lead (Token.isEof_of_isKeyword hs) fun _ =>
        call hp.block fun _ _ => pure rfl) fun _ => pure rfl)
  exact next ht fun _ => call hp.block fun _ _ => call hp.catchClause fun _ _ =>
    call (hfinally _) fun _ _ => branch (fun _ => rejectThen nofun) fun _ =>
      finish fun _ => pure rfl

theorem clauseHead (hp : Ready n p p') {hasDefault : Bool} :
    Concur n b t (Grammar.clauseHead p ctx hasDefault) (Grammar.clauseHead p' ctx hasDefault)
      Took := by
  refine look (branch (fun hs => ?_) fun _ => branch (fun _ => rejectThen nofun) fun _ => ?_)
  · exact lead (Token.isEof_of_isKeyword hs) fun _ => (hp.expression _).thenDo fun _ _ => pure rfl
  · exact expectKeyword fun _ _ => pure rfl

/-- Every case takes a token, and the rounds end with the brace. -/
theorem switchCases (hp : Ready n p p') {hasDefault : Bool} {rounds rounds' : Nat}
    (hr : n ≤ rounds) (hr' : n ≤ rounds') :
    Concur n true t (Grammar.switchCases p ctx hasDefault rounds)
      (Grammar.switchCases p' ctx hasDefault rounds') Took := by
  refine behind fun m hm => ?_
  induction rounds generalizing n m t hasDefault rounds' with
  | zero => omega
  | succ rounds ih =>
    obtain ⟨rounds', rfl⟩ : ∃ k, rounds' = k + 1 := ⟨rounds' - 1, by omega⟩
    have hrest : ∀ u hasDefault, Concur m true u
        (Grammar.switchCases p ctx hasDefault rounds)
        (Grammar.switchCases p' ctx hasDefault rounds') Took := fun u hasDefault =>
      behind fun k hk => ih (hp.below hm) (by omega) (by omega) k hk
    have hp' := hp.below hm
    exact sees (branch (fun _ => pure trivial) fun _ => here (call hp'.clauseHead fun _ _ =>
      expect fun _ _ => call (hp'.many (hp'.item _)) fun _ _ => finish fun _ =>
        call (hrest _ _) fun _ _ => pure trivial))

theorem switchStatement (hp : Ready n p p') (ht : t.isEof = false) :
    Concur n b t (Grammar.switchStatement p ctx) (Grammar.switchStatement p' ctx) Took :=
  next ht fun _ => call hp.inParentheses fun _ _ => expect fun _ _ =>
    call (hp.switchCases (Nat.le_of_lt hp.rounds.1) (Nat.le_of_lt hp.rounds.2)) fun _ _ =>
      expect fun _ _ => finish fun _ => pure rfl

/-! ### Labels and expressions -/

/-- An expression as a statement takes a token. -/
theorem expressionStatement (hp : Ready n p p') :
    Concur n b t (Grammar.expressionStatement p ctx) (Grammar.expressionStatement p' ctx) Took := by
  refine look (call hp.expression_step fun value u => look ?_)
  cases hlabel : Grammar.labelOf? t u value with
  | none => exact terminator fun _ _ => finish fun _ => pure rfl
  | some label =>
    have hu : u.isPunctuator ":" = true := by
      unfold Grammar.labelOf? at hlabel
      split at hlabel
      · split at hlabel <;> simp_all
      · cases hlabel
    exact branch (fun _ => rejectThen nofun) fun _ => lead (Token.isEof_of_isPunctuator hu) fun _ =>
      (hp.statement _).thenDo fun _ _ => finish fun _ => pure rfl

/-- A statement that starts with a reserved word takes it. -/
theorem keywordStatement (hp : Ready n p p') {word : String} (ht : t.isEof = false) :
    Concur n b t (Grammar.keywordStatement p ctx word) (Grammar.keywordStatement p' ctx word)
      Took := by
  unfold Grammar.keywordStatement
  split
  · exact breakStatement ht
  · exact continueStatement ht
  · exact debuggerStatement ht
  · exact hp.doWhileLoop ht
  · exact hp.forLoop ht
  · exact hp.nestedFunction
  · exact hp.ifStatement ht
  · exact hp.returnStatement ht
  · exact hp.switchStatement ht
  · exact hp.throwStatement ht
  · exact hp.tryStatement ht
  · exact hp.variableStatement ht
  · exact hp.whileLoop ht
  · exact hp.withStatement ht
  · exact hp.expressionStatement

theorem statement_step (hp : Ready n p p') :
    Concur n b t (Grammar.statement p ctx) (Grammar.statement p' ctx) Took := by
  refine look (branch (fun _ => map hp.block) fun _ => branch (fun hs => ?_) fun _ =>
    branch (fun hk => ?_) fun _ => hp.expressionStatement)
  · exact next (Token.isEof_of_isPunctuator hs) fun _ => finish fun _ => pure rfl
  · exact hp.keywordStatement (Token.isEof_of_kind (by simp [hk]))

theorem keywordItem (hp : Ready n p p') (ht : t.isEof = false) :
    Concur n b t (Grammar.keywordItem p ctx t) (Grammar.keywordItem p' ctx t) Took := by
  unfold Grammar.keywordItem
  split
  · exact hp.functionDeclaration
  · exact map hp.classDefinition
  · exact hp.variableStatement ht
  · exact ahead fun _ => branch (fun _ => hp.statement_step) fun _ => reject nofun
  · exact reject nofun
  · exact hp.statement_step

theorem item_step (hp : Ready n p p') :
    Concur n b t (Grammar.item p ctx) (Grammar.item p' ctx) Took := by
  refine look (branch (fun hk => ?_) fun _ => branch (fun hs => ahead fun _ => ?_) fun _ =>
    branch (fun _ => ahead fun _ => ?_) fun _ => hp.statement_step)
  · exact hp.keywordItem (Token.isEof_of_kind (by simp [hk]))
  · exact branch (fun _ => hp.variableStatement (Token.isEof_of_isWord hs)) fun _ =>
      hp.statement_step
  · exact branch (fun _ => hp.functionDeclaration) fun _ => hp.statement_step

/-! ## Modules -/

theorem moduleSource : Concur n b t (Grammar.moduleSource ctx) (Grammar.moduleSource ctx) Took :=
  look (branch (fun hs => literal (Token.isEof_of_isString hs)) fun _ => unexpectedHere)

theorem exportName : Concur n b t (Grammar.exportName ctx) (Grammar.exportName ctx) Took := by
  refine look (branch (fun hs => ?_) fun _ => branch (fun hs => ?_) fun _ => unexpected)
  · exact call (literal (Token.isEof_of_isString hs)) fun _ _ => pure rfl
  · exact anyName (Token.isEof_of_isAnyName hs) fun _ _ => pure rfl

theorem expectFrom {α : Type} {f f' : String → Parse α} {post : α → Bool → Token → Prop}
    (h : ∀ lead u, Concur n true u (f lead) (f' lead) post) :
    Concur n b t (Grammar.expectFrom >>= f) (Grammar.expectFrom >>= f') post :=
  call (look (branch (fun _ => rejectThen nofun) fun hs =>
    last (lead (Token.isEof_of_isWord (by simpa using hs)) fun _ => pure rfl))) h

/-- Another name behind `as` may be missing. -/
theorem exportAlias :
    Concur n true t (Grammar.exportAlias ctx) (Grammar.exportAlias ctx) Took :=
  seesWord (branch (fun hs => lead (Token.isEof_of_isWord hs) fun _ => call exportName fun _ _ =>
    pure rfl) fun _ => pure rfl)

theorem importAlias {first : Token} :
    Concur n true t (Grammar.importAlias ctx first) (Grammar.importAlias ctx first) Took := by
  refine seesWord (branch (fun hs => lead (Token.isEof_of_isWord hs) fun _ => ?_) fun _ =>
    branch (fun _ => unexpectedThen) fun _ => checkReference (pure rfl))
  exact call (bindingName nofun) fun _ _ => pure rfl

theorem importSpecifier : (Grammar.importSpecifier ctx).Advances n (Grammar.importSpecifier ctx) :=
  fun _ _ _ => look (call exportName fun _ _ => call importAlias fun _ _ =>
    finish fun _ => pure rfl)

theorem exportSpecifier : (Grammar.exportSpecifier ctx).Advances n (Grammar.exportSpecifier ctx) :=
  fun _ _ _ => look (call exportName fun _ _ => call exportAlias fun _ _ =>
    finish fun _ => pure rfl)

/-- The clause of an import takes a token. -/
theorem importClause {rounds rounds' : Nat} (hr : n ≤ rounds) (hr' : n ≤ rounds') :
    Concur n b t (Grammar.importClause ctx rounds) (Grammar.importClause ctx rounds') Took := by
  have hparts : ∀ {b u main comma}, Concur n b u (Grammar.importParts ctx rounds main comma)
      (Grammar.importParts ctx rounds' main comma) Took := by
    refine sees (branch (fun hs => call (?_ : Concur _ _ _ _ _ Took) fun _ _ => pure rfl) fun _ =>
      sees (branch (fun _ => call (?_ : Concur _ _ _ _ _ Took) fun _ _ => pure rfl) fun _ =>
        unexpectedHere))
    · exact here (lead (Token.isEof_of_isPunctuator hs) fun _ => expectWord fun _ _ =>
        call (bindingName nofun) fun _ _ => finish fun _ => pure rfl)
    · exact expect fun _ _ => call (Parse.Concur.listed importSpecifier.map hr hr') fun _ _ =>
        expect fun _ _ => pure rfl
  exact look
    (branch (fun _ => call (bindingName nofun) fun _ _ => accept (fun _ _ => hparts) (pure rfl))
    fun _ => hparts)

theorem importDeclaration {rounds rounds' : Nat} (hr : n ≤ rounds) (hr' : n ≤ rounds')
    (ht : t.isEof = false) :
    Concur n b t (Grammar.importDeclaration ctx rounds) (Grammar.importDeclaration ctx rounds')
      Took := by
  refine next ht fun _ => look (branch (fun _ => pureThen ?_) fun _ =>
    call (importClause hr hr') fun _ _ => expectFrom fun _ _ => pureThen ?_)
  all_goals exact call moduleSource fun _ _ => terminator fun _ _ => finish fun _ => pure rfl

/-- A default export takes a token. -/
theorem exportDefault (hp : Ready n p p') {first : Token} (ht : t.isEof = false) :
    Concur n b t (Grammar.exportDefault p ctx first) (Grammar.exportDefault p' ctx first) Took := by
  have hvalue : ∀ u, Concur n true u (Grammar.exportValue p ctx) (Grammar.exportValue p' ctx)
      Took := by
    intro u
    have hexpr : Concur n true u
        (p.assignment ctx >>= fun value => Parse.terminator ctx >>= fun ending =>
          Pure.pure (Tree.exportExpr value ending))
        (p'.assignment ctx >>= fun value => Parse.terminator ctx >>= fun ending =>
          Pure.pure (Tree.exportExpr value ending)) Took :=
      (hp.assignment _).thenDo fun _ _ => terminator fun _ _ => pure rfl
    refine look (branch (fun _ => pureThen ?_) fun _ => branch (fun _ => ahead fun _ => ?_) fun _ =>
      pureThen ?_)
    all_goals
      exact branch (fun _ => map hp.function) fun _ => branch (fun _ => map hp.classDefinition)
        fun _ => hexpr
  exact lead ht fun _ => call (hvalue _) fun _ _ => finish fun _ => pure rfl

theorem exportAll {first : Token} (ht : t.isEof = false) :
    Concur n b t (Grammar.exportAll ctx first) (Grammar.exportAll ctx first) Took :=
  lead ht fun _ => call exportAlias fun _ _ => expectFrom fun _ _ => call moduleSource fun _ _ =>
    terminator fun _ _ => finish fun _ => pure rfl

/-- Every exported name takes a token, and the rounds end with the brace. -/
theorem exportNames {rounds rounds' : Nat} {first : Token} (hr : n ≤ rounds) (hr' : n ≤ rounds') :
    Concur n b t (Grammar.exportNames ctx rounds first) (Grammar.exportNames ctx rounds' first)
      Took := by
  have hlocals : ∀ {u} (names : List Token), Concur n true u (Grammar.checkLocalNames ctx names)
      (Grammar.checkLocalNames ctx names) Took := by
    intro u names
    induction names with
    | nil => exact pure rfl
    | cons name names ih => exact branch (fun _ => unexpectedThen) fun _ => ih
  have horigin : ∀ {u} (names : List Token), Concur n true u (Grammar.exportOrigin ctx names)
      (Grammar.exportOrigin ctx names) Took := fun names =>
    seesWord
      (branch (fun hs => lead (Token.isEof_of_isWord hs) fun _ => call moduleSource fun _ _ =>
      pure rfl) fun _ => call (hlocals names) fun _ _ => pure rfl)
  exact expect fun _ _ => call (Parse.Concur.listed exportSpecifier.map hr hr') fun _ _ =>
    expect fun _ _ =>
    call (horigin _) fun _ _ => terminator fun _ _ => finish fun _ => pure rfl

theorem exportDeclaration (hp : Ready n p p') (ht : t.isEof = false) :
    Concur n b t (Grammar.exportDeclaration p ctx) (Grammar.exportDeclaration p' ctx) Took := by
  have hsees : ∀ {u}, Concur n true u Grammar.seesDeclaration Grammar.seesDeclaration Took :=
    look (branch (fun _ => pure rfl) fun _ => branch (fun _ => pure rfl) fun _ =>
      branch (fun _ => peek fun _ => pure rfl) fun _ => pure rfl)
  refine next ht fun _ => seesKeyword (branch (fun hs => ?_) fun _ => sees (branch (fun hs => ?_)
    fun _ => sees (branch (fun _ => ?_) fun _ => ?_)))
  · exact hp.exportDefault (Token.isEof_of_isKeyword hs)
  · exact exportAll (Token.isEof_of_isPunctuator hs)
  · exact exportNames (Nat.le_of_lt hp.rounds.1) (Nat.le_of_lt hp.rounds.2)
  · exact call hsees fun _ _ => branch (fun _ => unexpectedHereThen) fun _ =>
      (hp.item _).thenDo fun _ _ => finish fun _ => pure rfl

theorem moduleItem (hp : Ready n p p') :
    (Grammar.moduleItem p ctx).Advances n (Grammar.moduleItem p' ctx) := by
  intro m hm t
  have hp' := hp.below hm
  refine look (branch (fun hs => ahead fun _ => branch (fun _ => hp.item _ m hm t) fun _ => ?_)
    fun _ => branch (fun hs => hp'.exportDeclaration (Token.isEof_of_isKeyword hs)) fun _ =>
      hp.item _ m hm t)
  exact importDeclaration (Nat.le_of_lt hp'.rounds.1) (Nat.le_of_lt hp'.rounds.2)
    (Token.isEof_of_isKeyword hs)

/-! ## All productions -/

/-- One more call and one more round reach one character further. -/
theorem deepen (hp : Ready n p p') : Ready (n + 1) p.deepen p'.deepen where
  rounds := ⟨Nat.succ_lt_succ hp.rounds.1, Nat.succ_lt_succ hp.rounds.2⟩
  expression _ _ hm _ := (hp.mono (Nat.le_of_lt_succ hm)).expression_step
  assignment _ _ hm _ := (hp.mono (Nat.le_of_lt_succ hm)).assignment_step
  cover _ _ hm _ := (hp.mono (Nat.le_of_lt_succ hm)).cover_step
  binary _ _ _ hm _ := (hp.mono (Nat.le_of_lt_succ hm)).binary_step
  exponentiation _ _ hm _ := (hp.mono (Nat.le_of_lt_succ hm)).exponentiation_step
  unary _ _ hm _ := (hp.mono (Nat.le_of_lt_succ hm)).unary_step
  chain _ _ hm _ := (hp.mono (Nat.le_of_lt_succ hm)).chain_step
  callee _ _ hm _ := (hp.mono (Nat.le_of_lt_succ hm)).callee_step
  binding hf _ _ hm _ := (hp.mono (Nat.le_of_lt_succ hm)).binding_step hf
  statement _ _ hm _ := (hp.mono (Nat.le_of_lt_succ hm)).statement_step
  item _ _ hm _ := (hp.mono (Nat.le_of_lt_succ hm)).item_step
  markup _ _ _ _ _ hm _ := (hp.mono (Nat.le_of_lt_succ hm)).markup_step

/-- Before the end of the bound, a whole source is read in the same way. -/
theorem program (hp : Ready n p p') {goal : Goal} {allowsMarkup : Bool} :
    Concur n true t (Grammar.program p goal allowsMarkup) (Grammar.program p' goal allowsMarkup)
      Took := by
  refine here (call hp.prologue fun _ _ => ?_)
  cases goal with
  | script => exact call (hp.many (hp.item _)) fun _ _ => look (finish fun _ => pure rfl)
  | module => exact call (hp.many hp.moduleItem) fun _ _ => look (finish fun _ => pure rfl)

end Productions.Ready

namespace Productions

/-- Productions of any two depths concur where fewer characters remain than either has calls. -/
theorem ready_ofDepth {n depth depth' : Nat} (h : n < depth) (h' : n < depth') :
    Ready n (ofDepth depth) (ofDepth depth') := by
  induction n generalizing depth depth' with
  | zero =>
    refine ⟨?_, ?_, ?_, ?_, ?_, ?_, ?_, ?_, ?_, ?_, ?_, ?_, ?_⟩
    · simpa only [rounds_ofDepth] using ⟨h, h'⟩
    all_goals
      intros
      intro m hm
      exact absurd hm (Nat.not_lt_zero m)
  | succ n ih =>
    obtain ⟨depth, rfl⟩ : ∃ k, depth = k + 1 := ⟨depth - 1, by omega⟩
    obtain ⟨depth', rfl⟩ : ∃ k, depth' = k + 1 := ⟨depth' - 1, by omega⟩
    exact (ih (Nat.lt_of_succ_lt_succ h) (Nat.lt_of_succ_lt_succ h')).deepen

end Productions

end Verbatim
