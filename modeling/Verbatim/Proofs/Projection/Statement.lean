import Verbatim.Proofs.Projection.Expression

/-!
# Projections of markup, statements and modules

## Main results

* `Verbatim.Productions.Projects.ofDepth` — the productions of each depth project to themselves.
* `Verbatim.Grammar.program_projects` — so does a whole source.
-/

namespace Verbatim

open Verbatim.Parse

/-! ## Single tokens and names -/

section

variable {ctx : Context} {t : Token} {after : Mode} {spelling : String} {start : Position}

instance : (Grammar.leadThen after).Projected := by
  unfold Grammar.leadThen
  infer_instance

instance : (Grammar.expectThen ctx spelling after).Projected := by
  unfold Grammar.expectThen
  infer_instance

instance : (Grammar.tagIdent ctx).Projected :=
  ⟨fun _ _ => .after fun _ => .check (.after fun _ => .bind .same fun _ => .pure rfl) .same⟩

instance : Grammar.isLexicalDeclaration.Projected := by
  unfold Grammar.isLexicalDeclaration
  infer_instance

instance : Grammar.isAsyncFunction.Projected := by
  unfold Grammar.isAsyncFunction
  infer_instance

instance : Grammar.isImportExpression.Projected := by
  unfold Grammar.isImportExpression
  infer_instance

instance : Grammar.seesDeclaration.Projected := by
  unfold Grammar.seesDeclaration
  infer_instance

instance : (Grammar.forAwait ctx).Projected :=
  ⟨fun _ _ => .after fun _ => .branch (.pure rfl) (.check (.map .same fun _ => rfl) .same)⟩

instance : Grammar.emptyStatement.Projected :=
  ⟨fun _ _ => .after fun _ => .bind .same fun _ => .pure rfl⟩

instance : (Grammar.jumpLabel ctx).Projected :=
  ⟨fun _ _ => .after fun _ => .branch (.pure rfl) (.bind .same fun _ => .check (.pure rfl) .same)⟩

instance : (Grammar.breakStatement ctx).Projected :=
  ⟨fun _ _ => .after fun _ => .bind .same fun label => .checkWith
    (congrArg (· && !ctx.inLoop && !ctx.inSwitch) Option.isNone_map)
    (.after fun _ => .bind .same fun _ => .pure (by cases label <;> rfl)) .same⟩

instance : (Grammar.continueStatement ctx).Projected :=
  ⟨fun _ _ => .after fun _ => .check (.bind .same fun label => .after fun _ => .bind .same fun _ =>
    .pure (by cases label <;> rfl)) .same⟩

instance : (Grammar.debuggerStatement ctx).Projected :=
  ⟨fun _ _ => .after fun _ => .after fun _ => .bind .same fun _ => .pure rfl⟩

end

/-! ## Checks -/

section

variable {o : Options} {m : Bool} {ctx : Context} {start : Position} {t : Token}

theorem qualified_select (name : TagName) : (select o name).qualified = name.qualified := by
  induction name with
  | plain => rfl
  | namespaced => rfl
  | member base dotLead prop span ih => exact congrArg (· ++ "." ++ prop.name) ih

theorem isSome_select {c : Category} (part : Tree (.maybe c)) :
    (select o part).toOption.isSome = part.toOption.isSome := by
  cases part <;> rfl

theorem isNone_select {c : Category} (part : Tree (.maybe c)) :
    (select o part).toOption.isNone = part.toOption.isNone := by
  cases part <;> rfl

theorem missingValue?_select (kind : VariableKind) (target : Pattern) :
    Grammar.missingValue? kind (select o target) = Grammar.missingValue? kind target := by
  cases target <;> rfl

theorem labelOf?_select (first after : Token) (value : Expr) :
    Grammar.labelOf? first after (select o value) =
      select o (Grammar.labelOf? first after value) := by
  cases value
  case identifier id =>
    change (if _ then _ else _) = select o (if _ then _ else _)
    split <;> rfl
  all_goals rfl

theorem select_declare (v : Grammar.Variables) (ending : Option Terminator) (span : Span) :
    select o (v.declare ending span) = (select o v).declare ending (select o span) :=
  congrArg (Tree.declaration _ _ · _ _ _) (select_ofList o v.items)

namespace Parse.Projects

theorem namespacedName {space : TagIdent} :
    (Grammar.namespacedName ctx start space).Projects o m
      (Grammar.namespacedName ctx start (select o space)) :=
  .after fun _ => .bind .same fun _ => .bind .same fun _ => .pure rfl

theorem tagMember {name : TagName} :
    (Grammar.tagMember ctx start name).Projects o m
      (Grammar.tagMember ctx start (select o name)) := by
  refine .after fun dotLead => ?_
  cases dotLead with
  | none => exact .pure rfl
  | some => exact .bind .same fun _ => .bind .same fun _ => .pure rfl

/-- The check of the variables of a loop looks at patterns, not at extents. -/
theorem checkLoopVariables (kind : VariableKind) (items : List (Tree .declarator)) :
    (Grammar.checkLoopVariables kind t items).Projects o m
      (Grammar.checkLoopVariables kind t (select o items)) := by
  induction items with
  | nil => exact .pure rfl
  | cons item items ih =>
    cases item with
    | declarator target value span =>
      cases value with
      | present => exact ih
      | absent =>
        have hitem : select o (Tree.declarator target .absent span :: items) =
          .declarator (select o target) .absent (select o span) :: select o items := rfl
        rw [hitem, Grammar.checkLoopVariables, Grammar.checkLoopVariables, missingValue?_select]
        cases Grammar.missingValue? kind target with
        | none => exact ih
        | some fault => exact .after fun _ => ih

end Parse.Projects

/-! ## Imports and exports -/

section

variable {first : Token} {rounds : Nat}

instance : Grammar.expectFrom.Projected :=
  ⟨fun _ _ => .after fun _ => .check .same .same⟩

instance : (Grammar.moduleSource ctx).Projected := by
  unfold Grammar.moduleSource
  exact ⟨fun _ _ => .after fun _ => .branch .same .same⟩

instance : (Grammar.exportName ctx).Projected :=
  ⟨fun _ _ => .after fun _ => .branch (.bind .same fun _ => .pure rfl)
    (.branch (.bind .same fun _ => .pure rfl) .same)⟩

instance : (Grammar.exportAlias ctx).Projected :=
  ⟨fun _ _ => .after fun _ => .branch (.after fun _ => .bind .same fun _ => .pure rfl) (.pure rfl)⟩

instance : (Grammar.importAlias ctx first).Projected :=
  ⟨fun _ _ => .after fun _ => .branch (.after fun _ => .bind .same fun _ => .pure rfl)
    (.check (.after fun _ => .pure rfl) .same)⟩

instance : (Grammar.importSpecifier ctx).Projected :=
  ⟨fun _ _ => .after fun _ => .bind .same fun _ => .bind .same fun alias? => .bind .same fun _ =>
    .pure (by cases alias? <;> rfl)⟩

instance : (Grammar.exportSpecifier ctx).Projected :=
  ⟨fun _ _ => .after fun _ => .bind .same fun _ => .bind .same fun alias? => .bind .same fun _ =>
    .pure (by cases alias? <;> rfl)⟩

instance : (Grammar.namespaceImport ctx).Projected :=
  ⟨fun _ _ => .after fun _ => .after fun _ => .after fun _ => .bind .same fun _ => .bind .same
    fun _ => .pure rfl⟩

instance : (Grammar.exportAll ctx t).Projected :=
  ⟨fun _ _ => .after fun _ => .bind .same fun alias? => .after fun _ => .bind .same fun _ =>
    .after fun _ => .bind .same fun _ => .pure (by cases alias? <;> rfl)⟩

instance {locals : List Token} : (Grammar.checkLocalNames ctx locals).Projected := by
  induction locals with
  | nil => exact inferInstanceAs (Projected (Pure.pure () : Parse Unit))
  | cons t locals ih =>
    unfold Grammar.checkLocalNames
    exact ⟨fun _ _ => .check .same .same⟩

instance {locals : List Token} : (Grammar.exportOrigin ctx locals).Projected :=
  ⟨fun _ _ => .after fun _ => .branch (.after fun _ => .bind .same fun _ => .pure rfl)
    (.after fun _ => .pure rfl)⟩

theorem checkLocalNames_widen (locals : List Token) :
    Grammar.checkLocalNames (ctx.widen m) locals = Grammar.checkLocalNames ctx locals := by
  induction locals with
  | nil => rfl
  | cons t locals ih =>
    simp only [Grammar.checkLocalNames, ih]
    rfl

namespace Parse.Projects

theorem namedImports :
    (Grammar.namedImports ctx rounds).Projects o m
      (Grammar.namedImports (ctx.widen m) rounds) := by
  refine .after fun _ => .bind (.listed (.map .same fun _ => rfl) rfl) fun v => .after fun _ =>
    .pure (congrArg (NamedImports.mk _ · _ _) (Visitor.list_eq_map _ v.1))

theorem importParts (main : Option Ident) (commaLead : String) :
    (Grammar.importParts ctx rounds main commaLead).Projects o m
      (Grammar.importParts (ctx.widen m) rounds (select o main) commaLead) := by
  have hmain := Visitor.option_eq_map (Visitor.moving (·.select o)).ident main
  exact .after fun _ => .branch
    (.bind .same fun space =>
      .pure (congrArg (ImportClause.mk · _ (some (select o space)) _) hmain))
    (.after fun _ => .branch
      (.bind .namedImports fun named =>
        .pure (congrArg (ImportClause.mk · _ _ (some (select o named))) hmain)) .same)

theorem importClause :
    (Grammar.importClause ctx rounds).Projects o m
      (Grammar.importClause (ctx.widen m) rounds) := by
  refine .after fun _ => .branch (.bind .same fun main => .after fun commaLead => ?_)
    (.importParts none _)
  cases commaLead with
  | none => exact .pure rfl
  | some => exact .importParts (some main) _

theorem importDeclaration :
    (Grammar.importDeclaration ctx rounds).Projects o m
      (Grammar.importDeclaration (ctx.widen m) rounds) := by
  refine .after fun _ => .after fun _ => .branch (.bind (.pure rfl) ?_)
    (.bind .importClause fun _ => .after fun _ => .bind (.pure rfl) ?_)
  all_goals
    rintro ⟨clause, fromLead⟩
    exact .bind .same fun _ => .after fun _ => .bind .same fun _ =>
      .pure (by cases clause <;> rfl)

/-- A list of exported names decides nothing by what is recorded. -/
theorem exportNames :
    (Grammar.exportNames ctx rounds t).Projects o m
      (Grammar.exportNames (ctx.widen m) rounds t) := by
  refine .after fun _ => .bind (.listed (.map .same fun _ => rfl) rfl) fun v => .after fun _ => ?_
  have hlocals : (select o v).1.map (·.2) = v.1.map (·.2) := by
    change (v.1.map (select o)).map (·.2) = _
    rw [List.map_map]
    rfl
  have horigin : (Grammar.exportOrigin ctx (v.1.map (·.2))).Projects o m
      (Grammar.exportOrigin (ctx.widen m) ((select o v).1.map (·.2))) := by
    rw [hlocals]
    unfold Grammar.exportOrigin
    rw [checkLocalNames_widen]
    exact .same (a := Grammar.exportOrigin ctx _)
  have hspecifiers : (Visitor.list (m := Id) (Visitor.moving (·.select o)).exportSpecifier
      (v.1.map (·.1))) = (select o v).1.map (·.1) := by
    change _ = (v.1.map (select o)).map (·.1)
    rw [Visitor.list_eq_map, List.map_map, List.map_map]
    rfl
  refine .bind horigin fun origin => .after fun _ => .bind .same fun _ => .pure ?_
  cases origin <;>
    exact congrArg (fun specifiers => Tree.exportNamed _ _ (some { specifiers .. }) _ _ _)
      hspecifiers

end Parse.Projects

end

instance {rounds : Nat} : (Grammar.tagName ctx rounds).Projected :=
  ⟨fun _ _ => .after fun _ => .bind .same fun first => .after fun _ => .branch
    (.bind .namespacedName fun _ => .pure rfl)
    (.iterate (v := TagName.plain first) (fun _ => .tagMember) rfl)⟩

end

namespace Productions.Projects

variable {o : Options} {m : Bool} {p p' : Productions} (hp : p.Projects o m p') {ctx : Context}
include hp

/-! ## Markup -/

theorem container (start : Position) (openLead : String) (after : Mode) (allowsEmpty : Bool) :
    (Grammar.container p ctx start openLead after allowsEmpty).Projects o m
      (Grammar.container p' (ctx.widen m) start openLead after allowsEmpty) := by
  refine .after fun _ => .branch (.check ?_ .same) (.bind (hp.assignment _) fun _ => .after fun _ =>
    .bind .same fun _ => .pure rfl)
  exact .after fun _ => .bind .same fun _ => .after fun _ => .bind .same fun _ => .pure rfl

theorem attributeValue :
    (Grammar.attributeValue p ctx).Projects o m (Grammar.attributeValue p' (ctx.widen m)) := by
  refine .after fun _ => .branch (.bind .same fun _ => .pure rfl) (.branch ?_ (.branch ?_ .same))
  · exact .after fun _ => .bind (hp.container _ _ _ _) fun _ => .pure rfl
  · exact .after fun _ => .bind (hp.markup _ _ _ _) fun markup => by
      cases markup <;> exact .pure rfl

theorem spreadAttribute :
    (Grammar.spreadAttribute p ctx).Projects o m
      (Grammar.spreadAttribute p' (ctx.widen m)) :=
  .after fun _ => .after fun _ => .after fun _ => .bind (hp.assignment _) fun _ => .after fun _ =>
    .bind .same fun _ => .pure rfl

theorem tagAttribute :
    (Grammar.tagAttribute p ctx).Projects o m (Grammar.tagAttribute p' (ctx.widen m)) := by
  refine .after fun _ => .branch hp.spreadAttribute (.after fun _ => .bind .same fun first =>
    .after fun _ => .choice (fun _ => .after fun eqLead => ?_)
      (.map .namespacedName fun _ => rfl) (.pure rfl))
  cases eqLead with
  | none => exact .bind (.pure rfl) fun _ => .bind .same fun _ => .pure rfl
  | some =>
    exact .bind hp.attributeValue fun _ => .bind (.pure rfl) fun _ => .bind .same fun _ => .pure rfl

theorem childContainer :
    (Grammar.childContainer p ctx).Projects o m (Grammar.childContainer p' (ctx.widen m)) := by
  refine .after fun _ => .after fun _ => .after fun _ => .branch ?_ ?_
  · exact .after fun _ => .bind (hp.assignment _) fun _ => .after fun _ => .bind .same fun _ =>
      .pure rfl
  · exact .bind (hp.container _ _ _ _) fun _ => .pure rfl

/-- The children of an element decide nothing by what is recorded. -/
theorem children (name : String) {rounds rounds' : Nat} (hr : rounds = rounds') :
    (Grammar.children p ctx name rounds).Projects o m
      (Grammar.children p' (ctx.widen m) name rounds') := by
  subst hr
  induction rounds with
  | zero => exact .same (a := stalled)
  | succ rounds ih =>
    refine .after fun t => ?_
    cases t.kind
    case eof => exact .same
    case markupText =>
      exact .after fun _ => .bind .same fun _ => .bind ih fun _ => .pure rfl
    all_goals
      refine .branch (.bind hp.childContainer fun _ => .bind ih fun _ => .pure rfl)
        (.branch ?_ .same)
      refine .after fun _ => .after fun _ => .branch (.pure rfl)
        (.bind (hp.markup _ _ _ _) fun child => ?_)
      cases child <;> exact .bind (.pure rfl) fun _ => .bind ih fun _ => .pure rfl

theorem closingTag (start : Position) (openLead opened : String) (after : Mode) :
    (Grammar.closingTag p ctx start openLead opened after).Projects o m
      (Grammar.closingTag p' (ctx.widen m) start openLead opened after) := by
  unfold Grammar.closingTag
  rw [← hp.rounds]
  exact .after fun _ => .after fun _ => .bind .same fun name =>
    .checkWith (congrArg (· != opened) (qualified_select name))
      (.after fun _ => .bind .same fun _ => .pure rfl) .same

theorem fragment (start : Position) (openLead : String) (after : Mode) :
    (Grammar.fragment p ctx start openLead after).Projects o m
      (Grammar.fragment p' (ctx.widen m) start openLead after) :=
  .after fun _ => .bind (hp.children "" hp.rounds) fun _ => .after fun _ => .after fun _ =>
    .check (.after fun _ => .bind .same fun _ =>
      .pure (congrArg (Tree.fragment _ _ · _ _ _ _) (select_ofList o _))) .same

/-- An element decides nothing by what is recorded. -/
theorem element (start : Position) (openLead : String) (after : Mode) :
    (Grammar.element p ctx start openLead after).Projects o m
      (Grammar.element p' (ctx.widen m) start openLead after) := by
  have name : (Grammar.tagName ctx p.rounds).Projects o m
      (Grammar.tagName (ctx.widen m) p'.rounds) := hp.rounds ▸ .same
  refine .bind name fun name => .bind (.many hp.tagAttribute hp.rounds) fun attributes =>
    .after fun _ => .branch (.after fun _ => .after fun _ => .check ?_ .same) ?_
  · exact .after fun _ => .bind .same fun _ => .bind .same fun _ =>
      .pure (congrArg (Tree.element _ _ · _ _ _ _ _ _) (select_ofList o attributes))
  rw [qualified_select]
  refine .after fun _ => .bind .same fun _ => .bind (hp.children _ hp.rounds) fun v =>
    .bind (hp.closingTag _ _ _ _) fun _ => .bind .same fun _ => .pure ?_
  exact congr (congrArg (fun attributes inner => Tree.element _ _ attributes _ _ _ inner _ _)
    (select_ofList o attributes)) (select_ofList o v.1)

theorem markup_step (start : Position) (openLead : String) (after : Mode) :
    (Grammar.markup p start openLead after ctx).Projects o m
      (Grammar.markup p' start openLead after (ctx.widen m)) :=
  .after fun _ => .branch (.map (hp.fragment _ _ _) fun _ => rfl)
    (.map (hp.element _ _ _) fun _ => rfl)

/-! ## Declarations -/

theorem variableValue (inLoopHead : Bool) (kind : VariableKind) (target : Pattern) :
    (Grammar.variableValue p ctx inLoopHead kind target).Projects o m
      (Grammar.variableValue p' (ctx.widen m) inLoopHead kind (select o target)) := by
  refine .after fun _ => .branch (.after fun _ => .bind (hp.assignment _) fun _ => .pure rfl) ?_
  rw [missingValue?_select]
  refine .branch ?_ (.pure rfl)
  cases Grammar.missingValue? kind target with
  | none => exact .pure rfl
  | some => exact .bind .same fun _ => .pure rfl

theorem declarator (inLoopHead : Bool) (kind : VariableKind) :
    (Grammar.declarator p ctx inLoopHead kind).Projects o m
      (Grammar.declarator p' (ctx.widen m) inLoopHead kind) :=
  .after fun _ => .bind (hp.binding _ _) fun target =>
    .checkWith (congrArg (kind != .var && ·) (any_names (names_select target) (· == "let")))
      (.bind (hp.variableValue _ _ _) fun _ => .bind .same fun _ => .pure rfl) .same

theorem variableList (inLoopHead : Bool) :
    (Grammar.variableList p ctx inLoopHead).Projects o m
      (Grammar.variableList p' (ctx.widen m) inLoopHead) :=
  .after fun _ => .bind (hp.declarator _ _) fun _ =>
    .bind (.afterCommas (hp.declarator _ _) hp.rounds) fun _ => .pure rfl

theorem variableStatement :
    (Grammar.variableStatement p ctx).Projects o m
      (Grammar.variableStatement p' (ctx.widen m)) :=
  .after fun _ => .bind (hp.variableList _) fun v => .after fun ending => .bind .same fun span =>
    .pure (congrArg Tree.declarationStmt (select_declare v (some ending) span))

/-! ## Loops -/

theorem inParentheses :
    (Grammar.inParentheses p ctx).Projects o m (Grammar.inParentheses p' (ctx.widen m)) :=
  .after fun _ => .bind (hp.expression _) fun _ => .after fun _ => .pure rfl

theorem optionalBefore (close : String) :
    (Grammar.optionalBefore p ctx close).Projects o m
      (Grammar.optionalBefore p' (ctx.widen m) close) :=
  .after fun _ => .branch (.pure rfl) (.bind (hp.expression _) fun _ => .pure rfl)

theorem finishFor (head : Grammar.ForHead) (init : Tree (.maybe .forInit)) :
    (Grammar.finishFor p ctx head init).Projects o m
      (Grammar.finishFor p' (ctx.widen m) head (select o init)) := by
  unfold Grammar.finishFor
  exact .check (.after fun _ => .bind (hp.optionalBefore _) fun _ => .after fun _ =>
    .bind (hp.optionalBefore _) fun _ => .after fun _ => .bind (hp.statement _) fun _ =>
      .bind .same fun _ => .pure rfl) .same

theorem finishForEach (head : Grammar.ForHead) (left : Tree .forTarget) :
    (Grammar.finishForEach p ctx head left).Projects o m
      (Grammar.finishForEach p' (ctx.widen m) head (select o left)) := by
  refine .after fun _ => .branch ?_ ?_
  · unfold Grammar.finishForIn
    exact .check (.after fun _ => .bind (hp.expression _) fun _ => .after fun _ =>
      .bind (hp.statement _) fun _ => .bind .same fun _ => .pure rfl) .same
  · exact .after fun _ => .bind (hp.assignment _) fun _ => .after fun _ =>
      .bind (hp.statement _) fun _ => .bind .same fun _ => .pure rfl

/-- The variables of a loop are told apart by kinds and names, not by extents. -/
theorem forVariables (head : Grammar.ForHead) :
    (Grammar.forVariables p ctx head).Projects o m
      (Grammar.forVariables p' (ctx.widen m) head) := by
  refine .after fun _ => .bind (hp.variableList _) fun v => .bind .same fun span =>
    .after fun t => ?_
  dsimp only
  rw [← select_declare]
  obtain ⟨lead, kind, items, separators⟩ := v
  -- A single variable in front of the word of a loop over keys or values, or any others.
  have others : ∀ init : Tree .declaration, Parse.Projects o m
      (Grammar.checkLoopVariables kind t items >>= fun _ =>
        Grammar.finishFor p ctx head (.present (.forDeclaration init)))
      (Grammar.checkLoopVariables kind t (select o items) >>= fun _ =>
        Grammar.finishFor p' (ctx.widen m) head (.present (.forDeclaration (select o init)))) :=
    fun init => .bind (.checkLoopVariables _ _) fun _ =>
      hp.finishFor _ (.present (.forDeclaration init))
  cases t.isKeyword "in" || t.isWord "of" with
  | false => exact others _
  | true =>
    match items with
    | [] | .declarator .. :: _ :: _ => exact others _
    | [.declarator target value _] =>
      have hname : (select o target).isName = target.isName := target.isName_mapSpans _
      have hc : ((select o value).toOption.isSome &&
            !Grammar.allowsLoopValue ctx kind (select o target) t) =
          (value.toOption.isSome && !Grammar.allowsLoopValue ctx kind target t) := by
        unfold Grammar.allowsLoopValue
        rw [isSome_select, hname]
      exact .checkWith hc (hp.finishForEach _ _) .same

theorem forExpression (head : Grammar.ForHead) :
    (Grammar.forExpression p ctx head).Projects o m
      (Grammar.forExpression p' (ctx.widen m) head) := by
  refine .after fun _ => .after fun _ => .after fun _ => .bind (hp.cover _) fun _ =>
    .after fun _ => .branch ?_ ?_
  · exact .bind .assignmentTarget fun target => .after fun _ =>
      hp.finishForEach _ (.targetPattern target)
  · exact .after fun _ => .after fun _ => .bind (hp.sequenceFrom _ _) fun init =>
      hp.finishFor _ (.present (.forExpr init))

theorem forLoop : (Grammar.forLoop p ctx).Projects o m (Grammar.forLoop p' (ctx.widen m)) := by
  have first : ∀ head (b : Bool), Parse.Projects o m
      (if b then Grammar.forVariables p ctx head else Grammar.forExpression p ctx head)
      (if b then Grammar.forVariables p' (ctx.widen m) head
        else Grammar.forExpression p' (ctx.widen m) head) := fun _ _ =>
    .branch (hp.forVariables _) (hp.forExpression _)
  exact .after fun _ => .after fun _ => .after fun _ => .after fun _ =>
    .branch (hp.finishFor _ .absent) (.branch (.after (first _))
      (.branch (.after (first _)) (.after (first _))))

theorem whileLoop :
    (Grammar.whileLoop p ctx).Projects o m (Grammar.whileLoop p' (ctx.widen m)) :=
  .after fun _ => .bind hp.inParentheses fun _ => .bind (hp.statement _) fun _ =>
    .bind .same fun _ => .pure rfl

theorem doWhileLoop :
    (Grammar.doWhileLoop p ctx).Projects o m (Grammar.doWhileLoop p' (ctx.widen m)) :=
  .after fun _ => .bind (hp.statement _) fun _ => .after fun _ => .bind hp.inParentheses fun _ =>
    .after fun _ => .choice (fun _ => .bind .same fun _ => .pure rfl) .same .same

/-! ## Statements -/

theorem block : (Grammar.block p ctx).Projects o m (Grammar.block p' (ctx.widen m)) :=
  .after fun _ => .after fun _ => .bind hp.items fun _ => .after fun _ => .bind .same fun _ =>
    .pure (congrArg (Tree.block _ · _ _) (select_ofList o _))

theorem ifStatement :
    (Grammar.ifStatement p ctx).Projects o m (Grammar.ifStatement p' (ctx.widen m)) := by
  have alternate : (Grammar.elseClause p ctx).Projects o m
      (Grammar.elseClause p' (ctx.widen m)) :=
    .after fun _ => .branch (.after fun _ => .bind (hp.statement _) fun _ => .pure rfl) (.pure rfl)
  exact .after fun _ => .bind hp.inParentheses fun _ => .bind (hp.statement _) fun _ =>
    .bind alternate fun _ => .bind .same fun _ => .pure rfl

theorem withStatement :
    (Grammar.withStatement p ctx).Projects o m (Grammar.withStatement p' (ctx.widen m)) :=
  .after fun _ => .check (.bind hp.inParentheses fun _ => .bind (hp.statement _) fun _ =>
    .bind .same fun _ => .pure rfl) .same

theorem nestedFunction :
    (Grammar.nestedFunction p ctx).Projects o m (Grammar.nestedFunction p' (ctx.widen m)) :=
  .branch (.after fun _ => .after fun _ => .map (hp.function _ _) fun _ => rfl)
    (.map (hp.function _ _) fun _ => rfl)

theorem returnStatement :
    (Grammar.returnStatement p ctx).Projects o m
      (Grammar.returnStatement p' (ctx.widen m)) :=
  .after fun _ => .check (.after fun _ => .choice (fun _ => .after fun _ => .bind .same fun _ =>
    .pure rfl) (.pure rfl) (.map (hp.expression _) fun _ => rfl)) .same

theorem throwStatement :
    (Grammar.throwStatement p ctx).Projects o m (Grammar.throwStatement p' (ctx.widen m)) :=
  .after fun _ => .after fun _ => .check (.bind (hp.expression _) fun _ => .after fun _ =>
    .bind .same fun _ => .pure rfl) .same

/-- The handler of a failure decides nothing by what is recorded. -/
theorem catchClause :
    (Grammar.catchClause p ctx).Projects o m (Grammar.catchClause p' (ctx.widen m)) := by
  have param : (Grammar.catchParameter p ctx).Projects o m
      (Grammar.catchParameter p' (ctx.widen m)) := by
    refine .after fun openLead => ?_
    cases openLead with
    | none => exact .pure rfl
    | some =>
      exact .after fun _ => .bind (hp.binding _ _) fun target => .checkWith
        (congrArg (fun names : List String => !decide names.Nodup) (names_select target))
        (.after fun _ => .pure rfl) .same
  exact .after fun _ => .branch (.pure rfl) (.after fun _ => .bind param fun _ =>
    .bind hp.block fun _ => .bind .same fun _ => .pure rfl)

theorem finallyClause :
    (Grammar.finallyClause p ctx).Projects o m (Grammar.finallyClause p' (ctx.widen m)) :=
  .after fun _ => .branch (.after fun _ => .bind hp.block fun _ => .pure rfl) (.pure rfl)

theorem tryStatement :
    (Grammar.tryStatement p ctx).Projects o m (Grammar.tryStatement p' (ctx.widen m)) := by
  refine .after fun _ => .bind hp.block fun _ => .bind hp.catchClause fun handler =>
    .bind hp.finallyClause fun finalizer => ?_
  rw [isNone_select, isNone_select]
  exact .check (.bind .same fun _ => .pure rfl) .same

/-- The cases of a switch decide nothing by what is recorded. -/
theorem switchCases (hasDefault : Bool) {rounds rounds' : Nat} (hr : rounds = rounds') :
    (Grammar.switchCases p ctx hasDefault rounds).Projects o m
      (Grammar.switchCases p' (ctx.widen m) hasDefault rounds') := by
  have head : ∀ hasDefault, (Grammar.clauseHead p ctx hasDefault).Projects o m
      (Grammar.clauseHead p' (ctx.widen m) hasDefault) := fun _ =>
    .after fun _ => .branch (.after fun _ => .bind (hp.expression _) fun _ => .pure rfl)
      (.check (.after fun _ => .pure rfl) .same)
  subst hr
  induction rounds generalizing hasDefault with
  | zero => exact .same (a := stalled)
  | succ rounds ih =>
    refine .after fun _ => .branch (.pure rfl) (.after fun _ => .bind (head _) fun v =>
      .after fun _ => .bind (.many (hp.item _) hp.rounds) fun body => .bind .same fun _ =>
        .bind ((isNone_select (o := o) v.2).symm ▸ ih _) fun _ => .pure ?_)
    exact congrArg (Tree.switchCase _ _ _ · _ :: _) (select_ofList o body)

theorem switchStatement :
    (Grammar.switchStatement p ctx).Projects o m
      (Grammar.switchStatement p' (ctx.widen m)) :=
  .after fun _ => .bind hp.inParentheses fun _ => .after fun _ =>
    .bind (hp.switchCases false hp.rounds) fun _ => .after fun _ => .bind .same fun _ =>
      .pure (congrArg (Tree.switchStmt _ _ _ _ _ · _ _) (select_ofList o _))

theorem expressionStatement :
    (Grammar.expressionStatement p ctx).Projects o m
      (Grammar.expressionStatement p' (ctx.widen m)) := by
  refine .after fun _ => .bind hp.expression_step fun value => .after fun t => ?_
  rw [labelOf?_select]
  cases Grammar.labelOf? _ t value with
  | some label =>
    change Parse.Projects o m (Grammar.labelledStatement ..) (Grammar.labelledStatement ..)
    unfold Grammar.labelledStatement
    exact .check (.after fun _ => .bind (hp.statement _) fun _ => .bind .same fun _ => .pure rfl)
      .same
  | none => exact .after fun _ => .bind .same fun _ => .pure rfl

/-- Statements that start with a reserved word decide nothing by what is recorded. -/
theorem keywordStatement (word : String) :
    (Grammar.keywordStatement p ctx word).Projects o m
      (Grammar.keywordStatement p' (ctx.widen m) word) := by
  unfold Grammar.keywordStatement
  split
  case h_4 => exact hp.doWhileLoop
  case h_5 => exact hp.forLoop
  case h_6 => exact hp.nestedFunction
  case h_7 => exact hp.ifStatement
  case h_8 => exact hp.returnStatement
  case h_9 => exact hp.switchStatement
  case h_10 => exact hp.throwStatement
  case h_11 => exact hp.tryStatement
  case h_12 => exact hp.variableStatement
  case h_13 => exact hp.whileLoop
  case h_14 => exact hp.withStatement
  case h_15 => exact hp.expressionStatement
  all_goals exact .same

theorem statement_step :
    (Grammar.statement p ctx).Projects o m (Grammar.statement p' (ctx.widen m)) :=
  .after fun _ => .branch (.map hp.block fun _ => rfl) (.branch .same
    (.branch (hp.keywordStatement _) hp.expressionStatement))

theorem keywordItem (t : Token) :
    (Grammar.keywordItem p ctx t).Projects o m (Grammar.keywordItem p' (ctx.widen m) t) := by
  unfold Grammar.keywordItem
  split
  case h_1 => exact .map (hp.function _ _) fun _ => rfl
  case h_2 => exact .map (hp.classDefinition _ _) fun _ => rfl
  case h_3 => exact hp.variableStatement
  case h_4 => exact .after fun _ => .branch hp.statement_step .same
  case h_6 => exact hp.statement_step
  all_goals exact .same

theorem item_step : (Grammar.item p ctx).Projects o m (Grammar.item p' (ctx.widen m)) :=
  .after fun _ => .branch (hp.keywordItem _) (.branch
    (.after fun _ => .branch hp.variableStatement hp.statement_step)
    (.branch (.after fun _ => .branch (.map (hp.function _ _) fun _ => rfl) hp.statement_step)
      hp.statement_step))

/-! ## Modules -/

/-- A default export decides nothing by what is recorded. -/
theorem exportDefault (t : Token) :
    (Grammar.exportDefault p ctx t).Projects o m
      (Grammar.exportDefault p' (ctx.widen m) t) := by
  have value : (Grammar.exportValue p ctx).Projects o m
      (Grammar.exportValue p' (ctx.widen m)) := by
    refine .after fun t => ?_
    have rest : ∀ b : Bool, Parse.Projects o m
        (if b then Tree.exportFunction <$> Grammar.function p ctx true true
        else if t.isKeyword "class" then
          Tree.exportClass <$> Grammar.classDefinition p ctx true false
        else do
          let value ← p.assignment ctx
          let ending ← terminator ctx
          return .exportExpr value ending)
        (if b then Tree.exportFunction <$> Grammar.function p' (ctx.widen m) true true
        else if t.isKeyword "class" then
          Tree.exportClass <$> Grammar.classDefinition p' (ctx.widen m) true false
        else do
          let value ← p'.assignment (ctx.widen m)
          let ending ← terminator (ctx.widen m)
          return .exportExpr value ending) := fun _ =>
      .branch (.map (hp.function _ _) fun _ => rfl) (.branch
        (.map (hp.classDefinition _ _) fun _ => rfl)
        (.bind (hp.assignment _) fun _ => .after fun _ => .pure rfl))
    exact .branch (.after rest) (.branch (.after rest) (.after rest))
  exact .after fun _ => .bind value fun _ => .bind .same fun _ => .pure rfl

theorem exportDeclaration :
    (Grammar.exportDeclaration p ctx).Projects o m
      (Grammar.exportDeclaration p' (ctx.widen m)) := by
  refine .after fun t => .after fun _ => .branch (hp.exportDefault _)
    (.after fun _ => .branch .same (.after fun _ => .branch ?_ ?_))
  · rw [← hp.rounds]
    exact .exportNames
  · exact .after fun _ => .check (.bind (hp.item _) fun _ => .bind .same fun _ => .pure rfl) .same

theorem moduleItem :
    (Grammar.moduleItem p ctx).Projects o m (Grammar.moduleItem p' (ctx.widen m)) := by
  have declaration : (Grammar.importDeclaration ctx p.rounds).Projects o m
      (Grammar.importDeclaration (ctx.widen m) p'.rounds) := hp.rounds ▸ .importDeclaration
  exact .after fun _ => .branch (.after fun _ => .branch (hp.item _) declaration)
    (.branch hp.exportDeclaration (hp.item _))

/-! ## The language -/

/-- Productions that call others project to those that call what the others project to. -/
theorem deepen : p.deepen.Projects o m p'.deepen where
  rounds := congrArg (· + 1) hp.rounds
  expression _ := hp.expression_step
  assignment _ := hp.assignment_step
  cover _ := hp.cover_step
  binary _ _ := hp.binary_step _
  exponentiation _ := hp.exponentiation_step
  unary _ := hp.unary_step
  chain _ := hp.chain_step
  callee _ := hp.callee_step
  binding _ _ := hp.binding_step _
  statement _ := hp.statement_step
  item _ := hp.item_step
  markup _ _ _ _ := hp.markup_step _ _ _

omit hp in
/-- The productions of each depth project to themselves. -/
theorem ofDepth (depth : Nat) : (Productions.ofDepth depth).Projects o m (.ofDepth depth) := by
  induction depth with
  | zero => constructor <;> intros <;> first | rfl | exact .same (a := stalled)
  | succ depth ih => exact ih.deepen

end Productions.Projects

/-- The run on a whole source that records what the options ask for is the image of the complete
one, also if markup is allowed in the first of them only. -/
theorem Grammar.program_projects (o : Options) (m : Bool) (source : String) (goal : Goal)
    (allowsMarkup : Bool) :
    (Grammar.program (.forSource source) goal allowsMarkup).Projects o m
      (Grammar.program (.forSource source) goal (allowsMarkup || m)) := by
  have hp := Productions.Projects.ofDepth (o := o) (m := m) (source.length + 3)
  refine .after fun _ => .bind hp.prologue fun _ => ?_
  -- The program that was read, behind its statements.
  have rest : ∀ (v : List Stmt × Bool) (stmts : List Stmt) (tail : String) (span : Span),
      select o ({ goal, body := v.1 ++ stmts, tail, span } : Program) =
        { goal, body := (select o v).1 ++ select o stmts, tail, span := select o span } :=
    fun v stmts tail span => (Program.mapSpans_eq _ _).trans
      (congrArg (Program.mk goal · tail _) (select_append o v.1 stmts))
  cases goal with
  | script =>
    exact .bind (.many (hp.item _) rfl) fun _ => .after fun _ => .bind .same fun _ =>
      .pure (rest ..)
  | module =>
    exact .bind (.many hp.moduleItem rfl) fun _ => .after fun _ => .bind .same fun _ =>
      .pure (rest ..)

end Verbatim
