import Verbatim.Proofs.Projection.Basic
import Verbatim.Proofs.Static.Rules

/-!
# Projections of expressions

Each production of expressions projects to itself. Where a check looks at a tree, it does not look
at the extents in it.

## Main results

* `Verbatim.Productions.Projects.punctuatedOperand` — the operands at which markup may begin.
* `Verbatim.Productions.Projects.expression_step` — expressions.
-/

namespace Verbatim

open Verbatim.Parse

/-! ## Single tokens -/

section

variable {ctx : Context} {t first : Token}

instance : (Grammar.literalValue ctx t).Projected := by
  unfold Grammar.literalValue
  split
  case h_2 => split <;> infer_instance
  all_goals infer_instance

instance : (Grammar.literal ctx).Projected :=
  ⟨fun _ _ => .after fun _ => .check (.after fun _ => .bind .same fun _ => .pure rfl) .same⟩

instance : (Grammar.checkOperatorWord ctx t).Projected := by
  unfold Grammar.checkOperatorWord
  exact ⟨fun _ _ => .check (.branch .same .same) .same⟩

instance : (Grammar.checkReference ctx t).Projected :=
  ⟨fun _ _ => .after fun _ => .branch .same .same⟩

instance {restricted : Fault} : (Grammar.bindingName restricted ctx).Projected := by
  refine ⟨fun _ _ => .after fun _ => .check (.after fun t => .after fun _ => ?_) .same⟩
  exact .branch (.branch (.after fun _ => .same) (.branch (.after fun _ => .same) .same)) .same

instance {tagged : Bool} : (Grammar.templatePiece ctx tagged).Projected := by
  refine ⟨fun _ _ => .after fun _ => .check (.after fun t => ?_) .same⟩
  split
  · exact .check (.bind .same fun _ => .pure rfl) .same
  · exact .same

instance {forbidsNewline : Bool} : (Grammar.isModifier forbidsNewline).Projected := by
  unfold Grammar.isModifier
  infer_instance

instance {mods : Modifiers} {kind : PropertyKind} {name : Option String} {hasConstructor : Bool}
    {site : Site} : (Grammar.methodKind mods kind name hasConstructor site).Projected :=
  ⟨fun _ _ => .branch (.check (.check .same .same) .same) .same⟩

instance : Grammar.modifiers.Projected := by
  refine ⟨fun _ _ => .after fun _ => .branch (.after fun _ => .branch ?_ ?_)
    (.branch (.after fun _ => .branch ?_ ?_) ?_)⟩
  case refine_1 | refine_3 => exact .after fun _ => .after fun _ => .after fun _ => .same
  all_goals exact .after fun _ => .after fun _ => .same

instance : Grammar.seesAsyncBareArrow.Projected := by
  unfold Grammar.seesAsyncBareArrow
  infer_instance

instance : (Grammar.accessName ctx).Projected :=
  ⟨fun _ _ => .after fun _ => .branch (.bind .same fun _ => .pure rfl)
    (.branch (.after fun _ => .bind .same fun _ => .pure rfl) .same)⟩

instance : (Grammar.superclass ctx).Projected :=
  ⟨fun _ _ => .after fun _ => .after fun _ => .check (.bind .same fun _ => .pure rfl) .same⟩

instance {word : String} {check : Parse Unit} [check.Projected] :
    (Grammar.metaProperty ctx t word check).Projected :=
  ⟨fun _ _ => .bind .same fun _ => .after fun _ => .after fun _ => .check
    (.bind .same fun _ => .after fun _ => .bind .same fun _ => .pure rfl) .same⟩

instance {site : Site} : (Grammar.markPending site).Projected := by
  unfold Grammar.markPending
  infer_instance

instance : Grammar.rejectPending.Projected :=
  ⟨fun _ _ => .after fun site => by cases site <;> exact .same⟩

end

/-! ## Checks -/

section

variable {o : Options} {m : Bool} {ctx : Context} {e : Expr} {site : Site} {t : Token}

/-- The image of a tree has the texts of the tree. -/
theorem select_tree {c : Category} (t : Tree c) : select o t = t.mapSpans (·.select o) := rfl

theorem select_function (head : FunctionHead) (params : Tree .params) (body : Tree .body)
    (span : Span) : select o (Tree.function head params body span) =
      .function { head with name := select o head.name } (select o params) (select o body)
        (select o span) := by
  obtain ⟨_, _, _, _, _, name⟩ := head
  cases name <;> rfl

theorem select_classDef (lead : String) (name : Option Ident) (base : Tree (.maybe .heritage))
    (openLead : String) (members : List (Tree .classMember)) (closeLead : String) (span : Span) :
    select o (Tree.classDef lead name base openLead (.ofList members) closeLead span) =
      .classDef lead (select o name) (select o base) openLead (.ofList (select o members)) closeLead
        (select o span) := by
  cases name <;> exact congrArg (Tree.classDef _ _ _ _ · _ _) (select_ofList o members)

theorem mixesCoalescing_select (op : BinaryOp) (left right : Expr) :
    Grammar.mixesCoalescing op (select o left) (select o right) =
      Grammar.mixesCoalescing op left right := by
  have h (ops : List BinaryOp) (e : Expr) :
      Grammar.isOperationOf ops (select o e) = Grammar.isOperationOf ops e := by
    cases e <;> rfl
  unfold Grammar.mixesCoalescing
  simp only [h]

theorem isLiteralPattern_select (e : Expr) :
    Grammar.isLiteralPattern (select o e) = Grammar.isLiteralPattern e := by
  cases e <;> rfl

/-! ### Targets -/

theorem asTarget_select (use : TargetUse) (strict trailing : Bool) (e : Expr) :
    (select o e).asTarget use strict trailing = select o <$> e.asTarget use strict trailing := by
  rw [select_tree, Tree.mapSpans_eq_retouch, e.moves.1]
  exact congrArg (· <$> _) (funext fun p => (p.mapSpans_eq_retouch _).symm)

theorem checkRest_select (p : Pattern) : Tree.checkRest (select o p) = Tree.checkRest p := by
  cases p <;> rfl

/-! ### Groups -/

theorem values_select (g : Grammar.Group) : (select o g).values = select o g.values := by
  change (g.items.map (select o)).map _ = (g.items.map _).map (select o)
  rw [List.map_map, List.map_map]
  rfl

theorem bounds?_select (g : Grammar.Group) : (select o g).bounds? = g.bounds? := by
  have hitems : (select o g).items = g.items.map (select o) := rfl
  unfold Grammar.Group.bounds?
  rw [hitems, List.head?_map, List.getLast?_map]
  cases g.items.head? <;> cases g.items.getLast? <;> rfl

theorem spreadSite?_select (g : Grammar.Group) : (select o g).spreadSite? = g.spreadSite? := by
  have hitem : (Grammar.GroupItem.isSpread ∘ select o) = Grammar.GroupItem.isSpread := by
    funext ⟨value, _, _⟩
    cases value <;> rfl
  change ((g.items.map (select o)).find? _).map _ = _
  rw [List.find?_map, hitem, Option.map_map]
  rfl

theorem select_unresolved (g : Grammar.Group) (asyncLead : Option String) (span : Span) :
    select o (g.unresolved asyncLead span) =
      (select o g).unresolved asyncLead (select o span) := by
  unfold Grammar.Group.unresolved
  rw [values_select, ← select_ofList]
  rfl

/-- The arguments that a group turns out to be. -/
theorem select_arguments (g : Grammar.Group) :
    select o (Tree.argumentList g.openLead (.ofList g.values) g.separators g.closeLead) =
      .argumentList g.openLead (.ofList (select o g).values) g.separators g.closeLead := by
  rw [values_select, ← select_ofList]
  rfl

/-! ### Names -/

/-- A name without trivia has no extent to select a part of. -/
theorem select_bare (id : Ident) : select o id.bare = (select o id).bare := by
  have h : ({} : Span).select o = {} := by
    unfold Span.select
    cases o.range <;> cases o.location <;> rfl
  exact congrArg (fun span => ({ id with lead := "", span } : Ident)) h

theorem staticName_select (name : Tree .key) : (select o name).staticName = name.staticName := by
  cases name <;> rfl

theorem names_select {c : Category} (t : Tree c) :
    (select o t).boundNames.map (·.name) = t.boundNames.map (·.name) :=
  t.names_mapSpans _

theorem allNames_select (patterns : List Pattern) :
    ((select o patterns).flatMap (·.boundNames)).map (·.name) =
      (patterns.flatMap (·.boundNames)).map (·.name) := by
  induction patterns with
  | nil => rfl
  | cons head tail ih =>
    change ((select o head).boundNames ++ (select o tail).flatMap (·.boundNames)).map _ = _
    rw [List.flatMap_cons, List.map_append, List.map_append, ih, names_select]

/-- Names that are the same have the same properties. -/
theorem any_names {ids ids' : List Ident} (h : ids'.map (·.name) = ids.map (·.name))
    (f : String → Bool) : ids'.any (f ·.name) = ids.any (f ·.name) := by
  have hany := congrArg (List.any · f) h
  rwa [List.any_map, List.any_map] at hany

theorem isCover_select (e : Expr) : (select o e).isCover = e.isCover := by
  cases e <;> rfl

namespace Parse.Projects

theorem rejectCover : (Grammar.rejectCover ctx e).Projects o m
    (Grammar.rejectCover (ctx.widen m) (select o e)) :=
  .branchWith (isCover_select e) .same .same

/-- The check of parameters looks at their names only. -/
theorem checkParameterNames {strict unique : Bool} {seen : List String} {ids ids' : List Ident}
    (h : ids'.map (·.name) = ids.map (·.name)) :
    (Grammar.checkParameterNames strict unique site seen ids).Projects o m
      (Grammar.checkParameterNames strict unique site seen ids') := by
  induction ids generalizing seen ids' with
  | nil =>
    obtain rfl := List.map_eq_nil_iff.1 h
    exact .pure rfl
  | cons id ids ih =>
    obtain ⟨id', ids', rfl, hname, hnames⟩ := List.map_eq_cons_iff.1 h
    unfold Grammar.checkParameterNames
    rw [hname]
    have rest : (Grammar.checkParameterNames strict unique site (id.name :: seen) ids).Projects o m
        (Grammar.checkParameterNames strict unique site (id.name :: seen) ids') := ih hnames
    refine .check (.check ?_ .same) .same
    exact .branch (.branch (.after fun _ => rest) (.branch (.after fun _ => rest) rest)) rest

theorem checkParameters {strict unique : Bool} (params : List Pattern) :
    (Grammar.checkParameters strict unique site params).Projects o m
      (Grammar.checkParameters strict unique site (select o params)) :=
  checkParameterNames (allNames_select params)

theorem checkUpdateTarget {restricted : Fault} :
    (Grammar.checkUpdateTarget ctx e t restricted).Projects o m
      (Grammar.checkUpdateTarget (ctx.widen m) (select o e) t restricted) := by
  have h : (select o e).isSimpleTarget = e.isSimpleTarget := e.isSimpleTarget_mapSpans _
  cases e
  case identifier => exact .branch .same .same
  all_goals
    unfold Grammar.checkUpdateTarget
    simp only [h]
    exact .branch .same .same

theorem checkPatterns {strict unique : Bool} (params : Tree .params) :
    (Grammar.checkParameters strict (unique || !params.isSimple) site
      params.parameters).Projects o m
      (Grammar.checkParameters strict (unique || !(select o params).isSimple) site
        (select o params).parameters) := by
  rw [select_tree, Tree.isSimple_mapSpans, Tree.parameters_mapSpans]
  exact checkParameters _

/-- The value of a group is its only item, or all of them. -/
theorem groupValue (g : Grammar.Group) :
    (Grammar.groupValue g).Projects o m (Grammar.groupValue (select o g)) := by
  unfold Grammar.groupValue
  rw [values_select, bounds?_select]
  match g.values, g.bounds? with
  | [value], _ => exact .pure rfl
  | [], some (start, stop) => exact .bind .same fun _ => .pure rfl
  | first :: second :: rest, some (start, stop) =>
    exact .bind .same fun _ =>
      .pure (congrArg (Tree.sequence · _ _) (select_ofList o (first :: second :: rest)))
  | [], none => exact .same (a := stalled)
  | first :: second :: rest, none => exact .same (a := stalled)

/-- A group is accepted or refused by its items, not by extents. -/
theorem parenthesized {start : Position} (g : Grammar.Group) :
    (Grammar.parenthesized ctx start g).Projects o m
      (Grammar.parenthesized (ctx.widen m) start (select o g)) := by
  have hlength : (select o g).items.length = g.items.length := List.length_map _
  unfold Grammar.parenthesized
  rw [hlength, spreadSite?_select]
  refine .check ?_ .same
  cases g.spreadSite? with
  | none =>
    exact .after fun _ => .bind (.groupValue g) fun _ => .bind .same fun _ => .pure rfl
  | some site =>
    exact .bind .same fun _ => .after fun _ => .bind (.groupValue g) fun _ =>
      .bind .same fun _ => .pure rfl

theorem finishAccess {start : Position} {base : Expr} {isOptional : Bool} {dotLead : String}
    {prop : Tree .access} :
    (Grammar.finishAccess start base isOptional dotLead prop).Projects o m
      (Grammar.finishAccess start (select o base) isOptional dotLead (select o prop)) :=
  .bind .same fun _ => .pure rfl

theorem finishCall {start : Position} {base : Expr} {isOptional : Bool} {optionalLead : String}
    {args args' : Tree .arguments} (h : select o args = args') :
    (Grammar.finishCall start base isOptional optionalLead args).Projects o m
      (Grammar.finishCall start (select o base) isOptional optionalLead args') := by
  subst h
  exact .bind .same fun _ => .pure rfl

theorem asyncCallee (value : Expr) :
    (Grammar.asyncCallee t value).Projects o m (Grammar.asyncCallee t (select o value)) := by
  refine .after fun _ => ?_
  cases value
  case identifier => exact .branch (.pure rfl) (.pure rfl)
  all_goals exact .pure rfl

theorem simpleTarget {fault : Fault} :
    (simpleTarget ctx e t fault).Projects o m
      (simpleTarget (ctx.widen m) (select o e) t fault) := by
  have h : (select o e).isSimpleTarget = e.isSimpleTarget := e.isSimpleTarget_mapSpans _
  cases e
  case identifier => exact .branch (.after fun _ => .pure rfl) (.pure rfl)
  all_goals
    unfold Parse.simpleTarget
    exact .checkWith (congrArg (!·) h) (.pure rfl) .same

theorem assignmentTarget {fault : Fault} :
    (assignmentTarget ctx e t fault).Projects o m
      (assignmentTarget (ctx.widen m) (select o e) t fault) := by
  cases e
  case array | object => exact .convertAs (asTarget_select ..)
  all_goals
    unfold Parse.assignmentTarget
    exact .simpleTarget

theorem settle (value : Expr) (pendingBefore : Option Site) :
    (Grammar.settle value pendingBefore).Projects o m
      (Grammar.settle (select o value) pendingBefore) := by
  refine .after fun now => ?_
  rw [isLiteralPattern_select]
  cases now with
  | none => exact .after fun _ => .pure rfl
  | some site => exact .check (.after fun _ => .pure rfl) .same

/-- The items of a group become parameters. -/
theorem groupParameters (trailing : Bool) (items : List Expr) :
    (Grammar.groupParameters ctx site trailing items).Projects o m
      (Grammar.groupParameters (ctx.widen m) site trailing (select o items)) := by
  induction items with
  | nil => exact .pure rfl
  | cons item items ih =>
    cases item
    case spread dotsLead operand span =>
      have hitem : select o (Tree.spread dotsLead operand span :: items) =
        .spread dotsLead (select o operand) (select o span) :: select o items := rfl
      rw [hitem, Grammar.groupParameters, Grammar.groupParameters]
      refine .checkWith (congrArg (trailing || !·) List.isEmpty_map) ?_ .same
      refine .bind (.convertAs ?_) fun _ => .pure rfl
      rw [asTarget_select]
      simp [checkRest_select, Context.widen]
    case yield | await => exact .same (a := reject _ _)
    all_goals
      exact .bind (.convertAs (asTarget_select ..)) fun _ => .bind ih fun _ => .pure rfl

theorem checkFunctionName (id : Option Ident) :
    (Grammar.checkFunctionName site id).Projects o m
      (Grammar.checkFunctionName site (select o id)) := by
  cases id with
  | none => exact .pure rfl
  | some id => exact .branch .same (.branch .same .same)

/-- The check of an accessor looks at the number and kind of its parameters. -/
theorem checkAccessor (kind : PropertyKind) (params : List Pattern) :
    (Grammar.checkAccessor kind site params).Projects o m
      (Grammar.checkAccessor kind site (select o params)) := by
  cases kind with
  | plain => exact .pure rfl
  | getter =>
    cases params with
    | nil => exact .pure rfl
    | cons => exact .same (a := Parse.tolerate _ _)
  | setter =>
    match params with
    | [] => exact .same (a := Parse.tolerate _ _)
    | param :: _ :: _ => cases param <;> exact .same (a := Parse.tolerate _ _)
    | [param] =>
      cases param
      case restPattern => exact .same (a := Parse.tolerate _ _)
      all_goals exact .pure rfl

end Parse.Projects

end

namespace Productions.Projects

variable {o : Options} {m : Bool} {p p' : Productions} (hp : p.Projects o m p') {ctx : Context}
include hp

/-! ## Templates and keys -/

theorem templateParts (tagged : Bool) {rounds rounds' : Nat} (hr : rounds = rounds') :
    (Grammar.templateParts p ctx tagged rounds).Projects o m
      (Grammar.templateParts p' (ctx.widen m) tagged rounds') := by
  subst hr
  induction rounds with
  | zero => exact .same (a := stalled)
  | succ rounds ih =>
    exact .bind .same fun _ => .branch (.pure rfl) (.bind (hp.expression _) fun _ => .bind ih
      fun _ => .pure rfl)

theorem template (tagged : Bool) :
    (Grammar.template p ctx tagged).Projects o m (Grammar.template p' (ctx.widen m) tagged) := by
  refine .after fun _ => .bind (hp.templateParts tagged hp.rounds) fun v => .bind .same fun _ =>
    .pure ?_
  rw [select_tree, Tree.mapSpans_templateLit, Visitor.list_eq_map, ← select_tree, select_ofList]
  rfl

theorem key (allowsPrivate : Bool) :
    (Grammar.key p ctx allowsPrivate).Projects o m
      (Grammar.key p' (ctx.widen m) allowsPrivate) := by
  refine .after fun t => .branch (.bind .same fun _ => .pure rfl) ?_
  cases t.kind
  case string | numeric | bigint => exact .bind .same fun _ => .pure rfl
  case privateName =>
    exact .branch (.after fun _ => .bind .same fun _ => .pure rfl) .same
  all_goals
    exact .branch (.after fun _ => .bind (hp.assignment _) fun _ => .after fun _ => .pure rfl) .same

/-! ## Bindings -/

theorem withDefault (start : Position) (target : Pattern) :
    (Grammar.withDefault p ctx start target).Projects o m
      (Grammar.withDefault p' (ctx.widen m) start (select o target)) := by
  refine .after fun eqLead => ?_
  cases eqLead with
  | none => exact .pure rfl
  | some => exact .bind (hp.assignment _) fun _ => .bind .same fun _ => .pure rfl

theorem bindingElement (restricted : Fault) :
    (Grammar.bindingElement p restricted ctx).Projects o m
      (Grammar.bindingElement p' restricted (ctx.widen m)) :=
  .after fun _ => .bind (hp.binding _ _) fun _ => hp.withDefault _ _

theorem bindingRest (restricted : Fault) (close : String) (misplaced : Fault) :
    (Grammar.bindingRest p restricted ctx close misplaced).Projects o m
      (Grammar.bindingRest p' restricted (ctx.widen m) close misplaced) :=
  .after fun _ => .after fun _ => .bind (hp.binding _ _) fun _ => .after fun _ =>
    .check (.check (.bind .same fun _ => .pure rfl) .same) .same

theorem arrayBinding (restricted : Fault) :
    (Grammar.arrayBinding p restricted ctx).Projects o m
      (Grammar.arrayBinding p' restricted (ctx.widen m)) := by
  have round : (Grammar.arrayBindingRound p restricted ctx).Projects o m
      (Grammar.arrayBindingRound p' restricted (ctx.widen m)) :=
    .after fun _ => .branch (.after fun _ => .pure rfl) (.after fun _ => .branch
      (.bind (hp.bindingRest _ _ _) fun _ => .pure rfl)
      (.bind (hp.bindingElement _) fun _ => .pure rfl))
  exact .after fun _ => .after fun _ => .bind (.listed round hp.rounds) fun _ => .after fun _ =>
    .bind .same fun _ => .pure (congrArg (Tree.arrayPattern _ · _ _ _) (select_ofList o _))

theorem bindingProperty (restricted : Fault) :
    (Grammar.bindingProperty p restricted ctx).Projects o m
      (Grammar.bindingProperty p' restricted (ctx.widen m)) := by
  refine .after fun _ => .after fun _ => .branch (.after fun _ => .after ?_) (.after ?_)
  all_goals
    exact fun _ => .branch
      (.bind .same fun id => .bind (hp.withDefault _ (.namePattern id)) fun _ =>
        .bind .same fun _ =>
        .pure (congrArg (fun id => Tree.patternProperty (.nameKey id) _ _ _ _)
          (select_bare id)))
      (.bind (hp.key _) fun _ => .after fun _ => .bind (hp.bindingElement _) fun _ =>
        .bind .same fun _ => .pure rfl)

/-- An object pattern decides nothing by what is recorded. -/
theorem objectBinding (restricted : Fault) :
    (Grammar.objectBinding p restricted ctx).Projects o m
      (Grammar.objectBinding p' restricted (ctx.widen m)) := by
  have rest : (Grammar.bindingMemberRest restricted ctx).Projects o m
      (Grammar.bindingMemberRest restricted (ctx.widen m)) :=
    .after fun _ => .after fun _ => .bind .same fun _ => .after fun _ =>
      .check (.bind .same fun _ => .pure rfl) .same
  have round : (Grammar.objectBindingRound p restricted ctx).Projects o m
      (Grammar.objectBindingRound p' restricted (ctx.widen m)) :=
    .after fun _ => .branch (.bind rest fun _ => .pure rfl)
      (.bind (hp.bindingProperty _) fun _ => .pure rfl)
  exact .after fun _ => .after fun _ => .bind (.listed round hp.rounds) fun _ => .after fun _ =>
    .bind .same fun _ => .pure (congrArg (Tree.objectPattern _ · _ _ _) (select_ofList o _))

theorem binding_step (restricted : Fault) :
    (Grammar.binding p restricted ctx).Projects o m
      (Grammar.binding p' restricted (ctx.widen m)) :=
  .after fun _ => .branch (hp.arrayBinding _)
    (.after fun _ => .branch (hp.objectBinding _) (.bind .same fun _ => .pure rfl))

/-! ## Functions -/

/-- A directive is told by its spelling, not by its extent. -/
theorem prologueFrom (octal : Option Token) {rounds rounds' : Nat} (hr : rounds = rounds') :
    (Grammar.prologueFrom p ctx octal rounds).Projects o m
      (Grammar.prologueFrom p' (ctx.widen m) octal rounds') := by
  subst hr
  induction rounds generalizing ctx octal with
  | zero => exact .same (a := stalled)
  | succ rounds ih =>
    refine .after fun t => .branch (.pure rfl) (.bind (hp.expression _) fun value =>
      .after fun _ => .branchWith ?_ (.bind .same fun _ => .pure rfl) ?_)
    · cases value <;> rfl
    have rest : ∀ octal, (Grammar.prologueFrom p _ octal rounds).Projects o m
        (Grammar.prologueFrom p'
          ({ ctx with strict := ctx.strict || Grammar.directiveText t == "use strict" }.widen m)
          octal rounds) := fun octal => ih octal
    cases octal with
    | none =>
      exact .branch (.bind .same fun _ => .bind (rest _) fun _ => .pure rfl)
        (.bind .same fun _ => .bind (rest _) fun _ => .pure rfl)
    | some =>
      exact .branch (.after fun _ => .bind .same fun _ => .bind (rest _) fun _ => .pure rfl)
        (.bind .same fun _ => .bind (rest _) fun _ => .pure rfl)

theorem prologue :
    (Grammar.prologue p ctx).Projects o m (Grammar.prologue p' (ctx.widen m)) :=
  hp.prologueFrom none hp.rounds

theorem items : (Grammar.items p ctx).Projects o m (Grammar.items p' (ctx.widen m)) :=
  .many (hp.item _) hp.rounds

theorem functionBody :
    (Grammar.functionBody p ctx).Projects o m (Grammar.functionBody p' (ctx.widen m)) := by
  refine .after fun _ => .after fun _ => .bind hp.prologue fun _ => .bind hp.items fun _ =>
    .after fun _ => .bind .same fun _ => .pure (Prod.ext ?_ rfl)
  exact congrArg (Tree.bodyBlock _ · _ _) ((select_ofList o _).trans
    (congrArg Tree.ofList (select_append o _ _)))

theorem parameterList :
    (Grammar.parameterList p ctx).Projects o m (Grammar.parameterList p' (ctx.widen m)) := by
  have round : (Grammar.parameterRound p ctx).Projects o m
      (Grammar.parameterRound p' (ctx.widen m)) :=
    .after fun _ => .branch (.bind (hp.bindingRest _ _ _) fun _ => .pure rfl)
      (.bind (hp.bindingElement _) fun _ => .pure rfl)
  exact .after fun _ => .bind (.listed round hp.rounds) fun _ => .after fun _ =>
    .pure (congrArg (Tree.paramList _ · _ _) (select_ofList o _))

theorem paramsAndBody (isAsync isGenerator : Bool) (name : Option Ident) (site : Site)
    (unique : Bool) :
    (Grammar.paramsAndBody p ctx isAsync isGenerator name site unique).Projects o m
      (Grammar.paramsAndBody p' (ctx.widen m) isAsync isGenerator (select o name) site unique) := by
  refine .after fun _ => .after fun _ => .bind hp.parameterList fun params =>
    .bind hp.functionBody fun v => .checkWith ?_ ?_ .same
  · have h : (Grammar.hasUseStrict (select o v.1) && !(select o params).isSimple) =
        (Grammar.hasUseStrict v.1 && !params.isSimple) := by
      rw [select_tree, select_tree, Tree.hasUseStrict_mapSpans, Tree.isSimple_mapSpans]
    exact h
  · exact .check (.bind (.checkPatterns _) fun _ => .after fun _ => .pure rfl)
      (.checkFunctionName _)

omit hp in
theorem functionName (isDeclaration nameOptional isAsync isGenerator : Bool) :
    (Grammar.functionName ctx isDeclaration nameOptional isAsync isGenerator).Projects o m
      (Grammar.functionName (ctx.widen m) isDeclaration nameOptional isAsync isGenerator) := by
  cases isDeclaration <;>
    exact .after fun _ => .branch (.bind .same fun _ => .pure rfl) (.check (.pure rfl) .same)

theorem function (isDeclaration nameOptional : Bool) :
    (Grammar.function p ctx isDeclaration nameOptional).Projects o m
      (Grammar.function p' (ctx.widen m) isDeclaration nameOptional) := by
  refine .after fun _ => .after fun _ => .choice ?_ .same .same
  exact fun _ => .after fun _ => .after fun _ => .after fun _ =>
    .bind (functionName _ _ _ _) fun _ => .bind (hp.paramsAndBody _ _ _ _ _) fun _ =>
      .bind .same fun _ => .pure (select_function ..)

theorem methodFunction (isAsync isGenerator : Bool) (kind : PropertyKind) :
    (Grammar.methodFunction p ctx isAsync isGenerator kind).Projects o m
      (Grammar.methodFunction p' (ctx.widen m) isAsync isGenerator kind) :=
  .after fun _ => .bind (hp.paramsAndBody _ _ none _ _) fun v => .bind
    (Tree.parameters_mapSpans _ v.1 ▸ .checkAccessor _ _) fun _ => .bind .same fun _ => .pure rfl

/-! ## Classes -/

theorem fieldInitializer :
    (Grammar.fieldInitializer p ctx).Projects o m (Grammar.fieldInitializer p' (ctx.widen m)) := by
  refine .after fun eqLead => ?_
  cases eqLead with
  | none => exact .pure rfl
  | some =>
    exact .after fun _ => .after fun _ => .bind (hp.assignment _) fun _ => .after fun _ => .pure rfl

theorem field (start : Position) (mods : Modifiers) (name : Tree .key) :
    (Grammar.field p ctx start mods name).Projects o m
      (Grammar.field p' (ctx.widen m) start mods (select o name)) :=
  .bind hp.fieldInitializer fun _ => .after fun _ => .bind .same fun _ => .pure rfl

theorem staticBlock (start : Position) (staticLead : String) :
    (Grammar.staticBlock p ctx start staticLead).Projects o m
      (Grammar.staticBlock p' (ctx.widen m) start staticLead) :=
  .after fun _ => .after fun _ => .after fun _ => .bind hp.items fun _ => .after fun _ =>
    .after fun _ => .bind .same fun _ =>
      .pure (congrArg (Tree.staticBlock _ _ · _ _) (select_ofList o _))

theorem keyedMember (start : Position) (mods : Modifiers) (kind : PropertyKind)
    (hasConstructor : Bool) :
    (Grammar.keyedMember p ctx start mods kind hasConstructor).Projects o m
      (Grammar.keyedMember p' (ctx.widen m) start mods kind hasConstructor) := by
  refine .after fun t => .bind (hp.key _) fun name => ?_
  dsimp only
  rw [staticName_select]
  refine .check (.after fun _ => .branch (.check (.bind (hp.field _ _ _) fun _ => .pure rfl) .same)
    ?_) .same
  exact .after fun _ => .bind (hp.methodFunction _ _ _) fun _ => .bind .same fun _ => .pure rfl

theorem classMember (hasConstructor : Bool) :
    (Grammar.classMember p ctx hasConstructor).Projects o m
      (Grammar.classMember p' (ctx.widen m) hasConstructor) := by
  refine .after fun _ => .branch (.after fun _ => .bind .same fun _ => .pure rfl)
    (.choice (fun isStatic => .choice (fun staticLead => ?_) .same .same) .same .same)
  cases staticLead with
  | none => exact .after fun _ => hp.keyedMember _ _ _ _
  | some =>
    exact .after fun _ => .branch (.bind (hp.staticBlock _ _) fun _ => .pure rfl)
      (.after fun _ => hp.keyedMember _ _ _ _)

theorem classMembers (hasConstructor : Bool) {rounds rounds' : Nat} (hr : rounds = rounds') :
    (Grammar.classMembers p ctx hasConstructor rounds).Projects o m
      (Grammar.classMembers p' (ctx.widen m) hasConstructor rounds') := by
  subst hr
  induction rounds generalizing hasConstructor with
  | zero => exact .same (a := stalled)
  | succ rounds ih =>
    exact .after fun _ => .branch (.pure rfl) (.check (.bind (hp.classMember _) fun _ =>
      .bind (ih _) fun _ => .pure rfl) .same)

theorem heritage :
    (Grammar.heritage p ctx).Projects o m (Grammar.heritage p' (ctx.widen m)) :=
  .after fun _ => .branch (.pure rfl) (.after fun _ => .bind (hp.chain _) fun base =>
    .checkWith (isCover_select base) (.pure rfl) .same)

theorem classDefinition (isDeclaration nameRequired : Bool) :
    (Grammar.classDefinition p ctx isDeclaration nameRequired).Projects o m
      (Grammar.classDefinition p' (ctx.widen m) isDeclaration nameRequired) := by
  refine .after fun _ => .after fun _ => .after fun _ => .branch
    (.bind (.map .same fun _ => rfl) ?_) (.branch (.bind .same ?_) (.bind (.pure rfl) ?_))
  all_goals
    exact fun _ => .bind hp.heritage fun _ => .after fun _ =>
      .bind (hp.classMembers false hp.rounds) fun _ => .after fun _ => .bind .same fun _ =>
        .pure (select_classDef ..)

/-! ## Operands -/

omit hp in
theorem spreadOr {value value' : Parse Expr} (h : value.Projects o m value') :
    (Grammar.spreadOr value).Projects o m (Grammar.spreadOr value') :=
  .after fun _ => .branch (.after fun _ => .bind h fun _ => .bind .same fun _ => .pure rfl) h

theorem arrayLiteral :
    (Grammar.arrayLiteral p ctx).Projects o m (Grammar.arrayLiteral p' (ctx.widen m)) := by
  have round : (Grammar.arrayRound p ctx.inside).Projects o m
      (Grammar.arrayRound p' (ctx.inside.widen m)) :=
    .after fun _ => .branch (.after fun _ => .pure rfl) (.bind (spreadOr (hp.cover _)) fun _ =>
      .pure rfl)
  exact .after fun _ => .after fun _ => .bind (.listed round hp.rounds) fun _ => .after fun _ =>
    .bind .same fun _ => .pure (congrArg (Tree.array _ · _ _ _) (select_ofList o _))

theorem shorthandValue (start : Position) (id : Ident) :
    (Grammar.shorthandValue p ctx start id).Projects o m
      (Grammar.shorthandValue p' (ctx.widen m) start (select o id)) :=
  .after fun _ => .branch
    (.after fun _ => .after fun _ => .bind (hp.assignment _) fun _ => .bind .same fun _ =>
      .pure rfl) (.pure rfl)

omit hp in
theorem shorthandName (first : Token) (name : Tree .key) :
    (Grammar.shorthandName ctx first name).Projects o m
      (Grammar.shorthandName (ctx.widen m) first (select o name)) := by
  cases name
  case nameKey => exact .branch (.pure rfl) .same
  all_goals exact .same (a := unexpectedHere ctx)

theorem property :
    (Grammar.property p ctx).Projects o m (Grammar.property p' (ctx.widen m)) := by
  refine .after fun _ => .after fun _ => .after fun _ => .bind (hp.key _) fun _ =>
    .after fun _ => .branch (.bind (hp.methodFunction _ _ _) fun _ => .bind .same fun _ =>
      .pure rfl) (.branch ?_ ?_)
  · exact .after fun _ => .bind (hp.cover _) fun _ => .bind .same fun _ => .pure rfl
  · exact .bind (shorthandName _ _) fun _ => .after fun _ => .bind (hp.shorthandValue _ _) fun _ =>
      .bind .same fun _ => .pure rfl

theorem objectLiteral :
    (Grammar.objectLiteral p ctx).Projects o m (Grammar.objectLiteral p' (ctx.widen m)) := by
  have member : (Grammar.objectMember p ctx.inside).Projects o m
      (Grammar.objectMember p' (ctx.inside.widen m)) :=
    .after fun _ => .branch (.after fun _ => .bind (hp.cover _) fun _ => .bind .same fun _ =>
      .pure rfl) hp.property
  exact .after fun _ => .after fun _ => .bind (.listed (.map member fun _ => rfl) hp.rounds)
    fun _ => .after fun _ => .bind .same fun _ =>
      .pure (congrArg (Tree.object _ · _ _ _) (select_ofList o _))

theorem argumentList :
    (Grammar.argumentList p ctx).Projects o m (Grammar.argumentList p' (ctx.widen m)) :=
  .after fun _ => .bind (.listed (.map (spreadOr (hp.assignment _)) fun _ => rfl) hp.rounds)
    fun _ => .after fun _ => .pure (congrArg (Tree.argumentList _ · _ _) (select_ofList o _))

theorem readGroup :
    (Grammar.readGroup p ctx).Projects o m (Grammar.readGroup p' (ctx.widen m)) := by
  have item : (Grammar.groupItem p ctx.inside).Projects o m
      (Grammar.groupItem p' (ctx.inside.widen m)) :=
    .after fun _ => .bind (spreadOr (hp.cover _)) fun _ => .after fun _ => .pure rfl
  exact .after fun _ => .bind (.listed (.map item fun _ => rfl) hp.rounds) fun _ => .after fun _ =>
    .pure rfl

theorem group : (Grammar.group p ctx).Projects o m (Grammar.group p' (ctx.widen m)) :=
  .after fun _ => .bind hp.readGroup fun _ => .after fun _ =>
    .branch (.bind .same fun _ => .pure (select_unresolved ..)) (.parenthesized _)

theorem markupRoot :
    (Grammar.markupRoot p ctx).Projects o m (Grammar.markupRoot p' (ctx.widen m)) :=
  .after fun _ => .after fun _ => .after fun _ => .after fun _ => .bind (hp.markup _ _ _ _)
    fun markup => by cases markup <;> exact .pure rfl

/-- Markup may begin with an angle bracket, if it is allowed. -/
theorem punctuatedOperand (t : Token) :
    (Grammar.punctuatedOperand p ctx t).Projects o m
      (Grammar.punctuatedOperand p' (ctx.widen m) t) := by
  unfold Grammar.punctuatedOperand
  split
  case h_1 => exact hp.group
  case h_2 => exact hp.arrayLiteral
  case h_3 => exact hp.objectLiteral
  case h_6 =>
    have hwiden : (ctx.widen m).allowsMarkup = (ctx.allowsMarkup || m) := rfl
    rw [hwiden]
    cases ctx.allowsMarkup with
    | true => exact hp.markupRoot
    | false =>
      cases hm : m with
      | true => exact .of_fails rfl
      | false => exact .same (a := fail _ _ _)
  case h_7 => exact .same
  all_goals exact .after fun _ => .bind .same fun _ => .pure rfl

theorem nameOperand :
    (Grammar.nameOperand p ctx).Projects o m (Grammar.nameOperand p' (ctx.widen m)) := by
  refine .after fun _ => .branch (.after fun _ => .after ?_) (.after ?_)
  all_goals
    exact fun _ => .branch (.map (hp.function _ _) fun _ => rfl)
      (.after fun _ => .after fun _ => .bind .same fun _ => .pure rfl)

theorem keywordOperand (t : Token) :
    (Grammar.keywordOperand p ctx t).Projects o m
      (Grammar.keywordOperand p' (ctx.widen m) t) := by
  unfold Grammar.keywordOperand
  split
  case h_1 => exact .after fun _ => .bind .same fun _ => .pure rfl
  case h_2 => exact .map (hp.function _ _) fun _ => rfl
  case h_3 => exact .map (hp.classDefinition _ _) fun _ => rfl
  case h_4 => exact .same

theorem operand : (Grammar.operand p ctx).Projects o m (Grammar.operand p' (ctx.widen m)) := by
  refine .after fun t => ?_
  cases t.kind
  case identifier => exact hp.nameOperand
  case numeric | bigint | string | boolean | null => exact .map .same fun _ => rfl
  case template => exact .branch (.map (hp.template _) fun _ => rfl) .same
  case punctuator => exact hp.punctuatedOperand _
  case keyword => exact hp.keywordOperand _
  all_goals exact .same

/-! ## Chains -/

theorem accessIndex :
    (Grammar.accessIndex p ctx).Projects o m (Grammar.accessIndex p' (ctx.widen m)) :=
  .after fun _ => .bind (hp.expression _) fun _ => .after fun _ => .pure rfl

theorem taggedTemplate (start : Position) (tag : Expr) :
    (Grammar.taggedTemplate p ctx start tag).Projects o m
      (Grammar.taggedTemplate p' (ctx.widen m) start (select o tag)) :=
  .bind (hp.template _) fun _ => .bind .same fun _ => .pure rfl

theorem optionalLink (start : Position) (base : Expr) :
    (Grammar.optionalLink p ctx start base).Projects o m
      (Grammar.optionalLink p' (ctx.widen m) start (select o base)) :=
  .after fun _ => .after fun _ => .branch (.bind hp.argumentList fun _ => .finishCall rfl)
    (.branch (.bind hp.accessIndex fun _ => .finishAccess)
      (.branch .same (.bind .same fun _ => .finishAccess)))

theorem plainLink (start : Position) (base : Expr) :
    (Grammar.plainLink p ctx start base).Projects o m
      (Grammar.plainLink p' (ctx.widen m) start (select o base)) :=
  .after fun _ => .branch (.after fun _ => .bind .same fun _ => .map .finishAccess fun _ => rfl)
    (.branch (.bind hp.accessIndex fun _ => .map .finishAccess fun _ => rfl)
      (.branch (.bind hp.argumentList fun _ => .map (.finishCall rfl) fun _ => rfl) (.pure rfl)))

theorem chainLink (start : Position) (c : Grammar.Chain) :
    (Grammar.chainLink p ctx start c).Projects o m
      (Grammar.chainLink p' (ctx.widen m) start (select o c)) :=
  .after fun _ => .branch (.bind (hp.optionalLink _ _) fun _ => .pure rfl)
    (.branch (.check (.bind (hp.taggedTemplate _ _) fun _ => .pure rfl) .same)
      (.bind (hp.plainLink _ _) fun v => .pure (by cases v <;> rfl)))

theorem construct :
    (Grammar.construct p ctx).Projects o m (Grammar.construct p' (ctx.widen m)) := by
  refine .after fun _ => .after fun _ => .branch .same (.after fun _ => .check ?_ .same)
  refine .bind (hp.callee _) fun base => .checkWith
    (isCover_select base) (.after fun _ => ?_) .same
  exact .choice (fun _ => .bind .same fun _ => .pure rfl) (.map hp.argumentList fun _ => rfl)
    (.pure rfl)

theorem importExpression :
    (Grammar.importExpression p ctx).Projects o m
      (Grammar.importExpression p' (ctx.widen m)) :=
  .after fun _ => .after fun _ => .branch .same (.after fun _ => .bind (hp.assignment _) fun _ =>
    .after fun _ => .bind .same fun _ => .pure rfl)

theorem asyncCall (start : Position) (name : Ident) :
    (Grammar.asyncCall p ctx start name).Projects o m
      (Grammar.asyncCall p' (ctx.widen m) start (select o name)) :=
  .after fun _ => .after fun _ => .bind hp.readGroup fun g => .after fun _ =>
    .branch (.after fun _ => .bind .same fun _ => .pure (select_unresolved ..))
      (.after fun _ => .after fun _ => .bind (.finishCall (select_arguments g)) fun _ =>
        .iterate (fun _ => hp.plainLink _ _) hp.rounds)

theorem chainHead :
    (Grammar.chainHead p ctx).Projects o m (Grammar.chainHead p' (ctx.widen m)) :=
  .after fun _ => .branch .same (.branch hp.construct (.branch hp.importExpression hp.operand))

theorem chain_step : (Grammar.chain p ctx).Projects o m (Grammar.chain p' (ctx.widen m)) := by
  refine .after fun _ => .bind hp.chainHead fun value => .bind (.asyncCallee _) fun name => ?_
  cases name with
  | some => exact hp.asyncCall _ _
  | none => exact .bind (.iterate (fun _ => hp.chainLink _ _) hp.rounds) fun _ => .pure rfl

theorem callee_step : (Grammar.callee p ctx).Projects o m (Grammar.callee p' (ctx.widen m)) := by
  have link : ∀ start base, (Grammar.calleeLink p ctx start base).Projects o m
      (Grammar.calleeLink p' (ctx.widen m) start (select o base)) := fun _ _ =>
    .after fun _ => .check (.branch (.map (hp.taggedTemplate _ _) fun _ => rfl)
      (.branch (.pure rfl) (hp.plainLink _ _))) .same
  have rest : ∀ (start : Position) (value : Expr),
      (iterate (Grammar.calleeLink p ctx start) p.rounds value).Projects o m
        (iterate (Grammar.calleeLink p' (ctx.widen m) start) p'.rounds (select o value)) :=
    fun start _ => .iterate (link start) hp.rounds
  exact .after fun _ => .branch (.bind hp.construct (rest _))
    (.branch (.bind .same (rest _)) (.bind hp.operand (rest _)))

/-! ## Operators -/

theorem unaryOperation (op : UnaryOp) :
    (Grammar.unaryOperation p ctx op).Projects o m
      (Grammar.unaryOperation p' (ctx.widen m) op) := by
  refine .after fun _ => .bind (hp.unary _) fun operand => .bind .rejectCover fun _ => ?_
  cases op
  case delete =>
    cases operand
    case identifier =>
      exact .branch (.after fun _ => .bind .same fun _ => .pure rfl)
        (.bind .same fun _ => .pure rfl)
    all_goals exact .bind .same fun _ => .pure rfl
  all_goals exact .bind .same fun _ => .pure rfl

theorem awaitOperation :
    (Grammar.awaitOperation p ctx).Projects o m (Grammar.awaitOperation p' (ctx.widen m)) := by
  refine .branch (.after fun _ => .after fun _ => .after ?_) (.after ?_)
  all_goals
    exact fun _ => .bind (hp.unary _) fun _ => .bind .rejectCover fun _ => .bind .same fun _ =>
      .pure rfl

theorem updateAfter :
    (Grammar.updateAfter p ctx).Projects o m (Grammar.updateAfter p' (ctx.widen m)) := by
  refine .after fun _ => .bind hp.chain_step fun _ => .after fun t => ?_
  cases Grammar.updateOp? t with
  | none => exact .pure rfl
  | some op =>
    exact .branch (.pure rfl) (.bind .checkUpdateTarget fun _ => .after fun _ => .bind .same
      fun _ => .pure rfl)

theorem unary_step : (Grammar.unary p ctx).Projects o m (Grammar.unary p' (ctx.widen m)) := by
  refine .after fun t => ?_
  cases Grammar.unaryOp? t with
  | some op => exact hp.unaryOperation _
  | none =>
    refine .branch hp.awaitOperation ?_
    cases Grammar.updateOp? t with
    | some op =>
      exact .after fun _ => .after fun _ => .bind (hp.unary _) fun _ =>
        .bind .checkUpdateTarget fun _ => .bind .same fun _ => .pure rfl
    | none => exact hp.updateAfter

theorem exponentiation_step :
    (Grammar.exponentiation p ctx).Projects o m
      (Grammar.exponentiation p' (ctx.widen m)) :=
  .after fun _ => .bind hp.unary_step fun _ => .after fun _ => .branch (.pure rfl)
    (.check (.bind .rejectCover fun _ => .after fun _ => .bind (hp.exponentiation _) fun _ =>
      .bind .rejectCover fun _ => .bind .same fun _ => .pure rfl) .same)

/-- Mixed operators are told by the tree, not by its extents. -/
theorem binaryStep (start : Position) (least : Nat) (left : Expr) :
    (Grammar.binaryStep p ctx start least left).Projects o m
      (Grammar.binaryStep p' (ctx.widen m) start least (select o left)) := by
  refine .after fun t => ?_
  have hop : Grammar.binaryOp? (ctx.widen m) t = Grammar.binaryOp? ctx t := rfl
  rw [hop]
  cases Grammar.binaryOp? ctx t with
  | none => exact .pure rfl
  | some op =>
    exact .branch (.pure rfl) (.bind .rejectCover fun _ => .after fun _ =>
      .bind (hp.binary _ _) fun right => .bind .rejectCover fun _ =>
        .checkWith (mixesCoalescing_select op left right)
          (.bind .same fun _ => .pure rfl) .same)

theorem binary_step (least : Nat) :
    (Grammar.binary p least ctx).Projects o m (Grammar.binary p' least (ctx.widen m)) :=
  .after fun _ => .bind hp.exponentiation_step fun _ =>
    .iterate (fun _ => hp.binaryStep _ _ _) hp.rounds

theorem conditional :
    (Grammar.conditional p ctx).Projects o m (Grammar.conditional p' (ctx.widen m)) :=
  .after fun _ => .bind (hp.binary_step 0) fun _ => .after fun _ => .branch (.pure rfl)
    (.bind .rejectCover fun _ => .after fun _ => .bind (hp.assignment _) fun _ => .after fun _ =>
      .bind (hp.assignment _) fun _ => .bind .same fun _ => .pure rfl)

/-! ## Assignments -/

/-- An arrow function keeps its parameters, with or without their extents. -/
theorem arrow (start : Position) (asyncLead : Option String) (params : Tree .arrowParams)
    (site : Site) :
    (Grammar.arrow p ctx start asyncLead params site).Projects o m
      (Grammar.arrow p' (ctx.widen m) start asyncLead (select o params) site) := by
  have body : (Grammar.arrowBody p (ctx.arrowBody asyncLead.isSome)).Projects o m
      (Grammar.arrowBody p' ((ctx.arrowBody asyncLead.isSome).widen m)) :=
    .after fun _ => .branch (.bind hp.functionBody fun _ => .pure rfl)
      (.bind (hp.assignment _) fun _ => .pure rfl)
  have hpatterns : Grammar.arrowPatterns (select o params) =
      select o (Grammar.arrowPatterns params) := params.arrowPatterns_mapSpans _
  refine .after fun _ => .after fun _ => .after fun _ => .bind body fun v => .after fun _ => ?_
  rw [hpatterns]
  refine .checkWith ?_ (.bind (.checkParameters _) fun _ => .bind .same fun _ => .pure rfl) .same
  have h : (Grammar.arrowHasUseStrict (select o v.1) &&
        !(select o (Grammar.arrowPatterns params)).all (·.isName)) =
      (Grammar.arrowHasUseStrict v.1 && !(Grammar.arrowPatterns params).all (·.isName)) := by
    rw [select_tree, Tree.arrowHasUseStrict_mapSpans]
    exact congrArg (_ && !·) (Tree.all_isName_mapSpans _ _)
  exact h

theorem bareArrow (start : Position) (asyncLead : Option String) (id : Ident) (t : Token) :
    (Grammar.bareArrow p ctx start asyncLead id t).Projects o m
      (Grammar.bareArrow p' (ctx.widen m) start asyncLead (select o id) t) := by
  unfold Grammar.bareArrow
  refine .check ?_ .same
  exact .check (hp.arrow _ _ (.bareParam id) _) .same

/-- An arrow function behind a group looks at the shape of the items only. -/
theorem groupArrow (start : Position) (asyncLead : Option String) (openLead : String)
    (items : List Expr) (separators : List String) (closeLead : String) :
    (Grammar.groupArrow p ctx start asyncLead openLead items separators closeLead).Projects o m
      (Grammar.groupArrow p' (ctx.widen m) start asyncLead openLead (select o items) separators
        closeLead) := by
  have hlength : (select o items).length = items.length := List.length_map _
  unfold Grammar.groupArrow
  rw [hlength]
  refine .bind (.groupParameters _ _) fun patterns => .checkWith ?_ ?_ .same
  · exact congrArg (asyncLead.isSome && ·) (any_names (allNames_select patterns) (· == "await"))
  · rw [← select_ofList]
    exact hp.arrow _ _ (.listedParams (.paramList openLead (.ofList patterns) separators closeLead))
      _

theorem asyncBareArrow :
    (Grammar.asyncBareArrow p ctx).Projects o m (Grammar.asyncBareArrow p' (ctx.widen m)) :=
  .after fun _ => .after fun _ => .after fun _ => .bind .same fun _ => .after fun _ =>
    .check (hp.bareArrow _ _ _ _) .same

/-- A yield expression decides nothing by what is recorded. -/
theorem yieldExpression :
    (Grammar.yieldExpression p ctx).Projects o m (Grammar.yieldExpression p' (ctx.widen m)) := by
  refine .branch (.after fun _ => .after fun _ => ?_) ?_
  all_goals
    refine .after fun _ => .after fun _ => .branch (.bind (.pure rfl) ?_) (.branch ?_ (.branch ?_
      (.bind (.pure rfl) ?_)))
    case refine_2 =>
      exact .after fun _ => .bind (hp.assignment _) fun _ => .bind (.pure rfl) fun _ =>
        .bind .same fun _ => .pure rfl
    case refine_3 =>
      exact .bind (hp.assignment _) fun _ => .bind (.pure rfl) fun _ => .bind .same fun _ =>
        .pure rfl
    all_goals exact fun _ => .bind .same fun _ => .pure rfl

theorem assignTo (first : Token) (left : Expr) (op : AssignOp) (pendingBefore : Option Site) :
    (Grammar.assignTo p ctx first left op pendingBefore).Projects o m
      (Grammar.assignTo p' (ctx.widen m) first (select o left) op pendingBefore) :=
  .choice (fun _ => .after fun _ => .after fun _ => .bind (hp.assignment _) fun _ =>
    .bind .same fun _ => .pure rfl) .assignmentTarget .simpleTarget

theorem arrowAfter? (first : Token) (value : Expr) (pendingBefore : Option Site) :
    (Grammar.arrowAfter? p ctx first value pendingBefore).Projects o m
      (Grammar.arrowAfter? p' (ctx.widen m) first (select o value) pendingBefore) := by
  refine .after fun _ => .branch (.pure rfl) ?_
  cases value
  case cover asyncLead openLead items separators closeLead span =>
    have hitems : (select o items).toList = select o items.toList := items.toList_mapSpans _
    refine .check (.after fun _ => .map ?_ fun _ => rfl) .same
    exact hitems ▸ hp.groupArrow _ _ _ _ _ _
  case identifier =>
    exact .check (.after fun _ => .map (hp.bareArrow _ _ _ _) fun _ => rfl) .same
  all_goals exact .pure rfl

theorem plainCover :
    (Grammar.plainCover p ctx).Projects o m (Grammar.plainCover p' (ctx.widen m)) := by
  refine .after fun _ => .after fun _ => .after fun _ => .bind hp.conditional
    fun _ => .bind (hp.arrowAfter? _ _ _) fun value => ?_
  cases value with
  | some => exact .pure rfl
  | none =>
    refine .after fun t => ?_
    cases Grammar.assignOp? t with
    | some => exact hp.assignTo _ _ _ _
    | none => exact .settle _ _

theorem cover_step : (Grammar.cover p ctx).Projects o m (Grammar.cover p' (ctx.widen m)) :=
  .after fun _ => .branch hp.yieldExpression
    (.after fun _ => .branch hp.asyncBareArrow hp.plainCover)

theorem assignment_step :
    (Grammar.assignment p ctx).Projects o m (Grammar.assignment p' (ctx.widen m)) :=
  .after fun _ => .after fun _ => .bind hp.cover_step fun _ => .after fun _ => .after fun _ =>
    .pure rfl

theorem sequenceFrom (start : Position) (first : Expr) :
    (Grammar.sequenceFrom p ctx start first).Projects o m
      (Grammar.sequenceFrom p' (ctx.widen m) start (select o first)) :=
  .after fun _ => .branch (.pure rfl) (.bind (.afterCommas (hp.assignment _) hp.rounds) fun v =>
    .bind .same fun _ => .pure (congrArg (Tree.sequence · _ _) (select_ofList o (first :: v.1))))

theorem expression_step :
    (Grammar.expression p ctx).Projects o m (Grammar.expression p' (ctx.widen m)) :=
  .after fun _ => .bind hp.assignment_step fun _ => hp.sequenceFrom _ _

end Productions.Projects

end Verbatim
