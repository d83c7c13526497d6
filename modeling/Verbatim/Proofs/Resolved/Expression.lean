import Verbatim.Proofs.Resolved.Basic

/-!
# Literals, bindings, functions, classes and markup

What these productions read is resolved whatever was pending in front of them, and they leave that
as it is. A class is the exception: what is pending in its superclass stays pending, and nobody
looks at it there.

## Main definitions

* `Verbatim.Productions.Resolves` — what is known of the productions that others call.
-/

namespace Verbatim

open Verbatim.Grammar

/-- What is known of the productions that others call. -/
structure Productions.Resolves (p : Productions) : Prop where
  expression : ∀ ctx s, (p.expression ctx).Resolves s fun v s' => s' = s ∧ v.Resolved false
  assignment : ∀ ctx s, (p.assignment ctx).Resolves s fun v s' => s' = s ∧ v.Resolved false
  cover : ∀ ctx s, (p.cover ctx).Resolves s fun v s' => (s = true → s' = true) ∧ v.Resolved s'
  binary : ∀ least ctx s,
    (p.binary least ctx).Resolves s fun v s' => (s = true → s' = true) ∧ Standing s' v
  exponentiation : ∀ ctx s,
    (p.exponentiation ctx).Resolves s fun v s' => (s = true → s' = true) ∧ Standing s' v
  unary : ∀ ctx s, (p.unary ctx).Resolves s fun v s' => (s = true → s' = true) ∧ Standing s' v
  chain : ∀ ctx s, (p.chain ctx).Resolves s fun v s' => (s = true → s' = true) ∧ v.Resolved s'
  callee : ∀ ctx s, (p.callee ctx).Resolves s fun v s' => (s = true → s' = true) ∧ v.Resolved s'
  binding : ∀ fault ctx s, (p.binding fault ctx).Resolves s fun v s' => s' = s ∧ v.Resolved false
  statement : ∀ ctx s, (p.statement ctx).Resolves s fun v _ => v.Resolved false
  item : ∀ ctx s, (p.item ctx).Resolves s fun v _ => v.Resolved false
  markup : ∀ start lead after ctx s,
    (p.markup start lead after ctx).Resolves s fun v s' => s' = s ∧ v.Resolved

namespace Productions.Resolves

variable {p : Productions} {ctx : Context} {s : Bool}

section

variable {post : Expr → Bool → Prop}

theorem ofExpression (hp : p.Resolves) (h : ∀ v, v.Resolved false → post v s) :
    (p.expression ctx).Resolves s post :=
  (hp.expression ctx s).imp fun v _ hv => hv.1 ▸ h v hv.2

theorem ofAssignment (hp : p.Resolves) (h : ∀ v, v.Resolved false → post v s) :
    (p.assignment ctx).Resolves s post :=
  (hp.assignment ctx s).imp fun v _ hv => hv.1 ▸ h v hv.2

theorem ofCover (hp : p.Resolves) (h : ∀ v s', (s = true → s' = true) → v.Resolved s' → post v s') :
    (p.cover ctx).Resolves s post :=
  (hp.cover ctx s).imp fun v s' hv => h v s' hv.1 hv.2

theorem ofBinary (hp : p.Resolves) {least : Nat}
    (h : ∀ v s', (s = true → s' = true) → Standing s' v → post v s') :
    (p.binary least ctx).Resolves s post :=
  (hp.binary least ctx s).imp fun v s' hv => h v s' hv.1 hv.2

theorem ofExponentiation (hp : p.Resolves)
    (h : ∀ v s', (s = true → s' = true) → Standing s' v → post v s') :
    (p.exponentiation ctx).Resolves s post :=
  (hp.exponentiation ctx s).imp fun v s' hv => h v s' hv.1 hv.2

theorem ofUnary (hp : p.Resolves)
    (h : ∀ v s', (s = true → s' = true) → Standing s' v → post v s') :
    (p.unary ctx).Resolves s post :=
  (hp.unary ctx s).imp fun v s' hv => h v s' hv.1 hv.2

theorem ofChain (hp : p.Resolves) (h : ∀ v s', (s = true → s' = true) → v.Resolved s' → post v s') :
    (p.chain ctx).Resolves s post :=
  (hp.chain ctx s).imp fun v s' hv => h v s' hv.1 hv.2

theorem ofCallee (hp : p.Resolves)
    (h : ∀ v s', (s = true → s' = true) → v.Resolved s' → post v s') :
    (p.callee ctx).Resolves s post :=
  (hp.callee ctx s).imp fun v s' hv => h v s' hv.1 hv.2

end

theorem ofBinding {fault : Fault} {post : Pattern → Bool → Prop} (hp : p.Resolves)
    (h : ∀ v, v.Resolved false → post v s) : (p.binding fault ctx).Resolves s post :=
  (hp.binding fault ctx s).imp fun v _ hv => hv.1 ▸ h v hv.2

theorem ofStatement {post : Stmt → Bool → Prop} (hp : p.Resolves)
    (h : ∀ v s', v.Resolved false → post v s') : (p.statement ctx).Resolves s post :=
  (hp.statement ctx s).imp fun v s' hv => h v s' hv

theorem ofMarkup {start : Position} {lead : String} {after : Mode} {post : Markup → Bool → Prop}
    (hp : p.Resolves) (hElement : ∀ e, Tree.Resolved false e → post (.element e) s)
    (hFragment : ∀ f, Tree.Resolved false f → post (.fragment f) s) :
    (p.markup start lead after ctx).Resolves s post := by
  refine (hp.markup start lead after ctx s).imp fun v s' hv => ?_
  obtain ⟨rfl, hv⟩ := hv
  cases v with
  | element e => exact hElement e hv
  | fragment f => exact hFragment f hv

end Productions.Resolves

namespace Parse.Resolves

variable {p : Productions} {ctx : Context} {t : Token} {s : Bool}

/-! ## Literals, names and keys -/

@[simp]
theorem literal {post : Literal → Bool → Prop} (h : ∀ v, post v s) :
    (Grammar.literal ctx).Resolves s post := by
  have hvalue : ∀ {t : Token} {post : Value → Bool → Prop}, (∀ v, post v s) →
      (Grammar.literalValue ctx t).Resolves s post := by
    intro t post h
    unfold Grammar.literalValue
    split
    case h_2 => split <;> simp [h]
    all_goals simp [h]
  simp [Grammar.literal, h, hvalue]

@[simp]
theorem checkOperatorWord {post : Unit → Bool → Prop} (h : post () s) :
    (Grammar.checkOperatorWord ctx t).Resolves s post := by
  simp [Grammar.checkOperatorWord, h]

@[simp]
theorem checkReference {post : Unit → Bool → Prop} (h : post () s) :
    (Grammar.checkReference ctx t).Resolves s post := by
  simp [Grammar.checkReference, h]

@[simp]
theorem bindingName {fault : Fault} {post : Ident → Bool → Prop} (h : ∀ v, post v s) :
    (Grammar.bindingName fault ctx).Resolves s post := by
  simp [Grammar.bindingName, h]

@[simp]
theorem templatePiece {tagged : Bool} {post : Quasi → Bool → Prop} (h : ∀ v, post v s) :
    (Grammar.templatePiece ctx tagged).Resolves s post := by
  simp only [Grammar.templatePiece, resolves_bind, resolves_look, resolves_ite, resolves_next]
  refine fun _ => ⟨fun _ => unexpectedHere, fun _ t => ?_⟩
  split <;> simp [h]

theorem templateParts (hp : p.Resolves) {tagged : Bool} {rounds : Nat}
    {post : List Quasi × List Expr → Bool → Prop}
    (h : ∀ r, (∀ v ∈ r.2, v.Resolved false) → post r s) :
    (Grammar.templateParts p ctx tagged rounds).Resolves s post := by
  induction rounds generalizing post with
  | zero => exact stalled
  | succ rounds ih =>
    simp only [Grammar.templateParts, resolves_bind, resolves_ite, resolves_pure]
    refine templatePiece fun piece => ⟨fun _ => h _ (List.forall_mem_nil _), fun _ => ?_⟩
    refine hp.ofExpression fun value hvalue => ih fun r hr => h _ ?_
    exact List.forall_mem_cons.2 ⟨hvalue, hr⟩

theorem template (hp : p.Resolves) {tagged : Bool} {post : Tree .template → Bool → Prop}
    (h : ∀ v, v.Resolved false → post v s) : (Grammar.template p ctx tagged).Resolves s post := by
  refine here fun start => templateParts hp fun r hr => finish fun span => h _ ?_
  exact .templateLit (Tree.Resolved.ofList_iff.2 hr)

theorem key (hp : p.Resolves) {allowsPrivate : Bool} {post : Tree .key → Bool → Prop}
    (h : ∀ v, v.Resolved false → post v s) :
    (Grammar.key p ctx allowsPrivate).Resolves s post := by
  simp only [Grammar.key, resolves_bind, resolves_look, resolves_ite]
  refine fun t => ⟨fun _ => anyName fun _ => h _ .nameKey, fun _ => ?_⟩
  split
  case h_5 =>
    refine resolves_ite.mpr ⟨fun _ => lead fun openLead => ?_, fun _ => unexpected⟩
    exact hp.ofAssignment fun inner hinner => expect fun _ => h _ (.computedKey hinner)
  all_goals simp [h]

@[simp]
theorem isModifier {forbidsNewline : Bool} {post : Bool → Bool → Prop} (h : ∀ b, post b s) :
    (Grammar.isModifier forbidsNewline).Resolves s post := by
  simp [Grammar.isModifier, h]

/-! ## Bindings -/

section

variable {fault : Fault} {post : Pattern → Bool → Prop}

theorem withDefault (hp : p.Resolves) {start : Position} {target : Pattern}
    (ht : target.Resolved false) (h : ∀ v, v.Resolved false → post v s) :
    (Grammar.withDefault p ctx start target).Resolves s post := by
  refine accept fun eqLead => ?_
  cases eqLead with
  | none => exact h _ ht
  | some eqLead =>
    exact hp.ofAssignment fun value hvalue => finish fun _ => h _ (.defaultPattern ht hvalue)

theorem bindingElement (hp : p.Resolves) (h : ∀ v, v.Resolved false → post v s) :
    (Grammar.bindingElement p fault ctx).Resolves s post :=
  here fun _ => hp.ofBinding fun _ htarget => withDefault hp htarget h

theorem bindingRest (hp : p.Resolves) {close : String} {misplaced : Fault}
    (h : ∀ v, v.Resolved false → post v s) :
    (Grammar.bindingRest p fault ctx close misplaced).Resolves s post := by
  simp only [Grammar.bindingRest, resolves_bind, resolves_look, resolves_ite, resolves_reject,
    implies_true, true_and]
  refine here fun _ => expect fun _ => hp.ofBinding fun target htarget t _ _ => ?_
  exact finish fun _ => h _ (.restPattern htarget)

theorem arrayBindingRound (hp : p.Resolves) :
    (Grammar.arrayBindingRound p fault ctx).Resolves s fun r s' => s' = s ∧
      r.All (Tree.Resolved false) := by
  simp only [Grammar.arrayBindingRound, resolves_bind, resolves_ite]
  refine sees fun _ => ⟨fun _ => separator fun _ => ⟨rfl, .absent⟩, fun _ => sees fun _ => ?_⟩
  refine ⟨fun _ => bindingRest hp fun _ hv => ⟨rfl, .present hv⟩, fun _ => ?_⟩
  exact bindingElement hp fun _ hv => ⟨rfl, .present hv⟩

theorem arrayBinding (hp : p.Resolves) (h : ∀ v, v.Resolved false → post v s) :
    (Grammar.arrayBinding p fault ctx).Resolves s post := by
  refine here fun _ => expect fun _ => listedAll (arrayBindingRound hp) fun r hr => ?_
  exact expect fun _ => finish fun _ => h _ (.arrayPattern (Tree.Resolved.ofList_iff.2 hr))

/-- A property of an object pattern is resolved. -/
theorem bindingProperty (hp : p.Resolves) {post : Tree .patternMember → Bool → Prop}
    (h : ∀ v, v.Resolved false → post v s) :
    (Grammar.bindingProperty p fault ctx).Resolves s post := by
  have hshort : ∀ start : Position, (Grammar.bindingName fault ctx).Resolves s fun id s' =>
      (Grammar.withDefault p ctx start (.namePattern id)).Resolves s' fun value s' =>
        (Parse.finish .property start).Resolves s' fun span s' =>
          post (.patternProperty (.nameKey id.bare) value true "" span) s' :=
    fun _ => bindingName fun _ => withDefault hp .namePattern fun _ hv =>
      finish fun _ => h _ (.patternProperty .nameKey hv)
  have hlong : ∀ start : Position, (Grammar.key p ctx false).Resolves s fun name s' =>
      (Parse.expect ctx ":").Resolves s' fun colonLead s' =>
        (Grammar.bindingElement p fault ctx).Resolves s' fun value s' =>
          (Parse.finish .property start).Resolves s' fun span s' =>
            post (.patternProperty name value false colonLead span) s' :=
    fun _ => key hp fun _ hk => expect fun _ => bindingElement hp fun _ hv =>
      finish fun _ => h _ (.patternProperty hk hv)
  simp only [Grammar.bindingProperty, resolves_bind, resolves_look, resolves_ite, resolves_peek,
    resolves_pure]
  exact here fun start _ => ⟨fun _ _ => ⟨fun _ => hshort start, fun _ => hlong start⟩,
    fun _ => ⟨fun hf => absurd hf Bool.false_ne_true, fun _ => hlong start⟩⟩

theorem bindingMemberRest {post : Tree .patternMember → Bool → Prop}
    (h : ∀ v, v.Resolved false → post v s) :
    (Grammar.bindingMemberRest fault ctx).Resolves s post := by
  simp only [Grammar.bindingMemberRest, resolves_bind, resolves_look, resolves_ite,
    resolves_reject, implies_true, true_and]
  refine here fun _ => expect fun _ => bindingName fun _ _ _ => finish fun _ => h _ ?_
  exact .restMember .namePattern

theorem objectBindingRound (hp : p.Resolves) :
    (Grammar.objectBindingRound p fault ctx).Resolves s fun r s' => s' = s ∧
      r.All (Tree.Resolved false) := by
  simp only [Grammar.objectBindingRound, resolves_bind, resolves_ite]
  refine sees fun _ => ⟨fun _ => bindingMemberRest fun _ hv => ⟨rfl, hv⟩, fun _ => ?_⟩
  exact bindingProperty hp fun _ hv => ⟨rfl, hv⟩

theorem objectBinding (hp : p.Resolves) (h : ∀ v, v.Resolved false → post v s) :
    (Grammar.objectBinding p fault ctx).Resolves s post := by
  refine here fun _ => expect fun _ => listedAll (objectBindingRound hp) fun r hr => ?_
  exact expect fun _ => finish fun _ => h _ (.objectPattern (Tree.Resolved.ofList_iff.2 hr))

theorem binding (hp : p.Resolves) (h : ∀ v, v.Resolved false → post v s) :
    (Grammar.binding p fault ctx).Resolves s post := by
  simp only [Grammar.binding, resolves_bind, resolves_ite]
  refine sees fun _ => ⟨fun _ => arrayBinding hp h, fun _ => sees fun _ => ?_⟩
  exact ⟨fun _ => objectBinding hp h, fun _ => bindingName fun _ => h _ .namePattern⟩

end

/-! ## Functions -/

@[simp]
theorem checkParameters {strict unique : Bool} {site : Site} {params : List Pattern}
    {post : Unit → Bool → Prop} (h : post () s) :
    (Grammar.checkParameters strict unique site params).Resolves s post := by
  unfold Grammar.checkParameters
  generalize [] = seen
  induction params.flatMap (·.boundNames) generalizing seen with
  | nil => exact h
  | cons id ids ih => simp [Grammar.checkParameterNames, ih]

/-- Directives are resolved. -/
theorem prologueFrom (hp : p.Resolves) {octal : Option Token} {rounds : Nat}
    {post : List Stmt × Bool → Bool → Prop}
    (h : ∀ r, (∀ stmt ∈ r.1, stmt.Resolved false) → post r s) :
    (Grammar.prologueFrom p ctx octal rounds).Resolves s post := by
  induction rounds generalizing ctx octal post with
  | zero => exact stalled
  | succ rounds ih =>
    simp only [Grammar.prologueFrom, resolves_bind, resolves_look, resolves_ite, resolves_pure]
    refine fun t => ⟨fun _ => h _ (List.forall_mem_nil _),
      fun _ => hp.ofExpression fun value hvalue =>
      terminator fun ending => ⟨fun _ => finish fun span => h _ ?_, fun _ => ?_⟩⟩
    · exact List.forall_mem_singleton.2 (.exprStmt hvalue)
    · -- A directive is kept in front of what follows, whatever was found to be octal.
      have hrest : ∀ {ctx octal} {span : Span},
          (Grammar.prologueFrom p ctx octal rounds).Resolves s fun r s' =>
            post (.exprStmt value (some (Grammar.directiveText t)) ending span :: r.1, r.2) s' :=
        ih fun r hr => h _ (List.forall_mem_cons.2 ⟨.exprStmt hvalue, hr⟩)
      cases octal <;> simp [hrest]

theorem items (hp : p.Resolves) {post : List Stmt → Bool → Prop}
    (h : ∀ vs s', (∀ stmt ∈ vs, stmt.Resolved false) → post vs s') :
    (Grammar.items p ctx).Resolves s post := manyAny (hp.item ctx) h

theorem functionBody (hp : p.Resolves) {post : Tree .body × Bool → Bool → Prop}
    (h : ∀ r s', r.1.Resolved false → post r s') :
    (Grammar.functionBody p ctx).Resolves s post := by
  refine here fun _ => expect fun _ => prologueFrom hp fun first hfirst =>
    items hp fun rest s' hrest =>
    expect fun _ => finish fun _ => h _ _ (.bodyBlock (Tree.Resolved.ofList_iff.2 ?_))
  exact fun stmt hmem => (List.mem_append.1 hmem).elim (hfirst stmt) (hrest stmt)

theorem parameterRound (hp : p.Resolves) :
    (Grammar.parameterRound p ctx).Resolves s fun r s' => s' = s ∧ r.All (Tree.Resolved false) := by
  simp only [Grammar.parameterRound, resolves_bind, resolves_ite]
  refine sees fun _ => ⟨fun _ => bindingRest hp fun _ hv => ⟨rfl, hv⟩, fun _ => ?_⟩
  exact bindingElement hp fun _ hv => ⟨rfl, hv⟩

theorem parameterList (hp : p.Resolves) {post : Tree .params → Bool → Prop}
    (h : ∀ v, v.Resolved false → post v s) : (Grammar.parameterList p ctx).Resolves s post :=
  expect fun _ => listedAll (parameterRound hp) fun _ hr => expect fun _ =>
    h _ (.paramList (Tree.Resolved.ofList_iff.2 hr))

@[simp]
theorem checkFunctionName {site : Site} {name : Option Ident} {post : Unit → Bool → Prop}
    (h : post () s) : (Grammar.checkFunctionName site name).Resolves s post := by
  cases name <;> simp [Grammar.checkFunctionName, h]

/-- Whatever is pending behind the body, in front of the parameters it was set aside. -/
theorem paramsAndBody (hp : p.Resolves) {isAsync isGenerator unique : Bool} {name : Option Ident}
    {site : Site} {post : Tree .params × Tree .body → Bool → Prop}
    (h : ∀ r, r.1.Resolved false → r.2.Resolved false → post r s) :
    (Grammar.paramsAndBody p ctx isAsync isGenerator name site unique).Resolves s post := by
  simp only [Grammar.paramsAndBody, resolves_bind, resolves_pending, resolves_ite, resolves_reject,
    implies_true, true_and]
  refine fun before hbefore => clear (parameterList hp fun params hparams => functionBody hp
    fun r s' hr _ => ⟨fun _ => checkFunctionName (checkParameters ?_), fun _ => checkParameters ?_⟩)
  · exact restore hbefore (h _ hparams hr)
  · exact restore hbefore (h _ hparams hr)

@[simp]
theorem functionName {isDeclaration nameOptional isAsync isGenerator : Bool}
    {post : Option Ident → Bool → Prop} (h : ∀ v, post v s) :
    (Grammar.functionName ctx isDeclaration nameOptional isAsync isGenerator).Resolves s post := by
  simp [Grammar.functionName, h]

/-- A function is resolved, its parameters included. -/
theorem function (hp : p.Resolves) {isDeclaration nameOptional : Bool}
    {post : Tree .function → Bool → Prop} (h : ∀ v, v.Resolved false → post v s) :
    (Grammar.function p ctx isDeclaration nameOptional).Resolves s post := by
  have hrest : ∀ {start : Position} {asyncLead : Option String},
      (Parse.expectKeyword ctx "function").Resolves s fun keywordLead s' =>
        (Parse.accept "*").Resolves s' fun starLead s' => ∀ t : Token,
          (Grammar.functionName ctx isDeclaration nameOptional asyncLead.isSome
            starLead.isSome).Resolves s' fun name s' =>
            (Grammar.paramsAndBody p ctx asyncLead.isSome starLead.isSome name t.site
              false).Resolves s' fun r s' =>
              (Parse.finish (if isDeclaration then .functionDecl else .functionExpr)
                start).Resolves s' fun span s' => post (.function
                  { isAsync := asyncLead.isSome, asyncLead := asyncLead.getD "", keywordLead
                    isGenerator := starLead.isSome, starLead := starLead.getD "", name }
                  r.1 r.2 span) s' :=
    expectKeyword fun _ => accept fun _ _ => functionName fun _ => paramsAndBody hp
      fun _ hparams hbody => finish fun _ => h _ (.function hparams hbody)
  simp only [Grammar.function, resolves_bind, resolves_ite, resolves_map, resolves_pure,
    resolves_look]
  exact here fun _ => seesWord fun _ => ⟨fun _ => lead fun _ => hrest, fun _ => hrest⟩

theorem functionDeclaration (hp : p.Resolves) {post : Stmt → Bool → Prop}
    (h : ∀ v, v.Resolved false → post v s) : (Grammar.functionDeclaration p ctx).Resolves s post :=
  function hp fun _ hf => h _ (.functionStmt hf)

theorem functionExpression (hp : p.Resolves) {post : Expr → Bool → Prop}
    (h : ∀ v, v.Resolved false → post v s) : (Grammar.functionExpression p ctx).Resolves s post :=
  function hp fun _ hf => h _ (.functionExpr hf)

@[simp]
theorem checkAccessor {kind : PropertyKind} {site : Site} {params : List Pattern}
    {post : Unit → Bool → Prop} (h : post () s) :
    (Grammar.checkAccessor kind site params).Resolves s post := by
  unfold Grammar.checkAccessor
  split <;> simp [h]

theorem methodFunction (hp : p.Resolves) {isAsync isGenerator : Bool} {kind : PropertyKind}
    {post : Tree .function → Bool → Prop} (h : ∀ v, v.Resolved false → post v s) :
    (Grammar.methodFunction p ctx isAsync isGenerator kind).Resolves s post :=
  here fun _ => paramsAndBody hp fun _ hparams hbody => checkAccessor (finish fun _ =>
    h _ (.function hparams hbody))

/-! ## Classes -/

@[simp]
theorem modifiers {post : Modifiers × PropertyKind → Bool → Prop} (h : ∀ v, post v s) :
    Grammar.modifiers.Resolves s post := by
  simp only [Grammar.modifiers, resolves_bind, resolves_look, resolves_ite, resolves_pure]
  refine fun t => ⟨fun _ => isModifier fun _ => ⟨fun _ => lead fun _ => ?_, fun _ => ?_⟩,
    fun _ => ⟨fun _ => isModifier fun _ => ⟨fun _ => lead fun _ => ?_, fun _ => ?_⟩, fun _ => ?_⟩⟩
  all_goals exact accept fun _ => h _

theorem staticBlock (hp : p.Resolves) {start : Position} {staticLead : String}
    {post : Tree .classMember → Bool → Prop} (h : ∀ v, v.Resolved false → post v s) :
    (Grammar.staticBlock p ctx start staticLead).Resolves s post :=
  expect fun _ _ hbefore => clear (items hp fun _ _ hstmts => restore hbefore
    (expect fun _ => finish fun _ => h _ (.staticBlock (Tree.Resolved.ofList_iff.2 hstmts))))

theorem fieldInitializer (hp : p.Resolves) {post : Tree (.maybe .initializer) → Bool → Prop}
    (h : ∀ v, v.Resolved false → post v s) : (Grammar.fieldInitializer p ctx).Resolves s post := by
  refine accept fun eqLead => ?_
  cases eqLead with
  | none => exact h _ .absent
  | some eqLead =>
    exact fun before hbefore => clear (hp.ofAssignment fun _ hv => restore hbefore
      (h _ (.present (.initializer hv))))

theorem field (hp : p.Resolves) {start : Position} {mods : Modifiers} {name : Tree .key}
    {post : Tree .classMember → Bool → Prop} (hname : name.Resolved false)
    (h : ∀ v, v.Resolved false → post v s) :
    (Grammar.field p ctx start mods name).Resolves s post :=
  fieldInitializer hp fun _ hv => terminator fun _ => finish fun _ => h _ (.field hname hv)

@[simp]
theorem methodKind {mods : Modifiers} {kind : PropertyKind} {name : Option String}
    {hasConstructor : Bool} {site : Site} {post : MethodKind → Bool → Prop} (h : ∀ v, post v s) :
    (Grammar.methodKind mods kind name hasConstructor site).Resolves s post := by
  simp [Grammar.methodKind, h]

theorem keyedMember (hp : p.Resolves) {start : Position} {mods : Modifiers}
    {kind : PropertyKind} {hasConstructor : Bool} {post : Tree .classMember × Bool → Bool → Prop}
    (h : ∀ r, r.1.Resolved false → post r s) :
    (Grammar.keyedMember p ctx start mods kind hasConstructor).Resolves s post := by
  simp only [Grammar.keyedMember, resolves_bind, resolves_look, resolves_ite, resolves_reject,
    implies_true, true_and]
  refine fun _ => key hp fun name hname _ => sees fun _ => ⟨fun _ _ => ?_, fun _ => ?_⟩
  · exact field hp hname fun v hv => h (v, hasConstructor) hv
  · exact methodKind fun _ => methodFunction hp fun _ hv => finish fun _ => h _ (.method hname hv)

/-- A member of a class is resolved. -/
theorem classMember (hp : p.Resolves) {hasConstructor : Bool}
    {post : Tree .classMember × Bool → Bool → Prop} (h : ∀ r, r.1.Resolved false → post r s) :
    (Grammar.classMember p ctx hasConstructor).Resolves s post := by
  have hkeyed : ∀ {start mods kind},
      (Grammar.keyedMember p ctx start mods kind hasConstructor).Resolves s post :=
    keyedMember hp h
  have hstatic : ∀ {start staticLead}, (Grammar.staticBlock p ctx start staticLead).Resolves s
      fun v s' => post (v, hasConstructor) s' := staticBlock hp fun v hv => h (v, hasConstructor) hv
  have hstray : ∀ {lead span}, post (.strayTerminator lead span, hasConstructor) s :=
    h _ .strayTerminator
  have hmods : ∀ {start} {staticLead : Option String}, Grammar.modifiers.Resolves s fun r s' =>
      (Grammar.keyedMember p ctx start { r.1 with staticLead } r.2
        hasConstructor).Resolves s' post :=
    modifiers fun _ => hkeyed
  simp only [Grammar.classMember, resolves_bind, resolves_look, resolves_ite, resolves_pure,
    resolves_map]
  refine fun t => ⟨fun _ => lead fun _ => extent fun _ => hstray, fun _ => ⟨fun _ => isModifier
    fun _ => ⟨fun _ => lead fun _ => sees fun _ => ⟨fun _ => hstatic, fun _ => hmods⟩,
      fun _ => hmods⟩,
    fun _ => ⟨fun hf => absurd hf Bool.false_ne_true, fun _ => hmods⟩⟩⟩

/-- The members of a class are resolved. -/
theorem classMembers (hp : p.Resolves) {hasConstructor : Bool} {rounds : Nat}
    {post : List (Tree .classMember) → Bool → Prop}
    (h : ∀ vs, (∀ v ∈ vs, v.Resolved false) → post vs s) :
    (Grammar.classMembers p ctx hasConstructor rounds).Resolves s post := by
  induction rounds generalizing hasConstructor post with
  | zero => exact stalled
  | succ rounds ih =>
    simp only [Grammar.classMembers, resolves_bind, resolves_look, resolves_ite, unexpected,
      implies_true, true_and]
    refine fun t => ⟨fun _ => h _ (List.forall_mem_nil _),
      fun _ _ => classMember hp fun r hr => ih fun vs hvs => ?_⟩
    exact h _ (List.forall_mem_cons.2 ⟨hr, hvs⟩)

/-- What is pending in a superclass stays pending, and nobody looks at it. -/
theorem heritage (hp : p.Resolves) {post : Tree (.maybe .heritage) → Bool → Prop}
    (h : ∀ v s', (s = true → s' = true) → v.Resolved false → post v s') :
    (Grammar.heritage p ctx).Resolves s post := by
  simp only [Grammar.heritage, resolves_bind, resolves_ite, unexpectedHere, implies_true, true_and]
  refine seesKeyword fun _ => ⟨fun _ => h _ _ id .absent, fun _ => lead fun _ => ?_⟩
  exact hp.ofChain fun base s' hs hbase _ =>
    h _ s' hs (.present (.heritage (hbase.mono fun _ => rfl)))

/-- A class is resolved, though a default may be pending behind its heritage. -/
theorem classDefinition (hp : p.Resolves) {isDeclaration nameRequired : Bool}
    {post : Tree .classDef → Bool → Prop}
    (h : ∀ v s', (s = true → s' = true) → v.Resolved false → post v s') :
    (Grammar.classDefinition p ctx isDeclaration nameRequired).Resolves s post := by
  have hrest : ∀ {ctx classLead name start},
      (Grammar.heritage p ctx).Resolves s fun base s' =>
        (Parse.expect ctx "\x7b").Resolves s' fun openLead s' =>
          (Grammar.classMembers p ctx false p.rounds).Resolves s' fun members s' =>
            (Parse.expect ctx "\x7d").Resolves s' fun closeLead s' =>
              (Parse.finish (if isDeclaration = true then .classDecl else .classExpr)
                start).Resolves
                s' fun span s' => post
                  (.classDef classLead name base openLead (.ofList members) closeLead span) s' :=
    heritage hp fun _ s' hs hbase => expect fun _ => classMembers hp fun _ hmembers =>
      expect fun _ => finish fun _ => h _ s' hs
        (.classDef hbase (Tree.Resolved.ofList_iff.2 hmembers))
  simp only [Grammar.classDefinition, resolves_bind, resolves_look, resolves_ite, resolves_pure,
    resolves_map, unexpectedHere, implies_true, true_and]
  exact here fun _ => expectKeyword fun _ t => ⟨fun _ => bindingName fun _ => hrest,
    fun _ _ => hrest⟩

/-! ## Markup -/

@[simp]
theorem expectThen {spelling : String} {after : Mode} {post : String → Bool → Prop}
    (h : ∀ v, post v s) : (Grammar.expectThen ctx spelling after).Resolves s post := by
  simp [Grammar.expectThen, h]

@[simp]
theorem leadThen {after : Mode} {post : String → Bool → Prop} (h : ∀ v, post v s) :
    (Grammar.leadThen after).Resolves s post := by
  simp [Grammar.leadThen, h]

@[simp]
theorem tagIdent {post : TagIdent → Bool → Prop} (h : ∀ v, post v s) :
    (Grammar.tagIdent ctx).Resolves s post := by
  simp [Grammar.tagIdent, h]

@[simp]
theorem namespacedName {start : Position} {space : TagIdent} {post : NamespacedName → Bool → Prop}
    (h : ∀ v, post v s) : (Grammar.namespacedName ctx start space).Resolves s post := by
  exact expect fun _ => tagIdent fun _ => finish fun _ => h _

@[simp]
theorem tagName {rounds : Nat} {post : TagName → Bool → Prop} (h : ∀ v, post v s) :
    (Grammar.tagName ctx rounds).Resolves s post := by
  have hmember : ∀ (start : Position) (name : TagName), True →
      (Grammar.tagMember ctx start name).Resolves s fun w s' => s' = s ∧ ∀ v ∈ w, True := by
    intro start name _
    refine accept fun dotLead => ?_
    cases dotLead with
    | none => exact ⟨rfl, fun _ _ => trivial⟩
    | some dotLead => exact tagIdent fun _ => finish fun _ => ⟨rfl, fun _ _ => trivial⟩
  simp only [Grammar.tagName, resolves_bind, resolves_ite]
  refine here fun start => tagIdent fun first => sees fun _ => ⟨fun _ => ?_, fun _ => ?_⟩
  · exact namespacedName fun _ => h _
  · exact iterateStill (hmember start) trivial fun _ _ => h _

theorem container (hp : p.Resolves) {start : Position} {openLead : String} {after : Mode}
    {allowsEmpty : Bool} {post : Tree .container → Bool → Prop}
    (h : ∀ v, v.Resolved false → post v s) :
    (Grammar.container p ctx start openLead after allowsEmpty).Resolves s post := by
  simp only [Grammar.container, resolves_bind, resolves_look, resolves_ite, unexpected,
    implies_true, true_and, resolves_lastEnd]
  refine fun t => ⟨fun _ _ _ => finishAt fun _ => expectThen fun _ => finish fun _ =>
    h _ .emptyContainer, fun _ => ?_⟩
  exact hp.ofAssignment fun _ hv => expectThen fun _ => finish fun _ => h _ (.exprContainer hv)

theorem attributeValue (hp : p.Resolves) {post : Tree .attributeValue → Bool → Prop}
    (h : ∀ v, v.Resolved false → post v s) : (Grammar.attributeValue p ctx).Resolves s post := by
  simp only [Grammar.attributeValue, resolves_bind, resolves_look, resolves_ite, unexpected,
    implies_true, and_true]
  refine fun t => ⟨fun _ => literal fun _ => h _ .stringValue,
    fun _ => ⟨fun _ => ?_, fun _ _ => ?_⟩⟩
  · exact leadThen fun _ => container hp fun _ hv => h _ (.exprValue hv)
  · exact lead fun _ => hp.ofMarkup (fun _ he => h _ (.elementValue he))
      fun _ hf => h _ (.fragmentValue hf)

theorem spreadAttribute (hp : p.Resolves) {post : Tree .attribute → Bool → Prop}
    (h : ∀ v, v.Resolved false → post v s) : (Grammar.spreadAttribute p ctx).Resolves s post :=
  here fun _ => leadThen fun _ => expect fun _ => hp.ofAssignment fun _ hv => expectThen fun _ =>
    finish fun _ => h _ (.spreadAttribute hv)

/-- An attribute is resolved. -/
theorem tagAttribute (hp : p.Resolves) {post : Tree .attribute → Bool → Prop}
    (h : ∀ v, v.Resolved false → post v s) : (Grammar.tagAttribute p ctx).Resolves s post := by
  simp only [Grammar.tagAttribute, resolves_bind, resolves_ite, resolves_pure, resolves_map]
  refine sees fun _ =>
    ⟨fun _ => spreadAttribute hp h, fun _ => here fun start => tagIdent fun name => ?_⟩
  refine sees fun _ => ⟨fun _ => namespacedName fun name => ?_, fun _ => ?_⟩
  -- What follows the name is read in the same way.
  all_goals
    refine accept fun eqLead => ?_
    cases eqLead with
    | none => exact finish fun _ => h _ (.attribute .absent)
    | some eqLead =>
      exact attributeValue hp fun _ hv => finish fun _ => h _ (.attribute (.present hv))

theorem childContainer (hp : p.Resolves) {post : Tree .child → Bool → Prop}
    (h : ∀ v, v.Resolved false → post v s) : (Grammar.childContainer p ctx).Resolves s post := by
  simp only [Grammar.childContainer, resolves_bind, resolves_ite]
  refine here fun _ => leadThen fun _ => sees fun _ => ⟨fun _ => lead fun _ => ?_, fun _ => ?_⟩
  · exact hp.ofAssignment fun _ hv => expectThen fun _ => finish fun _ => h _ (.spreadChild hv)
  · exact container hp fun _ hv => h _ (.exprChild hv)

/-- The children of an element are resolved. -/
theorem children (hp : p.Resolves) {name : String} {rounds : Nat}
    {post : List (Tree .child) × Position × String → Bool → Prop}
    (h : ∀ r, (∀ v ∈ r.1, v.Resolved false) → post r s) :
    (Grammar.children p ctx name rounds).Resolves s post := by
  induction rounds generalizing post with
  | zero => exact stalled
  | succ rounds ih =>
    -- A child in front of the others.
    have hcons : ∀ {v : Tree .child}, v.Resolved false →
        (Grammar.children p ctx name rounds).Resolves s fun r s' => post (v :: r.1, r.2) s' :=
      fun hv => ih fun r hr => h _ (List.forall_mem_cons.2 ⟨hv, hr⟩)
    simp only [Grammar.children, resolves_bind, resolves_look]
    intro t
    split
    · trivial
    · exact fun _ => finish fun _ => hcons .textChild
    · simp only [resolves_ite, resolves_bind, resolves_pure, unexpected, implies_true, and_true]
      refine ⟨fun _ => childContainer hp fun _ hv => hcons hv, fun _ _ => leadThen fun _ => ?_⟩
      refine sees fun _ => ⟨fun _ => h _ (List.forall_mem_nil _), fun _ => ?_⟩
      exact hp.ofMarkup (fun _ he => hcons (.elementChild he)) fun _ hf => hcons (.fragmentChild hf)

theorem fragment (hp : p.Resolves) {start : Position} {openLead : String} {after : Mode}
    {post : Tree .fragment → Bool → Prop} (h : ∀ v, v.Resolved false → post v s) :
    (Grammar.fragment p ctx start openLead after).Resolves s post := by
  simp only [Grammar.fragment, resolves_bind, resolves_look, resolves_ite, resolves_fail,
    implies_true, true_and]
  refine expectThen fun _ => children hp fun _ hr => expect fun _ _ _ => expectThen fun _ => ?_
  exact finish fun _ => h _ (.fragment (Tree.Resolved.ofList_iff.2 hr))

theorem closingTag {start : Position} {openLead opened : String} {after : Mode}
    {post : ClosingTag → Bool → Prop} (h : ∀ v, post v s) :
    (Grammar.closingTag p ctx start openLead opened after).Resolves s post := by
  simp only [Grammar.closingTag, resolves_bind, resolves_look, resolves_ite, resolves_fail,
    implies_true, true_and]
  exact expect fun _ _ => tagName fun _ _ => expectThen fun _ => finish fun _ => h _

/-- An element is resolved. -/
theorem element (hp : p.Resolves) {start : Position} {openLead : String} {after : Mode}
    {post : Tree .element → Bool → Prop} (h : ∀ v, v.Resolved false → post v s) :
    (Grammar.element p ctx start openLead after).Resolves s post := by
  simp only [Grammar.element, resolves_bind, resolves_ite, unexpectedHere, implies_true, true_and]
  refine tagName fun name => many (tagAttribute hp fun v hv => ⟨rfl, hv⟩)
    fun attributes hattributes =>
    sees fun _ => ⟨fun _ => lead fun _ => sees fun _ _ => expectThen fun _ => ?_, fun _ => ?_⟩
  · exact finish fun _ => finish fun _ =>
      h _ (.element (Tree.Resolved.ofList_iff.2 hattributes) .nil)
  · exact expectThen fun _ => finish fun _ => children hp fun _ hr => closingTag fun _ =>
      finish fun _ => h _ (.element (Tree.Resolved.ofList_iff.2 hattributes)
        (Tree.Resolved.ofList_iff.2 hr))

theorem markup (hp : p.Resolves) {start : Position} {openLead : String} {after : Mode} :
    (Grammar.markup p start openLead after ctx).Resolves s fun v s' => s' = s ∧ v.Resolved := by
  simp only [Grammar.markup, resolves_bind, resolves_ite, resolves_map]
  refine sees fun _ => ⟨fun _ => fragment hp fun _ hv => ⟨rfl, hv⟩, fun _ => ?_⟩
  exact element hp fun _ hv => ⟨rfl, hv⟩

theorem markupRoot (hp : p.Resolves) {post : Expr → Bool → Prop}
    (h : ∀ v, v.Resolved false → post v s) : (Grammar.markupRoot p ctx).Resolves s post :=
  here fun _ => lead fun _ => hp.ofMarkup (fun _ he => h _ (.elementExpr he))
    fun _ hf => h _ (.fragmentExpr hf)

end Parse.Resolves

end Verbatim
