import Verbatim.Proofs.Sites.Basic

/-!
# Where errors in expressions are reported

Each production of an expression reports errors at tokens that it has seen, or where a part of it
began.

## Main definitions

* `Verbatim.Productions.Sited` — productions that report errors in the source only.
-/

namespace Verbatim

open Verbatim.Grammar

/-- Productions that report errors in the source only. -/
structure Productions.Sited (p : Productions) (source : String) : Prop where
  expression : ∀ ctx, (p.expression ctx).Sited source fun _ => True
  assignment : ∀ ctx, (p.assignment ctx).Sited source fun _ => True
  cover : ∀ ctx, (p.cover ctx).Sited source fun _ => True
  binary : ∀ least ctx, (p.binary least ctx).Sited source fun _ => True
  exponentiation : ∀ ctx, (p.exponentiation ctx).Sited source fun _ => True
  unary : ∀ ctx, (p.unary ctx).Sited source fun _ => True
  chain : ∀ ctx, (p.chain ctx).Sited source fun _ => True
  callee : ∀ ctx, (p.callee ctx).Sited source fun _ => True
  binding : ∀ fault ctx, (p.binding fault ctx).Sited source fun _ => True
  statement : ∀ ctx, (p.statement ctx).Sited source fun _ => True
  item : ∀ ctx, (p.item ctx).Sited source fun _ => True
  markup : ∀ start lead after ctx, (p.markup start lead after ctx).Sited source fun _ => True

namespace Productions.Sited

variable {source : String} {p : Productions} {ctx : Context}

section

variable {Q : Expr → Prop}

@[simp]
theorem ofExpression (hp : p.Sited source) (h : ∀ v, Q v) : (p.expression ctx).Sited source Q :=
  (hp.expression ctx).imp fun v _ => h v

@[simp]
theorem ofAssignment (hp : p.Sited source) (h : ∀ v, Q v) : (p.assignment ctx).Sited source Q :=
  (hp.assignment ctx).imp fun v _ => h v

@[simp]
theorem ofCover (hp : p.Sited source) (h : ∀ v, Q v) : (p.cover ctx).Sited source Q :=
  (hp.cover ctx).imp fun v _ => h v

@[simp]
theorem ofBinary {least : Nat} (hp : p.Sited source) (h : ∀ v, Q v) :
    (p.binary least ctx).Sited source Q :=
  (hp.binary least ctx).imp fun v _ => h v

@[simp]
theorem ofExponentiation (hp : p.Sited source) (h : ∀ v, Q v) :
    (p.exponentiation ctx).Sited source Q :=
  (hp.exponentiation ctx).imp fun v _ => h v

@[simp]
theorem ofUnary (hp : p.Sited source) (h : ∀ v, Q v) : (p.unary ctx).Sited source Q :=
  (hp.unary ctx).imp fun v _ => h v

@[simp]
theorem ofChain (hp : p.Sited source) (h : ∀ v, Q v) : (p.chain ctx).Sited source Q :=
  (hp.chain ctx).imp fun v _ => h v

@[simp]
theorem ofCallee (hp : p.Sited source) (h : ∀ v, Q v) : (p.callee ctx).Sited source Q :=
  (hp.callee ctx).imp fun v _ => h v

end

@[simp]
theorem ofBinding {fault : Fault} {Q : Pattern → Prop} (hp : p.Sited source) (h : ∀ v, Q v) :
    (p.binding fault ctx).Sited source Q :=
  (hp.binding fault ctx).imp fun v _ => h v

@[simp]
theorem ofStatement {Q : Stmt → Prop} (hp : p.Sited source) (h : ∀ v, Q v) :
    (p.statement ctx).Sited source Q :=
  (hp.statement ctx).imp fun v _ => h v

@[simp]
theorem ofItem {Q : Stmt → Prop} (hp : p.Sited source) (h : ∀ v, Q v) :
    (p.item ctx).Sited source Q :=
  (hp.item ctx).imp fun v _ => h v

@[simp]
theorem ofMarkup {start : Position} {lead : String} {after : Mode} {Q : Markup → Prop}
    (hp : p.Sited source) (h : ∀ v, Q v) : (p.markup start lead after ctx).Sited source Q :=
  (hp.markup start lead after ctx).imp fun v _ => h v

end Productions.Sited

namespace Parse.Sited

variable {source : String} {p : Productions} {ctx : Context} {t : Token}

/-! ## Literals, names and keys -/

@[simp]
theorem literalValue {Q : Value → Prop} (ht : t.IsOf source) (h : ∀ v, Q v) :
    (Grammar.literalValue ctx t).Sited source Q := by
  unfold Grammar.literalValue
  split
  case h_2 => split <;> simp [ht, h]
  all_goals simp [ht, h]

@[simp]
theorem literal {Q : Literal → Prop} (h : ∀ v, Q v) : (Grammar.literal ctx).Sited source Q := by
  simp +contextual [Grammar.literal, h]

@[simp]
theorem checkOperatorWord {Q : Unit → Prop} (ht : t.IsOf source) (h : Q ()) :
    (Grammar.checkOperatorWord ctx t).Sited source Q := by
  simp [Grammar.checkOperatorWord, ht, h]

@[simp]
theorem checkReference {Q : Unit → Prop} (ht : t.IsOf source) (h : Q ()) :
    (Grammar.checkReference ctx t).Sited source Q := by
  simp [Grammar.checkReference, ht, h]

@[simp]
theorem bindingName {fault : Fault} {Q : Ident → Prop} (h : ∀ v, Q v) :
    (Grammar.bindingName fault ctx).Sited source Q := by
  simp +contextual [Grammar.bindingName, h]

@[simp]
theorem templatePiece {tagged : Bool} {Q : Quasi → Prop} (h : ∀ v, Q v) :
    (Grammar.templatePiece ctx tagged).Sited source Q := by
  simp only [Grammar.templatePiece, sited_bind, sited_look, sited_ite, sited_next]
  refine fun _ _ => ⟨fun _ => unexpectedHere, fun _ t ht => ?_⟩
  split <;> simp [ht, h]

@[simp]
theorem templateParts (hp : p.Sited source) {tagged : Bool} {rounds : Nat}
    {Q : List Quasi × List Expr → Prop} (h : ∀ v, Q v) :
    (Grammar.templateParts p ctx tagged rounds).Sited source Q := by
  induction rounds generalizing Q with
  | zero => exact stalled
  | succ rounds ih => simp [Grammar.templateParts, hp, h, ih]

@[simp]
theorem template (hp : p.Sited source) {tagged : Bool} {Q : Tree .template → Prop}
    (h : ∀ v, Q v) : (Grammar.template p ctx tagged).Sited source Q := by
  simp [Grammar.template, hp, h]

@[simp]
theorem key (hp : p.Sited source) {allowsPrivate : Bool} {Q : Tree .key → Prop} (h : ∀ v, Q v) :
    (Grammar.key p ctx allowsPrivate).Sited source Q := by
  simp only [Grammar.key, sited_bind, sited_look, sited_ite]
  refine fun t ht => ⟨fun _ => anyName fun _ => h _, fun _ => ?_⟩
  split <;> simp [hp, ht, h]

@[simp]
theorem isModifier {forbidsNewline : Bool} {Q : Bool → Prop} (h : ∀ b, Q b) :
    (Grammar.isModifier forbidsNewline).Sited source Q := by
  simp [Grammar.isModifier, h]

/-! ## Targets -/

theorem tolerateAll {finder : Finder} {site : Site} {faults : List Fault} {Q : Unit → Prop}
    (hs : site.IsOf source) (h : Q ()) : (Parse.tolerateAll finder site faults).Sited source Q := by
  induction faults with
  | nil => exact h
  | cons fault faults ih => exact ⟨hs, ih⟩

@[simp]
theorem convertAs {α : Type} {finder : Finder} {site : Site} {conversion : Conversion α}
    {Q : α → Prop} (hs : site.IsOf source) (h : ∀ v, Q v) :
    (Parse.convertAs finder site conversion).Sited source Q := by
  unfold Parse.convertAs
  split
  · exact tolerateAll hs (h _)
  · refine tolerateAll hs ?_
    change (Finder.thrown finder _ site).site.IsOf source
    cases finder <;> exact hs

@[simp]
theorem convert {α : Type} {site : Site} {conversion : Conversion α} {Q : α → Prop}
    (hs : site.IsOf source) (h : ∀ v, Q v) : (Parse.convert site conversion).Sited source Q :=
  convertAs hs h

@[simp]
theorem simpleTarget {e : Expr} {fault : Fault} {Q : Pattern → Prop} (ht : t.IsOf source)
    (h : ∀ v, Q v) : (Parse.simpleTarget ctx e t fault).Sited source Q := by
  unfold Parse.simpleTarget
  split <;> simp [ht, h]

@[simp]
theorem assignmentTarget {e : Expr} {fault : Fault} {Q : Pattern → Prop} (ht : t.IsOf source)
    (h : ∀ v, Q v) : (Parse.assignmentTarget ctx e t fault).Sited source Q := by
  unfold Parse.assignmentTarget
  split <;> simp [ht, h]

/-! ## Bindings -/

section

variable {fault : Fault} {Q : Pattern → Prop}

@[simp]
theorem withDefault (hp : p.Sited source) {start : Position} {target : Pattern} (h : ∀ v, Q v) :
    (Grammar.withDefault p ctx start target).Sited source Q := by
  simp only [Grammar.withDefault, sited_bind]
  refine accept fun eqLead => ?_
  cases eqLead <;> simp [hp, h]

@[simp]
theorem bindingElement (hp : p.Sited source) (h : ∀ v, Q v) :
    (Grammar.bindingElement p fault ctx).Sited source Q := by
  simp [Grammar.bindingElement, hp, h]

@[simp]
theorem bindingRest (hp : p.Sited source) {close : String} {misplaced : Fault} (h : ∀ v, Q v) :
    (Grammar.bindingRest p fault ctx close misplaced).Sited source Q := by
  simp +contextual [Grammar.bindingRest, hp, h]

@[simp]
theorem arrayBindingRound (hp : p.Sited source) {Q : Round (Tree (.maybe .pattern)) → Prop}
    (h : ∀ v, Q v) : (Grammar.arrayBindingRound p fault ctx).Sited source Q := by
  simp [Grammar.arrayBindingRound, hp, h]

@[simp]
theorem arrayBinding (hp : p.Sited source) (h : ∀ v, Q v) :
    (Grammar.arrayBinding p fault ctx).Sited source Q := by
  simp [Grammar.arrayBinding, hp, h]

@[simp]
theorem bindingProperty (hp : p.Sited source) {Q : Tree .patternMember → Prop} (h : ∀ v, Q v) :
    (Grammar.bindingProperty p fault ctx).Sited source Q := by
  simp [Grammar.bindingProperty, hp, h]

@[simp]
theorem bindingMemberRest {Q : Tree .patternMember → Prop} (h : ∀ v, Q v) :
    (Grammar.bindingMemberRest fault ctx).Sited source Q := by
  simp +contextual [Grammar.bindingMemberRest, h]

@[simp]
theorem objectBindingRound (hp : p.Sited source) {Q : Round (Tree .patternMember) → Prop}
    (h : ∀ v, Q v) : (Grammar.objectBindingRound p fault ctx).Sited source Q := by
  simp [Grammar.objectBindingRound, hp, h]

@[simp]
theorem objectBinding (hp : p.Sited source) (h : ∀ v, Q v) :
    (Grammar.objectBinding p fault ctx).Sited source Q := by
  simp [Grammar.objectBinding, hp, h]

theorem binding (hp : p.Sited source) (h : ∀ v, Q v) :
    (Grammar.binding p fault ctx).Sited source Q := by
  simp [Grammar.binding, hp, h]

end

@[simp]
theorem checkParameterNames {strict unique : Bool} {site : Site} {seen : List String}
    {ids : List Ident} {Q : Unit → Prop} (hs : site.IsOf source) (h : Q ()) :
    (Grammar.checkParameterNames strict unique site seen ids).Sited source Q := by
  induction ids generalizing seen with
  | nil => exact h
  | cons id ids ih => simp [Grammar.checkParameterNames, hs, ih]

@[simp]
theorem checkParameters {strict unique : Bool} {site : Site} {params : List Pattern}
    {Q : Unit → Prop} (hs : site.IsOf source) (h : Q ()) :
    (Grammar.checkParameters strict unique site params).Sited source Q :=
  checkParameterNames hs h

/-! ## Functions -/

/-- Errors in directives have places of the source, that of an earlier octal escape included. -/
@[simp]
theorem prologueFrom (hp : p.Sited source) {octal : Option Token} {rounds : Nat}
    (ho : ∀ t ∈ octal, t.IsOf source) {Q : List Stmt × Bool → Prop} (h : ∀ v, Q v) :
    (Grammar.prologueFrom p ctx octal rounds).Sited source Q := by
  induction rounds generalizing ctx octal Q with
  | zero => exact stalled
  | succ rounds ih =>
    simp only [Grammar.prologueFrom, sited_bind, sited_look, sited_ite]
    refine fun t ht =>
      ⟨fun _ => h _, fun _ => hp.ofExpression fun value => terminator fun ending => ?_⟩
    refine ⟨fun _ => finish fun _ => h _, fun _ => ?_⟩
    -- Behind a directive, the first octal one so far is the old one or this one.
    have hrest : ∀ {ctx octal}, (∀ t ∈ octal, t.IsOf source) → ∀ {Q : List Stmt × Bool → Prop},
        (∀ v, Q v) → (Grammar.prologueFrom p ctx octal rounds).Sited source Q := ih
    cases octal with
    | none => simp +contextual [hrest, ht, h]
    | some first => simp +contextual [hrest, ho, h]

@[simp]
theorem prologue (hp : p.Sited source) {Q : List Stmt × Bool → Prop} (h : ∀ v, Q v) :
    (Grammar.prologue p ctx).Sited source Q :=
  prologueFrom hp (fun _ ht => absurd ht (Option.not_mem_none _)) h

@[simp]
theorem items (hp : p.Sited source) {Q : List Stmt → Prop} (h : ∀ v, Q v) :
    (Grammar.items p ctx).Sited source Q := by
  simp [Grammar.items, hp, h]

@[simp]
theorem functionBody (hp : p.Sited source) {Q : Tree .body × Bool → Prop} (h : ∀ v, Q v) :
    (Grammar.functionBody p ctx).Sited source Q := by
  simp [Grammar.functionBody, hp, h]

@[simp]
theorem parameterRound (hp : p.Sited source) {Q : Round Pattern → Prop} (h : ∀ v, Q v) :
    (Grammar.parameterRound p ctx).Sited source Q := by
  simp [Grammar.parameterRound, hp, h]

@[simp]
theorem parameterList (hp : p.Sited source) {Q : Tree .params → Prop} (h : ∀ v, Q v) :
    (Grammar.parameterList p ctx).Sited source Q := by
  simp [Grammar.parameterList, hp, h]

@[simp]
theorem checkFunctionName {site : Site} {name : Option Ident} {Q : Unit → Prop}
    (hs : site.IsOf source) (h : Q ()) : (Grammar.checkFunctionName site name).Sited source Q := by
  cases name <;> simp [Grammar.checkFunctionName, hs, h]

@[simp]
theorem paramsAndBody (hp : p.Sited source) {isAsync isGenerator unique : Bool}
    {name : Option Ident} {site : Site} {Q : Tree .params × Tree .body → Prop}
    (hs : site.IsOf source) (h : ∀ v, Q v) :
    (Grammar.paramsAndBody p ctx isAsync isGenerator name site unique).Sited source Q := by
  simp only [Grammar.paramsAndBody, sited_bind, sited_pending, sited_setPending]
  intro before hbefore
  refine ⟨by simp, parameterList hp fun params => functionBody hp fun body => ?_⟩
  have hlast : ∀ site, before = some site → site.IsOf source := hbefore
  simp +contextual [hs, h, hlast]

@[simp]
theorem functionName {isDeclaration nameOptional isAsync isGenerator : Bool}
    {Q : Option Ident → Prop} (h : ∀ v, Q v) :
    (Grammar.functionName ctx isDeclaration nameOptional isAsync isGenerator).Sited source Q := by
  simp [Grammar.functionName, h]

@[simp]
theorem function (hp : p.Sited source) {isDeclaration nameOptional : Bool}
    {Q : Tree .function → Prop} (h : ∀ v, Q v) :
    (Grammar.function p ctx isDeclaration nameOptional).Sited source Q := by
  simp +contextual [Grammar.function, hp, h]

@[simp]
theorem functionDeclaration (hp : p.Sited source) {Q : Stmt → Prop} (h : ∀ v, Q v) :
    (Grammar.functionDeclaration p ctx).Sited source Q := by
  simp [Grammar.functionDeclaration, hp, h]

@[simp]
theorem functionExpression (hp : p.Sited source) {Q : Expr → Prop} (h : ∀ v, Q v) :
    (Grammar.functionExpression p ctx).Sited source Q := by
  simp [Grammar.functionExpression, hp, h]

@[simp]
theorem checkAccessor {kind : PropertyKind} {site : Site} {params : List Pattern}
    {Q : Unit → Prop} (hs : site.IsOf source) (h : Q ()) :
    (Grammar.checkAccessor kind site params).Sited source Q := by
  unfold Grammar.checkAccessor
  split <;> simp [hs, h]

@[simp]
theorem methodFunction (hp : p.Sited source) {isAsync isGenerator : Bool} {kind : PropertyKind}
    {Q : Tree .function → Prop} (h : ∀ v, Q v) :
    (Grammar.methodFunction p ctx isAsync isGenerator kind).Sited source Q := by
  simp +contextual [Grammar.methodFunction, hp, h]

/-! ## Classes -/

@[simp]
theorem modifiers {Q : Modifiers × PropertyKind → Prop} (h : ∀ v, Q v) :
    Grammar.modifiers.Sited source Q := by
  simp [Grammar.modifiers, h]

@[simp]
theorem staticBlock (hp : p.Sited source) {start : Position} {staticLead : String}
    {Q : Tree .classMember → Prop} (h : ∀ v, Q v) :
    (Grammar.staticBlock p ctx start staticLead).Sited source Q := by
  simp +contextual [Grammar.staticBlock, hp, h]

@[simp]
theorem fieldInitializer (hp : p.Sited source) {Q : Tree (.maybe .initializer) → Prop}
    (h : ∀ v, Q v) : (Grammar.fieldInitializer p ctx).Sited source Q := by
  simp only [Grammar.fieldInitializer, sited_bind]
  refine accept fun eqLead => ?_
  cases eqLead <;> simp +contextual [hp, h]

@[simp]
theorem field (hp : p.Sited source) {start : Position} {mods : Modifiers} {name : Tree .key}
    {Q : Tree .classMember → Prop} (h : ∀ v, Q v) :
    (Grammar.field p ctx start mods name).Sited source Q := by
  simp [Grammar.field, hp, h]

@[simp]
theorem methodKind {mods : Modifiers} {kind : PropertyKind} {name : Option String}
    {hasConstructor : Bool} {site : Site} {Q : MethodKind → Prop} (hs : site.IsOf source)
    (h : ∀ v, Q v) : (Grammar.methodKind mods kind name hasConstructor site).Sited source Q := by
  simp [Grammar.methodKind, hs, h]

@[simp]
theorem keyedMember (hp : p.Sited source) {start : Position} {mods : Modifiers}
    {kind : PropertyKind} {hasConstructor : Bool} {Q : Tree .classMember × Bool → Prop}
    (h : ∀ v, Q v) :
    (Grammar.keyedMember p ctx start mods kind hasConstructor).Sited source Q := by
  simp only [Grammar.keyedMember, sited_bind, sited_look]
  refine fun t ht => key hp fun name => sited_ite.2 ⟨fun _ => reject ht.site, fun _ => ?_⟩
  refine sees fun seen => sited_ite.2 ⟨fun _ => ?_, fun _ => ?_⟩
  · refine sited_ite.2 ⟨fun _ => reject ht.site, fun _ => ?_⟩
    simp [hp, h]
  · simp [hp, h, ht.site]

@[simp]
theorem classMember (hp : p.Sited source) {hasConstructor : Bool}
    {Q : Tree .classMember × Bool → Prop} (h : ∀ v, Q v) :
    (Grammar.classMember p ctx hasConstructor).Sited source Q := by
  simp [Grammar.classMember, hp, h]

@[simp]
theorem classMembers (hp : p.Sited source) {hasConstructor : Bool} {rounds : Nat}
    {Q : List (Tree .classMember) → Prop} (h : ∀ v, Q v) :
    (Grammar.classMembers p ctx hasConstructor rounds).Sited source Q := by
  induction rounds generalizing hasConstructor Q with
  | zero => exact stalled
  | succ rounds ih => simp +contextual [Grammar.classMembers, hp, h, ih]

@[simp]
theorem heritage (hp : p.Sited source) {Q : Tree (.maybe .heritage) → Prop} (h : ∀ v, Q v) :
    (Grammar.heritage p ctx).Sited source Q := by
  simp [Grammar.heritage, hp, h]

@[simp]
theorem classDefinition (hp : p.Sited source) {isDeclaration nameRequired : Bool}
    {Q : Tree .classDef → Prop} (h : ∀ v, Q v) :
    (Grammar.classDefinition p ctx isDeclaration nameRequired).Sited source Q := by
  simp [Grammar.classDefinition, hp, h]

/-! ## Markup -/

@[simp]
theorem expectThen {spelling : String} {after : Mode} {Q : String → Prop} (h : ∀ v, Q v) :
    (Grammar.expectThen ctx spelling after).Sited source Q := by
  simp [Grammar.expectThen, h]

@[simp]
theorem leadThen {after : Mode} {Q : String → Prop} (h : ∀ v, Q v) :
    (Grammar.leadThen after).Sited source Q := by
  simp [Grammar.leadThen, h]

@[simp]
theorem tagIdent {Q : TagIdent → Prop} (h : ∀ v, Q v) : (Grammar.tagIdent ctx).Sited source Q := by
  simp [Grammar.tagIdent, h]

@[simp]
theorem namespacedName {start : Position} {space : TagIdent} {Q : NamespacedName → Prop}
    (h : ∀ v, Q v) : (Grammar.namespacedName ctx start space).Sited source Q := by
  simp [Grammar.namespacedName, h]

@[simp]
theorem tagMember {start : Position} {name : TagName} {Q : Option TagName → Prop}
    (h : ∀ v, Q v) : (Grammar.tagMember ctx start name).Sited source Q := by
  simp only [Grammar.tagMember, sited_bind]
  refine accept fun dotLead => ?_
  cases dotLead <;> simp [h]

@[simp]
theorem tagName {rounds : Nat} {Q : TagName → Prop} (h : ∀ v, Q v) :
    (Grammar.tagName ctx rounds).Sited source Q := by
  simp [Grammar.tagName, h]

@[simp]
theorem container (hp : p.Sited source) {start : Position} {openLead : String} {after : Mode}
    {allowsEmpty : Bool} {Q : Tree .container → Prop} (h : ∀ v, Q v) :
    (Grammar.container p ctx start openLead after allowsEmpty).Sited source Q := by
  simp +contextual [Grammar.container, hp, h]

@[simp]
theorem attributeValue (hp : p.Sited source) {Q : Tree .attributeValue → Prop} (h : ∀ v, Q v) :
    (Grammar.attributeValue p ctx).Sited source Q := by
  simp only [Grammar.attributeValue, sited_bind, sited_look, sited_ite]
  refine fun t ht => ⟨fun _ => literal fun _ => h _, fun _ => ⟨fun _ => ?_, fun _ => ⟨?_, ?_⟩⟩⟩
  · exact leadThen fun _ => container hp fun _ => h _
  · refine fun _ => lead fun openLead => hp.ofMarkup fun markup => ?_
    cases markup <;> exact h _
  · exact fun _ => unexpected ht

@[simp]
theorem spreadAttribute (hp : p.Sited source) {Q : Tree .attribute → Prop} (h : ∀ v, Q v) :
    (Grammar.spreadAttribute p ctx).Sited source Q := by
  simp [Grammar.spreadAttribute, hp, h]

@[simp]
theorem tagAttribute (hp : p.Sited source) {Q : Tree .attribute → Prop} (h : ∀ v, Q v) :
    (Grammar.tagAttribute p ctx).Sited source Q := by
  simp only [Grammar.tagAttribute, sited_bind, sited_ite, sited_pure, sited_map, here]
  refine sees fun _ => ⟨fun _ => spreadAttribute hp h, fun _ t _ => tagIdent fun name => ?_⟩
  refine sees fun _ => ⟨fun _ => namespacedName fun name => ?_, fun _ => ?_⟩
  -- What follows the name is read in the same way.
  all_goals
    refine accept fun eqLead => ?_
    cases eqLead <;> simp [hp, h]

@[simp]
theorem childContainer (hp : p.Sited source) {Q : Tree .child → Prop} (h : ∀ v, Q v) :
    (Grammar.childContainer p ctx).Sited source Q := by
  simp [Grammar.childContainer, hp, h]

/-- Errors in the children of an element have places of the source. -/
@[simp]
theorem children (hp : p.Sited source) {name : String} {rounds : Nat}
    {Q : List (Tree .child) × Position × String → Prop} (h : ∀ v, Q v) :
    (Grammar.children p ctx name rounds).Sited source Q := by
  induction rounds generalizing Q with
  | zero => exact stalled
  | succ rounds ih =>
    simp only [Grammar.children, sited_bind, sited_look]
    intro t ht
    split
    · exact ht.site
    · simp [h, ih]
    · simp only [sited_ite, sited_bind, sited_pure, unexpected ht]
      refine ⟨fun _ => childContainer hp fun _ => ih fun _ => h _, fun _ => ⟨fun _ => ?_, ?_⟩⟩
      · refine leadThen fun openLead => sees fun _ => ⟨fun _ => h _, fun _ => ?_⟩
        refine hp.ofMarkup fun markup => ?_
        cases markup <;> exact ih fun _ => h _
      · exact fun _ => trivial

@[simp]
theorem fragment (hp : p.Sited source) {start : Position} {openLead : String} {after : Mode}
    {Q : Tree .fragment → Prop} (h : ∀ v, Q v) :
    (Grammar.fragment p ctx start openLead after).Sited source Q := by
  simp +contextual [Grammar.fragment, hp, h]

@[simp]
theorem closingTag {start : Position} {openLead opened : String} {after : Mode}
    {Q : ClosingTag → Prop} (h : ∀ v, Q v) :
    (Grammar.closingTag p ctx start openLead opened after).Sited source Q := by
  simp +contextual [Grammar.closingTag, h]

@[simp]
theorem element (hp : p.Sited source) {start : Position} {openLead : String} {after : Mode}
    {Q : Tree .element → Prop} (h : ∀ v, Q v) :
    (Grammar.element p ctx start openLead after).Sited source Q := by
  simp [Grammar.element, hp, h]

theorem markup (hp : p.Sited source) {start : Position} {openLead : String} {after : Mode}
    {Q : Markup → Prop} (h : ∀ v, Q v) :
    (Grammar.markup p start openLead after ctx).Sited source Q := by
  simp [Grammar.markup, hp, h]

@[simp]
theorem markupRoot (hp : p.Sited source) {Q : Expr → Prop} (h : ∀ v, Q v) :
    (Grammar.markupRoot p ctx).Sited source Q := by
  simp only [Grammar.markupRoot, sited_bind, sited_setMode, sited_rescan, here]
  refine fun _ _ => lead fun openLead => hp.ofMarkup fun markup => ?_
  cases markup <;> exact h _

end Parse.Sited

end Verbatim
