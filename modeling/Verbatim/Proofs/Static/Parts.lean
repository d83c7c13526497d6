import Verbatim.Grammar.Assignment
import Verbatim.Proofs.Grammar.Target

/-!
# Constructs and their surroundings

What a construct may contain depends on what surrounds it. A tree does not say what that is, but
what surrounds a part follows from what surrounds the whole: a class makes its members strict, a
function decides whether `yield` is an operator in its body, a label is in scope in the statement
behind it. So every occurrence of a construct in a program has its surroundings, and a rule of the
language is a statement about all occurrences.

The parts of a construct are computed from the tree alone. A directive stands behind the name and
the parameters of the function that it makes strict; here it counts for them, too.

## Main definitions

* `Verbatim.Tree.innerParts` — the parts of a construct with what surrounds them.
* `Verbatim.Tree.Contains` — a construct that occurs in another one.
* `Verbatim.Tree.Everywhere` — what is true of every construct in a tree.

## Main results

* `Verbatim.Tree.everywhere_iff` — it is true of the tree itself, and everywhere in its parts.
-/

namespace Verbatim

/-- A part of a construct with what surrounds it. -/
structure Part where
  {category : Category}
  /-- What surrounds the part. -/
  surroundings : Context
  /-- The part. -/
  tree : Tree category

/-- A part with other extents. -/
def Part.mapSpans (g : Span → Span) (part : Part) : Part :=
  ⟨part.surroundings, part.tree.mapSpans g⟩

namespace Tree

open Grammar

/-! ## Parts -/

/-- What surrounds the body of a function, with the directives in front of the body. -/
def inFunctionOf (ctx : Context) (head : FunctionHead) (body : Tree .body) : Context :=
  { ctx.callable head.isAsync head.isGenerator with strict := ctx.strict || hasUseStrict body }

/-- What surrounds the parameters of an arrow function, with the directives in front of its body.
Its parameters are read before it is known to be a function, so `yield` and `await` mean what they
mean around it. -/
def atArrowOf (ctx : Context) (body : Tree .arrowBody) : Context :=
  { ctx with strict := ctx.strict || arrowHasUseStrict body }

/-- The parts of the value of a property. A shorthand property with a default has the parts of the
pattern that it is meant for, and is no assignment. -/
def valueParts (ctx : Context) (isShorthand : Bool) (value : Expr) : List Part :=
  match isShorthand with
  | false => [⟨ctx, value⟩]
  | true =>
    match value with
    | .assignment (.namePattern id) _ .assign value _ => [⟨ctx, namePattern id⟩, ⟨ctx, value⟩]
    | _ => [⟨ctx, value⟩]

/-- The value of a property is one part, or it is a name with a default. -/
theorem valueParts_cases (ctx : Context) (isShorthand : Bool) (value : Expr) :
    valueParts ctx isShorthand value = [⟨ctx, value⟩] ∨ ∃ id opLead inner span,
      value = .assignment (.namePattern id) opLead .assign inner span ∧
        valueParts ctx isShorthand value = [⟨ctx, namePattern id⟩, ⟨ctx, inner⟩] := by
  unfold valueParts
  split
  · exact .inl rfl
  · split
    · exact .inr ⟨_, _, _, _, rfl, rfl⟩
    · exact .inl rfl

/-- The parts of a construct with what surrounds them, given what surrounds the construct. -/
def innerParts (ctx : Context) : {c : Category} → Tree c → List Part
  | _, .cons head tail => [⟨ctx, head⟩, ⟨ctx, tail⟩]
  | _, .present part => [⟨ctx, part⟩]
  | _, .template t => [⟨ctx, t⟩]
  | _, .tagged tag quasi _ => [⟨ctx, tag⟩, ⟨ctx, quasi⟩]
  | _, .array _ elements _ _ _ => [⟨ctx, elements⟩]
  | _, .object _ members _ _ _ => [⟨ctx, members⟩]
  | _, .functionExpr f => [⟨ctx, f⟩]
  | _, .arrow isAsync _ params _ body _ =>
    [⟨atArrowOf ctx body, params⟩, ⟨(atArrowOf ctx body).arrowBody isAsync, body⟩]
  | _, .classExpr c => [⟨ctx, c⟩]
  | _, .unary _ _ operand _ => [⟨ctx, operand⟩]
  | _, .update _ _ _ operand _ => [⟨ctx, operand⟩]
  | _, .binary left _ _ right _ => [⟨ctx, left⟩, ⟨ctx, right⟩]
  | _, .assignment target _ _ value _ => [⟨ctx, target⟩, ⟨ctx, value⟩]
  | _, .conditional test _ consequent _ alternate _ =>
    [⟨ctx, test⟩, ⟨ctx, consequent⟩, ⟨ctx, alternate⟩]
  | _, .sequence items _ _ => [⟨ctx, items⟩]
  | _, .call callee _ _ args _ => [⟨ctx, callee⟩, ⟨ctx, args⟩]
  | _, .construct _ callee args _ => [⟨ctx, callee⟩, ⟨ctx, args⟩]
  | _, .memberAccess base _ _ access _ => [⟨ctx, base⟩, ⟨ctx, access⟩]
  | _, .importCall _ _ source _ _ => [⟨ctx, source⟩]
  | _, .parenthesized _ inner _ _ => [⟨ctx, inner⟩]
  | _, .spread _ operand _ => [⟨ctx, operand⟩]
  | _, .yield _ _ operand _ => [⟨ctx, operand⟩]
  | _, .await _ operand _ => [⟨ctx, operand⟩]
  | _, .elementExpr e => [⟨ctx, e⟩]
  | _, .fragmentExpr f => [⟨ctx, f⟩]
  | _, .cover _ _ items _ _ _ => [⟨ctx, items⟩]
  | _, .templateLit _ exprs _ => [⟨ctx, exprs⟩]
  | _, .argumentList _ items _ _ => [⟨ctx, items⟩]
  | _, .property _ key value _ _ isShorthand _ _ => ⟨ctx, key⟩ :: valueParts ctx isShorthand value
  | _, .spreadMember _ operand _ => [⟨ctx, operand⟩]
  | _, .computedKey _ inner _ => [⟨ctx, inner⟩]
  | _, .computedAccess _ inner _ => [⟨ctx, inner⟩]
  | _, .paramList _ items _ _ => [⟨ctx, items⟩]
  | _, .bodyBlock _ stmts _ _ => [⟨ctx, stmts⟩]
  | _, .function head params body _ =>
    [⟨{ inFunctionOf ctx head body with inParameters := true }, params⟩,
      ⟨inFunctionOf ctx head body, body⟩]
  | _, .listedParams params => [⟨ctx, params⟩]
  | _, .blockBody body => [⟨ctx, body⟩]
  | _, .exprBody value => [⟨ctx, value⟩]
  | _, .heritage _ base => [⟨ctx, base⟩]
  | _, .classDef _ _ base _ members _ _ => [⟨ctx.classBody, base⟩, ⟨ctx.classBody, members⟩]
  | _, .method _ _ key value _ => [⟨ctx, key⟩, ⟨ctx, value⟩]
  | _, .field _ key value _ _ => [⟨ctx, key⟩, ⟨ctx.fieldValue, value⟩]
  | _, .staticBlock _ _ stmts _ _ => [⟨ctx.staticBlock, stmts⟩]
  | _, .initializer _ value => [⟨ctx, value⟩]
  | _, .exprPattern target => [⟨ctx, target⟩]
  | _, .arrayPattern _ elements _ _ _ => [⟨ctx, elements⟩]
  | _, .objectPattern _ members _ _ _ => [⟨ctx, members⟩]
  | _, .defaultPattern target _ value _ => [⟨ctx, target⟩, ⟨ctx, value⟩]
  | _, .restPattern _ target _ => [⟨ctx, target⟩]
  | _, .patternProperty key value _ _ _ => [⟨ctx, key⟩, ⟨ctx, value⟩]
  | _, .restMember _ target _ => [⟨ctx, target⟩]
  | _, .exprStmt value _ _ _ => [⟨ctx, value⟩]
  | _, .declarationStmt d => [⟨ctx, d⟩]
  | _, .functionStmt f => [⟨ctx, f⟩]
  | _, .classStmt c => [⟨ctx, c⟩]
  | _, .blockStmt b => [⟨ctx, b⟩]
  | _, .ifStmt _ _ test _ consequent alternate _ =>
    [⟨ctx, test⟩, ⟨ctx, consequent⟩, ⟨ctx, alternate⟩]
  | _, .forStmt _ _ init _ test _ step _ body _ =>
    [⟨ctx, init⟩, ⟨ctx, test⟩, ⟨ctx, step⟩, ⟨ctx.loopBody, body⟩]
  | _, .forInStmt _ _ left _ right _ body _ => [⟨ctx, left⟩, ⟨ctx, right⟩, ⟨ctx.loopBody, body⟩]
  | _, .forOfStmt _ _ _ left _ right _ body _ => [⟨ctx, left⟩, ⟨ctx, right⟩, ⟨ctx.loopBody, body⟩]
  | _, .whileStmt _ _ test _ body _ => [⟨ctx, test⟩, ⟨ctx.loopBody, body⟩]
  | _, .doWhileStmt _ body _ _ test _ _ _ => [⟨ctx.loopBody, body⟩, ⟨ctx, test⟩]
  | _, .returnStmt _ value _ _ => [⟨ctx, value⟩]
  | _, .throwStmt _ value _ _ => [⟨ctx, value⟩]
  | _, .tryStmt _ guarded handler finalizer _ => [⟨ctx, guarded⟩, ⟨ctx, handler⟩, ⟨ctx, finalizer⟩]
  | _, .switchStmt _ _ subject _ _ cases _ _ => [⟨ctx, subject⟩, ⟨ctx.switchBody, cases⟩]
  | _, .labeledStmt label _ body _ => [⟨ctx.labelled label.name, body⟩]
  | _, .withStmt _ _ subject _ body _ => [⟨ctx, subject⟩, ⟨ctx, body⟩]
  | _, .exportNamed _ stmt _ _ _ _ => [⟨ctx, stmt⟩]
  | _, .exportDefault _ _ value _ => [⟨ctx, value⟩]
  | _, .block _ stmts _ _ => [⟨ctx, stmts⟩]
  | _, .elseClause _ body => [⟨ctx, body⟩]
  | _, .declaration _ _ items _ _ _ => [⟨ctx, items⟩]
  | _, .declarator target init _ => [⟨ctx, target⟩, ⟨ctx, init⟩]
  | _, .forDeclaration d => [⟨ctx, d⟩]
  | _, .forExpr e => [⟨ctx, e⟩]
  | _, .targetDeclaration d => [⟨ctx, d⟩]
  | _, .targetPattern p => [⟨ctx, p⟩]
  | _, .catchClause _ param body _ => [⟨ctx, param⟩, ⟨ctx, body⟩]
  | _, .catchParam _ target _ => [⟨ctx, target⟩]
  | _, .finallyClause _ body => [⟨ctx, body⟩]
  | _, .switchCase _ test _ body _ => [⟨ctx, test⟩, ⟨ctx, body⟩]
  | _, .exportFunction f => [⟨ctx, f⟩]
  | _, .exportClass c => [⟨ctx, c⟩]
  | _, .exportExpr value _ => [⟨ctx, value⟩]
  | _, .element _ _ attributes _ _ _ children _ _ => [⟨ctx, attributes⟩, ⟨ctx, children⟩]
  | _, .fragment _ _ children _ _ _ _ => [⟨ctx, children⟩]
  | _, .attribute _ _ value _ => [⟨ctx, value⟩]
  | _, .spreadAttribute _ _ operand _ _ => [⟨ctx, operand⟩]
  | _, .exprValue c => [⟨ctx, c⟩]
  | _, .elementValue e => [⟨ctx, e⟩]
  | _, .fragmentValue f => [⟨ctx, f⟩]
  | _, .exprContainer _ value _ _ => [⟨ctx, value⟩]
  | _, .exprChild c => [⟨ctx, c⟩]
  | _, .spreadChild _ _ operand _ _ => [⟨ctx, operand⟩]
  | _, .elementChild e => [⟨ctx, e⟩]
  | _, .fragmentChild f => [⟨ctx, f⟩]
  | _, .nil | _, .absent | _, .identifier _ | _, .literal _ | _, .receiver _ _ | _, .superclass _ _
  | _, .metaProperty _ _ _ _ | _, .nameKey _ | _, .literalKey _ | _, .privateKey _
  | _, .nameAccess _ | _, .privateAccess _ | _, .bareParam _ | _, .strayTerminator _ _
  | _, .namePattern _ | _, .emptyStmt _ _ | _, .breakStmt _ _ _ _ | _, .continueStmt _ _ _ _
  | _, .debuggerStmt _ _ _ | _, .importStmt _ | _, .exportAll _ | _, .stringValue _
  | _, .emptyContainer _ _ _ _ _ | _, .textChild _ => []

/-! ## Occurrences -/

/-- A construct with its surroundings that occurs in another one: the other one itself, one of its
parts, a part of a part, and so on. -/
inductive Contains : {c d : Category} → Context → Tree c → Context → Tree d → Prop where
  /-- A construct occurs in itself. -/
  | whole {c : Category} {ctx : Context} {t : Tree c} : Contains ctx t ctx t
  /-- What occurs in a part occurs in the whole. -/
  | inPart {c d : Category} {ctx ctx' : Context} {t : Tree c} {x : Tree d} (part : Part)
    (mem : part ∈ t.innerParts ctx) (inside : Contains part.surroundings part.tree ctx' x) :
    Contains ctx t ctx' x

/-- What occurs in something that occurs in a construct occurs in it. -/
theorem Contains.trans {c d e : Category} {ctx ctx' ctx'' : Context} {t : Tree c} {x : Tree d}
    {y : Tree e} (h : Contains ctx t ctx' x) (hy : Contains ctx' x ctx'' y) :
    Contains ctx t ctx'' y := by
  induction h with
  | whole => exact hy
  | inPart part mem _ ih => exact .inPart part mem (ih hy)

/-- What is true of every construct in a tree. -/
structure Everywhere (P : Context → {c : Category} → Tree c → Prop) {c : Category} (ctx : Context)
    (t : Tree c) : Prop where
  /-- It is true of everything that occurs in the tree. -/
  of : ∀ {d : Category} {ctx' : Context} {x : Tree d}, Contains ctx t ctx' x → P ctx' x

section

variable {c : Category} {ctx : Context} {t : Tree c}
  {P : Context → {c : Category} → Tree c → Prop}

/-- What is true of a tree and everywhere in its parts is true everywhere. -/
theorem everywhere_iff : t.Everywhere P ctx ↔
    P ctx t ∧ ∀ part ∈ t.innerParts ctx, part.tree.Everywhere P part.surroundings := by
  constructor
  · exact fun h => ⟨h.of .whole, fun part hmem => ⟨fun hx => h.of (.inPart part hmem hx)⟩⟩
  · rintro ⟨ht, hparts⟩
    refine ⟨fun hx => ?_⟩
    cases hx with
    | whole => exact ht
    | inPart part hmem hx => exact (hparts part hmem).of hx

theorem Everywhere.here (h : t.Everywhere P ctx) : P ctx t := h.of .whole

theorem Everywhere.part (h : t.Everywhere P ctx) {part : Part} (hmem : part ∈ t.innerParts ctx) :
    part.tree.Everywhere P part.surroundings := (everywhere_iff.1 h).2 part hmem

end

/-! ## Extents -/

section

variable (g : Span → Span) {c : Category}

@[simp]
theorem isUseStrict_mapSpans (stmt : Stmt) : (stmt.mapSpans g).isUseStrict = stmt.isUseStrict := by
  cases stmt <;> rfl

@[simp]
theorem hasUseStrict_mapSpans (body : Tree .body) :
    hasUseStrict (body.mapSpans g) = hasUseStrict body := by
  cases body with
  | bodyBlock openLead stmts closeLead span =>
    simp [hasUseStrict, toList_mapSpans, List.any_map, Function.comp_def]

@[simp]
theorem arrowHasUseStrict_mapSpans (body : Tree .arrowBody) :
    arrowHasUseStrict (body.mapSpans g) = arrowHasUseStrict body := by
  cases body with
  | blockBody body => simp [arrowHasUseStrict]
  | exprBody value => rfl

theorem atArrowOf_mapSpans (ctx : Context) (body : Tree .arrowBody) :
    atArrowOf ctx (body.mapSpans g) = atArrowOf ctx body := by
  unfold atArrowOf
  rw [arrowHasUseStrict_mapSpans]

theorem inFunctionOf_mapSpans (ctx : Context) (head : FunctionHead) (body : Tree .body) :
    inFunctionOf ctx head (body.mapSpans g) = inFunctionOf ctx head body := by
  unfold inFunctionOf
  rw [hasUseStrict_mapSpans]

theorem valueParts_mapSpans (ctx : Context) (isShorthand : Bool) (value : Expr) :
    valueParts ctx isShorthand (value.mapSpans g) =
      (valueParts ctx isShorthand value).map (·.mapSpans g) := by
  cases isShorthand with
  | false => rfl
  | true =>
    cases value
    case assignment target opLead op value span =>
      cases op <;> cases target <;> rfl
    all_goals rfl

/-- Parts do not depend on extents. -/
theorem innerParts_mapSpans (ctx : Context) (t : Tree c) :
    (t.mapSpans g).innerParts ctx = (t.innerParts ctx).map (·.mapSpans g) := by
  cases t
  case arrow isAsync asyncLead params arrowLead body span =>
    change [Part.mk (atArrowOf ctx (body.mapSpans g)) (params.mapSpans g),
      Part.mk ((atArrowOf ctx (body.mapSpans g)).arrowBody isAsync) (body.mapSpans g)] = _
    rw [atArrowOf_mapSpans]
    rfl
  case function head params body span =>
    change [Part.mk { inFunctionOf ctx head (body.mapSpans g) with inParameters := true }
        (params.mapSpans g),
      Part.mk (inFunctionOf ctx head (body.mapSpans g)) (body.mapSpans g)] = _
    rw [inFunctionOf_mapSpans]
    rfl
  case property mods key value kind isMethod isShorthand colonLead span =>
    rw [mapSpans_property]
    exact congrArg (Part.mk ctx (key.mapSpans g) :: ·) (valueParts_mapSpans g ctx isShorthand value)
  case patternProperty key value isShorthand colonLead span =>
    rw [mapSpans_patternProperty]
    rfl
  all_goals rfl

/-- What occurs in a tree with other extents occurs in the tree. -/
theorem Contains.of_mapSpans {ctx ctx' : Context} {t : Tree c} {d : Category} {x : Tree d}
    (h : Contains ctx (t.mapSpans g) ctx' x) :
    ∃ y, Contains ctx t ctx' y ∧ x = y.mapSpans g := by
  generalize hs : t.mapSpans g = s at h
  induction h with
  | whole => exact ⟨t, .whole, hs.symm⟩
  | inPart part mem _ ih =>
    subst hs
    rw [innerParts_mapSpans] at mem
    obtain ⟨part, hmem, rfl⟩ := List.mem_map.1 mem
    obtain ⟨y, hy, rfl⟩ := ih rfl
    exact ⟨y, .inPart part hmem hy, rfl⟩

end

end Tree

end Verbatim
