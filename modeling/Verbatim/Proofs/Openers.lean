import Verbatim.Proofs.Sight
import Verbatim.Proofs.Tree.Conversion

/-!
# What expression statements begin with

A statement that begins with a brace is a block, and one that begins with `function` is a
declaration, so no expression statement begins with either. In a list of statements none begins with
`class`, with `async function` on one line or with `let [` either. Where only a statement may stand,
as the body of a branch, a loop or a label, nothing looks for these three, and the expression that
they begin is read.

An expression begins with the construct that stands leftmost in it, and that one is told from the
lookahead and the token behind it.

## Main definitions

* `Verbatim.Tree.opener` — what an expression begins with.
* `Verbatim.Opener.Fits` — the tokens that tell of it.

## Main results

* `Verbatim.Grammar.statement_opener` — no statement begins an expression with a brace or with
  `function`.
* `Verbatim.Grammar.item_opener` — nor does an item of a list with any of the others.
* `Verbatim.parse_nested_class` — the body of a branch may.
-/

namespace Verbatim

open Grammar Parse

/-! ## Openers -/

/-- What an expression begins with, as far as an expression statement must not begin with it. -/
inductive Opener where
  /-- A brace. -/
  | brace
  /-- The word `function`. -/
  | function
  /-- The words `async function`, on one line. -/
  | asyncFunction
  /-- The word `class`. -/
  | classWord
  /-- The word `let` and a bracket. -/
  | letBracket
  /-- Anything else. -/
  | other
deriving DecidableEq, Repr

namespace Tree

/-- Whether an expression is the name `let`, as it is spelled. -/
def isLet : {c : Category} → Tree c → Bool
  | _, .identifier id => id.raw == "let"
  | _, _ => false

/-- Whether a property is accessed by an expression in brackets. -/
def isIndexed : Tree .access → Bool
  | .computedAccess .. => true
  | _ => false

/-- What an expression begins with, and likewise the target of an assignment, the items of a
sequence and a statement that is an expression. -/
def opener : {c : Category} → Tree c → Opener
  | _, .object .. | _, .objectPattern .. => .brace
  | _, .functionExpr (.function head _ _ _) => if head.isAsync then .asyncFunction else .function
  | _, .classExpr _ => .classWord
  | _, .memberAccess base isOptional _ access _ =>
    if base.isLet && !isOptional && access.isIndexed then .letBracket else base.opener
  | _, .tagged tag _ _ => tag.opener
  | _, .call callee _ _ _ _ => callee.opener
  | _, .update _ isBefore _ operand _ => if isBefore then .other else operand.opener
  | _, .binary left _ _ _ _ => left.opener
  | _, .assignment target _ _ _ _ => target.opener
  | _, .exprPattern target => target.opener
  | _, .conditional test _ _ _ _ _ => test.opener
  | _, .sequence items _ _ => items.opener
  | _, .cons head _ => head.opener
  | _, .exprStmt value _ _ _ => value.opener
  | _, _ => .other

/-- A property access begins with its object, unless that is the name `let` in front of a
bracket. -/
theorem opener_memberAccess {base : Expr} {isOptional : Bool} {dotLead : String}
    {access : Tree .access} {span : Span}
    (h : base.isLet = false ∨ isOptional = true ∨ access.isIndexed = false) :
    (memberAccess base isOptional dotLead access span).opener = base.opener := by
  change (if base.isLet && !isOptional && access.isIndexed then .letBracket else base.opener) = _
  rcases h with h | h | h <;> simp [h]

end Tree

/-! ## Openers and tokens -/

theorem Token.isWord_raw {t : Token} {word : String} (h : t.isWord word = true) : t.raw = word := by
  simp only [isWord, Bool.and_eq_true, beq_iff_eq] at h
  exact h.2

/-- The tokens ahead may be those of an opener. -/
def Opener.Fits (o : Opener) (s : Sight) : Prop :=
  match o with
  | .brace => s.token.isPunctuator "\x7b" = true
  | .function => s.token.isKeyword "function" = true
  | .asyncFunction => s.token.isWord "async" = true ∧
    ∀ u ∈ s.after, u.isKeyword "function" = true ∧ u.newlineBefore = false
  | .classWord => s.token.isKeyword "class" = true
  | .letBracket => s.token.kind = .identifier ∧ s.token.raw = "let" ∧
    ∀ u ∈ s.after, u.isPunctuator "[" = true
  | .other => True

/-- What fits once the token behind the lookahead was looked at fitted before. -/
theorem Opener.Fits.of_peek {o : Opener} {s : Sight} {u : Token} (hu : s.MayPrecede u)
    (h : o.Fits { s with after := some u }) : o.Fits s := by
  have hafter : ∀ {P : Token → Prop}, (∀ v ∈ some u, P v) → ∀ v ∈ s.after, P v :=
    fun hall v hv => hu v hv ▸ hall u rfl
  cases o with
  | brace | function | classWord | other => exact h
  | asyncFunction => exact ⟨h.1, hafter h.2⟩
  | letBracket => exact ⟨h.1, h.2.1, hafter h.2.2⟩

namespace Opener

/-- What an expression begins with that is a statement: neither a brace nor `function`. -/
def StartsStatement (o : Opener) : Prop := o ≠ .brace ∧ o ≠ .function

/-- What an expression begins with that is an item of a list of statements, with the given first
token. A word that is spelled with an escape is no word of the language. -/
def StartsItem (first : Token) (o : Opener) : Prop :=
  o = .other ∨ o = .letBracket ∧ first.escaped = true

namespace Fits

variable {o : Opener} {s : Sight}

theorem startsStatement (h : o.Fits s) (hbrace : s.token.isPunctuator "\x7b" = false)
    (hfunction : s.token.isKeyword "function" = false) : o.StartsStatement := by
  constructor
  · rintro rfl
    exact absurd (hbrace.symm.trans h) Bool.false_ne_true
  · rintro rfl
    exact absurd (hfunction.symm.trans h) Bool.false_ne_true

theorem startsItem (h : o.Fits s) (hstatement : o.StartsStatement)
    (hclass : s.token.isKeyword "class" = false) (hasync : ¬ asyncFunction.Fits s)
    (hlet : letBracket.Fits s → s.token.escaped = true) : o.StartsItem s.token := by
  cases o with
  | brace => exact absurd rfl hstatement.1
  | function => exact absurd rfl hstatement.2
  | asyncFunction => exact absurd h hasync
  | classWord => exact absurd (hclass.symm.trans h) Bool.false_ne_true
  | letBracket => exact .inr ⟨rfl, hlet h⟩
  | other => exact .inl rfl

end Fits

end Opener

/-- An expression begins with nothing that needs attention, and is not the name `let`. -/
def Tree.IsPlain (e : Expr) : Prop := e.opener = .other ∧ e.isLet = false

/-! ### Expressions that begin with something else -/

namespace Parse.Returns

variable {p : Productions} {ctx : Context}

theorem parenthesized {start : Position} {g : Group} :
    (Grammar.parenthesized ctx start g).Returns Tree.IsPlain := by
  simp only [Grammar.parenthesized]
  refine ite (fun _ => of_fails (unexpectedHere ctx)) fun _ => ?_
  cases g.spreadSite? with
  | some site => exact of_fails (fail _ _ _)
  | none => exact bind fun _ => bind fun _ => bind fun _ => ⟨rfl, rfl⟩

theorem group : (Grammar.group p ctx).Returns Tree.IsPlain := by
  refine bind fun start => bind fun g => bind fun arrow => ite (fun _ => ?_) fun _ => parenthesized
  exact bind fun _ => ⟨rfl, rfl⟩

theorem arrayLiteral : (Grammar.arrayLiteral p ctx).Returns Tree.IsPlain :=
  bind fun _ => bind fun _ => bind fun _ => bind fun _ => bind fun _ => ⟨rfl, rfl⟩

theorem objectLiteral :
    (Grammar.objectLiteral p ctx).Returns fun v => v.opener = .brace ∧ v.isLet = false :=
  bind fun _ => bind fun _ => bind fun _ => bind fun _ => bind fun _ => ⟨rfl, rfl⟩

theorem markupRoot : (Grammar.markupRoot p ctx).Returns Tree.IsPlain := by
  refine bind fun _ => bind fun _ => bind fun _ => bind fun _ => bind fun m => ?_
  cases m <;> exact ⟨rfl, rfl⟩

theorem accessName : (Grammar.accessName ctx).Returns fun access => access.isIndexed = false := by
  refine bind fun t => ite (fun _ => bind fun _ => rfl) fun _ => ?_
  exact ite (fun _ => bind fun _ => bind fun _ => rfl) fun _ => fail _ _ _

theorem metaProperty {first : Token} {word : String} {check : Parse Unit} :
    (Grammar.metaProperty ctx first word check).Returns Tree.IsPlain := by
  refine bind fun _ => bind fun _ => bind fun _ => ?_
  refine ite (fun _ => of_fails (unexpectedHere ctx)) fun _ => ?_
  exact bind fun _ => bind fun _ => bind fun _ => ⟨rfl, rfl⟩

theorem superclass : (Grammar.superclass ctx).Returns Tree.IsPlain := by
  refine bind fun t => bind fun _ => ite (fun _ => of_fails (fail _ _ _)) fun _ => ?_
  exact bind fun _ => ⟨rfl, rfl⟩

theorem construct : (Grammar.construct p ctx).Returns Tree.IsPlain := by
  refine bind fun t => bind fun _ => ite (fun _ => metaProperty) fun _ => ?_
  refine bind fun _ => ite (fun _ => of_fails (unexpectedHere ctx)) fun _ => bind fun base => ?_
  refine ite (fun _ => of_fails (unexpectedHere ctx)) fun _ => bind fun hasArguments => ?_
  exact ite (fun _ => bind fun _ => bind fun _ => ⟨rfl, rfl⟩) fun _ =>
    bind fun _ => bind fun _ => ⟨rfl, rfl⟩

theorem unaryOperation {op : UnaryOp} : (Grammar.unaryOperation p ctx op).Returns Tree.IsPlain := by
  refine bind fun t => bind fun operand => bind fun _ => ?_
  split
  · exact ite (fun _ => bind fun _ => bind fun _ => ⟨rfl, rfl⟩) fun _ => bind fun _ => ⟨rfl, rfl⟩
  · exact bind fun _ => ⟨rfl, rfl⟩

theorem awaitOperation : (Grammar.awaitOperation p ctx).Returns Tree.IsPlain := by
  refine ite (fun _ => bind fun _ => of_fails (reject _ _)) fun _ => ?_
  exact bind fun _ => bind fun _ => bind fun _ => bind fun _ => ⟨rfl, rfl⟩

theorem updateBefore {op : UpdateOp} : (Grammar.updateBefore p ctx op).Returns Tree.IsPlain :=
  bind fun _ => bind fun _ => bind fun _ => bind fun _ => bind fun _ => ⟨rfl, rfl⟩

theorem simpleTarget {left : Expr} {first : Token} {fault : Fault} :
    (Parse.simpleTarget ctx left first fault).Returns fun target =>
    target.opener = left.opener := by
  unfold Parse.simpleTarget
  split
  · exact ite (fun _ => bind fun _ => rfl) fun _ => rfl
  · exact ite (fun _ => bind fun _ => rfl) fun _ => rfl

/-- A target begins as the expression did that it was converted from. -/
theorem assignmentTarget {left : Expr} {first : Token} {fault : Fault} :
    (Parse.assignmentTarget ctx left first fault).Returns
      fun target => target.opener = left.opener := by
  unfold Parse.assignmentTarget
  split
  · refine convertAs fun v faults hv => ?_
    cases Tree.becomes_of_asTarget hv with
    | array parts => rfl
    | other _ unlike => cases unlike
  · refine convertAs fun v faults hv => ?_
    cases Tree.becomes_of_asTarget hv with
    | object parts => rfl
    | other _ unlike => cases unlike
  · exact simpleTarget

theorem arrow_isPlain {start : Position} {asyncLead : Option String} {params : Tree .arrowParams}
    {site : Site} : (Grammar.arrow p ctx start asyncLead params site).Returns Tree.IsPlain := by
  refine arrow.imp fun e ⟨arrowLead, body, span, he⟩ => ?_
  rw [he]
  exact ⟨rfl, rfl⟩

theorem bareArrow {start : Position} {asyncLead : Option String} {id : Ident} {t : Token} :
    (Grammar.bareArrow p ctx start asyncLead id t).Returns Tree.IsPlain := by
  refine ite (fun _ => of_fails (fail _ _ _)) fun _ => ?_
  exact ite (fun _ => bind fun _ => arrow_isPlain) fun _ => arrow_isPlain

theorem groupArrow {start : Position} {asyncLead : Option String} {openLead closeLead : String}
    {items : List Expr} {separators : List String} :
    (Grammar.groupArrow p ctx start asyncLead openLead items separators closeLead).Returns
      Tree.IsPlain :=
  bind fun _ => ite (fun _ => of_fails (reject _ _)) fun _ => arrow_isPlain

theorem arrowAfter? {first : Token} {value : Expr} {pendingBefore : Option Site} :
    (Grammar.arrowAfter? p ctx first value pendingBefore).Returns fun w => ∀ v ∈ w, v.IsPlain := by
  have hsome : ∀ {action : Parse Expr}, action.Returns Tree.IsPlain →
      (some <$> action).Returns fun w => ∀ v ∈ w, v.IsPlain := by
    refine fun h => returns_map.2 (h.imp fun v hv => ?_)
    rintro w ⟨⟩
    exact hv
  refine bind fun t => ite (fun _ => nofun) fun _ => ?_
  split
  · exact ite (fun _ => of_fails (fail _ _ _)) fun _ => bind fun _ => hsome groupArrow
  · exact ite (fun _ => of_fails (fail _ _ _)) fun _ => bind fun _ => hsome bareArrow
  · exact nofun

theorem assignTo {first : Token} {left : Expr} {op : AssignOp} {pendingBefore : Option Site} :
    (Grammar.assignTo p ctx first left op pendingBefore).Returns
      fun v => v.opener = left.opener := by
  have hrest : ∀ target : Pattern, target.opener = left.opener →
      (setPending pendingBefore >>= fun _ => lead >>= fun opLead =>
        p.assignment ctx >>= fun value => finish .assignment first.start >>= fun span =>
          Pure.pure (Tree.assignment target opLead op value span)).Returns
        fun v => v.opener = left.opener :=
    fun _ h => bind fun _ => bind fun _ => bind fun _ => bind fun _ => h
  refine ite (fun _ => ?_) fun _ => ?_
  · exact returns_bind.2 (assignmentTarget.imp hrest)
  · exact returns_bind.2 (simpleTarget.imp hrest)

theorem settle {value : Expr} {pendingBefore : Option Site} :
    (Grammar.settle value pendingBefore).Returns fun v => v = value := by
  refine bind fun now => ?_
  cases now with
  | none => exact bind fun _ => rfl
  | some site => exact ite (fun _ => of_fails (reject _ _)) fun _ => bind fun _ => rfl

theorem yieldExpression : (Grammar.yieldExpression p ctx).Returns Tree.IsPlain := by
  refine ite (fun _ => bind fun _ => of_fails (reject _ _)) fun _ => ?_
  refine bind fun t => bind fun first => ?_
  have hrest : ∀ operand : Option String × Tree (.maybe .expr),
      (finish .yield t.start >>= fun span =>
        Pure.pure (Tree.yield t.lead operand.1 operand.2 span)).Returns Tree.IsPlain :=
    fun _ => bind fun _ => ⟨rfl, rfl⟩
  refine ite (fun _ => bind hrest) fun _ =>
    ite (fun _ => bind fun _ => bind fun _ => bind hrest) fun _ => ?_
  exact ite (fun _ => bind fun _ => bind hrest) fun _ => bind hrest

theorem asyncBareArrow : (Grammar.asyncBareArrow p ctx).Returns Tree.IsPlain := by
  refine bind fun _ => bind fun _ => bind fun _ => bind fun _ => bind fun _ => ?_
  exact ite (fun _ => of_fails (fail _ _ _)) fun _ => bareArrow

theorem importExpression : (Grammar.importExpression p ctx).Returns Tree.IsPlain := by
  refine bind fun t => bind fun _ => ite (fun _ => metaProperty) fun _ => ?_
  exact bind fun _ => bind fun _ => bind fun _ => bind fun _ => ⟨rfl, rfl⟩

/-! ### Statements that are no expressions -/

theorem labelledStatement {start : Position} {label : Ident} :
    (Grammar.labelledStatement p ctx start label).Returns (·.opener = .other) :=
  ite (fun _ => of_fails (reject _ _)) fun _ => bind fun _ => bind fun _ => bind fun _ => rfl

theorem breakStatement : (Grammar.breakStatement ctx).Returns (·.opener = .other) :=
  bind fun _ => bind fun _ => ite (fun _ => of_fails (reject _ _)) fun _ =>
    bind fun _ => bind fun _ => rfl

theorem continueStatement : (Grammar.continueStatement ctx).Returns (·.opener = .other) :=
  bind fun _ => ite (fun _ => of_fails (reject _ _)) fun _ =>
    bind fun _ => bind fun _ => bind fun _ => rfl

theorem debuggerStatement : (Grammar.debuggerStatement ctx).Returns (·.opener = .other) :=
  bind fun _ => bind fun _ => bind fun _ => rfl

theorem doWhileLoop : (Grammar.doWhileLoop p ctx).Returns (·.opener = .other) := by
  refine bind fun _ => bind fun _ => bind fun _ => bind fun _ => bind fun _ => ?_
  exact ite (fun _ => bind fun _ => bind fun _ => rfl) fun _ => bind fun _ => bind fun _ => rfl

theorem finishFor {head : ForHead} {init : Tree (.maybe .forInit)} :
    (Grammar.finishFor p ctx head init).Returns (·.opener = .other) := by
  refine ite (fun _ => of_fails (unexpectedHere ctx)) fun _ => ?_
  refine bind fun _ => bind fun _ => bind fun _ => ?_
  exact bind fun _ => bind fun _ => bind fun _ => bind fun _ => rfl

theorem finishForEach {head : ForHead} {left : Tree .forTarget} :
    (Grammar.finishForEach p ctx head left).Returns (·.opener = .other) := by
  refine bind fun _ => ite (fun _ => ?_) fun _ => ?_
  · refine ite (fun _ => of_fails (unexpectedHere ctx)) fun _ => bind fun _ => bind fun _ => ?_
    exact bind fun _ => bind fun _ => bind fun _ => rfl
  · exact bind fun _ => bind fun _ => bind fun _ => bind fun _ => bind fun _ => rfl

theorem forVariables {head : ForHead} :
    (Grammar.forVariables p ctx head).Returns (·.opener = .other) := by
  refine bind fun _ => bind fun _ => bind fun _ => bind fun _ => ?_
  split
  · exact ite (fun _ => of_fails (reject _ _)) fun _ => finishForEach
  · exact bind fun _ => finishFor

theorem forExpression {head : ForHead} :
    (Grammar.forExpression p ctx head).Returns (·.opener = .other) := by
  refine bind fun _ => bind fun _ => bind fun _ => bind fun _ => bind fun _ => ?_
  refine ite (fun _ => ?_) fun _ => ?_
  · exact bind fun _ => bind fun _ => finishForEach
  · exact bind fun _ => bind fun _ => bind fun _ => finishFor

theorem forLoop : (Grammar.forLoop p ctx).Returns (·.opener = .other) := by
  have hrest : ∀ (head : ForHead) (isDeclaration : Bool),
      (if isDeclaration then Grammar.forVariables p ctx head
        else Grammar.forExpression p ctx head).Returns (·.opener = .other) :=
    fun _ _ => ite (fun _ => forVariables) fun _ => forExpression
  refine bind fun _ => bind fun _ => bind fun _ => bind fun _ => ?_
  refine ite (fun _ => finishFor) fun _ => ?_
  refine ite (fun _ => bind fun _ => hrest _ _) fun _ => ?_
  exact ite (fun _ => bind fun _ => hrest _ _) fun _ => bind fun _ => hrest _ _

theorem functionDeclaration : (Grammar.functionDeclaration p ctx).Returns (·.opener = .other) :=
  returns_map.2 ((triv _).imp fun _ _ => rfl)

theorem nestedFunction : (Grammar.nestedFunction p ctx).Returns (·.opener = .other) :=
  ite (fun _ => bind fun _ => bind fun _ => functionDeclaration) fun _ => functionDeclaration

theorem classDeclaration : (.classStmt <$> classDefinition p ctx true true : Parse Stmt).Returns
    (·.opener = .other) :=
  returns_map.2 ((triv _).imp fun _ _ => rfl)

theorem blockStatement : (.blockStmt <$> block p ctx : Parse Stmt).Returns (·.opener = .other) :=
  returns_map.2 ((triv _).imp fun _ _ => rfl)

theorem emptyStatement : Grammar.emptyStatement.Returns (·.opener = .other) :=
  bind fun _ => bind fun _ => rfl

theorem ifStatement : (Grammar.ifStatement p ctx).Returns (·.opener = .other) :=
  bind fun _ => bind fun _ => bind fun _ => bind fun _ => bind fun _ => rfl

theorem returnStatement : (Grammar.returnStatement p ctx).Returns (·.opener = .other) := by
  have hrest : ∀ (t : Token),
      (look >>= fun first => if endsStatement first then
          Pure.pure .absent >>= fun value => terminator ctx >>= fun ending =>
            finish .returnStmt t.start >>= fun span =>
              Pure.pure (Tree.returnStmt t.lead value ending span)
        else (.present <$> p.expression ctx) >>= fun value => terminator ctx >>= fun ending =>
            finish .returnStmt t.start >>= fun span =>
              Pure.pure (Tree.returnStmt t.lead value ending span)).Returns (·.opener = .other) :=
    fun _ => bind fun _ => ite (fun _ => bind fun _ => bind fun _ => bind fun _ => rfl) fun _ =>
      bind fun _ => bind fun _ => bind fun _ => rfl
  exact bind fun t => ite (fun _ => bind fun _ => hrest t) fun _ => hrest t

theorem switchStatement : (Grammar.switchStatement p ctx).Returns (·.opener = .other) :=
  bind fun _ => bind fun _ => bind fun _ => bind fun _ => bind fun _ => bind fun _ => rfl

theorem throwStatement : (Grammar.throwStatement p ctx).Returns (·.opener = .other) :=
  bind fun _ => bind fun _ => ite (fun _ => of_fails (reject _ _)) fun _ =>
    bind fun _ => bind fun _ => bind fun _ => rfl

theorem tryStatement : (Grammar.tryStatement p ctx).Returns (·.opener = .other) :=
  bind fun _ => bind fun _ => bind fun _ => bind fun _ =>
    ite (fun _ => of_fails (reject _ _)) fun _ => bind fun _ => rfl

theorem variableStatement : (Grammar.variableStatement p ctx).Returns (·.opener = .other) :=
  bind fun _ => bind fun _ => bind fun _ => bind fun _ => rfl

theorem whileLoop : (Grammar.whileLoop p ctx).Returns (·.opener = .other) :=
  bind fun _ => bind fun _ => bind fun _ => bind fun _ => rfl

theorem withStatement : (Grammar.withStatement p ctx).Returns (·.opener = .other) := by
  have hrest : ∀ t : Token, (inParentheses p ctx >>= fun head => p.statement ctx >>= fun body =>
      finish .withStmt t.start >>= fun span =>
        Pure.pure (Tree.withStmt t.lead head.1 head.2.1 head.2.2 body span)).Returns
          (·.opener = .other) := fun _ => bind fun _ => bind fun _ => bind fun _ => rfl
  exact bind fun t => ite (fun _ => bind fun _ => hrest t) fun _ => hrest t

end Parse.Returns

namespace Parse.Sees

variable {p : Productions} {ctx : Context} {s : Sight}

theorem expectKeyword {word : String} {post : String → Sight → Prop}
    (h : s.token.isKeyword word = true → ∀ text s', post text s') :
    (Parse.expectKeyword ctx word).Sees s post := by
  simp only [Parse.expectKeyword, sees_bind, sees_seesKeyword, sees_ite, sees_unexpectedHere,
    implies_true, and_true]
  exact fun hword => any (h hword)

/-! ### Operands -/

/-- A function begins with its word, or with `async`. -/
theorem function {isDeclaration nameOptional : Bool}
    (hasync : s.token.isWord "async" = true → Opener.asyncFunction.Fits s) :
    (Grammar.function p ctx isDeclaration nameOptional).Sees s fun f _ =>
      (Tree.functionExpr f).opener.Fits s := by
  simp only [Grammar.function, sees_bind, sees_here, sees_seesWord, sees_ite, sees_map, sees_pure]
  refine ⟨fun hword => any fun _ _ => ?_, fun _ => expectKeyword fun hkeyword _ _ => ?_⟩
  · iterate 6 refine any fun _ _ => ?_
    exact hasync hword
  · iterate 5 refine any fun _ _ => ?_
    exact hkeyword

/-- Behind an operand its opener fits, and if it is the name `let`, then that was the lookahead, and
what came behind it comes next. -/
structure Heads (s : Sight) (v : Expr) (s' : Sight) : Prop where
  /-- The opener fits. -/
  fits : v.opener.Fits s
  /-- The name `let` is one token. -/
  word : v.isLet = true → s.token.kind = .identifier ∧ s.token.raw = "let" ∧
    s.MayPrecede s'.token

/-- No expression but a name is the name `let`. -/
theorem Heads.of_fits {v : Expr} {s' : Sight} (h : v.opener.Fits s) (hlet : v.isLet = false) :
    Heads s v s' := ⟨h, fun htrue => absurd (hlet.symm.trans htrue) Bool.false_ne_true⟩

theorem Heads.of_plain {v : Expr} {s' : Sight} (h : v.IsPlain) : Heads s v s' :=
  .of_fits (h.1 ▸ trivial) h.2

theorem checkOperatorWord {t : Token} {post : Unit → Sight → Prop} (h : post () s) :
    (Grammar.checkOperatorWord ctx t).Sees s post := by
  unfold Grammar.checkOperatorWord
  split <;> simp [h]

theorem checkReference {t : Token} {post : Unit → Sight → Prop} (h : post () s) :
    (Grammar.checkReference ctx t).Sees s post := by
  simp only [Grammar.checkReference, sees_bind]
  exact checkOperatorWord (by simp [h])

theorem finishName {t : Token} {post : Ident → Sight → Prop}
    (h : ∀ id, id.raw = t.raw → post id s) : (Parse.finishName t).Sees s post :=
  fun _ _ => h _ rfl

theorem functionExpression
    (hasync : s.token.isWord "async" = true → Opener.asyncFunction.Fits s) :
    (Grammar.functionExpression p ctx).Sees s fun v _ => v.opener.Fits s ∧ v.isLet = false := by
  have hfunction : (Grammar.function p ctx false true).Sees s fun f _ =>
      (Tree.functionExpr f).opener.Fits s ∧ (Tree.functionExpr f).isLet = false :=
    imp (function hasync) fun _ _ hf => ⟨hf, rfl⟩
  exact hfunction

/-- The opener of an operand that starts with a name fits the tokens ahead. -/
theorem nameOperand (hkind : s.token.kind = .identifier) :
    (Grammar.nameOperand p ctx).Sees s (Heads s) := by
  have hname : ∀ {s₁ : Sight}, s₁.token = s.token → (∀ u, s₁.MayPrecede u → s.MayPrecede u) →
      next.Sees s₁ fun t s' => (Grammar.checkReference ctx t).Sees s' fun _ s' =>
        (Parse.finishName t).Sees s' fun id s' => Heads s (.identifier id) s' := by
    intro s₁ ht hnext u hu
    refine checkReference (finishName fun id hid => ⟨trivial, fun hlet => ?_⟩)
    have hraw : id.raw = "let" := beq_iff_eq.1 hlet
    rw [ht] at hid
    exact ⟨hkind, hid.symm.trans hraw, hnext u hu⟩
  simp only [Grammar.nameOperand, sees_bind, sees_seesWord, sees_ite, sees_peek, sees_pure]
  refine ⟨fun hword u hu => ⟨fun hfunction => ?_, fun _ => ?_⟩,
    fun _ => ⟨fun hfalse => absurd hfalse Bool.false_ne_true, fun _ => hname rfl fun _ => id⟩⟩
  · obtain ⟨hfunction, hline⟩ := Bool.and_eq_true_iff.1 hfunction
    have hfits : Opener.asyncFunction.Fits { s with after := some u } := by
      refine ⟨hword, ?_⟩
      rintro v ⟨⟩
      exact ⟨hfunction, by simpa using hline⟩
    exact imp (functionExpression fun _ => hfits) fun _ _ hv => .of_fits (.of_peek hu hv.1) hv.2
  · exact hname rfl fun v hv w hw => (hu w hw).trans (hv u rfl)

/-- The opener of an operand that starts with a reserved word fits the tokens ahead. -/
theorem keywordOperand (hkind : s.token.kind = .keyword) :
    (Grammar.keywordOperand p ctx s.token).Sees s (Heads s) := by
  have hasync : s.token.isWord "async" = true → Opener.asyncFunction.Fits s := fun h => by
    simp [Token.isWord, hkind] at h
  unfold Grammar.keywordOperand
  split
  · exact bindAny fun lead _ => bindAny fun span _ =>
      .of_fits (v := .receiver lead span) trivial rfl
  · exact imp (functionExpression hasync) fun _ _ hv => .of_fits hv.1 hv.2
  · rename_i hraw
    have hclass : s.token.isKeyword "class" = true := by simp [Token.isKeyword, hkind, hraw]
    rw [sees_map]
    exact any fun c _ => .of_fits (v := .classExpr c) hclass rfl
  · trivial

/-- The opener of an operand that starts with a punctuator fits the tokens ahead. -/
theorem punctuatedOperand (hkind : s.token.kind = .punctuator) :
    (Grammar.punctuatedOperand p ctx s.token).Sees s (Heads s) := by
  have hliteral : (do rescanRegex; return .literal (← Grammar.literal ctx) : Parse Expr).Sees s
      (Heads s) := by
    simp only [sees_bind, sees_pure]
    exact any fun _ _ => any fun lit _ => .of_fits (v := .literal lit) trivial rfl
  unfold Grammar.punctuatedOperand
  split
  · exact yielding .group fun v _ hv => .of_plain hv
  · exact yielding .arrayLiteral fun v _ hv => .of_plain hv
  · rename_i hraw
    refine yielding .objectLiteral fun v _ hv => .of_fits ?_ hv.2
    rw [hv.1]
    change s.token.isPunctuator "\x7b" = true
    simp [Token.isPunctuator, hkind, hraw]
  · exact hliteral
  · exact hliteral
  · exact sees_ite.mpr ⟨fun _ => yielding .markupRoot fun v _ hv => .of_plain hv, fun _ => trivial⟩
  · trivial

/-- The opener of an operand fits. -/
theorem operand : (Grammar.operand p ctx).Sees s (Heads s) := by
  have hliteral : (Grammar.literal ctx).Sees s fun lit s' => Heads s (.literal lit) s' :=
    any fun lit _ => .of_fits (v := .literal lit) trivial rfl
  simp only [Grammar.operand, sees_bind, sees_look]
  split
  · exact nameOperand ‹_›
  all_goals try exact hliteral
  · simp only [sees_ite, sees_map, sees_unexpected, implies_true, and_true]
    exact fun _ => any fun t _ => .of_fits (v := .template t) trivial rfl
  · exact punctuatedOperand ‹_›
  · exact keywordOperand ‹_›
  · trivial

/-! ### Chains -/

theorem chainHead : (Grammar.chainHead p ctx).Sees s (Heads s) := by
  simp only [Grammar.chainHead, sees_bind, sees_look, sees_ite]
  exact ⟨fun _ => yielding .superclass fun _ _ hv => .of_plain hv, fun _ =>
    ⟨fun _ => yielding .construct fun _ _ hv => .of_plain hv, fun _ =>
      ⟨fun _ => yielding .importExpression fun _ _ hv => .of_plain hv, fun _ => operand⟩⟩⟩

section

variable {start : Position} {base : Expr} {s₀ : Sight}

theorem finishCall {isOptional : Bool} {optionalLead : String} {args : Tree .arguments}
    (h : base.opener.Fits s₀) : (Grammar.finishCall start base isOptional optionalLead args).Sees s
      fun v s' => Heads s₀ v s' :=
  bindAny fun span _ => .of_fits (v := .call base isOptional optionalLead args span) h rfl

theorem finishAccess {isOptional : Bool} {dotLead : String} {access : Tree .access}
    (h : base.opener.Fits s₀)
    (hplain : base.isLet = false ∨ isOptional = true ∨ access.isIndexed = false) :
    (Grammar.finishAccess start base isOptional dotLead access).Sees s
      fun v s' => Heads s₀ v s' := by
  refine bindAny fun span _ => ?_
  refine .of_fits (v := .memberAccess base isOptional dotLead access span) ?_ rfl
  rw [Tree.opener_memberAccess hplain]
  exact h

/-- A bracket behind the name `let` is what came behind that name. -/
theorem finishIndex {access : Tree .access} (h : Heads s₀ base s)
    (hbracket : s.token.isPunctuator "[" = true) {s' : Sight} :
    (Grammar.finishAccess start base false "" access).Sees s' fun v s' => Heads s₀ v s' := by
  cases hlet : base.isLet with
  | false => exact finishAccess h.fits (.inl hlet)
  | true =>
    obtain ⟨hkind, hraw, hnext⟩ := h.word hlet
    have hfits : Opener.letBracket.Fits s₀ := ⟨hkind, hraw, fun u hu => hnext u hu ▸ hbracket⟩
    refine bindAny fun span _ => .of_fits (v := .memberAccess base false "" access span) ?_ rfl
    change (if base.isLet && !false && access.isIndexed then .letBracket else base.opener).Fits s₀
    split
    · exact hfits
    · exact h.fits

theorem plainLink (h : Heads s₀ base s) :
    (Grammar.plainLink p ctx start base).Sees s fun w s' => ∀ v ∈ w, Heads s₀ v s' := by
  have hsome : ∀ (v : Expr) (s' : Sight), Heads s₀ v s' → ∀ w ∈ some v, Heads s₀ w s' := by
    rintro v s' hv w ⟨⟩
    exact hv
  simp only [Grammar.plainLink, sees_bind, sees_look, sees_ite, sees_map, sees_pure]
  refine ⟨fun _ => any fun _ _ => yielding .accessName fun access _ hname => ?_, fun _ =>
    ⟨fun hbracket => any fun _ _ => ?_, fun _ => ⟨fun _ => any fun _ _ => ?_, fun _ => nofun⟩⟩⟩
  · exact imp (finishAccess h.fits (.inr (.inr hname))) hsome
  · exact imp (finishIndex h hbracket) hsome
  · exact imp (finishCall h.fits) hsome

theorem optionalLink (h : base.opener.Fits s₀) :
    (Grammar.optionalLink p ctx start base).Sees s fun v s' => Heads s₀ v s' := by
  simp only [Grammar.optionalLink, sees_bind, sees_look, sees_ite, sees_reject, implies_true,
    true_and]
  exact any fun _ _ => ⟨fun _ => any fun _ _ => finishCall h, fun _ =>
    ⟨fun _ => any fun _ _ => finishAccess h (.inr (.inl rfl)),
      fun _ _ => any fun _ _ => finishAccess h (.inr (.inl rfl))⟩⟩

theorem taggedTemplate (h : base.opener.Fits s₀) :
    (Grammar.taggedTemplate p ctx start base).Sees s fun v s' => Heads s₀ v s' :=
  bindAny fun quasi _ => bindAny fun span _ => .of_fits (v := .tagged base quasi span) h rfl

end

/-- A link leaves a chain with the opener that it had. -/
theorem chainLink {start : Position} {c : Chain} {s₀ : Sight} (h : Heads s₀ c.value s) :
    (Grammar.chainLink p ctx start c).Sees s fun w s' => ∀ c ∈ w, Heads s₀ c.value s' := by
  simp only [Grammar.chainLink, sees_bind, sees_look, sees_ite, sees_reject, implies_true, true_and,
    sees_pure]
  refine ⟨fun _ => imp (optionalLink h.fits) ?_, fun _ =>
    ⟨fun _ _ => imp (taggedTemplate h.fits) ?_, fun _ => imp (plainLink h) ?_⟩⟩
  · rintro v s' hv c' ⟨⟩
    exact hv
  · rintro v s' hv c' ⟨⟩
    exact hv
  · intro w s' hw c' hc'
    obtain ⟨v, hv, rfl⟩ := Option.map_eq_some_iff.1 hc'
    exact hw v hv

/-- Repeating a step that keeps an invariant. -/
theorem iterate {α : Type} {step : α → Parse (Option α)} {R : α → Sight → Prop} {P : α → Prop}
    (hstep : ∀ v s, R v s → (step v).Sees s fun w s' => ∀ v ∈ w, R v s')
    (hP : ∀ v s, R v s → P v) (rounds : Nat) {v : α} (h : R v s) :
    (Parse.iterate step rounds v).Sees s fun v _ => P v := by
  refine Meets.iterate (c := sights) (R := R) (S := fun v _ => P v) (fun _ => trivial)
    (fun {v s} hv => ?_) rounds h
  · refine imp (hstep v s hv) fun w s' hw => ?_
    cases w with
    | none => exact hP v s hv
    | some w => exact hw w rfl

theorem asyncCall {start : Position} {name : Ident} {s₀ : Sight} :
    (Grammar.asyncCall p ctx start name).Sees s fun v _ => v.opener.Fits s₀ := by
  have hname : (Tree.identifier name).opener.Fits s₀ := trivial
  refine bindAny fun _ _ => bindAny fun _ _ => bindAny fun g _ => bindAny fun _ _ => ?_
  refine sees_ite.mpr ⟨fun _ => bindAny fun _ _ => bindAny fun _ _ => trivial, fun _ => ?_⟩
  refine bindAny fun _ _ => bindAny fun _ _ => sees_bind.mpr ?_
  refine imp (finishCall hname) fun v s' hv => ?_
  exact iterate (R := Heads s₀) (fun _ _ => plainLink) (fun _ _ h => h.fits) _ hv

theorem asyncCallee {first : Token} {value : Expr} {post : Option Ident → Sight → Prop}
    (h : ∀ v, post v s) : (Grammar.asyncCallee first value).Sees s post := by
  simp only [Grammar.asyncCallee, sees_bind, sees_look]
  split <;> simp [h]

theorem chain : (Grammar.chain p ctx).Sees s fun v _ => v.opener.Fits s := by
  simp only [Grammar.chain, sees_bind, sees_look]
  refine imp chainHead fun value s' hvalue => asyncCallee fun name => ?_
  cases name with
  | some name => exact asyncCall
  | none =>
    exact iterate (R := fun (c : Chain) => Heads s c.value) (fun _ _ => chainLink)
      (fun _ _ h => h.fits) _ hvalue

/-! ### Operators -/

theorem updateAfter : (Grammar.updateAfter p ctx).Sees s fun v _ => v.opener.Fits s := by
  simp only [Grammar.updateAfter, sees_bind, sees_look]
  refine imp chain fun value s' hvalue => ?_
  split
  · exact hvalue
  · refine sees_ite.mpr ⟨fun _ => hvalue, fun _ => ?_⟩
    exact bindAny fun _ _ => bindAny fun _ _ => bindAny fun _ _ => hvalue

theorem unary : (Grammar.unary p ctx).Sees s fun v _ => v.opener.Fits s := by
  have hplain : ∀ {action : Parse Expr}, action.Returns Tree.IsPlain →
      action.Sees s fun v _ => v.opener.Fits s :=
    fun h => yielding h fun v _ hv => hv.1 ▸ trivial
  simp only [Grammar.unary, sees_bind, sees_look]
  split
  · exact hplain .unaryOperation
  · refine sees_ite.mpr ⟨fun _ => hplain .awaitOperation, fun _ => ?_⟩
    split
    · exact hplain .updateBefore
    · exact updateAfter

theorem exponentiation : (Grammar.exponentiation p ctx).Sees s fun v _ => v.opener.Fits s := by
  simp only [Grammar.exponentiation, sees_bind, sees_look, sees_ite]
  refine imp unary fun base s' hbase => ⟨fun _ => hbase, fun _ => ?_⟩
  refine ⟨fun _ => any fun _ _ => ?_, fun _ => ?_⟩
  · iterate 5 refine any fun _ _ => ?_
    exact hbase
  · iterate 5 refine any fun _ _ => ?_
    exact hbase

/-- A step of a binary expression begins with what stands to its left. -/
theorem binaryStep {start : Position} {least : Nat} {left : Expr} {s₀ : Sight}
    (h : left.opener.Fits s₀) : (Grammar.binaryStep p ctx start least left).Sees s fun w _ =>
      ∀ v ∈ w, v.opener.Fits s₀ := by
  simp only [Grammar.binaryStep, sees_bind, sees_look]
  split
  · exact nofun
  · simp only [sees_ite, sees_pure]
    refine ⟨fun _ => nofun, fun _ => ?_⟩
    refine bindAny fun _ _ => bindAny fun _ _ => bindAny fun right _ => bindAny fun _ _ => ?_
    have hvalue : ∀ {opLead : String} {op : BinaryOp} {kind : NodeKind} {s : Sight},
        (finish kind start >>= fun span =>
          Pure.pure (some (Tree.binary left opLead op right span))).Sees s fun w _ => ∀ v ∈ w,
            Opener.Fits v.opener s₀ := by
      intro opLead op kind s
      refine bindAny fun span _ => ?_
      rintro v ⟨⟩
      exact h
    exact sees_ite.mpr ⟨fun _ => bindAny fun _ _ => hvalue, fun _ => hvalue⟩

theorem binary {least : Nat} : (Grammar.binary p least ctx).Sees s fun v _ => v.opener.Fits s := by
  simp only [Grammar.binary, sees_bind, sees_here]
  refine imp exponentiation fun first s' hfirst => ?_
  exact iterate (R := fun v _ => v.opener.Fits s) (fun _ _ => binaryStep) (fun _ _ h => h) _ hfirst

theorem conditional : (Grammar.conditional p ctx).Sees s fun v _ => v.opener.Fits s := by
  simp only [Grammar.conditional, sees_bind, sees_here, sees_sees, sees_ite]
  refine imp binary fun test s' htest => ⟨fun _ => htest, fun _ => ?_⟩
  iterate 6 refine any fun _ _ => ?_
  exact htest

/-! ### Assignments -/

/-- The opener of a group fits the tokens ahead. -/
theorem plainCover : (Grammar.plainCover p ctx).Sees s fun v _ => v.opener.Fits s := by
  simp only [Grammar.plainCover, sees_bind, sees_look, sees_pending, sees_setPending]
  refine fun pendingBefore => imp conditional fun value s' hvalue => ?_
  refine yielding .arrowAfter? fun arrow s'' harrow => ?_
  cases arrow with
  | some v =>
    change v.opener.Fits s
    rw [(harrow v rfl).1]
    trivial
  | none =>
    simp only [sees_bind, sees_look]
    split
    · refine yielding .assignTo fun v _ hv => ?_
      rw [hv]
      exact hvalue
    · refine yielding .settle fun v _ hv => ?_
      rw [hv]
      exact hvalue

theorem cover : (Grammar.cover p ctx).Sees s fun v _ => v.opener.Fits s := by
  have hplain : ∀ {action : Parse Expr} {s' : Sight}, action.Returns Tree.IsPlain →
      action.Sees s' fun v _ => v.opener.Fits s :=
    fun h => yielding h fun v _ hv => hv.1 ▸ trivial
  simp only [Grammar.cover, sees_bind, sees_look, sees_ite]
  refine ⟨fun _ => hplain .yieldExpression, fun _ => ?_⟩
  simp only [seesAsyncBareArrow, sees_bind, sees_seesWord, sees_ite, sees_peek, sees_pure]
  refine ⟨fun _ u hu => ⟨fun _ => ?_, fun _ => imp plainCover fun _ _ => .of_peek hu⟩,
    fun _ => ⟨nofun, fun _ => plainCover⟩⟩
  exact hplain .asyncBareArrow

theorem assignment : (Grammar.assignment p ctx).Sees s fun v _ => v.opener.Fits s := by
  simp only [Grammar.assignment, sees_bind, sees_pending, sees_setPending]
  exact fun _ => imp cover fun v _ hv => any fun _ _ => hv

theorem expression : (Grammar.expression p ctx).Sees s fun v _ => v.opener.Fits s := by
  simp only [Grammar.expression, sees_bind, sees_here]
  refine imp assignment fun first s' hfirst => ?_
  simp only [Grammar.sequenceFrom, sees_bind, sees_sees, sees_ite]
  exact ⟨fun _ => hfirst, fun _ => any fun _ _ => any fun _ _ => hfirst⟩

/-! ### Statements -/

theorem expressionStatement :
    (Grammar.expressionStatement p ctx).Sees s fun stmt _ => stmt.opener.Fits s := by
  simp only [Grammar.expressionStatement, sees_bind, sees_look]
  refine imp expression fun value s' hvalue => ?_
  split
  · refine yielding .labelledStatement fun stmt _ hstmt => ?_
    rw [hstmt]
    trivial
  · exact bindAny fun ending _ => bindAny fun span _ => hvalue

/-- A statement that is no expression begins with nothing that needs attention. -/
theorem ofOther {action : Parse Stmt} {s' : Sight} {P : Opener → Prop}
    (h : action.Returns (·.opener = .other)) (hP : P .other) : action.Sees s' fun stmt _ =>
    P stmt.opener :=
  yielding h fun stmt _ hstmt => by
    rw [hstmt]
    exact hP

/-- What a statement that starts with a reserved word begins with may begin a statement. -/
theorem keywordStatement (hkind : s.token.kind = .keyword) :
    (Grammar.keywordStatement p ctx s.token.raw).Sees s
      fun stmt _ => stmt.opener.Fits s ∧ stmt.opener.StartsStatement := by
  have hother : ∀ {action : Parse Stmt}, action.Returns (·.opener = .other) →
      action.Sees s fun stmt _ => stmt.opener.Fits s ∧ stmt.opener.StartsStatement :=
    fun h => ofOther (P := fun o => o.Fits s ∧ o.StartsStatement) h ⟨trivial, nofun, nofun⟩
  unfold Grammar.keywordStatement
  split
  · exact hother .breakStatement
  · exact hother .continueStatement
  · exact hother .debuggerStatement
  · exact hother .doWhileLoop
  · exact hother .forLoop
  · exact hother .nestedFunction
  · exact hother .ifStatement
  · exact hother .returnStatement
  · exact hother .switchStatement
  · exact hother .throwStatement
  · exact hother .tryStatement
  · exact hother .variableStatement
  · exact hother .whileLoop
  · exact hother .withStatement
  · rename_i hfunction _ _ _ _ _ _ _ _
    have hword : s.token.isKeyword "function" = false := by
      simpa [Token.isKeyword, hkind] using hfunction
    have hbrace : s.token.isPunctuator "\x7b" = false := by simp [Token.isPunctuator, hkind]
    exact imp expressionStatement fun stmt _ h => ⟨h, h.startsStatement hbrace hword⟩

theorem statement : (Grammar.statement p ctx).Sees s
    fun stmt _ => stmt.opener.Fits s ∧ stmt.opener.StartsStatement := by
  have hother : ∀ {action : Parse Stmt}, action.Returns (·.opener = .other) →
      action.Sees s fun stmt _ => stmt.opener.Fits s ∧ stmt.opener.StartsStatement :=
    fun h => ofOther (P := fun o => o.Fits s ∧ o.StartsStatement) h ⟨trivial, nofun, nofun⟩
  simp only [Grammar.statement, sees_bind, sees_look, sees_ite]
  refine ⟨fun _ => hother .blockStatement, fun hbrace => ⟨fun _ => hother .emptyStatement, fun _ =>
    ⟨keywordStatement, fun hkind => ?_⟩⟩⟩
  have hword : s.token.isKeyword "function" = false := by simp [Token.isKeyword, hkind]
  exact imp expressionStatement fun stmt _ h =>
    ⟨h, h.startsStatement (Bool.eq_false_iff.2 hbrace) hword⟩

/-- What a declaration that starts with a reserved word begins with may begin an item. -/
theorem keywordItem (hkind : s.token.kind = .keyword) :
    (Grammar.keywordItem p ctx s.token).Sees s fun stmt _ => stmt.opener.StartsItem s.token := by
  have hother : ∀ {action : Parse Stmt}, action.Returns (·.opener = .other) →
      action.Sees s fun stmt _ => stmt.opener.StartsItem s.token :=
    fun h => ofOther (P := (·.StartsItem s.token)) h (.inl rfl)
  have hstatement : ∀ {s' : Sight}, s'.token = s.token → s.token.raw ≠ "class" →
      (Grammar.statement p ctx).Sees s' fun stmt _ => stmt.opener.StartsItem s.token := by
    intro s' ht hraw
    rw [← ht] at hkind hraw ⊢
    refine imp statement fun stmt _ h => h.1.startsItem h.2 ?_ (fun hasync => ?_) fun hlet => ?_
    · simp [Token.isKeyword, hraw]
    · simp [Opener.Fits, Token.isWord, hkind] at hasync
    · exact absurd (hkind.symm.trans hlet.1) (by decide)
  unfold Grammar.keywordItem
  split
  · exact hother .functionDeclaration
  · exact hother .classDeclaration
  · exact hother .variableStatement
  · rename_i himport
    have hraw : s.token.raw ≠ "class" := by rw [himport]; decide
    simp only [isImportExpression, sees_bind, sees_peek, sees_pure, sees_ite, sees_reject,
      implies_true, and_true]
    exact fun u _ _ => hstatement rfl hraw
  · trivial
  · exact hstatement rfl ‹_›

/-- What an item begins with may begin one that has its first token. -/
theorem item : (Grammar.item p ctx).Sees s fun stmt _ => stmt.opener.StartsItem s.token := by
  have hother : ∀ {action : Parse Stmt} {s' : Sight}, action.Returns (·.opener = .other) →
      action.Sees s' fun stmt _ => stmt.opener.StartsItem s.token :=
    fun h => ofOther (P := (·.StartsItem s.token)) h (.inl rfl)
  simp only [Grammar.item, isLexicalDeclaration, isAsyncFunction, sees_bind, sees_look, sees_ite,
    sees_peek, sees_pure]
  refine ⟨keywordItem, fun hkind => ?_⟩
  have hclass : s.token.isKeyword "class" = false := by simp [Token.isKeyword, hkind]
  refine ⟨fun hlet u _ => ⟨fun _ => hother .variableStatement, fun hdeclares => ?_⟩, fun hlet =>
    ⟨fun hasync u _ => ⟨fun _ => hother .functionDeclaration, fun hfunction => ?_⟩,
      fun hasync => ?_⟩⟩
  · refine imp (statement (s := { s with after := some u })) fun stmt _ h =>
      h.1.startsItem h.2 hclass (fun h => ?_) fun h => ?_
    · exact absurd (Token.isWord_raw hlet) (Token.isWord_raw h.1 ▸ by decide)
    · have hbracket : u.isPunctuator "[" = true := h.2.2 u rfl
      simp [hbracket] at hdeclares
  · refine imp (statement (s := { s with after := some u })) fun stmt _ h =>
      h.1.startsItem h.2 hclass (fun h => ?_) fun h => ?_
    · obtain ⟨hword, hline⟩ := h.2 u rfl
      simp [hword, hline] at hfunction
    · exact absurd (Token.isWord_raw hasync) (h.2.1 ▸ by decide)
  · refine imp statement fun stmt _ h => h.1.startsItem h.2 hclass (fun h => hasync h.1) fun h => ?_
    simpa [Token.isWord, h.1, h.2.1] using hlet

end Parse.Sees

namespace Grammar

variable {p : Productions} {ctx : Context} {q r : Parser} {stmt : Stmt}

/-- No statement is an expression that begins with a brace or with the word `function`. -/
theorem statement_opener (h : (statement p ctx).run q = .ok stmt r) :
    stmt.opener ≠ .brace ∧ stmt.opener ≠ .function := by
  have hsees : (statement p ctx).Sees { token := q.lookahead } _ := Parse.Sees.statement
  have hend := Meets.run sights_holds hsees (.of_lookahead rfl)
  rw [h] at hend
  obtain ⟨_, -, -, hstarts⟩ := hend
  exact hstarts

/-- No item of a list of statements is an expression that begins with a brace, with `function`, with
`async function` on one line, with `class` or with `let [`. -/
theorem item_opener (h : (item p ctx).run q = .ok stmt r) :
    stmt.opener = .other ∨ stmt.opener = .letBracket ∧ q.lookahead.escaped = true := by
  have hsees : (item p ctx).Sees { token := q.lookahead } _ := Parse.Sees.item
  have hend := Meets.run sights_holds hsees (.of_lookahead rfl)
  rw [h] at hend
  obtain ⟨_, -, hstarts⟩ := hend
  exact hstarts

end Grammar

/-- The body of a branch may be an expression that begins with `class`, with `async function` or
with `let [`, and no fault is recorded. -/
theorem parse_nested_class :
    (parse {} "if(a)class B\x7b\x7d").toOption.map (fun out => (out.program.body, out.errors)) =
      some ([.ifStmt "" "" (.identifier { name := "a", raw := "a" }) "" (.exprStmt (.classExpr
        (.classDef "" (some { lead := " ", name := "B", raw := "B" }) .absent "" .nil "" {})) none
          .inserted {}) .absent {}], []) ∧
    (parse {} "if(a)async function f()\x7b\x7d").toOption.map
        (fun out => (out.program.body, out.errors)) =
      some ([.ifStmt "" "" (.identifier { name := "a", raw := "a" }) "" (.exprStmt (.functionExpr
        (.function { isAsync := true, keywordLead := " "
                     name := some { lead := " ", name := "f", raw := "f" } }
          (.paramList "" .nil [] "") (.bodyBlock "" .nil "" {}) {})) none .inserted {}) .absent {}],
        []) ∧
    (parse {} "if(a)let[b]=c").toOption.map (fun out => (out.program.body, out.errors)) =
      some ([.ifStmt "" "" (.identifier { name := "a", raw := "a" }) "" (.exprStmt (.assignment
        (.exprPattern (.memberAccess (.identifier { name := "let", raw := "let" }) false ""
          (.computedAccess "" (.identifier { name := "b", raw := "b" }) "") {})) "" .assign
        (.identifier { name := "c", raw := "c" }) {}) none .inserted {}) .absent {}], []) := by
  refine ⟨?_, ?_, ?_⟩ <;> decide +kernel

end Verbatim
