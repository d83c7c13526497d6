import Verbatim.Proofs.Held.Statement
import Verbatim.Proofs.Results

/-!
# The context is put back

A parser that holds the context, and changes it by hand, has the same one behind every production
that ends well. The exceptions are the directives in front of a body and the body itself, behind
which the code is strict if it was before or if there is a directive that makes it so.

## Main definitions

* `Verbatim.Held.IsLeaf`, `Verbatim.Held.IsCode`, `Verbatim.Held.IsMarkup` — the productions, with
  the context held and with the context as an argument.

## Main results

* `Verbatim.Parse.Returns.prologue`, `Verbatim.Parse.Returns.functionBody` — when the code is strict
  behind directives.
* `Verbatim.Held.run_restores` — which context every production leaves.
-/

namespace Verbatim

open Verbatim.Parse

variable {p : Productions} {ctx : Context} {α : Type}

/-! ## Strict code behind directives -/

namespace Parse.Returns

/-- Behind an action that may be left out. -/
theorem check {P : α → Prop} {c : Prop} [Decidable c] {action : Parse Unit} {f : Unit → Parse α}
    (h : (f ()).Returns P) : (if c then action >>= f else f ()).Returns P :=
  ite (fun _ => bind fun _ => h) fun _ => h

/-- The code is strict behind directives if it was before, or if one of them makes it so. -/
theorem prologueFrom {octal : Option Token} {rounds : Nat} :
    (Grammar.prologueFrom p ctx octal rounds).Returns
      fun r => r.2 = (ctx.strict || r.1.any (·.isUseStrict)) := by
  induction rounds generalizing ctx octal with
  | zero => exact stalled
  | succ rounds ih =>
    refine bind fun t => ite (fun _ => (Bool.or_false _).symm) fun _ => bind fun value =>
      bind fun ending => ite (fun _ => bind fun _ => (Bool.or_false _).symm) fun _ => ?_
    generalize Grammar.directiveText t = text
    have rest (octal : Option Token) : Returns (do
          let span ← finish .directive t.start
          let r ← Grammar.prologueFrom p
            { ctx with strict := ctx.strict || text == "use strict" }
            (if text == "use strict" then none
              else if t.octal then octal.or (some t) else octal) rounds
          return (.exprStmt value (some (text)) ending span :: r.1, r.2))
        fun r => r.2 = (ctx.strict || r.1.any (·.isUseStrict)) := by
      refine bind fun span => returns_bind.2 (ih.imp fun r hr => ?_)
      change r.2 = (ctx.strict || (text == "use strict" || r.1.any _))
      rw [hr, Bool.or_assoc]
    cases octal with
    | none => exact ite (fun _ => rest none) fun _ => rest none
    | some first => exact check (rest (some first))

theorem prologue : (Grammar.prologue p ctx).Returns
    fun r => r.2 = (ctx.strict || r.1.any (·.isUseStrict)) := prologueFrom

/-! ### Statements that are no directives -/

/-- What the action reads is no directive that makes code strict. -/
abbrev NoDirective (action : Parse Stmt) : Prop := action.Returns (·.isUseStrict = false)

namespace NoDirective

theorem variableStatement : NoDirective (Grammar.variableStatement p ctx) :=
  bind fun _ => bind fun _ => bind fun _ => bind fun _ => rfl

theorem functionDeclaration : NoDirective (Grammar.functionDeclaration p ctx) := bind fun _ => rfl

theorem finishFor {head : Grammar.ForHead} {init : Tree (.maybe .forInit)} :
    NoDirective (Grammar.finishFor p ctx head init) := by
  unfold Grammar.finishFor
  exact check (bind fun _ => bind fun _ => bind fun _ => bind fun _ => bind fun _ => bind fun _ =>
    bind fun _ => rfl)

theorem finishForEach {head : Grammar.ForHead} {left : Tree .forTarget} :
    NoDirective (Grammar.finishForEach p ctx head left) := by
  refine bind fun _ => ite (fun _ => ?_) fun _ => ?_
  · unfold Grammar.finishForIn
    exact check (bind fun _ => bind fun _ => bind fun _ => bind fun _ => bind fun _ => rfl)
  · exact bind fun _ => bind fun _ => bind fun _ => bind fun _ => bind fun _ => rfl

theorem forVariables {head : Grammar.ForHead} : NoDirective (Grammar.forVariables p ctx head) := by
  refine bind fun _ => bind fun v => bind fun span => bind fun t => ?_
  split
  · exact check finishForEach
  · exact bind fun _ => finishFor

theorem forExpression {head : Grammar.ForHead} : NoDirective
    (Grammar.forExpression p ctx head) := by
  refine bind fun _ => bind fun _ => bind fun _ => bind fun _ => bind fun _ => ite (fun _ => ?_)
    fun _ => ?_
  · exact bind fun _ => bind fun _ => finishForEach
  · exact bind fun _ => bind fun _ => bind fun _ => finishFor

theorem forLoop : NoDirective (Grammar.forLoop p ctx) := by
  refine bind fun _ => bind fun _ => bind fun _ => bind fun _ =>
    ite (fun _ => finishFor) fun _ => ?_
  have either : ∀ {c : Prop} [Decidable c] {head : Grammar.ForHead}, NoDirective
      (if c then Grammar.forVariables p ctx head else Grammar.forExpression p ctx head) :=
    ite (fun _ => forVariables) fun _ => forExpression
  exact ite (fun _ => bind fun _ => either) fun _ => ite (fun _ => bind fun _ => either) fun _ =>
    bind fun _ => either

theorem doWhileLoop : NoDirective (Grammar.doWhileLoop p ctx) := by
  refine bind fun _ => bind fun _ => bind fun _ => bind fun _ => bind fun _ => ?_
  exact ite (fun _ => bind fun _ => bind fun _ => rfl) fun _ => bind fun _ => bind fun _ => rfl

theorem returnStatement : NoDirective (Grammar.returnStatement p ctx) := by
  refine bind fun _ => check (bind fun _ => ?_)
  exact ite (fun _ => bind fun _ => bind fun _ => bind fun _ => rfl) fun _ =>
    bind fun _ => bind fun _ => bind fun _ => rfl

theorem nestedFunction : NoDirective (Grammar.nestedFunction p ctx) :=
  ite (fun _ => bind fun _ => bind fun _ => functionDeclaration) fun _ => functionDeclaration

theorem labelledStatement {start : Position} {label : Ident} :
    NoDirective (Grammar.labelledStatement p ctx start label) := by
  unfold Grammar.labelledStatement
  exact check (bind fun _ => bind fun _ => bind fun _ => rfl)

theorem expressionStatement : NoDirective (Grammar.expressionStatement p ctx) := by
  refine bind fun first => bind fun value => bind fun t => ?_
  cases Grammar.labelOf? first t value with
  | none => exact bind fun _ => bind fun _ => rfl
  | some label => exact labelledStatement

/-- A statement that starts with a reserved word is no directive. -/
theorem keywordStatement {word : String} : NoDirective (Grammar.keywordStatement p ctx word) := by
  unfold Grammar.keywordStatement
  split
  case h_1 => exact bind fun _ => bind fun _ => check (bind fun _ => bind fun _ => rfl)
  case h_2 => exact bind fun _ => check (bind fun _ => bind fun _ => bind fun _ => rfl)
  case h_3 => exact bind fun _ => bind fun _ => bind fun _ => rfl
  case h_4 => exact doWhileLoop
  case h_5 => exact forLoop
  case h_6 => exact nestedFunction
  case h_7 => exact bind fun _ => bind fun _ => bind fun _ => bind fun _ => bind fun _ => rfl
  case h_8 => exact returnStatement
  case h_9 =>
    exact bind fun _ => bind fun _ => bind fun _ => bind fun _ => bind fun _ => bind fun _ => rfl
  case h_10 =>
    exact bind fun _ => bind fun _ => check (bind fun _ => bind fun _ => bind fun _ => rfl)
  case h_11 =>
    exact bind fun _ => bind fun _ => bind fun _ => bind fun _ => check (bind fun _ => rfl)
  case h_12 => exact variableStatement
  case h_13 => exact bind fun _ => bind fun _ => bind fun _ => bind fun _ => rfl
  case h_14 => exact bind fun _ => check (bind fun _ => bind fun _ => bind fun _ => rfl)
  case h_15 => exact expressionStatement

theorem statement : NoDirective (Grammar.statement p ctx) :=
  bind fun _ => ite (fun _ => bind fun _ => rfl) fun _ =>
    ite (fun _ => bind fun _ => bind fun _ => rfl)
    fun _ => ite (fun _ => keywordStatement) fun _ => expressionStatement

theorem keywordItem {t : Token} : NoDirective (Grammar.keywordItem p ctx t) := by
  unfold Grammar.keywordItem
  split
  case h_1 => exact functionDeclaration
  case h_2 => exact bind fun _ => rfl
  case h_3 => exact variableStatement
  case h_4 => exact bind fun _ => ite (fun _ => statement) fun _ => reject _ _
  case h_5 => exact reject _ _
  case h_6 => exact statement

/-- Behind the prologue no statement is a directive. -/
theorem item : NoDirective (Grammar.item p ctx) :=
  bind fun _ => ite (fun _ => keywordItem) fun _ => ite
    (fun _ => bind fun _ => ite (fun _ => variableStatement) fun _ => statement) fun _ => ite
      (fun _ => bind fun _ => ite (fun _ => functionDeclaration) fun _ => statement)
      fun _ => statement

end NoDirective

/-- What holds of each item holds of all items that are read. -/
theorem many {β : Type} {P : β → Prop} {ends : Token → Bool} {action : Parse β}
    (h : action.Returns P) (rounds : Nat) :
    (many ends action rounds).Returns fun vs => ∀ v ∈ vs, P v := by
  induction rounds with
  | zero => exact stalled
  | succ rounds ih =>
    refine bind fun _ => ite (fun _ => List.forall_mem_nil _) fun _ =>
      returns_bind.2 (h.imp fun v hv => ?_)
    exact returns_bind.2 (ih.imp fun vs hvs => List.forall_mem_cons.2 ⟨hv, hvs⟩)

/-- The code of a body is strict if it was before, or if a directive of the body makes it so. -/
theorem functionBody (hitem : ∀ ctx, NoDirective (p.item ctx)) :
    (Grammar.functionBody p ctx).Returns
    fun r => r.2 = (ctx.strict || Grammar.hasUseStrict r.1) := by
  refine bind fun _ => bind fun _ => returns_bind.2 (prologue.imp fun r hr => ?_)
  refine returns_bind.2 ((many (hitem _) _).imp fun rest hrest => bind fun _ => bind fun _ => ?_)
  have hnone : rest.any (·.isUseStrict) = false := List.any_eq_false.2 fun v hv =>
    by simp [hrest v hv]
  change r.2 = (ctx.strict || (Tree.ofList (r.1 ++ rest)).toList.any (·.isUseStrict))
  rw [hr, Tree.toList_ofList, List.any_append, hnone, Bool.or_false]

end Parse.Returns

/-! ## The productions -/

namespace Held

/-- The productions that call none of those that change the context. The bound on their rounds is
given. -/
inductive IsLeaf (rounds : Nat) : {α : Type} → (Context → Parse α) → Prop where
  -- Expressions and patterns.
  | literal : IsLeaf rounds Grammar.literal
  | bindingName (restricted : Fault) : IsLeaf rounds (Grammar.bindingName restricted)
  | bindingMemberRest (restricted : Fault) : IsLeaf rounds (Grammar.bindingMemberRest restricted)
  | templatePiece (tagged : Bool) : IsLeaf rounds (Grammar.templatePiece · tagged)
  | shorthandName (first : Token) (name : Tree .key) :
    IsLeaf rounds (Grammar.shorthandName · first name)
  | accessName : IsLeaf rounds Grammar.accessName
  | superclass : IsLeaf rounds Grammar.superclass
  | metaProperty (first : Token) (word : String) (check : Parse Unit) :
    IsLeaf rounds (Grammar.metaProperty · first word check)
  | parenthesized (start : Position) (g : Grammar.Group) :
    IsLeaf rounds (Grammar.parenthesized · start g)
  | simpleTarget (e : Expr) (start : Token) (fault : Fault) :
    IsLeaf rounds (Parse.simpleTarget · e start fault)
  | assignmentTarget (e : Expr) (start : Token) (fault : Fault) :
    IsLeaf rounds (Parse.assignmentTarget · e start fault)
  | checkUpdateTarget (target : Expr) (start : Token) (restricted : Fault) :
    IsLeaf rounds (Grammar.checkUpdateTarget · target start restricted)
  | groupParameters (site : Site) (trailing : Bool) (items : List Expr) :
    IsLeaf rounds (Grammar.groupParameters · site trailing items)
  -- Statements.
  | emptyStatement : IsLeaf rounds fun _ => Grammar.emptyStatement
  | jumpLabel : IsLeaf rounds Grammar.jumpLabel
  | breakStatement : IsLeaf rounds Grammar.breakStatement
  | continueStatement : IsLeaf rounds Grammar.continueStatement
  | debuggerStatement : IsLeaf rounds Grammar.debuggerStatement
  | forAwait : IsLeaf rounds Grammar.forAwait
  -- Modules.
  | moduleSource : IsLeaf rounds Grammar.moduleSource
  | exportName : IsLeaf rounds Grammar.exportName
  | exportAlias : IsLeaf rounds Grammar.exportAlias
  | importAlias (first : Token) : IsLeaf rounds (Grammar.importAlias · first)
  | importSpecifier : IsLeaf rounds Grammar.importSpecifier
  | namedImports : IsLeaf rounds (Grammar.namedImports · rounds)
  | namespaceImport : IsLeaf rounds Grammar.namespaceImport
  | importParts (main : Option Ident) (commaLead : String) :
    IsLeaf rounds (Grammar.importParts · rounds main commaLead)
  | importClause : IsLeaf rounds (Grammar.importClause · rounds)
  | importDeclaration : IsLeaf rounds (Grammar.importDeclaration · rounds)
  | exportAll (t : Token) : IsLeaf rounds (Grammar.exportAll · t)
  | exportSpecifier : IsLeaf rounds Grammar.exportSpecifier
  | exportOrigin (locals : List Token) : IsLeaf rounds (Grammar.exportOrigin · locals)
  | exportNames (t : Token) : IsLeaf rounds (Grammar.exportNames · rounds t)

section

variable (P : Productions) (p : Verbatim.Productions)

/-- The productions of expressions, patterns, functions, classes, statements and modules, with the
context held and with the context as an argument. -/
inductive IsCode : {α : Type} → Held α → (Context → Parse α) → Prop where
  | leaf {α : Type} {plain : Context → Parse α} (h : IsLeaf p.rounds plain) :
    IsCode (reading plain) plain
  -- Patterns.
  | binding (restricted : Fault) : IsCode (binding P restricted) (Grammar.binding p restricted)
  | bindingElement (restricted : Fault) :
    IsCode (bindingElement P restricted) (Grammar.bindingElement p restricted)
  | bindingRest (restricted : Fault) (close : String) (misplaced : Fault) :
    IsCode (bindingRest P restricted close misplaced)
      (Grammar.bindingRest p restricted · close misplaced)
  | arrayBinding (restricted : Fault) :
    IsCode (arrayBinding P restricted) (Grammar.arrayBinding p restricted)
  | objectBinding (restricted : Fault) :
    IsCode (objectBinding P restricted) (Grammar.objectBinding p restricted)
  | bindingProperty (restricted : Fault) :
    IsCode (bindingProperty P restricted) (Grammar.bindingProperty p restricted)
  | withDefault (start : Position) (target : Pattern) :
    IsCode (withDefault P start target) (Grammar.withDefault p · start target)
  -- Functions and classes.
  | parameterList : IsCode (parameterList P) (Grammar.parameterList p)
  | paramsAndBody (isAsync isGenerator : Bool) (name : Option Ident) (site : Site) (unique : Bool) :
    IsCode (paramsAndBody P isAsync isGenerator name site unique)
      (Grammar.paramsAndBody p · isAsync isGenerator name site unique)
  | functionName (isDeclaration nameOptional isAsync isGenerator : Bool) :
    IsCode (functionName isDeclaration nameOptional isAsync isGenerator)
      (Grammar.functionName · isDeclaration nameOptional isAsync isGenerator)
  | function (isDeclaration nameOptional : Bool) :
    IsCode (function P isDeclaration nameOptional) (Grammar.function p · isDeclaration nameOptional)
  | functionDeclaration : IsCode (functionDeclaration P) (Grammar.functionDeclaration p)
  | functionExpression : IsCode (functionExpression P) (Grammar.functionExpression p)
  | methodFunction (isAsync isGenerator : Bool) (kind : PropertyKind) :
    IsCode (methodFunction P isAsync isGenerator kind)
      (Grammar.methodFunction p · isAsync isGenerator kind)
  | staticBlock (start : Position) (staticLead : String) :
    IsCode (staticBlock P start staticLead) (Grammar.staticBlock p · start staticLead)
  | field (start : Position) (mods : Modifiers) (name : Tree .key) :
    IsCode (field P start mods name) (Grammar.field p · start mods name)
  | classMember (hasConstructor : Bool) :
    IsCode (classMember P hasConstructor) (Grammar.classMember p · hasConstructor)
  | classMembers (hasConstructor : Bool) (rounds : Nat) :
    IsCode (classMembers P hasConstructor rounds) (Grammar.classMembers p · hasConstructor rounds)
  | heritage : IsCode (heritage P) (Grammar.heritage p)
  | classDefinition (isDeclaration nameRequired : Bool) :
    IsCode (classDefinition P isDeclaration nameRequired)
      (Grammar.classDefinition p · isDeclaration nameRequired)
  -- Operands.
  | markupRoot : IsCode (markupRoot P) (Grammar.markupRoot p)
  | template (tagged : Bool) : IsCode (template P tagged) (Grammar.template p · tagged)
  | key (allowsPrivate : Bool) : IsCode (key P allowsPrivate) (Grammar.key p · allowsPrivate)
  | arrayLiteral : IsCode (arrayLiteral P) (Grammar.arrayLiteral p)
  | objectLiteral : IsCode (objectLiteral P) (Grammar.objectLiteral p)
  | objectMember : IsCode (objectMember P) (Grammar.objectMember p)
  | shorthandValue (start : Position) (id : Ident) :
    IsCode (shorthandValue P start id) (Grammar.shorthandValue p · start id)
  | argumentList : IsCode (argumentList P) (Grammar.argumentList p)
  | readGroup : IsCode (readGroup P) (Grammar.readGroup p)
  | group : IsCode (group P) (Grammar.group p)
  | operand : IsCode (operand P) (Grammar.operand p)
  -- Chains.
  | accessIndex : IsCode (accessIndex P) (Grammar.accessIndex p)
  | taggedTemplate (start : Position) (tag : Expr) :
    IsCode (taggedTemplate P start tag) (Grammar.taggedTemplate p · start tag)
  | optionalLink (start : Position) (base : Expr) :
    IsCode (optionalLink P start base) (Grammar.optionalLink p · start base)
  | plainLink (start : Position) (base : Expr) :
    IsCode (plainLink P start base) (Grammar.plainLink p · start base)
  | chainLink (start : Position) (c : Grammar.Chain) :
    IsCode (chainLink P start c) (Grammar.chainLink p · start c)
  | construct : IsCode (construct P) (Grammar.construct p)
  | importExpression : IsCode (importExpression P) (Grammar.importExpression p)
  | asyncCall (start : Position) (name : Ident) :
    IsCode (asyncCall P start name) (Grammar.asyncCall p · start name)
  | chain : IsCode (chain P) (Grammar.chain p)
  | callee : IsCode (callee P) (Grammar.callee p)
  -- Operators.
  | unary : IsCode (unary P) (Grammar.unary p)
  | unaryOperation (op : UnaryOp) : IsCode (unaryOperation P op) (Grammar.unaryOperation p · op)
  | awaitOperation : IsCode (awaitOperation P) (Grammar.awaitOperation p)
  | updateBefore (op : UpdateOp) : IsCode (updateBefore P op) (Grammar.updateBefore p · op)
  | updateAfter : IsCode (updateAfter P) (Grammar.updateAfter p)
  | exponentiation : IsCode (exponentiation P) (Grammar.exponentiation p)
  | binary (least : Nat) : IsCode (binary P least) (Grammar.binary p least)
  | conditional : IsCode (conditional P) (Grammar.conditional p)
  -- Arrow functions and assignments.
  | arrow (start : Position) (asyncLead : Option String) (params : Tree .arrowParams)
      (site : Site) :
    IsCode (arrow P start asyncLead params site) (Grammar.arrow p · start asyncLead params site)
  | bareArrow (start : Position) (asyncLead : Option String) (id : Ident) (t : Token) :
    IsCode (bareArrow P start asyncLead id t) (Grammar.bareArrow p · start asyncLead id t)
  | groupArrow (start : Position) (asyncLead : Option String) (openLead : String)
      (items : List Expr) (separators : List String) (closeLead : String) :
    IsCode (groupArrow P start asyncLead openLead items separators closeLead)
      (Grammar.groupArrow p · start asyncLead openLead items separators closeLead)
  | asyncBareArrow : IsCode (asyncBareArrow P) (Grammar.asyncBareArrow p)
  | yieldExpression : IsCode (yieldExpression P) (Grammar.yieldExpression p)
  | cover : IsCode (cover P) (Grammar.cover p)
  | assignment : IsCode (assignment P) (Grammar.assignment p)
  | expression : IsCode (expression P) (Grammar.expression p)
  -- Declarations and loops.
  | variableList (inLoopHead : Bool) :
    IsCode (variableList P inLoopHead) (Grammar.variableList p · inLoopHead)
  | variableStatement : IsCode (variableStatement P) (Grammar.variableStatement p)
  | inParentheses : IsCode (inParentheses P) (Grammar.inParentheses p)
  | loopBody : IsCode (loopBody P) (Grammar.loopBody p)
  | finishFor (head : Grammar.ForHead) (init : Tree (.maybe .forInit)) :
    IsCode (finishFor P head init) (Grammar.finishFor p · head init)
  | finishForEach (head : Grammar.ForHead) (left : Tree .forTarget) :
    IsCode (finishForEach P head left) (Grammar.finishForEach p · head left)
  | forLoop : IsCode (forLoop P) (Grammar.forLoop p)
  | whileLoop : IsCode (whileLoop P) (Grammar.whileLoop p)
  | doWhileLoop : IsCode (doWhileLoop P) (Grammar.doWhileLoop p)
  -- Statements.
  | block : IsCode (block P) (Grammar.block p)
  | ifStatement : IsCode (ifStatement P) (Grammar.ifStatement p)
  | withStatement : IsCode (withStatement P) (Grammar.withStatement p)
  | nestedFunction : IsCode (nestedFunction P) (Grammar.nestedFunction p)
  | returnStatement : IsCode (returnStatement P) (Grammar.returnStatement p)
  | throwStatement : IsCode (throwStatement P) (Grammar.throwStatement p)
  | tryStatement : IsCode (tryStatement P) (Grammar.tryStatement p)
  | switchCases (hasDefault : Bool) (rounds : Nat) :
    IsCode (switchCases P hasDefault rounds) (Grammar.switchCases p · hasDefault rounds)
  | switchStatement : IsCode (switchStatement P) (Grammar.switchStatement p)
  | labelledStatement (start : Position) (label : Ident) :
    IsCode (labelledStatement P start label) (Grammar.labelledStatement p · start label)
  | expressionStatement : IsCode (expressionStatement P) (Grammar.expressionStatement p)
  | statement : IsCode (statement P) (Grammar.statement p)
  | item : IsCode (item P) (Grammar.item p)
  -- Modules.
  | exportValue : IsCode (exportValue P) (Grammar.exportValue p)
  | exportDeclaration : IsCode (exportDeclaration P) (Grammar.exportDeclaration p)
  | moduleItem : IsCode (moduleItem P) (Grammar.moduleItem p)

/-- The productions of markup behind its first angle bracket, with the context held and with the
context as an argument. -/
inductive IsMarkup : {α : Type} → Held α → (Context → Parse α) → Prop where
  | tagIdent : IsMarkup (reading Grammar.tagIdent) Grammar.tagIdent
  | namespacedName (start : Position) (space : TagIdent) :
    IsMarkup (reading (Grammar.namespacedName · start space)) (Grammar.namespacedName · start space)
  | tagName : IsMarkup (reading (Grammar.tagName · P.rounds)) (Grammar.tagName · p.rounds)
  | container (start : Position) (openLead : String) (after : Mode) (allowsEmpty : Bool) :
    IsMarkup (container P start openLead after allowsEmpty)
      (Grammar.container p · start openLead after allowsEmpty)
  | attributeValue : IsMarkup (attributeValue P) (Grammar.attributeValue p)
  | tagAttribute : IsMarkup (tagAttribute P) (Grammar.tagAttribute p)
  | childContainer : IsMarkup (childContainer P) (Grammar.childContainer p)
  | children (name : String) (rounds : Nat) :
    IsMarkup (children P name rounds) (Grammar.children p · name rounds)
  | fragment (start : Position) (openLead : String) (after : Mode) :
    IsMarkup (fragment P start openLead after) (Grammar.fragment p · start openLead after)
  | element (start : Position) (openLead : String) (after : Mode) :
    IsMarkup (element P start openLead after) (Grammar.element p · start openLead after)
  | markup (start : Position) (openLead : String) (after : Mode) :
    IsMarkup (markup P start openLead after) (Grammar.markup p start openLead after)

end

variable {P : Productions} {p : Verbatim.Productions} {held : Held α} {plain : Context → Parse α}

/-- Each production of code follows the faithful one if the productions that it calls do. -/
theorem IsCode.follows (h : IsCode P p held plain) (hp : P.Follow p) (ctx : Context) :
    Follows held ctx (plain ctx) := by
  cases h with
  | leaf => exact .reading
  | binding => exact binding_follows hp _
  | bindingElement => exact bindingElement_follows hp _
  | bindingRest => exact bindingRest_follows hp _ _ _
  | arrayBinding => exact arrayBinding_follows hp _
  | objectBinding => exact objectBinding_follows hp _
  | bindingProperty => exact bindingProperty_follows hp _
  | withDefault => exact withDefault_follows hp _ _
  | parameterList => exact parameterList_follows hp
  | paramsAndBody => exact paramsAndBody_follows hp _ _ _ _ _
  | functionName => exact functionName_follows _ _ _ _
  | function => exact function_follows hp _ _
  | functionDeclaration => exact functionDeclaration_follows hp
  | functionExpression => exact functionExpression_follows hp
  | methodFunction => exact methodFunction_follows hp _ _ _
  | staticBlock => exact staticBlock_follows hp _ _
  | field => exact field_follows hp _ _ _
  | classMember => exact classMember_follows hp _
  | classMembers => exact classMembers_follows hp rfl
  | heritage => exact heritage_follows hp
  | classDefinition => exact classDefinition_follows hp _ _
  | markupRoot => exact markupRoot_follows hp
  | template => exact template_follows hp _
  | key => exact key_follows hp _
  | arrayLiteral => exact arrayLiteral_follows hp
  | objectLiteral => exact objectLiteral_follows hp
  | objectMember => exact objectMember_follows hp
  | shorthandValue => exact shorthandValue_follows hp _ _
  | argumentList => exact argumentList_follows hp
  | readGroup => exact readGroup_follows hp
  | group => exact group_follows hp
  | operand => exact operand_follows hp
  | accessIndex => exact accessIndex_follows hp
  | taggedTemplate => exact taggedTemplate_follows hp _ _
  | optionalLink => exact optionalLink_follows hp _ _
  | plainLink => exact plainLink_follows hp _ _
  | chainLink => exact chainLink_follows hp _ _
  | construct => exact construct_follows hp
  | importExpression => exact importExpression_follows hp
  | asyncCall => exact asyncCall_follows hp _ _
  | chain => exact chain_follows hp
  | callee => exact callee_follows hp
  | unary => exact unary_follows hp
  | unaryOperation => exact unaryOperation_follows hp _
  | awaitOperation => exact awaitOperation_follows hp
  | updateBefore => exact updateBefore_follows hp _
  | updateAfter => exact updateAfter_follows hp
  | exponentiation => exact exponentiation_follows hp
  | binary => exact binary_follows hp _
  | conditional => exact conditional_follows hp
  | arrow => exact arrow_follows hp _ _ _ _
  | bareArrow => exact bareArrow_follows hp _ _ _ _
  | groupArrow => exact groupArrow_follows hp _ _ _ _ _ _
  | asyncBareArrow => exact asyncBareArrow_follows hp
  | yieldExpression => exact yieldExpression_follows hp
  | cover => exact cover_follows hp
  | assignment => exact assignment_follows hp
  | expression => exact expression_follows hp
  | variableList => exact variableList_follows hp _
  | variableStatement => exact variableStatement_follows hp
  | inParentheses => exact inParentheses_follows hp
  | loopBody => exact loopBody_follows hp
  | finishFor => exact finishFor_follows hp _ _
  | finishForEach => exact finishForEach_follows hp _ _
  | forLoop => exact forLoop_follows hp
  | whileLoop => exact whileLoop_follows hp
  | doWhileLoop => exact doWhileLoop_follows hp
  | block => exact block_follows hp
  | ifStatement => exact ifStatement_follows hp
  | withStatement => exact withStatement_follows hp
  | nestedFunction => exact nestedFunction_follows hp
  | returnStatement => exact returnStatement_follows hp
  | throwStatement => exact throwStatement_follows hp
  | tryStatement => exact tryStatement_follows hp
  | switchCases => exact switchCases_follows hp rfl
  | switchStatement => exact switchStatement_follows hp
  | labelledStatement => exact labelledStatement_follows hp _ _
  | expressionStatement => exact expressionStatement_follows hp
  | statement => exact statement_follows hp
  | item => exact item_follows hp
  | exportValue => exact exportValue_follows hp
  | exportDeclaration => exact exportDeclaration_follows hp
  | moduleItem => exact moduleItem_follows hp

/-- Each production of markup follows the faithful one if the productions that it calls do. -/
theorem IsMarkup.follows (h : IsMarkup P p held plain) (hp : P.Follow p) (ctx : Context) :
    Follows held ctx (plain ctx) := by
  cases h with
  | tagIdent => exact .reading
  | namespacedName => exact .reading
  | tagName =>
    rw [hp.rounds]
    exact .reading
  | container => exact container_follows hp _ _ _ _
  | attributeValue => exact attributeValue_follows hp
  | tagAttribute => exact tagAttribute_follows hp
  | childContainer => exact childContainer_follows hp
  | children => exact children_follows hp _ rfl
  | fragment => exact fragment_follows hp _ _ _
  | element => exact element_follows hp _ _ _
  | markup => exact markup_follows hp _ _ _

/-! ## Runs -/

/-- An action that does what another one does, with the context that it leaves as an answer. -/
theorem Does.run_eq {β : Type} {action : Held α} {b : Parse β} {s : Surroundings} {f : β → α}
    {g : β → Context} (h : Does action s.context b fun v v' ctx' => v' = f v ∧ ctx' = g v)
    (q : Parser) :
    (action s).run q = ((fun v => (f v, { s with context := g v })) <$> b).run q := by
  have hq := h s.markupDepth q
  have hmap : ((fun v => (f v, { s with context := g v })) <$> b).run q =
    (b >>= fun v => Pure.pure (f v, { s with context := g v })).run q := rfl
  rw [hmap, run_bind]
  cases hb : b.run q with
  | ok v r =>
    rw [hb] at hq
    obtain ⟨v', ctx', hrun, rfl, rfl⟩ := hq
    exact hrun
  | error e r =>
    rw [hb] at hq
    exact hq

/-- What is known of every value of the other action. -/
theorem Does.returning {β : Type} {action : Held α} {b : Parse β} {post : β → α → Context → Prop}
    {R : β → Prop} (h : Does action ctx b post) (hb : b.Returns R) :
    Does action ctx b fun v v' ctx' => post v v' ctx' ∧ R v := by
  intro depth q
  have hq := h depth q
  cases hrun : b.run q with
  | ok v r =>
    rw [hrun] at hq
    obtain ⟨v', ctx', haction, hpost⟩ := hq
    exact ⟨v', ctx', haction, hpost, hb.of_run hrun⟩
  | error e r =>
    rw [hrun] at hq
    exact hq

/-- Every statement that the productions of some depth read as an item is no directive. -/
theorem noDirective_item (n : Nat) (ctx : Context) :
    Returns.NoDirective ((Verbatim.Productions.ofDepth n).item ctx) := by
  cases n with
  | zero => exact Returns.stalled
  | succ n => exact Returns.NoDirective.item

/-- A parser that holds the context runs as one that gets it as an argument. Behind every production
that ends well it holds what it held before. Only the directives in front of a body and the body
itself may leave the code strict: it is strict behind them if it was before, or if one of the
directives makes it so. -/
theorem run_restores (n : Nat) (s : Surroundings) (q : Parser) :
    (∀ {α : Type} {held : Held α} {plain : Context → Parse α},
      IsCode (.ofDepth n) (.ofDepth n) held plain ∨ IsMarkup (.ofDepth n) (.ofDepth n) held plain →
        (held s).run q = ((fun v => (v, s)) <$> plain s.context).run q) ∧
    (prologue (.ofDepth n) s).run q =
      ((fun r => (r.1, s.withStrict (s.context.strict || r.1.any (·.isUseStrict)))) <$>
        Grammar.prologue (.ofDepth n) s.context).run q ∧
    (functionBody (.ofDepth n) s).run q =
      ((fun r => (r.1, s.withStrict (s.context.strict || Grammar.hasUseStrict r.1))) <$>
        Grammar.functionBody (.ofDepth n) s.context).run q := by
  have hp := Productions.follow_ofDepth n
  refine ⟨fun {α held plain} h => ?_, ?_, ?_⟩
  · have hfollows : Follows held s.context (plain s.context) :=
      h.elim (fun h => h.follows hp _) fun h => h.follows hp _
    exact Does.run_eq hfollows q
  · refine Does.run_eq (((prologue_does hp).returning Returns.prologue).imp ?_) q
    rintro r _ _ ⟨⟨rfl, rfl⟩, hstrict⟩
    exact ⟨rfl, congrArg _ hstrict⟩
  · refine Does.run_eq
      (((functionBody_does hp).returning (Returns.functionBody (noDirective_item n))).imp ?_) q
    rintro r _ _ ⟨⟨rfl, rfl⟩, hstrict⟩
    exact ⟨rfl, congrArg _ hstrict⟩

/-- A label, the head and body of a loop and the parameters of an arrow function are left again. -/
theorem run_restores_label : ∃ q v r,
    Parser.start "l: for (a in b) while (c) (d) => e" false false = .ok q ∧
      (item (.ofDepth 12) ⟨.start .script true, 0⟩).run q = .ok
      (v, ⟨.start .script true, 0⟩) r := by
  have hends : (Parser.start "l: for (a in b) while (c) (d) => e" false
    false).toOption.any (fun q =>
      match (Grammar.item (.ofDepth 12) (.start .script true)).run q with
      | .ok _ _ => true
      | .error _ _ => false) = true := by decide +kernel
  obtain ⟨q, hq, hok⟩ := (Option.any_eq_true _ _).1 hends
  have hstart : Parser.start "l: for (a in b) while (c) (d) => e" false false = .ok q := by
    cases hs : Parser.start "l: for (a in b) while (c) (d) => e" false false with
    | error => rw [hs] at hq; cases hq
    | ok => rw [hs] at hq; cases hq; rfl
  cases hrun : (Grammar.item (.ofDepth 12) (.start .script true)).run q with
  | error => rw [hrun] at hok; cases hok
  | ok v r =>
    refine ⟨q, v, r, hstart, ?_⟩
    rw [(run_restores 12 ⟨.start .script true, 0⟩ q).1 (.inl .item)]
    change (Grammar.item _ _ >>= fun v => Pure.pure (v, _)).run q = _
    rw [run_bind, hrun]
    rfl

end Held

end Verbatim
