import Verbatim.Parsed

/-!
# The head of a loop

In the first clause of the head of a loop the word `in` is no operator, since it may tell which kind
of loop it is. Only the operands of binary operators are read with that in mind. Inside an operand,
be it a literal, a group, a function or a class, everything is read as anywhere else: the production
is the same action, so it does the same from every state of the parser.

An arrow function is no operand. Its body hands the restriction on, even a body in braces.

## Main definitions

* `Verbatim.Productions.IgnoresHead` — operands are read in the head of a loop as in brackets.

## Main results

* `Verbatim.Productions.ofDepth_ignoresHead` — this holds of the language.
* `Verbatim.Grammar.function_loopHead`, `Verbatim.Grammar.methodFunction_loopHead` — functions and
  methods are read in the head of a loop as anywhere else.
* `Verbatim.parse_arrow_loopHead` — an arrow function with a body in braces is not.
-/

namespace Verbatim

open Grammar Parse

/-! ## Between brackets -/

section

variable (ctx : Context) (p : Productions)

theorem Parse.listed_inside {α : Type} (close : String) (round : Parse (Round α)) (rounds : Nat) :
    listed ctx.inside close round rounds = listed ctx close round rounds := by
  induction rounds with
  | zero => rfl
  | succ rounds ih =>
    simp only [listed, ih]
    rfl

namespace Grammar

theorem argumentList_inside : argumentList p ctx.inside = argumentList p ctx := by
  unfold argumentList
  rw [listed_inside]
  rfl

theorem readGroup_inside : readGroup p ctx.inside = readGroup p ctx := by
  unfold readGroup
  rw [listed_inside]
  rfl

theorem group_inside : group p ctx.inside = group p ctx := by
  unfold group
  rw [readGroup_inside]
  rfl

theorem arrayLiteral_inside : arrayLiteral p ctx.inside = arrayLiteral p ctx := by
  unfold arrayLiteral
  rw [listed_inside]
  rfl

theorem objectLiteral_inside : objectLiteral p ctx.inside = objectLiteral p ctx := by
  unfold objectLiteral
  rw [listed_inside]
  rfl

theorem templateParts_inside (tagged : Bool) (rounds : Nat) :
    templateParts p ctx.inside tagged rounds = templateParts p ctx tagged rounds := by
  induction rounds with
  | zero => rfl
  | succ rounds ih =>
    simp only [templateParts, ih]
    rfl

theorem template_inside (tagged : Bool) :
    template p ctx.inside tagged = template p ctx tagged := by
  unfold template
  rw [templateParts_inside]

/-! ## Functions -/

/-- A function expression or declaration is read in the head of a loop as anywhere else. -/
theorem function_loopHead (isDeclaration nameOptional : Bool) :
    function p ctx.loopHead isDeclaration nameOptional =
      function p ctx isDeclaration nameOptional := by
  -- The name of a declaration, and of no other function, is read in the context around it.
  cases isDeclaration <;> rfl

theorem function_inside (isDeclaration nameOptional : Bool) :
    function p ctx.inside isDeclaration nameOptional =
      function p ctx isDeclaration nameOptional := by
  cases isDeclaration <;> rfl

/-- The function of a method or accessor is read in the head of a loop as anywhere else. -/
theorem methodFunction_loopHead (isAsync isGenerator : Bool) (kind : PropertyKind) :
    methodFunction p ctx.loopHead isAsync isGenerator kind =
      methodFunction p ctx isAsync isGenerator kind := rfl

theorem classMembers_inside (hasConstructor : Bool) (rounds : Nat) :
    classMembers p ctx.inside hasConstructor rounds =
      classMembers p ctx hasConstructor rounds := by
  induction rounds generalizing hasConstructor with
  | zero => rfl
  | succ rounds ih =>
    simp only [classMembers, ih]
    rfl

/-! ## Links -/

theorem plainLink_inside (start : Position) :
    plainLink p ctx.inside start = plainLink p ctx start := by
  unfold plainLink
  rw [argumentList_inside]
  rfl

theorem optionalLink_inside (start : Position) :
    optionalLink p ctx.inside start = optionalLink p ctx start := by
  unfold optionalLink
  rw [argumentList_inside]
  rfl

theorem taggedTemplate_inside (start : Position) :
    taggedTemplate p ctx.inside start = taggedTemplate p ctx start := by
  unfold taggedTemplate
  rw [template_inside]

theorem chainLink_inside (start : Position) :
    chainLink p ctx.inside start = chainLink p ctx start := by
  unfold chainLink
  rw [optionalLink_inside, taggedTemplate_inside, plainLink_inside]

theorem calleeLink_inside (start : Position) :
    calleeLink p ctx.inside start = calleeLink p ctx start := by
  unfold calleeLink
  rw [taggedTemplate_inside, plainLink_inside]
  rfl

theorem asyncCall_inside (start : Position) (name : Ident) :
    asyncCall p ctx.inside start name = asyncCall p ctx start name := by
  unfold asyncCall
  rw [readGroup_inside, plainLink_inside]

end Grammar

end

/-! ## Operands -/

/-- Operands are read in the head of a loop as in brackets. -/
structure Productions.IgnoresHead (p : Productions) : Prop where
  /-- Operands of multiplication. -/
  exponentiation (ctx : Context) : p.exponentiation ctx.inside = p.exponentiation ctx
  /-- Operands of unary operators. -/
  unary (ctx : Context) : p.unary ctx.inside = p.unary ctx
  /-- Operands with calls. -/
  chain (ctx : Context) : p.chain ctx.inside = p.chain ctx
  /-- Operands without calls. -/
  callee (ctx : Context) : p.callee ctx.inside = p.callee ctx
  /-- Markup. -/
  markup (start : Position) (lead : String) (after : Mode) (ctx : Context) :
    p.markup start lead after ctx.inside = p.markup start lead after ctx

namespace Productions

namespace IgnoresHead

variable {p : Productions} (h : p.IgnoresHead) (ctx : Context)
include h

theorem tagAttribute : tagAttribute p ctx.inside = tagAttribute p ctx := by
  simp only [Grammar.tagAttribute, attributeValue, h.markup]
  rfl

theorem children (name : String) (rounds : Nat) :
    children p ctx.inside name rounds = children p ctx name rounds := by
  induction rounds with
  | zero => rfl
  | succ rounds ih =>
    simp only [Grammar.children, ih, h.markup]
    rfl

theorem markupStep (start : Position) (lead : String) (after : Mode) :
    Grammar.markup p start lead after ctx.inside = Grammar.markup p start lead after ctx := by
  simp only [Grammar.markup, fragment, element, h.children, h.tagAttribute]
  rfl

theorem classDefinition (isDeclaration nameRequired : Bool) :
    classDefinition p ctx.inside isDeclaration nameRequired =
      classDefinition p ctx isDeclaration nameRequired := by
  have hbody : ctx.inside.classBody = ctx.classBody.inside := rfl
  simp only [Grammar.classDefinition, heritage, hbody, h.chain, classMembers_inside]
  rfl

theorem operand : operand p ctx.inside = operand p ctx := by
  simp only [Grammar.operand, nameOperand, punctuatedOperand, keywordOperand, functionExpression,
    function_inside, h.classDefinition, group_inside, arrayLiteral_inside, objectLiteral_inside,
    template_inside, markupRoot, h.markup]
  rfl

theorem construct : construct p ctx.inside = construct p ctx := by
  simp only [Grammar.construct, h.callee, argumentList_inside]
  rfl

theorem calleeStep : Grammar.callee p ctx.inside = Grammar.callee p ctx := by
  simp only [Grammar.callee, h.construct, h.operand, calleeLink_inside]
  rfl

theorem chainStep : Grammar.chain p ctx.inside = Grammar.chain p ctx := by
  simp only [Grammar.chain, chainHead, h.construct, h.operand, asyncCall_inside, chainLink_inside]
  rfl

theorem unaryStep : Grammar.unary p ctx.inside = Grammar.unary p ctx := by
  simp only [Grammar.unary, unaryOperation, awaitOperation, updateBefore, updateAfter, h.unary,
    h.chainStep]
  rfl

theorem exponentiationStep : Grammar.exponentiation p ctx.inside =
    Grammar.exponentiation p ctx := by
  simp only [Grammar.exponentiation, h.unaryStep, h.exponentiation]
  rfl

/-- The productions that call such productions are such productions. -/
theorem deepen : p.deepen.IgnoresHead where
  exponentiation := h.exponentiationStep
  unary := h.unaryStep
  chain := h.chainStep
  callee := h.calleeStep
  markup start lead after ctx := h.markupStep ctx start lead after

end IgnoresHead

/-- Operands are read in the head of a loop as in brackets. -/
theorem ofDepth_ignoresHead (depth : Nat) : (ofDepth depth).IgnoresHead := by
  induction depth with
  | zero => exact ⟨fun _ => rfl, fun _ => rfl, fun _ => rfl, fun _ => rfl, fun _ _ _ _ => rfl⟩
  | succ depth ih => exact ih.deepen

end Productions

/-- The body in braces of an arrow function: outside of a loop it may have the operator `in`, and in
the head of a loop it may not, whereas that of another function may. -/
theorem parse_arrow_loopHead :
    (parse {} "x=()=>\x7ba in b\x7d;").toOption.isSome = true ∧
      (match parse {} "for(x=()=>\x7ba in b\x7d;;);" with
        | .ok _ => none
        | .error e => some e) = some ⟨.grammar, .unexpectedToken "in", ⟨13, 1, 14⟩, none⟩ ∧
      (parse {} "for(x=function()\x7ba in b\x7d;;);").toOption.isSome = true := by
  decide +kernel

end Verbatim
