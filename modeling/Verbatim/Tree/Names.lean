import Verbatim.Tree.Basic

/-!
# Names and targets

What a pattern binds, what a key is called, and which expressions can be assigned to.

## Main definitions

* `Verbatim.Tree.boundNames` — the names that a pattern binds, in order.
* `Verbatim.Tree.isBinding` — whether a pattern binds names only.
* `Verbatim.Tree.staticName` — the name of a key that is known without running the program.
* `Verbatim.Tree.isSimpleTarget` — whether an expression is a name or a property, outside optional
  chains.
-/

namespace Verbatim.Tree

/-! ## Patterns -/

/-- The names that a pattern binds, in order. An expression to assign to binds none. -/
def boundNames : {c : Category} → Tree c → List Ident
  | _, .namePattern id => [id]
  | _, .arrayPattern _ elements _ _ _ => elements.boundNames
  | _, .objectPattern _ members _ _ _ => members.boundNames
  | _, .defaultPattern target _ _ _ => target.boundNames
  | _, .restPattern _ target _ => target.boundNames
  | _, .patternProperty _ value _ _ _ => value.boundNames
  | _, .restMember _ target _ => target.boundNames
  | _, .cons head tail => head.boundNames ++ tail.boundNames
  | _, .present part => part.boundNames
  | _, _ => []

/-- Whether a pattern binds names only, and has no expression to assign to. -/
def isBinding : {c : Category} → Tree c → Bool
  | _, .exprPattern _ => false
  | _, .arrayPattern _ elements _ _ _ => elements.isBinding
  | _, .objectPattern _ members _ _ _ => members.isBinding
  | _, .defaultPattern target _ _ _ => target.isBinding
  | _, .restPattern _ target _ => target.isBinding
  | _, .patternProperty _ value _ _ _ => value.isBinding
  | _, .restMember _ target _ => target.isBinding
  | _, .cons head tail => head.isBinding && tail.isBinding
  | _, .present part => part.isBinding
  | _, _ => true

/-- Whether a pattern is one name. -/
def isName : Pattern → Bool
  | .namePattern _ => true
  | _ => false

/-- The parameters of a parameter list. -/
def parameters : Tree .params → List Pattern
  | .paramList _ items _ _ => items.toList

/-- Whether all parameters are plain names. -/
def isSimple (params : Tree .params) : Bool := params.parameters.all isName

/-! ## Keys -/

/-- The name of a key that is known without running the program. Numbers name what they are written
as in canonical spelling. -/
def staticName : Tree .key → Option String
  | .nameKey id => some id.name
  | .literalKey lit =>
    match lit.value with
    | .string text => some text
    | .number value => some value.render
    | _ => none
  | _ => none

/-! ## Targets -/

/-- Whether an expression is part of an optional chain. -/
def isOptionalChain : {c : Category} → Tree c → Bool
  | _, .memberAccess base isOptional _ _ _ => isOptional || base.isOptionalChain
  | _, .call callee isOptional _ _ _ => isOptional || callee.isOptionalChain
  | _, _ => false

/-- Whether an expression is a name or a property outside optional chains, in parentheses or
not. -/
def isSimpleTarget : {c : Category} → Tree c → Bool
  | _, .identifier _ => true
  | _, .memberAccess base isOptional _ _ _ => !isOptional && !base.isOptionalChain
  | _, .parenthesized _ inner _ _ => inner.isSimpleTarget
  | _, _ => false

/-- Whether an expression is a parenthesised group that is not yet resolved. -/
def isCover : Expr → Bool
  | .cover .. => true
  | _ => false

/-- Whether a statement is the directive that makes code strict. -/
def isUseStrict : Stmt → Bool
  | .exprStmt _ directive _ _ => directive == some "use strict"
  | _ => false

end Verbatim.Tree
