import Verbatim.Grammar.Basic
import Verbatim.Tree.Basic

/-!
# The productions that others call

The constructs of the language contain each other. Each production is written as a function of the
record of those that it may call on parts behind a token that it has already taken. `Language`
closes the circle: its productions of depth `n + 1` call those of depth `n`. A depth that exceeds
the number of characters is never used up, since every call takes a token first.

## Main definitions

* `Verbatim.Markup` — an element or a fragment.
* `Verbatim.Productions` — the productions that others call.
* `Verbatim.Productions.exhausted` — productions of depth zero.
-/

namespace Verbatim

/-- An element or a fragment. -/
inductive Markup where
  /-- An element. -/
  | element (e : Tree .element)
  /-- A fragment. -/
  | fragment (f : Tree .fragment)

/-- The productions that others call. -/
structure Productions where
  /-- The bound on the rounds of each loop. -/
  rounds : Nat
  /-- Expressions, with commas. -/
  expression : Context → Parse Expr
  /-- Expressions without commas. -/
  assignment : Context → Parse Expr
  /-- Expressions without commas that may yet turn out to be patterns. -/
  cover : Context → Parse Expr
  /-- Operands of binary operators, with all operators of at least the given precedence. -/
  binary : Nat → Context → Parse Expr
  /-- Operands of multiplication. -/
  exponentiation : Context → Parse Expr
  /-- Operands of unary operators. -/
  unary : Context → Parse Expr
  /-- Operands without operators, with calls. -/
  chain : Context → Parse Expr
  /-- Operands without operators and calls. -/
  callee : Context → Parse Expr
  /-- Targets of bindings; the fault is that of a restricted name in strict code. -/
  binding : Fault → Context → Parse Pattern
  /-- Statements. -/
  statement : Context → Parse Stmt
  /-- Statements and declarations. -/
  item : Context → Parse Stmt
  /-- Markup behind its first angle bracket, which starts at the given point and has the given
  trivia; the mode is that of the token behind the markup. -/
  markup : Position → String → Mode → Context → Parse Markup

/-- The productions that are never reached. -/
def Productions.exhausted : Productions where
  rounds := 0
  expression _ := .stalled
  assignment _ := .stalled
  cover _ := .stalled
  binary _ _ := .stalled
  exponentiation _ := .stalled
  unary _ := .stalled
  chain _ := .stalled
  callee _ := .stalled
  binding _ _ := .stalled
  statement _ := .stalled
  item _ := .stalled
  markup _ _ _ _ := .stalled

end Verbatim
