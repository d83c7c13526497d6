import Verbatim.Grammar.Chain
import Verbatim.Grammar.Target

/-!
# Operators

Unary operators and steps, exponentiation, which groups to the right, the other binary operators
by precedence, and the choice between two values. An unresolved group is never an operand.

## Main definitions

* `Verbatim.Grammar.unary` — unary operators and steps.
* `Verbatim.Grammar.exponentiation`, `Verbatim.Grammar.binary` — binary operators.
* `Verbatim.Grammar.conditional` — the choice between two values.
-/

namespace Verbatim.Grammar

open Verbatim.Parse Verbatim.Text

/-- Fails on a group that is still to be resolved. -/
def rejectCover (ctx : Context) (e : Expr) : Parse Unit := do
  if e.isCover then unexpectedHere ctx

/-! ## Unary operators -/

/-- The unary operator that a token spells. -/
def unaryOp? (t : Token) : Option UnaryOp :=
  match t.kind with
  | .punctuator | .keyword => UnaryOp.ofText? t.raw
  | _ => none

/-- The step that a token spells. -/
def updateOp? (t : Token) : Option UpdateOp :=
  if t.isPunctuator "++" then some .increment
  else if t.isPunctuator "--" then some .decrement
  else none

/-- Whether the waiting operator of the context begins at a token. -/
def isAwait (ctx : Context) (t : Token) : Bool := ctx.allowsAwait && t.isWord "await"

/-- Checks the operand of a step; `restricted` is the fault of a restricted name in strict code. -/
def checkUpdateTarget (ctx : Context) (target : Expr) (start : Token) (restricted : Fault) :
    Parse Unit := do
  match target with
  | .identifier id =>
    if ctx.strict && isRestricted id.name then tolerate restricted start.site
  | _ => if !target.isSimpleTarget then tolerate .invalidAssignmentTarget start.site

/-- An operator and its operand; the lookahead is the operator. -/
def unaryOperation (p : Productions) (ctx : Context) (op : UnaryOp) : Parse Expr := do
  let t ← next
  let operand ← p.unary ctx
  rejectCover ctx operand
  match op, operand with
  | .delete, .identifier _ => if ctx.strict then tolerate .strictDelete t.site
  | _, _ => pure ()
  let span ← finish .unary t.start
  return .unary t.lead op operand span

/-- A value that is waited for; the lookahead is the operator. -/
def awaitOperation (p : Productions) (ctx : Context) : Parse Expr := do
  if ctx.inParameters then reject .awaitInParameter (← look).site
  let t ← next
  let operand ← p.unary ctx
  rejectCover ctx operand
  let span ← finish .await t.start
  return .await t.lead operand span

/-- A step in front of its operand; the lookahead is the operator. -/
def updateBefore (p : Productions) (ctx : Context) (op : UpdateOp) : Parse Expr := do
  let t ← next
  let first ← look
  let operand ← p.unary ctx
  checkUpdateTarget ctx operand first .strictPreUpdate
  let span ← finish .update t.start
  return .update op true t.lead operand span

/-- A chain, with a step behind it if one stands on the same line. -/
def updateAfter (p : Productions) (ctx : Context) : Parse Expr := do
  let first ← look
  let value ← chain p ctx
  let t ← look
  match updateOp? t with
  | none => return value
  | some op =>
    if t.newlineBefore then return value
    checkUpdateTarget ctx value first .strictPostUpdate
    let opLead ← lead
    let span ← finish .update first.start
    return .update op false opLead value span

/-- Unary operators and steps. -/
def unary (p : Productions) (ctx : Context) : Parse Expr := do
  let t ← look
  match unaryOp? t with
  | some op => unaryOperation p ctx op
  | none =>
    if isAwait ctx t then awaitOperation p ctx
    else match updateOp? t with
      | some op => updateBefore p ctx op
      | none => updateAfter p ctx

/-! ## Binary operators -/

/-- Exponentiation, whose left operand has no unary operator. -/
def exponentiation (p : Productions) (ctx : Context) : Parse Expr := do
  let first ← look
  let base ← unary p ctx
  let t ← look
  if !t.isPunctuator "**" then return base
  if (unaryOp? first).isSome || isAwait ctx first then reject .unaryBeforeExponent t.site
  rejectCover ctx base
  let opLead ← lead
  let power ← p.exponentiation ctx
  rejectCover ctx power
  let span ← finish .binary first.start
  return .binary base opLead .exponent power span

/-- The binary operator that a token is, exponentiation apart. -/
def binaryOp? (ctx : Context) (t : Token) : Option BinaryOp :=
  match t.kind with
  | .punctuator => (BinaryOp.ofText? t.raw).filter (· != .exponent)
  | .keyword =>
    if t.raw == "in" && ctx.allowsIn then some .contained
    else if t.raw == "instanceof" then some .instanceof
    else none
  | _ => none

/-- Whether an expression is an unparenthesised operation with one of the given operators. -/
def isOperationOf (ops : List BinaryOp) : Expr → Bool
  | .binary _ _ op _ _ => ops.contains op
  | _ => false

/-- Whether an operation mixes coalescing with the other logical operators. -/
def mixesCoalescing (op : BinaryOp) (left right : Expr) : Bool :=
  let excluded : List BinaryOp := match op with
    | .coalesce => [.and, .or]
    | .and | .or => [.coalesce]
    | _ => []
  isOperationOf excluded left || isOperationOf excluded right

/-- The next operator of at least the given precedence with its right operand, if there is one,
applied to what was read so far. -/
def binaryStep (p : Productions) (ctx : Context) (start : Position) (least : Nat) (left : Expr) :
    Parse (Option Expr) := do
  let t ← look
  match binaryOp? ctx t with
  | none => return none
  | some op =>
    if op.precedence < least then return none
    rejectCover ctx left
    let opLead ← lead
    let right ← p.binary (op.precedence + 1) ctx
    rejectCover ctx right
    if mixesCoalescing op left right then reject .mixedCoalescing t.site
    let span ← finish (if op.isLogical then .logical else .binary) start
    return some (.binary left opLead op right span)

/-- Binary operators of at least the given precedence, which group to the left. -/
def binary (p : Productions) (least : Nat) (ctx : Context) : Parse Expr := do
  let start ← here
  let first ← exponentiation p ctx
  iterate (binaryStep p ctx start least) p.rounds first

/-! ## Choice -/

/-- A binary operation, or a choice between two values. -/
def conditional (p : Productions) (ctx : Context) : Parse Expr := do
  let start ← here
  let test ← binary p 0 ctx
  if !(← sees "?") then return test
  rejectCover ctx test
  let questionLead ← lead
  let consequent ← p.assignment ctx.inside
  let colonLead ← expect ctx ":"
  let alternate ← p.assignment ctx
  let span ← finish .conditional start
  return .conditional test questionLead consequent colonLead alternate span

end Verbatim.Grammar
