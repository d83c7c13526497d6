import Verbatim.Proofs.Grammar.Target

/-!
# Operators and their operands

How an operator may be combined with operands that are operations themselves and stand without
parentheses. An expression in parentheses is a node of its own, which is no operation, so it may be
any operand.

## Main definitions

* `Verbatim.BinaryOp.Groups` — an operator and two operands that it may stand between.
* `Verbatim.Tree.Standalone` — operands that an operator may stand in front of.
* `Verbatim.Tree.tightness` — how tightly the outermost operator of an expression binds.

## Main results

* `Verbatim.BinaryOp.Groups.of_tightness`, `Verbatim.BinaryOp.Groups.of_power` — an operator groups
  operands that bind tightly enough.
-/

namespace Verbatim

namespace Tree

/-- The operator of a binary operation. -/
def operator? : Expr → Option BinaryOp
  | .binary _ _ op _ _ => some op
  | _ => none

/-- Whether an expression is an operator with its one operand, or a value that is waited for. -/
def isPrefixed : Expr → Bool
  | .unary .. | .await .. => true
  | _ => false

/-- Whether an expression may be an operand. What binds less tightly than any operator may not, and
neither may a group that is still to be resolved. -/
def isOperand : Expr → Bool
  | .assignment .. | .conditional .. | .arrow .. | .yield .. | .sequence .. | .spread ..
  | .cover .. => false
  | _ => true

end Tree

namespace BinaryOp

/-- Whether two operators may not be mixed: coalescing, and one of the other logical operators. -/
def clashes (op op' : BinaryOp) : Bool :=
  match op, op' with
  | .coalesce, .and | .coalesce, .or | .and, .coalesce | .or, .coalesce => true
  | _, _ => false

/-- An operator may stand between two operands. All operators group to the left by their precedence,
but for exponentiation, which groups to the right. -/
structure Groups (op : BinaryOp) (left right : Expr) : Prop where
  /-- The left operand may be one. -/
  left_isOperand : left.isOperand = true
  /-- The right operand may be one. -/
  right_isOperand : right.isOperand = true
  /-- An operation on the left binds at least as tightly. -/
  left_precedence : op ≠ .exponent →
    ∀ op' ∈ left.operator?, op.precedence ≤ op'.precedence
  /-- An operation on the right binds more tightly. -/
  right_precedence : op ≠ .exponent →
    ∀ op' ∈ right.operator?, op.precedence < op'.precedence
  /-- The base of a power is no operation. -/
  base : op = .exponent → left.operator? = none ∧ left.isPrefixed = false
  /-- An operation that is an exponent is a power. -/
  power : op = .exponent → ∀ op' ∈ right.operator?, op' = .exponent
  /-- The left operand does not mix operators. -/
  left_clashes : ∀ op' ∈ left.operator?, op.clashes op' = false
  /-- Neither does the right one. -/
  right_clashes : ∀ op' ∈ right.operator?, op.clashes op' = false

theorem one_le_precedence (op : BinaryOp) : 1 ≤ op.precedence := by
  cases op <;> decide

theorem precedence_lt {op : BinaryOp} (h : op ≠ .exponent) : op.precedence < 12 := by
  cases op <;> first | decide | exact absurd rfl h

theorem eq_exponent {op : BinaryOp} (h : 12 ≤ op.precedence) : op = .exponent :=
  Classical.byContradiction fun hne => absurd (precedence_lt hne) (Nat.not_lt.2 h)

end BinaryOp

namespace Tree

/-- An operator with one operand may stand in front of the expression. -/
structure Standalone (operand : Expr) : Prop where
  /-- The expression may be an operand. -/
  isOperand : operand.isOperand = true
  /-- It is no binary operation. -/
  operator : operand.operator? = none

/-! ## Tightness -/

/-- How tightly the outermost operator of an expression binds: more tightly than any operator if it
has none, and less tightly than any if it may be no operand. -/
def tightness : Expr → Nat
  | .assignment .. | .conditional .. | .arrow .. | .yield .. | .sequence .. | .spread .. => 0
  | .binary _ _ op _ _ => op.precedence
  | .unary .. | .await .. => 13
  | _ => 14

variable {e : Expr}

theorem tightness_of_operator? {op : BinaryOp} (h : op ∈ e.operator?) :
    e.tightness = op.precedence := by
  cases e <;> cases h
  rfl

theorem operator?_eq_none (h : 13 ≤ e.tightness) : e.operator? = none := by
  rw [Option.eq_none_iff_forall_not_mem]
  intro op hop
  rw [tightness_of_operator? hop] at h
  cases BinaryOp.eq_exponent (Nat.le_of_succ_le h)
  exact absurd h (by decide)

theorem tightness_of_isPrefixed (h : e.isPrefixed = true) : e.tightness = 13 := by
  cases e <;> first | rfl | cases h

/-- What binds as tightly as some operator may be an operand, if it is not to be resolved. -/
theorem isOperand_of_tightness (h : 1 ≤ e.tightness) (hcover : e.isCover = false) :
    e.isOperand = true := by
  cases e <;> first | rfl | exact absurd h (Nat.not_succ_le_zero 0) | cases hcover

theorem Standalone.of_tightness (h : 13 ≤ e.tightness) (hcover : e.isCover = false) :
    e.Standalone where
  isOperand := isOperand_of_tightness (by omega) hcover
  operator := operator?_eq_none h

end Tree

namespace BinaryOp.Groups

variable {op : BinaryOp} {left right : Expr}

/-- Operators other than exponentiation group to the left. -/
theorem of_tightness (hop : op ≠ .exponent) (hleft : op.precedence ≤ left.tightness)
    (hright : op.precedence < right.tightness) (hl : left.isCover = false)
    (hr : right.isCover = false) (hlc : ∀ op' ∈ left.operator?, op.clashes op' = false)
    (hrc : ∀ op' ∈ right.operator?, op.clashes op' = false) : op.Groups left right where
  left_isOperand := Tree.isOperand_of_tightness (Nat.le_trans op.one_le_precedence hleft) hl
  right_isOperand :=
    Tree.isOperand_of_tightness (Nat.le_trans op.one_le_precedence (Nat.le_of_lt hright)) hr
  left_precedence _ _ hop' := Tree.tightness_of_operator? hop' ▸ hleft
  right_precedence _ _ hop' := Tree.tightness_of_operator? hop' ▸ hright
  base h := absurd h hop
  power h := absurd h hop
  left_clashes := hlc
  right_clashes := hrc

/-- Exponentiation groups to the right. -/
theorem of_power (hbase : 14 ≤ left.tightness) (hpower : 12 ≤ right.tightness)
    (hl : left.isCover = false) (hr : right.isCover = false) :
    BinaryOp.exponent.Groups left right where
  left_isOperand := Tree.isOperand_of_tightness (by omega) hl
  right_isOperand := Tree.isOperand_of_tightness (by omega) hr
  left_precedence h := absurd rfl h
  right_precedence h := absurd rfl h
  base _ := by
    refine ⟨Tree.operator?_eq_none (by omega), Bool.eq_false_iff.2 fun h => ?_⟩
    rw [Tree.tightness_of_isPrefixed h] at hbase
    omega
  power _ _ hop' := eq_exponent (Tree.tightness_of_operator? hop' ▸ hpower)
  left_clashes _ _ := rfl
  right_clashes _ _ := rfl

end BinaryOp.Groups
end Verbatim
