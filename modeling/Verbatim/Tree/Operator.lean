/-!
# Operators and declaration words

The operators of expressions with their spellings, and the small enumerations that tell apart the
forms of declarations, properties and methods.

## Main definitions

* `Verbatim.UnaryOp`, `Verbatim.UpdateOp`, `Verbatim.BinaryOp`, `Verbatim.AssignOp` — operators.
* `Verbatim.BinaryOp.precedence` — how tightly a binary operator binds.
-/

namespace Verbatim

/-- The operators in front of one operand, other than the two update operators. -/
inductive UnaryOp where
  /-- Negation. -/
  | minus
  /-- Conversion to a number. -/
  | plus
  /-- Logical complement. -/
  | not
  /-- Bitwise complement. -/
  | bitNot
  /-- The type of a value. -/
  | typeof
  /-- Evaluation for effect. -/
  | void
  /-- Removal of a property. -/
  | delete
deriving DecidableEq, Repr

/-- Every unary operator. -/
def UnaryOp.all : List UnaryOp := [.minus, .plus, .not, .bitNot, .typeof, .void, .delete]

/-- The spelling of a unary operator. -/
def UnaryOp.text : UnaryOp → String
  | .minus => "-"
  | .plus => "+"
  | .not => "!"
  | .bitNot => "~"
  | .typeof => "typeof"
  | .void => "void"
  | .delete => "delete"

/-- The unary operator with a given spelling. -/
def UnaryOp.ofText? (text : String) : Option UnaryOp := all.find? (·.text == text)

/-- The operators that step their operand. -/
inductive UpdateOp where
  /-- Step up. -/
  | increment
  /-- Step down. -/
  | decrement
deriving DecidableEq, Repr

/-- The spelling of an update operator. -/
def UpdateOp.text : UpdateOp → String
  | .increment => "++"
  | .decrement => "--"

/-- The operators between two operands. -/
inductive BinaryOp where
  /-- The first operand unless it is nullish. -/
  | coalesce
  /-- Logical disjunction. -/
  | or
  /-- Logical conjunction. -/
  | and
  /-- Bitwise disjunction. -/
  | bitOr
  /-- Bitwise exclusive disjunction. -/
  | bitXor
  /-- Bitwise conjunction. -/
  | bitAnd
  /-- Loose equality. -/
  | equal
  /-- Loose inequality. -/
  | notEqual
  /-- Strict equality. -/
  | strictEqual
  /-- Strict inequality. -/
  | strictNotEqual
  /-- Less. -/
  | less
  /-- Greater. -/
  | greater
  /-- Less or equal. -/
  | lessEqual
  /-- Greater or equal. -/
  | greaterEqual
  /-- Membership in a class. -/
  | instanceof
  /-- Presence of a property. -/
  | contained
  /-- Shift to the left. -/
  | shiftLeft
  /-- Signed shift to the right. -/
  | shiftRight
  /-- Unsigned shift to the right. -/
  | shiftRightUnsigned
  /-- Sum. -/
  | add
  /-- Difference. -/
  | subtract
  /-- Product. -/
  | multiply
  /-- Quotient. -/
  | divide
  /-- Remainder. -/
  | remainder
  /-- Power. -/
  | exponent
deriving DecidableEq, Repr

namespace BinaryOp

/-- Every binary operator. -/
def all : List BinaryOp :=
  [.coalesce, .or, .and, .bitOr, .bitXor, .bitAnd, .equal, .notEqual, .strictEqual,
    .strictNotEqual, .less, .greater, .lessEqual, .greaterEqual, .instanceof, .contained,
    .shiftLeft, .shiftRight, .shiftRightUnsigned, .add, .subtract, .multiply, .divide, .remainder,
    .exponent]

/-- The spelling of a binary operator. -/
def text : BinaryOp → String
  | .coalesce => "??"
  | .or => "||"
  | .and => "&&"
  | .bitOr => "|"
  | .bitXor => "^"
  | .bitAnd => "&"
  | .equal => "=="
  | .notEqual => "!="
  | .strictEqual => "==="
  | .strictNotEqual => "!=="
  | .less => "<"
  | .greater => ">"
  | .lessEqual => "<="
  | .greaterEqual => ">="
  | .instanceof => "instanceof"
  | .contained => "in"
  | .shiftLeft => "<<"
  | .shiftRight => ">>"
  | .shiftRightUnsigned => ">>>"
  | .add => "+"
  | .subtract => "-"
  | .multiply => "*"
  | .divide => "/"
  | .remainder => "%"
  | .exponent => "**"

/-- The binary operator with a given spelling. -/
def ofText? (text : String) : Option BinaryOp := all.find? (·.text == text)

/-- How tightly an operator binds; the greater binds tighter. -/
def precedence : BinaryOp → Nat
  | .coalesce | .or => 1
  | .and => 2
  | .bitOr => 3
  | .bitXor => 4
  | .bitAnd => 5
  | .equal | .notEqual | .strictEqual | .strictNotEqual => 6
  | .less | .greater | .lessEqual | .greaterEqual | .instanceof | .contained => 7
  | .shiftLeft | .shiftRight | .shiftRightUnsigned => 8
  | .add | .subtract => 9
  | .multiply | .divide | .remainder => 11
  | .exponent => 12

/-- The operators that need not evaluate their second operand. -/
def isLogical : BinaryOp → Bool
  | .coalesce | .or | .and => true
  | _ => false

end BinaryOp

/-- The operators of assignments. -/
inductive AssignOp where
  /-- Plain assignment. -/
  | assign
  /-- Assignment of the sum. -/
  | add
  /-- Assignment of the difference. -/
  | subtract
  /-- Assignment of the product. -/
  | multiply
  /-- Assignment of the quotient. -/
  | divide
  /-- Assignment of the remainder. -/
  | remainder
  /-- Assignment of the power. -/
  | exponent
  /-- Assignment of the left shift. -/
  | shiftLeft
  /-- Assignment of the signed right shift. -/
  | shiftRight
  /-- Assignment of the unsigned right shift. -/
  | shiftRightUnsigned
  /-- Assignment of the bitwise disjunction. -/
  | bitOr
  /-- Assignment of the bitwise exclusive disjunction. -/
  | bitXor
  /-- Assignment of the bitwise conjunction. -/
  | bitAnd
  /-- Assignment if the target is truthy. -/
  | and
  /-- Assignment if the target is falsy. -/
  | or
  /-- Assignment if the target is nullish. -/
  | coalesce
deriving DecidableEq, Repr

namespace AssignOp

/-- Every assignment operator. -/
def all : List AssignOp :=
  [.assign, .add, .subtract, .multiply, .divide, .remainder, .exponent, .shiftLeft, .shiftRight,
    .shiftRightUnsigned, .bitOr, .bitXor, .bitAnd, .and, .or, .coalesce]

/-- The spelling of an assignment operator. -/
def text : AssignOp → String
  | .assign => "="
  | .add => "+="
  | .subtract => "-="
  | .multiply => "*="
  | .divide => "/="
  | .remainder => "%="
  | .exponent => "**="
  | .shiftLeft => "<<="
  | .shiftRight => ">>="
  | .shiftRightUnsigned => ">>>="
  | .bitOr => "|="
  | .bitXor => "^="
  | .bitAnd => "&="
  | .and => "&&="
  | .or => "||="
  | .coalesce => "??="

/-- The assignment operator with a given spelling. -/
def ofText? (text : String) : Option AssignOp := all.find? (·.text == text)

end AssignOp

/-! ## Forms of declarations and members -/

/-- The words that declare variables. -/
inductive VariableKind where
  /-- Function-scoped. -/
  | var
  /-- Block-scoped. -/
  | let
  /-- Block-scoped and constant. -/
  | const
deriving DecidableEq, Repr

/-- The spelling of a declaration word. -/
def VariableKind.text : VariableKind → String
  | .var => "var"
  | .let => "let"
  | .const => "const"

/-- The forms of properties in object literals. -/
inductive PropertyKind where
  /-- A value or a method. -/
  | plain
  /-- A getter. -/
  | getter
  /-- A setter. -/
  | setter
deriving DecidableEq, Repr

/-- The word in front of the key of an accessor. -/
def PropertyKind.accessor : PropertyKind → String
  | .getter => "get"
  | .setter => "set"
  | .plain => ""

/-- The forms of class methods. -/
inductive MethodKind where
  /-- The constructor. -/
  | constructor
  /-- An ordinary method. -/
  | method
  /-- A getter. -/
  | getter
  /-- A setter. -/
  | setter
deriving DecidableEq, Repr

/-- The word in front of the key of an accessor. -/
def MethodKind.accessor : MethodKind → String
  | .getter => "get"
  | .setter => "set"
  | _ => ""

end Verbatim
