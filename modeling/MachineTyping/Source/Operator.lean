/-
# Operators

The operators of expressions, with their spelling, and the two ways of handing a variable over.
The typing rules do not go operator by operator but family by family (`BinaryOp.family`).
-/
namespace MachineTyping

/-! ## 1. Unary operators -/

/-- An operator before its operand. -/
inductive UnaryOp where
  /-- Arithmetic negation. -/
  | neg
  /-- Logical negation. -/
  | not
deriving DecidableEq, Repr

/-- How a unary operator is written. -/
def UnaryOp.spelling : UnaryOp → String
  | .neg => "-"
  | .not => "!"

/-! ## 2. Binary operators -/

/-- An operator between its operands. -/
inductive BinaryOp where
  | add | sub | mul | div
  | lt | le | gt | ge
  | eq | ne
  | and | or
  /-- Whether a map has a key. -/
  | member
deriving DecidableEq, Repr

/-- How a binary operator is written. -/
def BinaryOp.spelling : BinaryOp → String
  | .add => "+"
  | .sub => "-"
  | .mul => "*"
  | .div => "/"
  | .lt => "<"
  | .le => "<="
  | .gt => ">"
  | .ge => ">="
  | .eq => "=="
  | .ne => "!="
  | .and => "&&"
  | .or => "||"
  | .member => "in"

instance : ToString BinaryOp := ⟨BinaryOp.spelling⟩

/-- The operators that share a typing rule. -/
inductive BinaryOp.Family where
  /-- Two numbers of one type give a number of that type. -/
  | arithmetic
  /-- Two numbers of one type give a truth value. -/
  | comparison
  /-- Two values of comparable types give a truth value. -/
  | equality
  /-- Two truth values give a truth value. -/
  | logical
  /-- A key and a map give a truth value. -/
  | membership
deriving DecidableEq, Repr

/-- The family of an operator. -/
def BinaryOp.family : BinaryOp → BinaryOp.Family
  | .add | .sub | .mul | .div => .arithmetic
  | .lt | .le | .gt | .ge => .comparison
  | .eq | .ne => .equality
  | .and | .or => .logical
  | .member => .membership

/-! ## 3. Handing over -/

/-- How a variable is handed to a callee. -/
inductive LinearMode where
  /-- The callee keeps the value. -/
  | move
  /-- The callee may put another value of the same type back. -/
  | swap
deriving DecidableEq, Repr

/-- How a mode is written. -/
def LinearMode.spelling : LinearMode → String
  | .move => "move"
  | .swap => "swap"

end MachineTyping
