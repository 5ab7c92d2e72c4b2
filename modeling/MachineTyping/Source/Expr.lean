/-
# Expressions and assignment targets

The trees that a reader of sources hands over for checking.  Names and literals are kept as the
text that was read, and every node has its span; nothing here has been checked, not even that
the digits of a number are digits.
-/
import MachineTyping.Source.Operator
import MachineTyping.Source.TypeRef

namespace MachineTyping

/-! ## 1. Expressions -/

/-- A floating-point literal, as text. -/
inductive FloatLiteral where
  /-- `3.14` or `.5`: the whole part may be missing. -/
  | decimal (whole : Option String) (fraction : String)
  /-- `float(base, power)`, a form that no rule admits. -/
  | exponent (base power : String)
deriving DecidableEq, Repr

mutual

/-- An expression: what it is and where it stands. -/
inductive Expr where
  | node (span : Span) (form : Expr.Form)

/-- What an expression is, one form for each production. -/
inductive Expr.Form where
  /-- A variable, an enum element or an event. -/
  | name (name : String)
  /-- An integer literal. -/
  | int (text : String)
  /-- A floating-point literal. -/
  | float (literal : FloatLiteral)
  /-- `true` or `false` -/
  | bool (value : Bool)
  /-- `null` -/
  | null
  /-- `$`, a nondeterministic choice. -/
  | choice
  /-- `$$`, a choice that a scheduler resolves fairly. -/
  | fairChoice
  /-- `halt`, the event that ends a machine. -/
  | halt
  /-- `this`, the machine that the body belongs to. -/
  | self
  /-- `-e` or `!e` -/
  | unary (op : UnaryOp) (operand : Expr)
  /-- `l + r`, and so on. -/
  | binary (op : BinaryOp) (lhs rhs : Expr)
  /-- `(a, b)` -/
  | tuple (elems : List Expr)
  /-- `(x = a, y = b)` -/
  | named (fields : List (String × Expr))
  /-- `e.0`, the index as text. -/
  | component (base : Expr) (index : String)
  /-- `e.x` -/
  | field (base : Expr) (name : String)
  /-- `e[i]` -/
  | index (base index : Expr)
  /-- `keys(m)` -/
  | keys (map : Expr)
  /-- `values(m)` -/
  | values (map : Expr)
  /-- `sizeof(c)` -/
  | sizeof (collection : Expr)
  /-- `default(T)` -/
  | default (type : TypeRef)
  /-- `f(a, b)` -/
  | call (callee : String) (args : List Expr)
  /-- `new M(a, b)` -/
  | new (machine : String) (args : List Expr)
  /-- `e as T` -/
  | cast (operand : Expr) (type : TypeRef)
  /-- `e to T` -/
  | coerce (operand : Expr) (type : TypeRef)
  /-- `move x` or `swap x` -/
  | linear (mode : LinearMode) (name : String)

end

/-- Where an expression stands. -/
def Expr.span : Expr → Span
  | .node span _ => span

/-- What an expression is. -/
def Expr.form : Expr → Expr.Form
  | .node _ form => form

/-! ## 2. Assignment targets -/

mutual

/-- An assignment target: what it is and where it stands. -/
inductive Lvalue where
  | node (span : Span) (form : Lvalue.Form)

/-- What an assignment target is: a variable, or a part of another target. -/
inductive Lvalue.Form where
  /-- `x` -/
  | var (name : String)
  /-- `t.x` -/
  | field (base : Lvalue) (name : String)
  /-- `t.0`, the index as text. -/
  | component (base : Lvalue) (index : String)
  /-- `t[i]`, the index being any expression. -/
  | index (base : Lvalue) (index : Expr)

end

/-- Where an assignment target stands. -/
def Lvalue.span : Lvalue → Span
  | .node span _ => span

/-- What an assignment target is. -/
def Lvalue.form : Lvalue → Lvalue.Form
  | .node _ form => form

end MachineTyping
