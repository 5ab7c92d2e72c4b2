/-
# Rules for operators and conversions

Numbers never widen: `int` and `float` do not mix, and a program converts with `to`.

* Arithmetic and comparison take two numbers of one type.
* Equality and `as` take types of which one accepts the other.
* `to` has a table of its own (`Ty.conversion?`): numbers and enums convert to and from `int`, and
  what is converted to its own type is returned as it is, node and all.
-/
import MachineTyping.Rule.Basic
import MachineTyping.Type.Assignable

namespace MachineTyping

/-- Whether a type is a number type. -/
def Ty.isNumeric (t : Ty) : Bool := t.isOf .int || t.isOf .float

/-- Whether two types are the same number type. -/
def Ty.numericPair (a b : Ty) : Bool := a.isNumeric && a.kind == b.kind

/-- What `to` does to a value. -/
inductive Conversion where
  /-- Nothing: the value has the type already. -/
  | identity
  /-- The value is converted. -/
  | convert
deriving DecidableEq, Repr

/-- The table of conversions between canonical types. -/
def Ty.conversionTable : Ty → Ty → Option Conversion
  | .int, .int | .float, .float => some .identity
  | .enum a, .enum b => if a = b then some .identity else none
  | .int, .float | .float, .int | .int, .enum _ | .enum _, .int => some .convert
  | _, _ => none

/-- What `to` does to a value of type `source` to make it one of type `target`, if it can. -/
def Ty.conversion? (source target : Ty) : Option Conversion :=
  Ty.conversionTable source.canonical target.canonical

namespace Rule

/-! ## 1. Operators -/

/-- Negation keeps the type of its operand, a number or a truth value. -/
def unary (span : Span) (op : UnaryOp) (operand : Typed) : Verdict Typed :=
  match op with
  | .neg =>
    if operand.ty.isNumeric then .ok (.node span operand.ty (.unary op operand))
    else .error (operand.mismatch [.type .int, .type .float])
  | .not =>
    if operand.ty.isOf .bool then .ok (.node span operand.ty (.unary op operand))
    else .error (operand.mismatch [.type .bool])

/-- `k in m` asks a map for a key that its keys accept. -/
def hasKey (span : Span) (key map : Typed) : Verdict Typed :=
  match map.ty.canonical with
  | .map keyTy _ =>
    if keyTy.accepts key.ty then .ok (.node span .bool (.hasKey key map))
    else .error (key.mismatch [.type keyTy])
  | _ => .error (map.mismatch [.kind .map])

/-- Binary operators, by family. -/
def binary (span : Span) (op : BinaryOp) (lhs rhs : Typed) : Verdict Typed :=
  match op.family with
  | .membership => hasKey span lhs rhs
  | .arithmetic =>
    if lhs.ty.numericPair rhs.ty then .ok (.node span lhs.ty (.binary op lhs rhs))
    else .error ⟨.operands op lhs.ty rhs.ty, span⟩
  | .comparison =>
    if lhs.ty.numericPair rhs.ty then .ok (.node span .bool (.binary op lhs rhs))
    else .error ⟨.operands op lhs.ty rhs.ty, span⟩
  | .equality =>
    if lhs.ty.comparable rhs.ty then .ok (.node span .bool (.binary op lhs rhs))
    else .error ⟨.incomparable lhs.ty rhs.ty, span⟩
  | .logical =>
    if lhs.ty.isOf .bool then
      if rhs.ty.isOf .bool then .ok (.node span .bool (.binary op lhs rhs))
      else .error (rhs.mismatch [.type .bool])
    else .error (lhs.mismatch [.type .bool])

/-! ## 2. Conversions -/

/-- `e as T` takes a value to a type that accepts its own or is accepted by it. -/
def cast (span : Span) (operand : Typed) (target : Ty) : Verdict Typed :=
  if operand.ty.comparable target then .ok (.node span target (.cast operand))
  else .error ⟨.incomparable operand.ty target, span⟩

/-- `e to T` converts by the table; a value of the target type is returned as it is. -/
def coerce (span : Span) (operand : Typed) (target : Ty) : Verdict Typed :=
  match operand.ty.conversion? target with
  | some .identity => .ok operand
  | some .convert => .ok (.node span target (.coerce operand))
  | none => .error ⟨.incomparable operand.ty target, span⟩

end Rule

end MachineTyping
