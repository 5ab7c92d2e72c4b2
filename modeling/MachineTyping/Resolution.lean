/-
# Resolving written types

A written type becomes a type by resolving its names: built-in names first, which no declaration
can change, then the innermost enum or alias.  An alias stays an alias.  A named tuple must not
list a field twice, which is noticed before the type of the repeated field is looked at.
-/
import MachineTyping.Error
import MachineTyping.Rule.Basic
import MachineTyping.Scope
import MachineTyping.Source.TypeRef

namespace MachineTyping

/-- The types that are there without being declared.  The type of `null` has no name. -/
def builtinType? : String → Option Ty
  | "int" => some .int
  | "float" => some .float
  | "bool" => some .bool
  | "any" => some .any
  | "data" => some .any
  | "event" => some .event
  | "machine" => some .machine
  | _ => none

/-- The type that a name stands for. -/
def Scope.typeNamed (scope : Scope) (span : Span) (name : String) : Verdict Ty :=
  match builtinType? name with
  | some ty => .ok ty
  | none =>
    match scope.lookupType name with
    | some ty => .ok ty
    | none => .error ⟨.undeclared (.one .type) name, span⟩

mutual

/-- **The type that a written type stands for.** -/
def Scope.resolve (scope : Scope) : TypeRef → Verdict Ty
  | .node span form => scope.resolveForm span form

/-- The type that a form stands for, written at `span`. -/
def Scope.resolveForm (scope : Scope) (span : Span) : TypeRef.Form → Verdict Ty
  | .name name => scope.typeNamed span name
  | .tuple elems => do return .tuple (← scope.resolveList elems)
  | .named fields => do return .named (← scope.resolveFields [] fields)
  | .seq elem => do return .seq (← scope.resolve elem)
  | .map key value => do
    let key ← scope.resolve key
    let value ← scope.resolve value
    return .map key value

/-- The types that written types stand for, left to right. -/
def Scope.resolveList (scope : Scope) : List TypeRef → Verdict (List Ty)
  | [] => return []
  | ref :: refs => do
    let ty ← scope.resolve ref
    let tys ← scope.resolveList refs
    return ty :: tys

/-- The fields that written fields stand for, left to right, `seen` being the names before. -/
def Scope.resolveFields (scope : Scope) (seen : List String) :
    List (String × TypeRef) → Verdict (List (String × Ty))
  | [] => return []
  | (name, ref) :: fields =>
    if name ∈ seen then .error ⟨.repeatedField name, ref.span⟩
    else do
      let ty ← scope.resolve ref
      let tys ← scope.resolveFields (name :: seen) fields
      return (name, ty) :: tys

end

end MachineTyping
