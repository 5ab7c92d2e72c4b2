/-
# Rules for leaves

A typing rule takes operands that have been checked already and either builds the typed node or
says what is wrong.  It is told the span of the phrase and sees its operands as typed nodes; it
does not recurse.  This module has the rules for phrases without operands, literals and names.

A bare name stands for a variable, an enum element or an event, in that order; which one it is
depends on its innermost binding alone, so a function or a machine hides what lies further out.
-/
import MachineTyping.Error
import MachineTyping.Scope
import MachineTyping.Source.Expr
import MachineTyping.Typed

namespace MachineTyping

/-- What a rule concludes. -/
abbrev Verdict (α : Type) := Except TypeError α

/-- An operand that should have had another type; the error is reported at the operand. -/
def Typed.mismatch (operand : Typed) (expected : List Expectation) : TypeError :=
  ⟨.mismatch operand.ty expected, operand.span⟩

namespace Rule

/-! ## 1. Literals -/

/-- Integer literals are signed 64-bit words. -/
def int (span : Span) (text : String) : Verdict Typed :=
  match integerOfText? text with
  | some value => .ok (.node span .int (.int value))
  | none => .error ⟨.badNumber text, span⟩

/-- Floating-point literals are decimals; the form with an exponent is not supported. -/
def float (span : Span) : FloatLiteral → Verdict Typed
  | .decimal whole fraction =>
    match Binary64.ofDecimal? (whole.getD "") fraction with
    | some value => .ok (.node span .float (.float value))
    | none => .error ⟨.badNumber (whole.getD "" ++ "." ++ fraction), span⟩
  | .exponent _ _ => .error ⟨.exponentLiteral, span⟩

/-! ## 2. Names -/

/-- A variable, under its declared type. -/
def var (scope : Scope) (span : Span) (name : String) : Verdict Typed :=
  match scope.lookupVar name with
  | some v => .ok (.node span v.ty (.var v))
  | none => .error ⟨.undeclared (.one .var) name, span⟩

/-- A bare name. -/
def name (scope : Scope) (span : Span) (name : String) : Verdict Typed :=
  match scope.lookup name with
  | some (.var v) => .ok (.node span v.ty (.var v))
  | some (.element e) => .ok (.node span e.ty (.element e))
  | some (.event e) => .ok (.node span .event (.event e))
  | _ => .error ⟨.undeclared .value name, span⟩

/-- `halt` is the event that its name is bound to, which an inner frame may have changed. -/
def halt (scope : Scope) (span : Span) : Verdict Typed :=
  match scope.lookupEvent Event.haltName with
  | some e => .ok (.node span .event (.event e))
  | none => .error ⟨.undeclared (.one .event) Event.haltName, span⟩

/-- `this` is the machine that the body belongs to. -/
def self (owner : Option Machine) (span : Span) : Verdict Typed :=
  match owner with
  | some m => .ok (.node span .machine (.self m))
  | none => .error ⟨.misplacedSelf, span⟩

/-- `move x` and `swap x` are typed like the variable that they hand over. -/
def linear (scope : Scope) (span : Span) (mode : LinearMode) (name : String) : Verdict Typed :=
  match scope.lookupVar name with
  | some v => .ok (.node span v.ty (.linear mode v))
  | none => .error ⟨.undeclared (.one .var) name, span⟩

/-! ## 3. Tuples -/

/-- A tuple has the types of its elements. -/
def tuple (span : Span) (elems : List Typed) : Typed :=
  .node span (.tuple (elems.map Typed.ty)) (.tuple elems)

/-- A named tuple has the names and types of its fields. -/
def named (span : Span) (fields : List (String × Typed)) : Typed :=
  .node span (.named (fields.map fun field => (field.1, field.2.ty))) (.named fields)

end Rule

end MachineTyping
