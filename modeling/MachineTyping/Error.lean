/-
# Type errors

Each fault is one way in which an expression can be rejected, with the types and names that a
report needs.  A type error is a fault and the span of the innermost phrase it was found in.
Checking stops at the first one.
-/
import MachineTyping.Source.Operator
import MachineTyping.Source.Span
import MachineTyping.Symbol
import MachineTyping.Type.Spelling

namespace MachineTyping

/-! ## 1. Faults -/

/-- What an operand should have been: of one type, or of any type of a kind. -/
inductive Expectation where
  | type (ty : Ty)
  | kind (kind : Kind)
deriving DecidableEq, Repr

/-- How an expectation reads: types are quoted, kinds are not. -/
def Expectation.phrase : Expectation → String
  | .type t => "`" ++ t.spelling ++ "`"
  | .kind k => k.spelling

/-- What a name was looked up as. -/
inductive Sought where
  /-- A symbol of one kind, or a type. -/
  | one (kind : SymbolKind)
  /-- Something that a bare name can stand for. -/
  | value
  /-- Something else, by a noun phrase for it. -/
  | other (phrase : String)
deriving DecidableEq, Repr

/-- What a bare name can stand for. -/
def Sought.valuePhrase : String := "variable, enum element, or event"

/-- The noun phrase for what was looked up. -/
def Sought.phrase : Sought → String
  | .one kind => kind.noun
  | .value => Sought.valuePhrase
  | .other phrase => phrase

/-- What a noun phrase stands for. -/
def Sought.ofPhrase (phrase : String) : Sought :=
  if phrase = Sought.valuePhrase then .value
  else match SymbolKind.all.find? (·.noun == phrase) with
    | some kind => .one kind
    | none => .other phrase

/-- Reading a noun phrase loses nothing. -/
@[simp] theorem Sought.phrase_ofPhrase (phrase : String) :
    (Sought.ofPhrase phrase).phrase = phrase := by
  unfold Sought.ofPhrase
  split
  · next h => exact h.symm
  · split
    · next kind h => simpa [Sought.phrase] using List.find?_some h
    · rfl

/-- One way in which an expression can be rejected. -/
inductive Fault where
  /-- An operand has the wrong type. -/
  | mismatch (found : Ty) (expected : List Expectation)
  /-- The operands of an arithmetic or comparison operator are not two numbers of one type. -/
  | operands (op : BinaryOp) (lhs rhs : Ty)
  /-- Two types that cannot be compared, cast or converted. -/
  | incomparable (left right : Ty)
  /-- A name that does not stand for what it is used as. -/
  | undeclared (sought : Sought) (name : String)
  /-- A named tuple without the field. -/
  | noField (field : String) (tuple : Ty)
  /-- A tuple without that component. -/
  | outOfBounds (index : String) (tuple : Ty)
  /-- A variable that is handed over twice in one list of arguments. -/
  | relinquished (name : String)
  /-- `this` outside of a machine. -/
  | misplacedSelf
  /-- Too many or too few arguments. -/
  | argumentCount (expected found : Nat)
  /-- A numeral that is malformed or out of range. -/
  | badNumber (text : String)
  /-- A floating-point literal with an exponent. -/
  | exponentLiteral
  /-- A named tuple that lists a field twice. -/
  | repeatedField (field : String)
deriving DecidableEq, Repr

/-- A fault and where it was found. -/
structure TypeError where
  fault : Fault
  span : Span
deriving DecidableEq, Repr

/-! ## 2. Messages -/

/-- Expectations as alternatives: `a`, `a or b`, `a, b or c`. -/
def alternatives (expected : List Expectation) : String :=
  match expected.map Expectation.phrase with
  | [] => ""
  | [only] => only
  | first :: rest =>
    commaSeparated (first :: rest).dropLast ++ " or " ++ (first :: rest).getLastD ""

/-- What a report says of a fault. -/
def Fault.message : Fault → String
  | .mismatch found expected =>
    s!"type mismatch: expected {alternatives expected}, found `{found}`"
  | .operands op lhs rhs => s!"operator `{op}` cannot be applied to `{lhs}` and `{rhs}`"
  | .incomparable left right => s!"types `{left}` and `{right}` are incomparable"
  | .undeclared sought name => s!"no {sought.phrase} named `{name}`"
  | .noField field tuple => s!"named tuple `{tuple}` has no field `{field}`"
  | .outOfBounds index tuple => s!"index {index} is out of bounds for tuple `{tuple}`"
  | .relinquished name => s!"`{name}` is relinquished more than once in the same call"
  | .misplacedSelf => "`this` used outside of a machine"
  | .argumentCount expected found => s!"expected {expected} argument(s), found {found}"
  | .badNumber text => s!"invalid number literal `{text}`"
  | .exponentLiteral => "exponent float literals are not supported"
  | .repeatedField field => s!"field `{field}` appears more than once"

/-- What a report says of an error. -/
def TypeError.message (e : TypeError) : String := e.fault.message

end MachineTyping
