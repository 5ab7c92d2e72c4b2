/-
# Assignability

`target.accepts source` says that a value of type `source` may stand where `target` is expected.
It is decided on canonical types, by structure:

* `any` accepts everything;
* `null`, `event` and `machine` accept `null`;
* an enum accepts itself, by name;
* tuples, named tuples, sequences and maps accept their like, part by part, and the fields of
  named tuples must have the same names in the same order;
* a primitive accepts itself and nothing else: `int` and `float` never mix.

The relation is not symmetric.  `Ty.comparable` is its symmetric closure.
-/
import MachineTyping.Type.Canonical

namespace MachineTyping

mutual

/-- Assignability of canonical types.  An alias is accepted by `any` only and accepts nothing. -/
def Ty.admits : Ty → Ty → Bool
  | .any, _ => true
  | .null, .null | .event, .null | .machine, .null => true
  | .int, .int | .float, .float | .bool, .bool | .event, .event | .machine, .machine => true
  | .enum a, .enum b => a == b
  | .tuple ts, .tuple ss => Ty.admitsList ts ss
  | .named fs, .named gs => Ty.admitsFields fs gs
  | .seq t, .seq s => t.admits s
  | .map k v, .map l w => k.admits l && v.admits w
  | _, _ => false

/-- Assignability position by position, of lists of one length. -/
def Ty.admitsList : List Ty → List Ty → Bool
  | [], [] => true
  | t :: ts, s :: ss => t.admits s && Ty.admitsList ts ss
  | _, _ => false

/-- Assignability field by field, of lists with the same names in the same order. -/
def Ty.admitsFields : List (String × Ty) → List (String × Ty) → Bool
  | [], [] => true
  | (a, t) :: fs, (b, s) :: gs => a == b && t.admits s && Ty.admitsFields fs gs
  | _, _ => false

end

/-- **Whether a value of type `source` may be used where `target` is expected.** -/
def Ty.accepts (target source : Ty) : Bool := target.canonical.admits source.canonical

/-- Whether one of two types accepts the other. -/
def Ty.comparable (a b : Ty) : Bool := a.accepts b || b.accepts a

/-- Acceptance does not look at names of aliases: canonical types are accepted alike. -/
@[simp] theorem Ty.accepts_canonical (target source : Ty) :
    target.canonical.accepts source.canonical = target.accepts source := by
  simp [Ty.accepts, Ty.canonical_canonical]

/-! ## Examples -/

/-- `any` accepts everything, at any depth, and is accepted by nothing else. -/
example : (Ty.seq .any).accepts (.seq .int) = true ∧ (Ty.seq .int).accepts (.seq .any) = false := by
  decide

/-- An alias is as good as what it stands for. -/
example : (Ty.alias "Id" .int).accepts .int = true ∧ Ty.int.accepts (.alias "Id" .int) = true := by
  decide

end MachineTyping
