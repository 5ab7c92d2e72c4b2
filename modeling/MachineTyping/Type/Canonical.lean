/-
# Canonical types

Aliases are transparent: a rule never asks how a type was named, only what it is.  `Ty.canonical`
resolves every alias of a type, at any depth, and `Ty.kind` reads the head off a type without
resolving more of it than it must (`kind_canonical`).

Two types are the same, `Ty.sameAs`, when their canonical forms are equal.
-/
import MachineTyping.Type.Basic

namespace MachineTyping

/-! ## 1. Resolving aliases -/

mutual

/-- The type with every alias in it replaced by what it stands for. -/
def Ty.canonical : Ty → Ty
  | .int => .int
  | .float => .float
  | .bool => .bool
  | .any => .any
  | .null => .null
  | .event => .event
  | .machine => .machine
  | .enum name => .enum name
  | .tuple elems => .tuple (Ty.canonicalList elems)
  | .named fields => .named (Ty.canonicalFields fields)
  | .seq elem => .seq elem.canonical
  | .map key value => .map key.canonical value.canonical
  | .alias _ target => target.canonical

/-- Every type of the list, canonical. -/
def Ty.canonicalList : List Ty → List Ty
  | [] => []
  | t :: ts => t.canonical :: Ty.canonicalList ts

/-- The same fields, each of canonical type. -/
def Ty.canonicalFields : List (String × Ty) → List (String × Ty)
  | [] => []
  | (name, t) :: fields => (name, t.canonical) :: Ty.canonicalFields fields

end

@[simp] theorem Ty.canonicalList_eq_map (ts : List Ty) :
    Ty.canonicalList ts = ts.map Ty.canonical := by
  induction ts with
  | nil => rfl
  | cons t ts ih => rw [Ty.canonicalList, ih, List.map_cons]

@[simp] theorem Ty.canonicalFields_eq_map (fields : List (String × Ty)) :
    Ty.canonicalFields fields = fields.map fun field => (field.1, field.2.canonical) := by
  induction fields with
  | nil => rfl
  | cons field fields ih => rw [Ty.canonicalFields, ih, List.map_cons]

mutual

/-- **Resolving once is enough**: a canonical type is its own canonical form. -/
theorem Ty.canonical_canonical : ∀ t : Ty, t.canonical.canonical = t.canonical
  | .int | .float | .bool | .any | .null | .event | .machine | .enum _ => rfl
  | .tuple ts => by simpa [Ty.canonical] using Ty.canonicalList_canonical ts
  | .named fields => by simpa [Ty.canonical] using Ty.canonicalFields_canonical fields
  | .seq t => by simp [Ty.canonical, t.canonical_canonical]
  | .map k v => by simp [Ty.canonical, k.canonical_canonical, v.canonical_canonical]
  | .alias _ t => by simpa [Ty.canonical] using t.canonical_canonical

theorem Ty.canonicalList_canonical :
    ∀ ts : List Ty, ∀ t ∈ ts, t.canonical.canonical = t.canonical
  | [] => nofun
  | t :: ts => by simpa [t.canonical_canonical] using Ty.canonicalList_canonical ts

theorem Ty.canonicalFields_canonical : ∀ fields : List (String × Ty), ∀ name t,
    (name, t) ∈ fields → t.canonical.canonical = t.canonical
  | [] => nofun
  | (_, t) :: fields => fun name u h => by
    cases h with
    | head => exact t.canonical_canonical
    | tail _ h => exact Ty.canonicalFields_canonical fields name u h

end

/-! ## 2. Kinds -/

/-- The kind of a type, aliases looked through. -/
def Ty.kind : Ty → Kind
  | .int => .int
  | .float => .float
  | .bool => .bool
  | .any => .any
  | .null => .null
  | .event => .event
  | .machine => .machine
  | .enum _ => .enum
  | .tuple _ => .tuple
  | .named _ => .named
  | .seq _ => .seq
  | .map _ _ => .map
  | .alias _ target => target.kind

/-- Resolving aliases does not change the kind. -/
@[simp] theorem Ty.kind_canonical : ∀ t : Ty, t.canonical.kind = t.kind
  | .int | .float | .bool | .any | .null | .event | .machine | .enum _
  | .tuple _ | .named _ | .seq _ | .map _ _ => rfl
  | .alias _ t => by simpa [Ty.canonical, Ty.kind] using t.kind_canonical

/-- Whether a type has the given kind. -/
def Ty.isOf (t : Ty) (kind : Kind) : Bool := t.kind == kind

/-! ## 3. Sameness -/

/-- **Whether two types are the same type**, however they were named. -/
def Ty.sameAs (a b : Ty) : Bool := a.canonical == b.canonical

@[simp] theorem Ty.sameAs_iff {a b : Ty} : a.sameAs b = true ↔ a.canonical = b.canonical := by
  simp [Ty.sameAs]

/-- Whether a type is written without aliases. -/
def Ty.isCanonical (t : Ty) : Bool := t == t.canonical

end MachineTyping
