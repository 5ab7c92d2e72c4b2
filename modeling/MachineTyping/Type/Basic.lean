/-
# Types

Types are structural: two tuples with the same elements are the same type wherever they were
written.  Two parts are nominal, enums, which are told apart by name, and aliases, which carry
the type that they stand for, so that nothing has to be looked up.

This module holds the types themselves, their kinds and the decision procedure for equality as
written (`Ty.alike_iff_eq`), which tells an alias from its target.
-/
namespace MachineTyping

/-! ## 1. Types and kinds -/

/-- A type, as a program writes it. -/
inductive Ty where
  /-- Integers. -/
  | int
  /-- Binary floating-point numbers. -/
  | float
  /-- Truth values. -/
  | bool
  /-- The top type: a value of any type will do. -/
  | any
  /-- The type of the `null` literal. -/
  | null
  /-- References to events. -/
  | event
  /-- References to machines. -/
  | machine
  /-- The enum declared under a name. -/
  | enum (name : String)
  /-- Positional tuples. -/
  | tuple (elems : List Ty)
  /-- Tuples with named fields, in their order of declaration. -/
  | named (fields : List (String × Ty))
  /-- Sequences. -/
  | seq (elem : Ty)
  /-- Maps from keys to values. -/
  | map (key value : Ty)
  /-- Another name for `target`. -/
  | alias (name : String) (target : Ty)
deriving Repr

instance : Inhabited Ty := ⟨.null⟩

/-- The head of a type, once aliases are looked through. -/
inductive Kind where
  | int | float | bool | any | null | event | machine | enum | tuple | named | seq | map
deriving DecidableEq, Repr

/-- Every kind, in the order of their declaration. -/
def Kind.all : List Kind :=
  [.int, .float, .bool, .any, .null, .event, .machine, .enum, .tuple, .named, .seq, .map]

/-! ## 2. Equality -/

mutual

/-- Whether two types are written alike. -/
def Ty.alike : Ty → Ty → Bool
  | .int, .int | .float, .float | .bool, .bool | .any, .any | .null, .null
  | .event, .event | .machine, .machine => true
  | .enum a, .enum b => a == b
  | .tuple ts, .tuple us => Ty.alikeList ts us
  | .named fs, .named gs => Ty.alikeFields fs gs
  | .seq t, .seq u => t.alike u
  | .map k v, .map l w => k.alike l && v.alike w
  | .alias a t, .alias b u => a == b && t.alike u
  | _, _ => false

/-- Whether two lists of types are written alike. -/
def Ty.alikeList : List Ty → List Ty → Bool
  | [], [] => true
  | t :: ts, u :: us => t.alike u && Ty.alikeList ts us
  | _, _ => false

/-- Whether two lists of fields are written alike, names included. -/
def Ty.alikeFields : List (String × Ty) → List (String × Ty) → Bool
  | [], [] => true
  | (a, t) :: fs, (b, u) :: gs => a == b && t.alike u && Ty.alikeFields fs gs
  | _, _ => false

end

mutual

/-- A type is written like itself... -/
theorem Ty.alike_self : ∀ t : Ty, t.alike t = true
  | .int | .float | .bool | .any | .null | .event | .machine => rfl
  | .enum _ => by simp [Ty.alike]
  | .tuple ts => by simpa [Ty.alike] using Ty.alikeList_self ts
  | .named fs => by simpa [Ty.alike] using Ty.alikeFields_self fs
  | .seq t => by simpa [Ty.alike] using t.alike_self
  | .map k v => by simp [Ty.alike, k.alike_self, v.alike_self]
  | .alias _ t => by simp [Ty.alike, t.alike_self]

theorem Ty.alikeList_self : ∀ ts : List Ty, Ty.alikeList ts ts = true
  | [] => rfl
  | t :: ts => by simp [Ty.alikeList, t.alike_self, Ty.alikeList_self ts]

theorem Ty.alikeFields_self : ∀ fs : List (String × Ty), Ty.alikeFields fs fs = true
  | [] => rfl
  | (_, t) :: fs => by simp [Ty.alikeFields, t.alike_self, Ty.alikeFields_self fs]

end

mutual

/-- ...and like no other. -/
theorem Ty.eq_of_alike : ∀ {t u : Ty}, t.alike u = true → t = u
  | .int, u, h | .float, u, h | .bool, u, h | .any, u, h | .null, u, h
  | .event, u, h | .machine, u, h => by cases u <;> simp_all [Ty.alike]
  | .enum _, u, h => by cases u <;> simp_all [Ty.alike]
  | .tuple _, u, h => by
    cases u <;> simp [Ty.alike] at h
    exact congrArg _ (Ty.eq_of_alikeList h)
  | .named _, u, h => by
    cases u <;> simp [Ty.alike] at h
    exact congrArg _ (Ty.eq_of_alikeFields h)
  | .seq _, u, h => by
    cases u <;> simp [Ty.alike] at h
    exact congrArg _ (Ty.eq_of_alike h)
  | .map _ _, u, h => by
    cases u <;> simp [Ty.alike] at h
    rw [Ty.eq_of_alike h.1, Ty.eq_of_alike h.2]
  | .alias _ _, u, h => by
    cases u <;> simp [Ty.alike] at h
    rw [h.1, Ty.eq_of_alike h.2]

theorem Ty.eq_of_alikeList : ∀ {ts us : List Ty}, Ty.alikeList ts us = true → ts = us
  | [], us, h => by cases us <;> simp_all [Ty.alikeList]
  | _ :: _, us, h => by
    cases us <;> simp [Ty.alikeList] at h
    rw [Ty.eq_of_alike h.1, Ty.eq_of_alikeList h.2]

theorem Ty.eq_of_alikeFields :
    ∀ {fs gs : List (String × Ty)}, Ty.alikeFields fs gs = true → fs = gs
  | [], gs, h => by cases gs <;> simp_all [Ty.alikeFields]
  | (_, _) :: _, gs, h => by
    cases gs <;> simp [Ty.alikeFields] at h
    rw [h.1.1, Ty.eq_of_alike h.1.2, Ty.eq_of_alikeFields h.2]

end

/-- **`Ty.alike` decides equality.** -/
theorem Ty.alike_iff_eq {t u : Ty} : t.alike u = true ↔ t = u :=
  ⟨Ty.eq_of_alike, fun h => h ▸ t.alike_self⟩

instance : DecidableEq Ty := fun _ _ => decidable_of_iff _ Ty.alike_iff_eq

end MachineTyping
