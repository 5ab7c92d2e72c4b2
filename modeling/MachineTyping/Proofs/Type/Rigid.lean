/-
# Rigid types

Most types accept themselves and nothing else; what makes a type accept another one is `any`,
`event` or `machine` somewhere in it.  A type without these is **rigid** (`Ty.isRigid`).

Rigidity is a matter of structure, and it says exactly what it is for: a type is rigid if and only
if every type that it accepts is the same type (`Ty.isRigid_iff`).  One direction goes by
structure.  For the other, a type that is not rigid must accept some other type, and one such type
can be written down: `Ty.lowered` puts `null`, which all three of them accept, in their place.
-/
import Mathlib.Logic.Basic
import MachineTyping.Proofs.Type.Order

namespace MachineTyping

/-! ## 1. Types without a place for others -/

mutual

/-- Whether a type has no `any`, `event` or `machine` in it, aliases looked through. -/
def Ty.isRigid : Ty → Bool
  | .int | .float | .bool | .null | .enum _ => true
  | .any | .event | .machine => false
  | .tuple elems => Ty.areRigid elems
  | .named fields => Ty.areRigidFields fields
  | .seq elem => elem.isRigid
  | .map key value => key.isRigid && value.isRigid
  | .alias _ target => target.isRigid

/-- Whether every type of a list is rigid. -/
def Ty.areRigid : List Ty → Bool
  | [] => true
  | t :: ts => t.isRigid && Ty.areRigid ts

/-- Whether every field has a rigid type. -/
def Ty.areRigidFields : List (String × Ty) → Bool
  | [] => true
  | (_, t) :: fields => t.isRigid && Ty.areRigidFields fields

end

mutual

/-- The type without aliases, with `null` in the place of `any`, `event` and `machine`. -/
def Ty.lowered : Ty → Ty
  | .int => .int
  | .float => .float
  | .bool => .bool
  | .null | .any | .event | .machine => .null
  | .enum name => .enum name
  | .tuple elems => .tuple (Ty.loweredList elems)
  | .named fields => .named (Ty.loweredFields fields)
  | .seq elem => .seq elem.lowered
  | .map key value => .map key.lowered value.lowered
  | .alias _ target => target.lowered

/-- Every type of the list, lowered. -/
def Ty.loweredList : List Ty → List Ty
  | [] => []
  | t :: ts => t.lowered :: Ty.loweredList ts

/-- The same fields, each of lowered type. -/
def Ty.loweredFields : List (String × Ty) → List (String × Ty)
  | [] => []
  | (name, t) :: fields => (name, t.lowered) :: Ty.loweredFields fields

end

/-! ## 2. A rigid type accepts no other -/

mutual

/-- **The canonical form of a rigid type admits only itself.** -/
theorem Ty.eq_of_isRigid : ∀ {t s : Ty},
    t.isRigid = true → t.canonical.admits s = true → s = t.canonical
  | .int, _, _, h => Ty.int_admits_iff.mp h
  | .float, _, _, h => Ty.float_admits_iff.mp h
  | .bool, _, _, h => Ty.bool_admits_iff.mp h
  | .null, _, _, h => Ty.null_admits_iff.mp h
  | .enum _, _, _, h => Ty.enum_admits_iff.mp h
  | .tuple _, _, hr, h => by
    obtain ⟨ss, rfl, hs⟩ := Ty.tuple_admits_iff.mp h
    exact congrArg Ty.tuple (Ty.eq_of_areRigid hr hs)
  | .named _, _, hr, h => by
    obtain ⟨gs, rfl, hs⟩ := Ty.named_admits_iff.mp h
    exact congrArg Ty.named (Ty.eq_of_areRigidFields hr hs)
  | .seq _, _, hr, h => by
    obtain ⟨u, rfl, hu⟩ := Ty.seq_admits_iff.mp h
    exact congrArg Ty.seq (Ty.eq_of_isRigid hr hu)
  | .map _ _, _, hr, h => by
    obtain ⟨hk, hv⟩ := Bool.and_eq_true_iff.mp hr
    obtain ⟨l, w, rfl, hl, hw⟩ := Ty.map_admits_iff.mp h
    exact congrArg₂ Ty.map (Ty.eq_of_isRigid hk hl) (Ty.eq_of_isRigid hv hw)
  | .alias _ t, _, hr, h => Ty.eq_of_isRigid (t := t) hr h

theorem Ty.eq_of_areRigid : ∀ {ts ss : List Ty}, Ty.areRigid ts = true →
    Ty.admitsList (Ty.canonicalList ts) ss = true → ss = Ty.canonicalList ts
  | [], [], _, _ => rfl
  | t :: ts, s :: ss, hr, h => by
    obtain ⟨ht, hts⟩ := Bool.and_eq_true_iff.mp hr
    obtain ⟨hs, hss⟩ := Bool.and_eq_true_iff.mp h
    exact congrArg₂ List.cons (Ty.eq_of_isRigid ht hs) (Ty.eq_of_areRigid hts hss)

theorem Ty.eq_of_areRigidFields : ∀ {fs gs : List (String × Ty)}, Ty.areRigidFields fs = true →
    Ty.admitsFields (Ty.canonicalFields fs) gs = true → gs = Ty.canonicalFields fs
  | [], [], _, _ => rfl
  | (a, t) :: fs, (b, s) :: gs, hr, h => by
    obtain ⟨ht, hts⟩ := Bool.and_eq_true_iff.mp hr
    obtain ⟨hhead, hss⟩ := Bool.and_eq_true_iff.mp h
    obtain ⟨hname, hs⟩ := Bool.and_eq_true_iff.mp hhead
    have hb : (b, s) = (a, t.canonical) := by
      rw [Ty.eq_of_isRigid ht hs, beq_iff_eq.mp hname]
    exact congrArg₂ List.cons hb (Ty.eq_of_areRigidFields hts hss)

end

/-! ## 3. Any other type does -/

mutual

theorem Ty.canonical_lowered : ∀ t : Ty, t.lowered.canonical = t.lowered
  | .int | .float | .bool | .null | .any | .event | .machine | .enum _ => rfl
  | .tuple ts => congrArg Ty.tuple (Ty.canonicalList_lowered ts)
  | .named fields => congrArg Ty.named (Ty.canonicalFields_lowered fields)
  | .seq t => congrArg Ty.seq t.canonical_lowered
  | .map k v => congrArg₂ Ty.map k.canonical_lowered v.canonical_lowered
  | .alias _ t => t.canonical_lowered

theorem Ty.canonicalList_lowered : ∀ ts : List Ty,
    Ty.canonicalList (Ty.loweredList ts) = Ty.loweredList ts
  | [] => rfl
  | t :: ts => congrArg₂ List.cons t.canonical_lowered (Ty.canonicalList_lowered ts)

theorem Ty.canonicalFields_lowered : ∀ fields : List (String × Ty),
    Ty.canonicalFields (Ty.loweredFields fields) = Ty.loweredFields fields
  | [] => rfl
  | (name, t) :: fields =>
    congrArg₂ List.cons (congrArg (Prod.mk name) t.canonical_lowered)
      (Ty.canonicalFields_lowered fields)

end

mutual

/-- A canonical type admits what it is lowered to. -/
theorem Ty.admits_lowered : ∀ t : Ty, t.canonical.admits t.lowered = true
  | .int | .float | .bool | .null | .any | .event | .machine => rfl
  | .enum _ => Ty.enum_admits_iff.mpr rfl
  | .tuple ts => Ty.tuple_admits_iff.mpr ⟨_, rfl, Ty.admitsList_lowered ts⟩
  | .named fields => Ty.named_admits_iff.mpr ⟨_, rfl, Ty.admitsFields_lowered fields⟩
  | .seq t => Ty.seq_admits_iff.mpr ⟨_, rfl, t.admits_lowered⟩
  | .map k v => Ty.map_admits_iff.mpr ⟨_, _, rfl, k.admits_lowered, v.admits_lowered⟩
  | .alias _ t => t.admits_lowered

theorem Ty.admitsList_lowered : ∀ ts : List Ty,
    Ty.admitsList (Ty.canonicalList ts) (Ty.loweredList ts) = true
  | [] => rfl
  | t :: ts => Bool.and_eq_true_iff.mpr ⟨t.admits_lowered, Ty.admitsList_lowered ts⟩

theorem Ty.admitsFields_lowered : ∀ fields : List (String × Ty),
    Ty.admitsFields (Ty.canonicalFields fields) (Ty.loweredFields fields) = true
  | [] => rfl
  | (name, t) :: fields => by
    have hhead : (name == name && t.canonical.admits t.lowered) = true :=
      Bool.and_eq_true_iff.mpr ⟨beq_iff_eq.mpr rfl, t.admits_lowered⟩
    exact Bool.and_eq_true_iff.mpr ⟨hhead, Ty.admitsFields_lowered fields⟩

end

mutual

/-- A type that lowering leaves as it is has nothing in it to lower. -/
theorem Ty.isRigid_of_lowered_eq : ∀ {t : Ty}, t.lowered = t.canonical → t.isRigid = true
  | .int, _ | .float, _ | .bool, _ | .null, _ | .enum _, _ => rfl
  | .any, h | .event, h | .machine, h => by cases h
  | .tuple _, h => Ty.areRigid_of_lowered_eq (Ty.tuple.inj h)
  | .named _, h => Ty.areRigidFields_of_lowered_eq (Ty.named.inj h)
  | .seq t, h => by
    have ht : Ty.seq t.lowered = .seq t.canonical := h
    exact Ty.isRigid_of_lowered_eq (t := t) (Ty.seq.inj ht)
  | .map _ _, h => by
    obtain ⟨hk, hv⟩ := Ty.map.inj h
    exact Bool.and_eq_true_iff.mpr ⟨Ty.isRigid_of_lowered_eq hk, Ty.isRigid_of_lowered_eq hv⟩
  | .alias _ t, h => Ty.isRigid_of_lowered_eq (t := t) h

theorem Ty.areRigid_of_lowered_eq : ∀ {ts : List Ty},
    Ty.loweredList ts = Ty.canonicalList ts → Ty.areRigid ts = true
  | [], _ => rfl
  | _ :: _, h => by
    obtain ⟨ht, hts⟩ := List.cons.inj h
    exact Bool.and_eq_true_iff.mpr ⟨Ty.isRigid_of_lowered_eq ht, Ty.areRigid_of_lowered_eq hts⟩

theorem Ty.areRigidFields_of_lowered_eq : ∀ {fields : List (String × Ty)},
    Ty.loweredFields fields = Ty.canonicalFields fields → Ty.areRigidFields fields = true
  | [], _ => rfl
  | (_, _) :: _, h => by
    obtain ⟨ht, hts⟩ := List.cons.inj h
    obtain ⟨-, ht⟩ := Prod.mk.inj ht
    exact Bool.and_eq_true_iff.mpr
      ⟨Ty.isRigid_of_lowered_eq ht, Ty.areRigidFields_of_lowered_eq hts⟩

end

/-! ## 4. What rigidity is -/

theorem Ty.sameAs_of_isRigid {t s : Ty} (hr : t.isRigid = true) (h : t.accepts s = true) :
    t.sameAs s = true :=
  Ty.sameAs_iff.mpr (Ty.eq_of_isRigid hr h).symm

theorem Ty.accepts_lowered (t : Ty) : t.accepts t.lowered = true := by
  unfold Ty.accepts
  rw [t.canonical_lowered]
  exact t.admits_lowered

/-- A type is what it is lowered to exactly when it is rigid. -/
theorem Ty.sameAs_lowered_iff {t : Ty} : t.sameAs t.lowered = true ↔ t.isRigid = true := by
  constructor
  · intro h
    rw [Ty.sameAs_iff, t.canonical_lowered] at h
    exact Ty.isRigid_of_lowered_eq h.symm
  · intro hr
    exact Ty.sameAs_of_isRigid hr t.accepts_lowered

/-- **The rigid types are those that accept no other type.** -/
theorem Ty.isRigid_iff {t : Ty} :
    t.isRigid = true ↔ ∀ s, t.accepts s = true → t.sameAs s = true := by
  constructor
  · intro hr s hs
    exact Ty.sameAs_of_isRigid hr hs
  · intro h
    exact Ty.sameAs_lowered_iff.mp (h t.lowered t.accepts_lowered)

end MachineTyping
