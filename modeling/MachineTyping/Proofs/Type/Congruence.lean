/-
# Sameness is a congruence

Two types are the same type when nothing but aliases tells them apart (`Ty.sameAs`).  Then one of
them may stand for the other **wherever a type can stand**, and nobody notices: kinds, sameness and
assignability are what they were (`Ty.sameness_is_congruence`).

* **What resolving leaves.**  An alias may stand anywhere in a type, in the target of another alias
  too.  `Ty.AliasFree` says that none does.  Resolving gets rid of all of them, and changes nothing
  where there are none (`canonical_eq_self_iff`).  What it comes to has a head that can be read off,
  and that is the kind, which is found without resolving anything (`head?_canonical`).
* **Where a type can stand.**  A place at any depth is made of slots (`Ty.within`), and each part of a
  type stands at one (`isPartOf_iff_within`).  One slot is the step: filled with the same type it is the
  same type (`Slot.canonical_fill`).  Places at any depth follow by induction, and all else from there,
  since kinds and assignability are told by canonical types.
-/
import MachineTyping.Proofs.Type.Order
import MachineTyping.Proofs.Type.Part

namespace MachineTyping

/-! ## 1. Types without aliases -/

/-- The head of a type as it is written, which an alias does not have. -/
def Ty.head? : Ty → Option Kind
  | .int => some .int
  | .float => some .float
  | .bool => some .bool
  | .any => some .any
  | .null => some .null
  | .event => some .event
  | .machine => some .machine
  | .enum _ => some .enum
  | .tuple _ => some .tuple
  | .named _ => some .named
  | .seq _ => some .seq
  | .map _ _ => some .map
  | .alias _ _ => none

/-- **The kind is the head of the canonical type**, and nothing has to be resolved to find it. -/
theorem Ty.head?_canonical (t : Ty) : t.canonical.head? = some t.kind := by
  induction t using Ty.induction_on_components with
  | h t ih =>
    cases t with
    | «alias» name target => exact ih target List.mem_cons_self
    | _ => rfl

/-- **No alias stands in the type**, at any depth. -/
def Ty.AliasFree (t : Ty) : Prop := ∀ name target, ¬ (Ty.alias name target).IsPartOf t

/-- A type has no alias in it if it is none, and its components have none. -/
theorem Ty.aliasFree_iff {t : Ty} :
    t.AliasFree ↔ (∀ name target, t ≠ .alias name target) ∧ ∀ u ∈ t.components, u.AliasFree := by
  constructor
  · intro h
    refine ⟨?_, fun u hu name target hp => h name target (.inner hu hp)⟩
    rintro name target rfl
    exact h name target (.whole _)
  · rintro ⟨hself, hparts⟩ name target hp
    cases hp with
    | whole => exact hself name target rfl
    | inner hu hp => exact hparts _ hu name target hp

/-- Resolving goes into the components, where it does not look through an alias. -/
theorem Ty.components_canonical {t : Ty} (h : ∀ name target, t ≠ .alias name target) :
    t.canonical.components = t.components.map Ty.canonical := by
  cases t with
  | tuple elems => exact Ty.canonicalList_eq_map elems
  | named fields =>
    rw [Ty.canonical, Ty.canonicalFields_eq_map, Ty.components, Ty.components, List.map_map,
      List.map_map]
    rfl
  | «alias» name target => exact absurd rfl (h name target)
  | _ => rfl

/-- **No alias is left in a canonical type.** -/
theorem Ty.canonical_aliasFree (t : Ty) : t.canonical.AliasFree := by
  induction t using Ty.induction_on_components with
  | h t ih =>
    by_cases ha : ∃ name target, t = .alias name target
    · -- an alias is looked through, and its target is a component
      obtain ⟨name, target, rfl⟩ := ha
      exact ih target List.mem_cons_self
    · have ha : ∀ name target, t ≠ .alias name target := fun name target h =>
        ha ⟨name, target, h⟩
      refine Ty.aliasFree_iff.mpr ⟨fun _ _ => Ty.canonical_ne_alias t, fun u hu => ?_⟩
      rw [Ty.components_canonical ha] at hu
      obtain ⟨v, hv, rfl⟩ := List.mem_map.mp hu
      exact ih v hv

/-- Where there is no alias, there is nothing to resolve. -/
theorem Ty.AliasFree.canonical_eq {t : Ty} (h : t.AliasFree) : t.canonical = t := by
  induction t using Ty.induction_on_components with
  | h t ih =>
    obtain ⟨hself, hparts⟩ := Ty.aliasFree_iff.mp h
    have hcomponents : ∀ u ∈ t.components, u.canonical = u := fun u hu => ih u hu (hparts u hu)
    cases t with
    | tuple elems =>
      have he : elems.map Ty.canonical = elems.map id := List.map_congr_left hcomponents
      rw [Ty.canonical, Ty.canonicalList_eq_map, he, List.map_id]
    | named fields =>
      have hf : fields.map (fun field => (field.1, field.2.canonical)) = fields.map id :=
        List.map_congr_left fun field hf =>
          congrArg (Prod.mk field.1) (hcomponents field.2 (List.mem_map_of_mem hf))
      rw [Ty.canonical, Ty.canonicalFields_eq_map, hf, List.map_id]
    | seq t => rw [Ty.canonical, hcomponents t List.mem_cons_self]
    | map key value =>
      have hv : value ∈ (Ty.map key value).components := List.mem_cons_of_mem key List.mem_cons_self
      rw [Ty.canonical, hcomponents key List.mem_cons_self, hcomponents value hv]
    | «alias» name target => exact absurd rfl (hself name target)
    | _ => rfl

/-- **Resolving leaves a type alone exactly if no alias stands in it.** -/
theorem Ty.canonical_eq_self_iff {t : Ty} : t.canonical = t ↔ t.AliasFree := by
  constructor
  · intro h
    have hf := t.canonical_aliasFree
    rwa [h] at hf
  · exact Ty.AliasFree.canonical_eq

/-! ## 2. The same type in the same place -/

/-- **One slot**: filled with the same type it is the same type. -/
theorem Ty.Slot.canonical_fill {t u : Ty} (h : t.canonical = u.canonical) (slot : Ty.Slot) :
    (slot.fill t).canonical = (slot.fill u).canonical := by
  cases slot with
  | elem before after => simp [Ty.Slot.fill, Ty.canonical, h]
  | field before name after => simp [Ty.Slot.fill, Ty.canonical, h]
  | item | mapKey _ | mapValue _ => simp [Ty.Slot.fill, Ty.canonical, h]
  | target name => exact h

/-- **Any depth**: the same type in the same place makes the same type. -/
theorem Ty.canonical_within {t u : Ty} (h : t.canonical = u.canonical) (slots : List Ty.Slot) :
    (t.within slots).canonical = (u.within slots).canonical := by
  induction slots with
  | nil => exact h
  | cons slot slots ih => exact slot.canonical_fill ih

/-- Sameness is an equivalence, because it is equality of canonical types. -/
theorem Ty.sameAs_equivalence : Equivalence fun t u : Ty => t.sameAs u = true where
  refl _ := Ty.sameAs_iff.mpr rfl
  symm h := Ty.sameAs_iff.mpr (Ty.sameAs_iff.mp h).symm
  trans h h' := Ty.sameAs_iff.mpr ((Ty.sameAs_iff.mp h).trans (Ty.sameAs_iff.mp h'))

/-! ## 3. The result -/

/-- **Sameness is a congruence.**  A canonical type has no alias in it, it is the type itself exactly
if that has none, resolving it again changes nothing, and its head is the kind of the type.  Sameness
is an equivalence, types that are written alike are the same, and **the same type may stand for
another at any place**, which is wherever a type is part of another: the whole has the kind that it
had, and is the same as, accepts and is accepted by what it did before. -/
theorem Ty.sameness_is_congruence :
    (∀ t : Ty, t.canonical.AliasFree ∧ (t.canonical = t ↔ t.AliasFree) ∧
      t.canonical.canonical = t.canonical ∧ t.canonical.head? = some t.kind) ∧
    (Equivalence fun t u : Ty => t.sameAs u = true) ∧
    (∀ t u : Ty, (t == u) = true → t.sameAs u = true) ∧
    (∀ part t : Ty, part.IsPartOf t ↔ ∃ slots, part.within slots = t) ∧
    ∀ t u : Ty, t.sameAs u = true → ∀ slots : List Ty.Slot,
      (t.within slots).kind = (u.within slots).kind ∧
      ∀ other : Ty,
        (t.within slots).sameAs other = (u.within slots).sameAs other ∧
        other.sameAs (t.within slots) = other.sameAs (u.within slots) ∧
        (t.within slots).accepts other = (u.within slots).accepts other ∧
        other.accepts (t.within slots) = other.accepts (u.within slots) := by
  refine ⟨fun t => ?_, Ty.sameAs_equivalence, ?_, fun part t => Ty.isPartOf_iff_within, ?_⟩
  · exact ⟨t.canonical_aliasFree, Ty.canonical_eq_self_iff, t.canonical_canonical,
      t.head?_canonical⟩
  · intro t u h
    obtain rfl := beq_iff_eq.mp h
    exact Ty.sameAs_equivalence.refl t
  · intro t u h slots
    have hw : (t.within slots).canonical = (u.within slots).canonical :=
      Ty.canonical_within (Ty.sameAs_iff.mp h) slots
    refine ⟨?_, fun other => ?_⟩
    · rw [← Ty.kind_canonical, hw, Ty.kind_canonical]
    · simp only [Ty.sameAs, Ty.accepts, hw, and_self]

/-- A name for a name of `int`, in the element of a sequence, in a tuple, in a field, in the values of a
map that has a name itself.  Five slots deep it may be replaced by `int`. -/
theorem Ty.sameness_is_congruence_nested :
    let id : Ty := .alias "Id" (.alias "Raw" .int)
    let slots : List Ty.Slot := [.target "Table", .mapValue (.alias "Key" .event),
      .field [("x", .any)] "y" [], .elem [.machine] [], .item]
    let other : Ty := .map .null (.named [("x", .bool), ("y", .tuple [.null, .seq .int])])
    (id == .int) = false ∧ id.sameAs .int = true ∧ id.IsPartOf (id.within slots) ∧
    (id.within slots).canonical ≠ id.within slots ∧
    ¬ (id.within slots).AliasFree ∧
    (id.within slots).kind = (Ty.int.within slots).kind ∧
    (id.within slots).accepts other = (Ty.int.within slots).accepts other ∧
    (id.within slots).accepts other = true ∧
    (id.within slots == id.within slots) = true ∧
    (id.within slots).sameAs (id.within slots) = true := by
  intro id slots other
  obtain ⟨hresolved, -, halike, hparts, hplace⟩ := Ty.sameness_is_congruence
  obtain ⟨hkind, hother⟩ := hplace id .int (by decide) slots
  have hpart : id.IsPartOf (id.within slots) := (hparts id _).mpr ⟨slots, rfl⟩
  have hfree : ¬ (id.within slots).AliasFree := fun h => h _ _ hpart
  have hnot : (id.within slots).canonical ≠ id.within slots :=
    mt (hresolved (id.within slots)).2.1.mp hfree
  have hself : (id.within slots == id.within slots) = true := beq_self_eq_true _
  exact ⟨by decide, by decide, hpart, hnot, hfree, hkind, (hother other).2.2.1, by decide, hself,
    halike _ _ hself⟩

end MachineTyping
