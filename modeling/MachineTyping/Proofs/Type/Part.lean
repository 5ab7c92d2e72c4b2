/-
# Parts of a type

The parts of a type are its components, what an alias stands for among them, and their parts in turn
(`Ty.IsPartOf`).  Where a part stands is said by what is around it: a `Ty.Slot` is a type with one place
left open, and slots in slots make a place at any depth, `Ty.within`, **the outermost slot first**.
Both say the same (`Ty.isPartOf_iff_within`), as what fills a slot is a component and every component
fills one (`Ty.mem_components_iff`).
-/
import MachineTyping.Type.Basic

namespace MachineTyping

/-! ## 1. Components -/

/-- The types that a type is built from, or that it is another name for. -/
def Ty.components : Ty → List Ty
  | .tuple elems => elems
  | .named fields => fields.map Prod.snd
  | .seq t | .alias _ t => [t]
  | .map key value => [key, value]
  | .int | .float | .bool | .any | .null | .event | .machine | .enum _ => []

/-- The components of a type are smaller. -/
theorem Ty.sizeOf_lt_of_mem_components {t u : Ty} (h : u ∈ t.components) :
    sizeOf u < sizeOf t := by
  cases t with
  | tuple elems =>
    have hu : sizeOf u < sizeOf elems := List.sizeOf_lt_of_mem h
    rw [Ty.tuple.sizeOf_spec]
    omega
  | named fields =>
    obtain ⟨⟨name, t⟩, hf, ht⟩ := List.mem_map.mp h
    obtain rfl : t = u := ht
    have hfield : sizeOf (name, t) < sizeOf fields := List.sizeOf_lt_of_mem hf
    rw [Prod.mk.sizeOf_spec] at hfield
    rw [Ty.named.sizeOf_spec]
    omega
  | seq t =>
    obtain rfl := List.mem_singleton.mp h
    rw [Ty.seq.sizeOf_spec]
    omega
  | map key value =>
    rw [Ty.map.sizeOf_spec]
    simp only [Ty.components, List.mem_cons, List.not_mem_nil, or_false] at h
    rcases h with rfl | rfl
    · omega
    · omega
  | «alias» name target =>
    obtain rfl := List.mem_singleton.mp h
    rw [Ty.alias.sizeOf_spec]
    omega
  | _ => cases h

/-- **Induction on components**: what holds of a type as soon as it holds of its components holds of
every type. -/
theorem Ty.induction_on_components {P : Ty → Prop}
    (h : ∀ t : Ty, (∀ u ∈ t.components, P u) → P t) (t : Ty) : P t :=
  h t fun u hu =>
    have : sizeOf u < sizeOf t := Ty.sizeOf_lt_of_mem_components hu
    Ty.induction_on_components h u
termination_by sizeOf t

/-- One type stands in another, at any depth, or is all of it. -/
inductive Ty.IsPartOf : Ty → Ty → Prop
  | whole (t : Ty) : Ty.IsPartOf t t
  | inner {part u t : Ty} : u ∈ t.components → Ty.IsPartOf part u → Ty.IsPartOf part t

/-! ## 2. Places -/

/-- A type with a place for another. -/
inductive Ty.Slot where
  /-- An element of a tuple. -/
  | elem (before after : List Ty)
  /-- The type of the field `name` of a named tuple. -/
  | field (before : List (String × Ty)) (name : String) (after : List (String × Ty))
  /-- What a sequence is of. -/
  | item
  /-- The keys of a map... -/
  | mapKey (value : Ty)
  /-- ...and its values. -/
  | mapValue (key : Ty)
  /-- What an alias stands for. -/
  | target (name : String)

/-- The type with another in its place. -/
def Ty.Slot.fill (t : Ty) : Ty.Slot → Ty
  | .elem before after => .tuple (before ++ t :: after)
  | .field before name after => .named (before ++ (name, t) :: after)
  | .item => .seq t
  | .mapKey value => .map t value
  | .mapValue key => .map key t
  | .target name => .alias name t

/-- The type within slots, the outermost first. -/
def Ty.within (t : Ty) (slots : List Ty.Slot) : Ty := slots.foldr (fun slot u => slot.fill u) t

@[simp] theorem Ty.within_nil (t : Ty) : t.within [] = t := rfl

@[simp] theorem Ty.within_cons (t : Ty) (slot : Ty.Slot) (slots : List Ty.Slot) :
    t.within (slot :: slots) = slot.fill (t.within slots) := rfl

/-- What fills a slot is a component, and every component fills one. -/
theorem Ty.mem_components_iff {t u : Ty} : u ∈ t.components ↔ ∃ slot : Ty.Slot, slot.fill u = t := by
  constructor
  · intro h
    cases t with
    | tuple elems =>
      obtain ⟨before, after, rfl⟩ := List.append_of_mem h
      exact ⟨.elem before after, rfl⟩
    | named fields =>
      obtain ⟨⟨name, t⟩, hf, rfl⟩ := List.mem_map.mp h
      obtain ⟨before, after, rfl⟩ := List.append_of_mem hf
      exact ⟨.field before name after, rfl⟩
    | seq t =>
      obtain rfl := List.mem_singleton.mp h
      exact ⟨.item, rfl⟩
    | map key value =>
      simp only [Ty.components, List.mem_cons, List.not_mem_nil, or_false] at h
      rcases h with rfl | rfl
      · exact ⟨.mapKey value, rfl⟩
      · exact ⟨.mapValue key, rfl⟩
    | «alias» name target =>
      obtain rfl := List.mem_singleton.mp h
      exact ⟨.target name, rfl⟩
    | _ => cases h
  · rintro ⟨slot, rfl⟩
    cases slot with
    | elem before after => exact List.mem_append_right before List.mem_cons_self
    | field before name after =>
      have hm : (name, u) ∈ before ++ (name, u) :: after :=
        List.mem_append_right before List.mem_cons_self
      exact List.mem_map_of_mem hm
    | item | mapKey _ | target _ => exact List.mem_cons_self
    | mapValue key => exact List.mem_cons_of_mem key List.mem_cons_self

/-- **The parts of a type are what stands at its places.** -/
theorem Ty.isPartOf_iff_within {part t : Ty} :
    part.IsPartOf t ↔ ∃ slots, part.within slots = t := by
  constructor
  · intro h
    induction h with
    | whole => exact ⟨[], rfl⟩
    | inner hu _ ih =>
      obtain ⟨slots, rfl⟩ := ih
      obtain ⟨slot, rfl⟩ := Ty.mem_components_iff.mp hu
      exact ⟨slot :: slots, rfl⟩
  · rintro ⟨slots, rfl⟩
    induction slots with
    | nil => exact .whole part
    | cons slot slots ih => exact .inner (Ty.mem_components_iff.mpr ⟨slot, rfl⟩) ih

end MachineTyping
