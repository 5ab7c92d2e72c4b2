/-
# Distinct field names

The type of named tuples admits a list of fields with one name twice.  No program can write such a
type, and this module says what "such a type" is: `Ty.FieldsDistinct` asks that no named tuple
repeats a field, **at any depth**, and behind every alias.

* It is decided by the components (`fieldsDistinct_named_iff` and its companions), so that it goes
  from a type to its parts and back.
* Resolving aliases keeps it (`FieldsDistinct.canonical`).
* Where it holds, the first field of a name is the only one (`filter_eq_of_lookup`).
* A scope has it if no declared type repeats a field, and keeps it as long as no type is brought in
  that does (`Scope.FieldsDistinct.run`).
* Such a scope resolves every written type to one that has it (`Scope.FieldsDistinct.resolve`).  Only
  this last fact looks at names that a program writes: the resolver refuses a field that it has
  seen.  So the types that are brought in are as they should be where they were resolved before.
-/
import Mathlib.Data.List.Nodup
import MachineTyping.Proofs.Scope.Reachable
import MachineTyping.Proofs.Tree.Acceptance
import MachineTyping.Proofs.Type.Part

namespace MachineTyping

/-! ## 1. Types -/

/-- **No named tuple in the type repeats a field.** -/
def Ty.FieldsDistinct (t : Ty) : Prop :=
  ∀ fields, (Ty.named fields).IsPartOf t → (fields.map Prod.fst).Nodup

/-- A type has distinct fields if it has them itself, and its components do. -/
theorem Ty.fieldsDistinct_iff {t : Ty} :
    t.FieldsDistinct ↔
      (∀ fields, t = .named fields → (fields.map Prod.fst).Nodup) ∧
        ∀ u ∈ t.components, u.FieldsDistinct := by
  constructor
  · intro h
    refine ⟨?_, fun u hu fields hp => h fields (.inner hu hp)⟩
    rintro fields rfl
    exact h fields (.whole _)
  · rintro ⟨hself, hparts⟩ fields hp
    cases hp with
    | whole => exact hself fields rfl
    | inner hu hp => exact hparts _ hu fields hp

/-- A type without components has no fields to repeat, if it is no named tuple. -/
theorem Ty.fieldsDistinct_of_leaf {t : Ty} (hc : t.components = [])
    (hn : ∀ fields, t ≠ .named fields) : t.FieldsDistinct := by
  rw [Ty.fieldsDistinct_iff, hc]
  exact ⟨fun fields h => absurd h (hn fields), List.forall_mem_nil _⟩

@[simp] theorem Ty.fieldsDistinct_int : Ty.int.FieldsDistinct :=
  Ty.fieldsDistinct_of_leaf rfl nofun

@[simp] theorem Ty.fieldsDistinct_float : Ty.float.FieldsDistinct :=
  Ty.fieldsDistinct_of_leaf rfl nofun

@[simp] theorem Ty.fieldsDistinct_bool : Ty.bool.FieldsDistinct :=
  Ty.fieldsDistinct_of_leaf rfl nofun

@[simp] theorem Ty.fieldsDistinct_any : Ty.any.FieldsDistinct :=
  Ty.fieldsDistinct_of_leaf rfl nofun

@[simp] theorem Ty.fieldsDistinct_null : Ty.null.FieldsDistinct :=
  Ty.fieldsDistinct_of_leaf rfl nofun

@[simp] theorem Ty.fieldsDistinct_event : Ty.event.FieldsDistinct :=
  Ty.fieldsDistinct_of_leaf rfl nofun

@[simp] theorem Ty.fieldsDistinct_machine : Ty.machine.FieldsDistinct :=
  Ty.fieldsDistinct_of_leaf rfl nofun

@[simp] theorem Ty.fieldsDistinct_enum (name : String) : (Ty.enum name).FieldsDistinct :=
  Ty.fieldsDistinct_of_leaf rfl nofun

@[simp] theorem Ty.fieldsDistinct_tuple_iff {elems : List Ty} :
    (Ty.tuple elems).FieldsDistinct ↔ ∀ t ∈ elems, t.FieldsDistinct := by
  rw [Ty.fieldsDistinct_iff]
  simp [Ty.components]

@[simp] theorem Ty.fieldsDistinct_named_iff {fields : List (String × Ty)} :
    (Ty.named fields).FieldsDistinct ↔
      (fields.map Prod.fst).Nodup ∧ ∀ field ∈ fields, field.2.FieldsDistinct := by
  rw [Ty.fieldsDistinct_iff]
  constructor
  · rintro ⟨hself, hparts⟩
    exact ⟨hself fields rfl, fun field hf => hparts _ (List.mem_map_of_mem hf)⟩
  · rintro ⟨hself, hparts⟩
    refine ⟨?_, fun u hu => ?_⟩
    · rintro fields' h
      cases h
      exact hself
    · obtain ⟨field, hf, rfl⟩ := List.mem_map.mp hu
      exact hparts field hf

@[simp] theorem Ty.fieldsDistinct_seq_iff {t : Ty} :
    (Ty.seq t).FieldsDistinct ↔ t.FieldsDistinct := by
  rw [Ty.fieldsDistinct_iff]
  simp [Ty.components]

@[simp] theorem Ty.fieldsDistinct_map_iff {key value : Ty} :
    (Ty.map key value).FieldsDistinct ↔ key.FieldsDistinct ∧ value.FieldsDistinct := by
  rw [Ty.fieldsDistinct_iff]
  simp [Ty.components]

@[simp] theorem Ty.fieldsDistinct_alias_iff {name : String} {t : Ty} :
    (Ty.alias name t).FieldsDistinct ↔ t.FieldsDistinct := by
  rw [Ty.fieldsDistinct_iff]
  simp [Ty.components]

mutual

/-- **Resolving aliases keeps fields distinct**: it renames none and adds none. -/
theorem Ty.FieldsDistinct.canonical : ∀ {t : Ty}, t.FieldsDistinct → t.canonical.FieldsDistinct
  | .int, h | .float, h | .bool, h | .any, h | .null, h | .event, h | .machine, h
  | .enum _, h => h
  | .tuple elems, h => by
    rw [Ty.fieldsDistinct_tuple_iff] at h
    simpa [Ty.canonical] using Ty.fieldsDistinct_canonicalList h
  | .named fields, h => by
    obtain ⟨hself, hparts⟩ := Ty.fieldsDistinct_named_iff.mp h
    have hnames : fields.map (Prod.fst ∘ fun field => (field.1, field.2.canonical)) =
        fields.map Prod.fst := rfl
    rw [Ty.canonical, Ty.canonicalFields_eq_map, Ty.fieldsDistinct_named_iff, List.map_map, hnames]
    refine ⟨hself, fun resolved hr => ?_⟩
    obtain ⟨field, hf, rfl⟩ := List.mem_map.mp hr
    exact Ty.fieldsDistinct_canonicalFields hparts field hf
  | .seq t, h => by
    rw [Ty.fieldsDistinct_seq_iff] at h
    simpa [Ty.canonical] using h.canonical
  | .map key value, h => by
    obtain ⟨hk, hv⟩ := Ty.fieldsDistinct_map_iff.mp h
    rw [Ty.canonical, Ty.fieldsDistinct_map_iff]
    exact ⟨hk.canonical, hv.canonical⟩
  | .alias _ t, h => by
    rw [Ty.fieldsDistinct_alias_iff] at h
    simpa [Ty.canonical] using h.canonical

theorem Ty.fieldsDistinct_canonicalList : ∀ {ts : List Ty}, (∀ t ∈ ts, t.FieldsDistinct) →
    ∀ t ∈ ts, t.canonical.FieldsDistinct
  | [], _ => List.forall_mem_nil _
  | t :: ts, h => by
    obtain ⟨ht, hts⟩ := List.forall_mem_cons.mp h
    exact List.forall_mem_cons.mpr ⟨ht.canonical, Ty.fieldsDistinct_canonicalList hts⟩

theorem Ty.fieldsDistinct_canonicalFields : ∀ {fields : List (String × Ty)},
    (∀ field ∈ fields, field.2.FieldsDistinct) → ∀ field ∈ fields, field.2.canonical.FieldsDistinct
  | [], _ => List.forall_mem_nil _
  | (_, t) :: fields, h => by
    obtain ⟨ht, hfs⟩ := List.forall_mem_cons.mp h
    have ht : t.FieldsDistinct := ht
    exact List.forall_mem_cons.mpr ⟨ht.canonical, Ty.fieldsDistinct_canonicalFields hfs⟩

end

/-- So has what the type comes to when its aliases are resolved. -/
theorem Ty.FieldsDistinct.of_canonical_eq {t u : Ty} (h : t.FieldsDistinct)
    (hc : t.canonical = u) : u.FieldsDistinct :=
  hc ▸ h.canonical

/-- **The first match is the only match** where no name is repeated. -/
theorem filter_eq_of_lookup {β : Type} {name : String} {b : β} {bindings : List (String × β)}
    (hn : (bindings.map Prod.fst).Nodup) (h : bindings.lookup name = some b) :
    bindings.filter (fun binding => binding.1 == name) = [(name, b)] := by
  obtain ⟨before, after, rfl, hb⟩ := List.lookup_eq_some_iff.mp h
  have hna : ∀ binding ∈ after, binding.1 ≠ name := by
    intro binding hm he
    rw [List.map_append, List.nodup_append] at hn
    have hc := (List.nodup_cons.mp hn.2.1).1
    exact hc (List.mem_map.mpr ⟨binding, hm, he⟩)
  have hbefore : before.filter (fun binding => binding.1 == name) = [] := by
    rw [List.filter_eq_nil_iff]
    intro binding hm
    have hne := hb binding hm
    simp only [bne_iff_ne, ne_eq, beq_iff_eq] at hne ⊢
    exact fun he => hne he.symm
  have hafter : after.filter (fun binding => binding.1 == name) = [] := by
    rw [List.filter_eq_nil_iff]
    intro binding hm
    simpa using hna binding hm
  rw [List.filter_append, List.filter_cons, hbefore, hafter]
  simp

/-! ## 2. Scopes -/

/-- The types that a symbol is declared with, as far as they are looked at: what is sent along with
an event is not. -/
def Symbol.types : Symbol → List Ty
  | .var v => [v.ty]
  | .function f => f.result :: f.params.map Parameter.ty
  | .machine m => [m.payload]
  | .element _ | .event _ => []

/-- No type that is declared in the frame repeats a field. -/
structure Frame.FieldsDistinct (frame : Frame) : Prop where
  values : ∀ binding ∈ frame.values, ∀ t ∈ binding.2.types, t.FieldsDistinct
  types : ∀ binding ∈ frame.types, binding.2.FieldsDistinct

/-- **No declared type repeats a field**, in any frame. -/
def Scope.FieldsDistinct (scope : Scope) : Prop := ∀ frame ∈ scope.frames, frame.FieldsDistinct

/-- The types that a declaration brings in. -/
def Declaration.types (declaration : Declaration) : List Ty :=
  declaration.symbols.flatMap Symbol.types ++ declaration.typeBindings.map Prod.snd

section Declaring

theorem Scope.fieldsDistinct_initial : Scope.initial.FieldsDistinct := by
  refine List.forall_mem_singleton.mpr ⟨?_, List.forall_mem_nil _⟩
  exact List.forall_mem_singleton.mpr (List.forall_mem_nil _)

theorem Frame.FieldsDistinct.growsBy {declaration : Declaration}
    (ht : ∀ t ∈ declaration.types, t.FieldsDistinct) {frame frame' : Frame}
    (hg : Frame.GrowsBy declaration frame frame') (h : frame.FieldsDistinct) :
    frame'.FieldsDistinct := by
  obtain ⟨hsymbols, htypes⟩ := List.forall_mem_append.mp ht
  induction hg with
  | refl => exact h
  | @bind _ _ _ symbol hm hb _ ih =>
    obtain ⟨-, rfl⟩ := Frame.bind_eq_ok_iff.mp hb
    have hs : ∀ t ∈ symbol.types, t.FieldsDistinct := fun t hts =>
      hsymbols t (List.mem_flatMap.mpr ⟨symbol, hm, hts⟩)
    exact ih ⟨List.forall_mem_cons.mpr ⟨hs, h.values⟩, h.types⟩
  | @bindType _ _ _ binding hm hb _ ih =>
    obtain ⟨-, rfl⟩ := Frame.bindType_eq_ok_iff.mp hb
    have ht : binding.2.FieldsDistinct := htypes _ (List.mem_map_of_mem hm)
    exact ih ⟨h.values, List.forall_mem_cons.mpr ⟨ht, h.types⟩⟩

/-- The types that an action brings in. -/
def Scope.Action.types : Scope.Action → List Ty
  | .push | .pop => []
  | .declare declaration => declaration.types

/-- **An action that brings in no type that repeats a field keeps the invariant.** -/
theorem Scope.FieldsDistinct.act {scope : Scope} (h : scope.FieldsDistinct)
    {action : Scope.Action} (ht : ∀ t ∈ action.types, t.FieldsDistinct) :
    (scope.act action).FieldsDistinct := by
  cases action with
  | push =>
    exact Scope.forall_frames_push ⟨List.forall_mem_nil _, List.forall_mem_nil _⟩ h
  | pop =>
    cases hp : scope.pop? with
    | none => simpa [Scope.act, hp] using h
    | some scope' =>
      have hs : scope'.FieldsDistinct := Scope.forall_frames_pop hp h
      simpa [Scope.act, hp] using hs
  | declare declaration => exact Scope.forall_frames_declare (Frame.FieldsDistinct.growsBy ht) h

/-- **A scope that is built with types that repeat no field has the invariant.** -/
theorem Scope.FieldsDistinct.run {actions : List Scope.Action} : ∀ {scope : Scope},
    scope.FieldsDistinct → (∀ action ∈ actions, ∀ t ∈ action.types, t.FieldsDistinct) →
      (scope.run actions).FieldsDistinct := by
  induction actions with
  | nil => exact fun h _ => h
  | cons action actions ih =>
    intro scope h ht
    obtain ⟨hfirst, hrest⟩ := List.forall_mem_cons.mp ht
    exact ih (h.act hfirst) hrest

end Declaring

section Resolution

variable {scope : Scope}

/-- A symbol that is found was declared. -/
theorem Scope.FieldsDistinct.lookup (h : scope.FieldsDistinct) {name : String} {symbol : Symbol}
    (hl : scope.lookup name = some symbol) : ∀ t ∈ symbol.types, t.FieldsDistinct := by
  obtain ⟨frame, hf, hv⟩ := List.exists_of_findSome?_eq_some hl
  exact (h frame hf).values (name, symbol) (mem_of_lookup hv)

theorem Scope.FieldsDistinct.lookupType (h : scope.FieldsDistinct) {name : String} {ty : Ty}
    (hl : scope.lookupType name = some ty) : ty.FieldsDistinct := by
  obtain ⟨frame, hf, hv⟩ := List.exists_of_findSome?_eq_some hl
  exact (h frame hf).types (name, ty) (mem_of_lookup hv)

/-- Built-in types have no fields. -/
theorem fieldsDistinct_of_builtinType? {name : String} {ty : Ty}
    (h : builtinType? name = some ty) : ty.FieldsDistinct := by
  unfold builtinType? at h
  split at h
  all_goals
    cases h
    try simp

mutual

/-- **A written type never comes to one that repeats a field.** -/
theorem Scope.FieldsDistinct.resolve (hs : scope.FieldsDistinct) : ∀ {ref : TypeRef} {ty : Ty},
    scope.resolve ref = .ok ty → ty.FieldsDistinct
  | .node span (.name name), ty, h => by
    have h : scope.typeNamed span name = .ok ty := h
    unfold Scope.typeNamed at h
    split at h
    · rename_i hb
      cases h
      exact fieldsDistinct_of_builtinType? hb
    · split at h
      · rename_i hl
        cases h
        exact hs.lookupType hl
      · cases h
  | .node span (.tuple elems), ty, h => by
    obtain ⟨tys, htys, h⟩ := Verdict.bind_eq_ok_iff.mp h
    cases h
    rw [Ty.fieldsDistinct_tuple_iff]
    exact Scope.fieldsDistinct_resolveList hs htys
  | .node span (.named fields), ty, h => by
    obtain ⟨tys, htys, h⟩ := Verdict.bind_eq_ok_iff.mp h
    cases h
    obtain ⟨hn, ht⟩ := Scope.fieldsDistinct_resolveFields hs htys
    rw [Ty.fieldsDistinct_named_iff]
    exact ⟨fresh_of_none.mp hn, ht⟩
  | .node span (.seq elem), ty, h => by
    obtain ⟨t, ht, h⟩ := Verdict.bind_eq_ok_iff.mp h
    cases h
    rw [Ty.fieldsDistinct_seq_iff]
    exact hs.resolve ht
  | .node span (.map key value), ty, h => by
    obtain ⟨k, hk, h⟩ := Verdict.bind_eq_ok_iff.mp h
    obtain ⟨v, hv, h⟩ := Verdict.bind_eq_ok_iff.mp h
    cases h
    rw [Ty.fieldsDistinct_map_iff]
    exact ⟨hs.resolve hk, hs.resolve hv⟩

theorem Scope.fieldsDistinct_resolveList (hs : scope.FieldsDistinct) :
    ∀ {refs : List TypeRef} {tys : List Ty}, scope.resolveList refs = .ok tys →
      ∀ ty ∈ tys, ty.FieldsDistinct
  | [], tys, h => by
    cases h
    exact List.forall_mem_nil _
  | ref :: refs, tys, h => by
    obtain ⟨t, ht, h⟩ := Verdict.bind_eq_ok_iff.mp h
    obtain ⟨ts, hts, h⟩ := Verdict.bind_eq_ok_iff.mp h
    cases h
    exact List.forall_mem_cons.mpr ⟨hs.resolve ht, Scope.fieldsDistinct_resolveList hs hts⟩

/-- The names of fields that are resolved are new, because those that were seen are refused. -/
theorem Scope.fieldsDistinct_resolveFields (hs : scope.FieldsDistinct) :
    ∀ {fields : List (String × TypeRef)} {seen : List String} {tys : List (String × Ty)},
      scope.resolveFields seen fields = .ok tys →
        Fresh seen (tys.map Prod.fst) ∧ ∀ field ∈ tys, field.2.FieldsDistinct
  | [], seen, tys, h => by
    cases h
    exact ⟨fresh_nil seen, List.forall_mem_nil _⟩
  | (name, ref) :: fields, seen, tys, h => by
    rw [Scope.resolveFields] at h
    split at h
    · cases h
    · rename_i hnew
      obtain ⟨t, ht, h⟩ := Verdict.bind_eq_ok_iff.mp h
      obtain ⟨ts, hts, h⟩ := Verdict.bind_eq_ok_iff.mp h
      cases h
      obtain ⟨hn, hf⟩ := Scope.fieldsDistinct_resolveFields hs hts
      refine ⟨?_, List.forall_mem_cons.mpr ⟨hs.resolve ht, hf⟩⟩
      rw [List.map_cons]
      exact fresh_cons.mpr ⟨hnew, hn⟩

end

end Resolution

end MachineTyping
