/-
# Resolving, exactly

A written type is resolved if nothing is wrong with it, and two things can be: a name in it that is no
type, and a field of a named tuple that was there before.  Where they can be is a list, read off the
written type alone: `TypeRef.sites` has every name and every field **in the order of the text, outermost
first**, and a field comes before what is in its type.  It goes on after an offence, so it knows nothing of
an error that ends the search.

Resolving looks for the first offence on that list.  If there is none, every name is replaced by the
type that it stands for and the rest stays as it is written (`TypeRef.image`).  The resolver does both
at once, with the names of the fields that it has seen; that it does no more than this is one equation
(`Scope.resolve_eq`), and everything else follows from there:

* what is written is resolved exactly if its names stand for types and its named tuples have distinct
  fields, at any depth, since the sites are those of its parts (`TypeRef.mem_sites_iff`);
* what it comes to is its image, where a built-in name stands for its type whatever is declared
  (`Scope.StandsFor`);
* the error is that of the first offence.
-/
import MachineTyping.Resolution
import Mathlib.Data.List.Nodup

namespace MachineTyping

/-! ## 1. Sites -/

/-- One written type is a part of another, or is all of it. -/
inductive TypeRef.IsPartOf : TypeRef → TypeRef → Prop
  | whole (ref : TypeRef) : TypeRef.IsPartOf ref ref
  | elem {part ref : TypeRef} {span : Span} {elems : List TypeRef} :
      ref ∈ elems → TypeRef.IsPartOf part ref → TypeRef.IsPartOf part (.node span (.tuple elems))
  | field {part ref : TypeRef} {span : Span} {name : String} {fields : List (String × TypeRef)} :
      (name, ref) ∈ fields → TypeRef.IsPartOf part ref →
      TypeRef.IsPartOf part (.node span (.named fields))
  | seq {part elem : TypeRef} {span : Span} :
      TypeRef.IsPartOf part elem → TypeRef.IsPartOf part (.node span (.seq elem))
  | key {part key value : TypeRef} {span : Span} :
      TypeRef.IsPartOf part key → TypeRef.IsPartOf part (.node span (.map key value))
  | value {part key value : TypeRef} {span : Span} :
      TypeRef.IsPartOf part value → TypeRef.IsPartOf part (.node span (.map key value))

/-- A part of a part is a part. -/
theorem TypeRef.IsPartOf.trans {inner part whole : TypeRef} (hi : inner.IsPartOf part)
    (hp : part.IsPartOf whole) : inner.IsPartOf whole := by
  induction hp with
  | whole => exact hi
  | elem hm _ ih => exact .elem hm ih
  | field hm _ ih => exact .field hm ih
  | seq _ ih => exact .seq ih
  | key _ ih => exact .key ih
  | value _ ih => exact .value ih

/-- A place in a written type where something can be wrong. -/
inductive TypeRef.Site where
  /-- A name, and where it stands. -/
  | name (name : String) (span : Span)
  /-- A field of a named tuple: the names of the fields before it, its own name, and where its type
  stands. -/
  | field (before : List String) (name : String) (span : Span)

mutual

/-- **The sites of a written type**, in the order of the text, outermost first. -/
def TypeRef.sites : TypeRef → List TypeRef.Site
  | .node span form => form.sites span

/-- The sites of a form that stands at `span`. -/
def TypeRef.Form.sites (span : Span) : TypeRef.Form → List TypeRef.Site
  | .name name => [.name name span]
  | .tuple elems => TypeRef.sitesList elems
  | .named fields => TypeRef.sitesFields [] fields
  | .seq elem => elem.sites
  | .map key value => key.sites ++ value.sites

/-- The sites of written types, one after the other. -/
def TypeRef.sitesList : List TypeRef → List TypeRef.Site
  | [] => []
  | ref :: refs => ref.sites ++ TypeRef.sitesList refs

/-- The sites of fields, each before those of its type.  The fields before have the names `before`. -/
def TypeRef.sitesFields (before : List String) : List (String × TypeRef) → List TypeRef.Site
  | [] => []
  | (name, ref) :: fields =>
    .field before name ref.span :: (ref.sites ++ TypeRef.sitesFields (before ++ [name]) fields)

end

/-- The site is one of the node itself, and not of a part of it. -/
inductive TypeRef.HasSite : TypeRef → TypeRef.Site → Prop
  | name {span : Span} {name : String} :
      TypeRef.HasSite (.node span (.name name)) (.name name span)
  | field {span : Span} {before after : List (String × TypeRef)} {name : String} {ref : TypeRef} :
      TypeRef.HasSite (.node span (.named (before ++ (name, ref) :: after)))
        (.field (before.map Prod.fst) name ref.span)

theorem TypeRef.mem_sitesList_iff {site : TypeRef.Site} {refs : List TypeRef} :
    site ∈ TypeRef.sitesList refs ↔ ∃ ref ∈ refs, site ∈ ref.sites := by
  induction refs with
  | nil => simp [TypeRef.sitesList]
  | cons ref refs ih => rw [TypeRef.sitesList, List.mem_append, ih, List.exists_mem_cons_iff]

/-- A site of fields is one of them, or it is in the type of one. -/
theorem TypeRef.mem_sitesFields_iff {site : TypeRef.Site} {fields : List (String × TypeRef)}
    {names : List String} :
    site ∈ TypeRef.sitesFields names fields ↔
      (∃ before name ref after, fields = before ++ (name, ref) :: after ∧
        site = .field (names ++ before.map Prod.fst) name ref.span) ∨
      ∃ name ref, (name, ref) ∈ fields ∧ site ∈ ref.sites := by
  induction fields generalizing names with
  | nil => simp [TypeRef.sitesFields]
  | cons field fields ih =>
    obtain ⟨name, ref⟩ := field
    rw [TypeRef.sitesFields, List.mem_cons, List.mem_append, ih]
    constructor
    · rintro (rfl | hr | ⟨before, n, r, after, rfl, rfl⟩ | ⟨n, r, hm, hr⟩)
      · exact Or.inl ⟨[], name, ref, fields, rfl, by simp⟩
      · exact Or.inr ⟨name, ref, List.mem_cons_self, hr⟩
      · exact Or.inl ⟨(name, ref) :: before, n, r, after, rfl, by simp⟩
      · exact Or.inr ⟨n, r, List.mem_cons_of_mem _ hm, hr⟩
    · rintro (⟨before, n, r, after, hf, rfl⟩ | ⟨n, r, hm, hr⟩)
      · cases before with
        | nil =>
          cases hf
          exact Or.inl (by simp)
        | cons first before =>
          cases hf
          exact Or.inr (Or.inr (Or.inl ⟨before, n, r, after, rfl, by simp⟩))
      · rcases List.mem_cons.mp hm with he | hm
        · cases he
          exact Or.inr (Or.inl hr)
        · exact Or.inr (Or.inr (Or.inr ⟨n, r, hm, hr⟩))

mutual

/-- **The sites of a written type are those of its parts.** -/
theorem TypeRef.mem_sites_iff {site : TypeRef.Site} : ∀ {ref : TypeRef},
    site ∈ ref.sites ↔ ∃ part : TypeRef, part.IsPartOf ref ∧ part.HasSite site
  | .node span (.name name) => by
    constructor
    · intro h
      obtain rfl := List.mem_singleton.mp h
      exact ⟨_, .whole _, .name⟩
    · rintro ⟨part, hp, hs⟩
      cases hp
      cases hs
      exact List.mem_singleton.mpr rfl
  | .node span (.tuple elems) => by
    have hsites : TypeRef.sites (.node span (.tuple elems)) = TypeRef.sitesList elems := rfl
    rw [hsites, TypeRef.mem_sitesList_iff]
    constructor
    · rintro ⟨ref, hm, hr⟩
      obtain ⟨part, hp, hs⟩ := (TypeRef.mem_sites_list ref hm).mp hr
      exact ⟨part, .elem hm hp, hs⟩
    · rintro ⟨part, hp, hs⟩
      cases hp with
      | whole => cases hs
      | elem hm hp => exact ⟨_, hm, (TypeRef.mem_sites_list _ hm).mpr ⟨part, hp, hs⟩⟩
  | .node span (.named fields) => by
    have hsites : TypeRef.sites (.node span (.named fields)) = TypeRef.sitesFields [] fields := rfl
    rw [hsites, TypeRef.mem_sitesFields_iff]
    constructor
    · rintro (⟨before, name, ref, after, rfl, rfl⟩ | ⟨name, ref, hm, hr⟩)
      · exact ⟨_, .whole _, .field⟩
      · obtain ⟨part, hp, hs⟩ := (TypeRef.mem_sites_fields _ hm).mp hr
        exact ⟨part, .field hm hp, hs⟩
    · rintro ⟨part, hp, hs⟩
      cases hp with
      | whole =>
        cases hs
        exact Or.inl ⟨_, _, _, _, rfl, rfl⟩
      | field hm hp => exact Or.inr ⟨_, _, hm, (TypeRef.mem_sites_fields _ hm).mpr ⟨part, hp, hs⟩⟩
  | .node span (.seq elem) => by
    have hsites : TypeRef.sites (.node span (.seq elem)) = elem.sites := rfl
    rw [hsites, TypeRef.mem_sites_iff]
    constructor
    · rintro ⟨part, hp, hs⟩
      exact ⟨part, .seq hp, hs⟩
    · rintro ⟨part, hp, hs⟩
      cases hp with
      | whole => cases hs
      | seq hp => exact ⟨part, hp, hs⟩
  | .node span (.map key value) => by
    have hsites : TypeRef.sites (.node span (.map key value)) = key.sites ++ value.sites := rfl
    rw [hsites, List.mem_append, TypeRef.mem_sites_iff, TypeRef.mem_sites_iff]
    constructor
    · rintro (⟨part, hp, hs⟩ | ⟨part, hp, hs⟩)
      · exact ⟨part, .key hp, hs⟩
      · exact ⟨part, .value hp, hs⟩
    · rintro ⟨part, hp, hs⟩
      cases hp with
      | whole => cases hs
      | key hp => exact Or.inl ⟨part, hp, hs⟩
      | value hp => exact Or.inr ⟨part, hp, hs⟩

theorem TypeRef.mem_sites_list {site : TypeRef.Site} : ∀ {refs : List TypeRef},
    ∀ ref ∈ refs, site ∈ ref.sites ↔ ∃ part : TypeRef, part.IsPartOf ref ∧ part.HasSite site
  | [] => List.forall_mem_nil _
  | _ :: _ => List.forall_mem_cons.mpr ⟨TypeRef.mem_sites_iff, TypeRef.mem_sites_list⟩

theorem TypeRef.mem_sites_fields {site : TypeRef.Site} : ∀ {fields : List (String × TypeRef)},
    ∀ field ∈ fields,
      site ∈ field.2.sites ↔ ∃ part : TypeRef, part.IsPartOf field.2 ∧ part.HasSite site
  | [] => List.forall_mem_nil _
  | (_, ref) :: fields => by
    have hr : site ∈ ref.sites ↔ ∃ part : TypeRef, part.IsPartOf ref ∧ part.HasSite site :=
      TypeRef.mem_sites_iff
    exact List.forall_mem_cons.mpr ⟨hr, TypeRef.mem_sites_fields⟩

end

/-! ## 2. Offences -/

/-- The type that a name stands for: a built-in one, whatever is declared, or else the innermost that is
declared. -/
def Scope.typeOf? (scope : Scope) (name : String) : Option Ty :=
  (builtinType? name).or (scope.lookupType name)

/-- **What is wrong at a site**: a name stands for no type, or a field was there before. -/
def Scope.offence? (scope : Scope) : TypeRef.Site → Option TypeError
  | .name name span =>
    if scope.typeOf? name = none then some ⟨.undeclared (.one .type) name, span⟩ else none
  | .field before name span =>
    if name ∈ before then some ⟨.repeatedField name, span⟩ else none

section Offences

variable {scope : Scope} {name : String} {span : Span} {x : TypeError}

theorem Scope.offence?_name_eq_some_iff : scope.offence? (.name name span) = some x ↔
    scope.typeOf? name = none ∧ x = ⟨.undeclared (.one .type) name, span⟩ := by
  rw [Scope.offence?, Option.ite_none_right_eq_some, Option.some.injEq, eq_comm (a := x)]

theorem Scope.offence?_field_eq_some_iff {before : List String} :
    scope.offence? (.field before name span) = some x ↔
      name ∈ before ∧ x = ⟨.repeatedField name, span⟩ := by
  rw [Scope.offence?, Option.ite_none_right_eq_some, Option.some.injEq, eq_comm (a := x)]

theorem Scope.offence?_name_eq_none_iff :
    scope.offence? (.name name span) = none ↔ scope.typeOf? name ≠ none := by
  rw [Scope.offence?, ite_eq_right_iff]
  exact forall_congr' fun _ => iff_false_intro nofun

theorem Scope.offence?_field_eq_none_iff {before : List String} :
    scope.offence? (.field before name span) = none ↔ name ∉ before := by
  rw [Scope.offence?, ite_eq_right_iff]
  exact forall_congr' fun _ => iff_false_intro nofun

end Offences

/-- The result, unless there is an offence at one of the sites. -/
def Scope.unlessOffence {α : Type} (scope : Scope) (sites : List TypeRef.Site) (result : α) :
    Verdict α :=
  match sites.findSome? scope.offence? with
  | some x => .error x
  | none => .ok result

mutual

/-- **The written type with every name replaced by a type**, and all else as it is written. -/
def TypeRef.image (type : String → Ty) : TypeRef → Ty
  | .node _ form => form.image type

/-- The image of a form. -/
def TypeRef.Form.image (type : String → Ty) : TypeRef.Form → Ty
  | .name name => type name
  | .tuple elems => .tuple (TypeRef.imageList type elems)
  | .named fields => .named (TypeRef.imageFields type fields)
  | .seq elem => .seq (elem.image type)
  | .map key value => .map (key.image type) (value.image type)

/-- The image of every written type of the list. -/
def TypeRef.imageList (type : String → Ty) : List TypeRef → List Ty
  | [] => []
  | ref :: refs => ref.image type :: TypeRef.imageList type refs

/-- The same fields, each with the image of its type. -/
def TypeRef.imageFields (type : String → Ty) : List (String × TypeRef) → List (String × Ty)
  | [] => []
  | (name, ref) :: fields => (name, ref.image type) :: TypeRef.imageFields type fields

end

section Sequences

variable {scope : Scope} {α β : Type} {a : α} {b : β} {s t : List TypeRef.Site}

/-- What comes after sites without an offence looks at the sites that follow. -/
theorem Scope.unlessOffence_bind {k : α → Verdict β} (hk : k a = scope.unlessOffence t b) :
    (scope.unlessOffence s a >>= k) = scope.unlessOffence (s ++ t) b := by
  unfold Scope.unlessOffence at hk ⊢
  rw [List.findSome?_append]
  cases s.findSome? scope.offence? with
  | some x => rfl
  | none => exact hk

/-- What is done with a result looks at no further sites. -/
theorem Scope.unlessOffence_map {k : α → Verdict β} (hk : k a = .ok b) :
    (scope.unlessOffence s a >>= k) = scope.unlessOffence s b := by
  have hk : k a = scope.unlessOffence [] b := hk
  rw [Scope.unlessOffence_bind hk, List.append_nil]

end Sequences

/-! ## 3. The resolver -/

section Resolver

variable (scope : Scope)

/-- The type of a name, where it has one. -/
def Scope.typeOf (name : String) : Ty := (scope.typeOf? name).getD default

theorem Scope.typeNamed_eq (span : Span) (name : String) :
    scope.typeNamed span name = scope.unlessOffence [.name name span] (scope.typeOf name) := by
  unfold Scope.typeNamed Scope.unlessOffence
  cases hb : builtinType? name with
  | some ty => simp [Scope.offence?, Scope.typeOf, Scope.typeOf?, hb]
  | none =>
    cases hl : scope.lookupType name with
    | some ty => simp [Scope.offence?, Scope.typeOf, Scope.typeOf?, hb, hl]
    | none => simp [Scope.offence?, Scope.typeOf?, hb, hl]

mutual

/-- **The resolver does no more than this**: it looks for the first offence, and if there is none the
written type stands for its image. -/
theorem Scope.resolve_eq : ∀ ref : TypeRef,
    scope.resolve ref = scope.unlessOffence ref.sites (ref.image scope.typeOf)
  | .node span (.name name) => scope.typeNamed_eq span name
  | .node span (.tuple elems) => by
    have hr : scope.resolve (.node span (.tuple elems)) =
        (scope.resolveList elems >>= fun tys => .ok (.tuple tys)) := rfl
    rw [hr, Scope.resolveList_eq]
    exact Scope.unlessOffence_map rfl
  | .node span (.named fields) => by
    have hr : scope.resolve (.node span (.named fields)) =
        (scope.resolveFields [] fields >>= fun tys => .ok (.named tys)) := rfl
    rw [hr, Scope.resolveFields_eq fields fun _ => Iff.rfl]
    exact Scope.unlessOffence_map rfl
  | .node span (.seq elem) => by
    have hr : scope.resolve (.node span (.seq elem)) =
        (scope.resolve elem >>= fun ty => .ok (.seq ty)) := rfl
    rw [hr, Scope.resolve_eq elem]
    exact Scope.unlessOffence_map rfl
  | .node span (.map key value) => by
    have hr : scope.resolve (.node span (.map key value)) =
        (scope.resolve key >>= fun k => scope.resolve value >>= fun v => .ok (.map k v)) := rfl
    rw [hr, Scope.resolve_eq key, Scope.resolve_eq value]
    exact Scope.unlessOffence_bind (Scope.unlessOffence_map rfl)

theorem Scope.resolveList_eq : ∀ refs : List TypeRef,
    scope.resolveList refs =
      scope.unlessOffence (TypeRef.sitesList refs) (TypeRef.imageList scope.typeOf refs)
  | [] => rfl
  | ref :: refs => by
    rw [Scope.resolveList, Scope.resolve_eq ref, Scope.resolveList_eq refs]
    exact Scope.unlessOffence_bind (Scope.unlessOffence_map rfl)

/-- The resolver has the names of the fields before in another order. -/
theorem Scope.resolveFields_eq : ∀ (fields : List (String × TypeRef)) {seen before : List String},
    (∀ name, name ∈ seen ↔ name ∈ before) →
      scope.resolveFields seen fields =
        scope.unlessOffence (TypeRef.sitesFields before fields)
          (TypeRef.imageFields scope.typeOf fields)
  | [], _, _, _ => rfl
  | (name, ref) :: fields, seen, before, h => by
    have hnames : ∀ n, n ∈ name :: seen ↔ n ∈ before ++ [name] := by
      intro n
      rw [List.mem_cons, h n, List.mem_append, List.mem_singleton, or_comm]
    rw [Scope.resolveFields, Scope.resolve_eq ref, Scope.resolveFields_eq fields hnames]
    by_cases hn : name ∈ before
    · rw [if_pos ((h name).mpr hn)]
      simp [Scope.unlessOffence, TypeRef.sitesFields, Scope.offence?, hn]
    · rw [if_neg (mt (h name).mp hn)]
      -- the field itself is no offence, so the search goes on in its type
      have hfield : scope.offence? (.field before name ref.span) = none := if_neg hn
      have hskip : scope.unlessOffence (TypeRef.sitesFields before ((name, ref) :: fields))
          (TypeRef.imageFields scope.typeOf ((name, ref) :: fields)) =
          scope.unlessOffence (ref.sites ++ TypeRef.sitesFields (before ++ [name]) fields)
            ((name, ref.image scope.typeOf) :: TypeRef.imageFields scope.typeOf fields) := by
        unfold Scope.unlessOffence
        rw [TypeRef.sitesFields, List.findSome?_cons, hfield]
        rfl
      rw [hskip]
      exact Scope.unlessOffence_bind (Scope.unlessOffence_map rfl)

end

end Resolver

/-! ## 4. What a name stands for -/

/-- **What a name stands for**: the built-in type of this name, whatever is declared, or else what the
innermost frame that binds it binds it to. -/
inductive Scope.StandsFor (scope : Scope) (name : String) : Ty → Prop
  | builtin {ty : Ty} : builtinType? name = some ty → Scope.StandsFor scope name ty
  | declared {ty : Ty} {inner outer : List Frame} {frame : Frame} :
      builtinType? name = none → scope.frames = inner ++ frame :: outer →
      (∀ f ∈ inner, f.type? name = none) → frame.type? name = some ty →
      Scope.StandsFor scope name ty

section Result

variable {scope : Scope} {ref : TypeRef}

theorem Scope.standsFor_iff {name : String} {ty : Ty} :
    scope.StandsFor name ty ↔ scope.typeOf? name = some ty := by
  rw [Scope.typeOf?, Option.or_eq_some_iff, Scope.lookupType, List.findSome?_eq_some_iff]
  constructor
  · rintro (hb | ⟨hb, hf, hi, ht⟩)
    · exact Or.inl hb
    · exact Or.inr ⟨hb, _, _, _, hf, ht, hi⟩
  · rintro (hb | ⟨hb, inner, frame, outer, hf, ht, hi⟩)
    · exact .builtin hb
    · exact .declared hb hf hi ht

/-- A name stands for a type exactly if it is built in or a frame binds it. -/
theorem Scope.exists_standsFor_iff {name : String} :
    (∃ ty, scope.StandsFor name ty) ↔
      builtinType? name ≠ none ∨ ∃ frame ∈ scope.frames, frame.type? name ≠ none := by
  simp only [Scope.standsFor_iff, ← Option.ne_none_iff_exists', Scope.typeOf?, ne_eq,
    Option.or_eq_none_iff, Scope.lookupType, List.findSome?_eq_none_iff, not_and_or, not_forall,
    exists_prop]

/-- The fields are distinct exactly if none is there before. -/
theorem TypeRef.nodup_fields_iff {fields : List (String × TypeRef)} :
    (fields.map Prod.fst).Nodup ↔ ∀ before name ref after,
      fields = before ++ (name, ref) :: after → name ∉ before.map Prod.fst := by
  constructor
  · rintro h before name ref after rfl
    rw [List.map_append, List.nodup_append] at h
    intro hn
    exact h.2.2 name hn name List.mem_cons_self rfl
  · intro h
    induction fields with
    | nil => exact List.nodup_nil
    | cons field fields ih =>
      refine List.nodup_cons.mpr ⟨fun hm => ?_, ih fun before name ref after hf hn => ?_⟩
      · obtain ⟨⟨name, ref⟩, hm, hn⟩ := List.mem_map.mp hm
        obtain ⟨before, after, rfl⟩ := List.append_of_mem hm
        obtain rfl : name = field.1 := hn
        exact h (field :: before) field.1 ref after rfl List.mem_cons_self
      · exact h (field :: before) name ref after (hf ▸ rfl) (List.mem_cons_of_mem _ hn)

/-- **There is no offence** exactly if every name stands for a type and every named tuple has distinct
fields, at any depth. -/
theorem Scope.no_offence_iff : (∀ site ∈ ref.sites, scope.offence? site = none) ↔
    (∀ span name, (TypeRef.node span (.name name)).IsPartOf ref →
      ∃ ty, scope.StandsFor name ty) ∧
    (∀ span fields, (TypeRef.node span (.named fields)).IsPartOf ref →
      (fields.map Prod.fst).Nodup) := by
  constructor
  · intro h
    refine ⟨fun span name hp => ?_, fun span fields hp => ?_⟩
    · have hn := h _ (TypeRef.mem_sites_iff.mpr ⟨_, hp, .name⟩)
      obtain ⟨ty, ht⟩ := Option.ne_none_iff_exists'.mp (Scope.offence?_name_eq_none_iff.mp hn)
      exact ⟨ty, Scope.standsFor_iff.mpr ht⟩
    · refine TypeRef.nodup_fields_iff.mpr ?_
      rintro before name field after rfl
      exact Scope.offence?_field_eq_none_iff.mp (h _ (TypeRef.mem_sites_iff.mpr ⟨_, hp, .field⟩))
  · rintro ⟨hnames, hfields⟩ site hs
    obtain ⟨part, hp, hs⟩ := TypeRef.mem_sites_iff.mp hs
    cases hs with
    | name =>
      obtain ⟨ty, ht⟩ := hnames _ _ hp
      have hty := Scope.standsFor_iff.mp ht
      exact Scope.offence?_name_eq_none_iff.mpr (hty ▸ nofun)
    | field =>
      have hn := TypeRef.nodup_fields_iff.mp (hfields _ _ hp) _ _ _ _ rfl
      exact Scope.offence?_field_eq_none_iff.mpr hn

/-- What is written is resolved exactly if there is no offence, and comes to its image. -/
theorem Scope.resolve_eq_ok_iff {ty : Ty} : scope.resolve ref = .ok ty ↔
    (∀ site ∈ ref.sites, scope.offence? site = none) ∧ ty = ref.image scope.typeOf := by
  rw [Scope.resolve_eq, Scope.unlessOffence, ← List.findSome?_eq_none_iff]
  cases ref.sites.findSome? scope.offence? with
  | some x => exact ⟨nofun, nofun⟩
  | none => rw [Except.ok.injEq, eq_comm, and_iff_right rfl]

/-- The error is that of the first offence. -/
theorem Scope.resolve_eq_error_iff {x : TypeError} : scope.resolve ref = .error x ↔
    ∃ before site after, ref.sites = before ++ site :: after ∧
      scope.offence? site = some x ∧ ∀ s ∈ before, scope.offence? s = none := by
  rw [Scope.resolve_eq, Scope.unlessOffence, ← List.findSome?_eq_some_iff]
  cases ref.sites.findSome? scope.offence? with
  | some y => rw [Except.error.injEq, Option.some.injEq]
  | none => exact ⟨nofun, nofun⟩

/-- So it is that of a site of some part. -/
theorem Scope.exists_site_of_resolve_error {x : TypeError} (h : scope.resolve ref = .error x) :
    ∃ (part : TypeRef) (site : TypeRef.Site), part.IsPartOf ref ∧ part.HasSite site ∧
      scope.offence? site = some x := by
  obtain ⟨before, site, after, hs, hx, -⟩ := Scope.resolve_eq_error_iff.mp h
  have hm : site ∈ ref.sites := hs ▸ List.mem_append_right before List.mem_cons_self
  obtain ⟨part, hp, hs⟩ := TypeRef.mem_sites_iff.mp hm
  exact ⟨part, site, hp, hs, hx⟩

end Result

/-! ## 5. The result -/

/-- **Resolving, exactly.**  What is written is resolved if and only if each name in it is built in or
bound in a frame, and no named tuple in it repeats a field.  It then comes to its image: each name is
replaced by what it stands for, an alias by the alias, and nothing else changes.  Otherwise the error is
that of the first offence in the order of the text, where a field comes before its type: a name that
stands for nothing is reported where it stands, and a repeated field where its type does. -/
theorem Scope.resolves_exactly (scope : Scope) (ref : TypeRef) :
    ((∃ ty, scope.resolve ref = .ok ty) ↔
      (∀ span name, (TypeRef.node span (.name name)).IsPartOf ref →
        builtinType? name ≠ none ∨ ∃ frame ∈ scope.frames, frame.type? name ≠ none) ∧
      (∀ span fields, (TypeRef.node span (.named fields)).IsPartOf ref →
        (fields.map Prod.fst).Nodup)) ∧
    (∀ ty, scope.resolve ref = .ok ty → ∃ type : String → Ty, ty = ref.image type ∧
      ∀ span name, (TypeRef.node span (.name name)).IsPartOf ref →
        scope.StandsFor name (type name)) ∧
    (∀ x, scope.resolve ref = .error x ↔
      ∃ before site after, ref.sites = before ++ site :: after ∧
        scope.offence? site = some x ∧ ∀ s ∈ before, scope.offence? s = none) := by
  refine ⟨?_, fun ty h => ?_, fun x => Scope.resolve_eq_error_iff⟩
  · simp only [← Scope.exists_standsFor_iff]
    rw [← Scope.no_offence_iff]
    constructor
    · rintro ⟨ty, h⟩
      exact (Scope.resolve_eq_ok_iff.mp h).1
    · intro h
      exact ⟨_, Scope.resolve_eq_ok_iff.mpr ⟨h, rfl⟩⟩
  · obtain ⟨hn, rfl⟩ := Scope.resolve_eq_ok_iff.mp h
    refine ⟨scope.typeOf, rfl, fun span name hp => ?_⟩
    obtain ⟨ty, ht⟩ := (Scope.no_offence_iff.mp hn).1 span name hp
    have hty := Scope.standsFor_iff.mp ht
    refine Scope.standsFor_iff.mpr ?_
    rw [Scope.typeOf, hty]
    rfl

/-- Of a repeated field whose type is unknown, the field is what is reported, and where its type
stands. -/
example : Scope.initial.resolve (.node ⟨0, 17⟩ (.named
    [("x", .node ⟨4, 7⟩ (.name "int")), ("x", .node ⟨12, 16⟩ (.name "Gone"))])) =
    .error ⟨.repeatedField "x", ⟨12, 16⟩⟩ := rfl

end MachineTyping
