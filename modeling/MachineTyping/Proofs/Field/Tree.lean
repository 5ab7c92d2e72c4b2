/-
# Field names in trees and errors

Where no declared type repeats a field, no type that the checker comes up with does
(`Context.fields_stay_distinct`).  Repetitions are refused at two places only, in a written type and
in a named tuple; all other types are made out of types that are there.

* **Trees.**  The type of a node is taken over from a declaration or from a written type
  (`Typed.Adopts`), or it is put together from the types of the parts, or read off one of them with
  aliases resolved.  One node is the step (`Typed.Lawful.fieldsDistinct`), the rule of every kind of
  node is a case of it, and the tree follows from its leaves to its root.
* **Errors.**  The types in an error (`Fault.types`) are those of nodes, parts of those, or declared
  ones (`Context.Fails.fieldsDistinct`).

So in `e.x` the field that is found first is the only one of that name (`Typed.ReadsOnlyMatch`).
-/
import MachineTyping.Proofs.Failure.Justified
import MachineTyping.Proofs.Field.Distinct
import MachineTyping.Proofs.Target.Expression
import MachineTyping.Proofs.Tree.Soundness

namespace MachineTyping

/-! ## 1. Nodes -/

/-- The type that a node takes over, from a declaration or from what is written, has the property. -/
def Typed.Adopts (P : Ty → Prop) (t : Typed) : Prop :=
  match t.shape with
  | .var v | .linear _ v => P v.ty
  | .call f _ => P f.result
  | .default | .cast _ | .coerce _ => P t.ty
  | _ => True

/-- If the node reads a field, then there is one field of that name, and its type is the node's. -/
def Typed.ReadsOnlyMatch (t : Typed) : Prop :=
  ∀ base name, t.shape = .field base name → ∃ fields, base.ty.canonical = .named fields ∧
    fields.filter (fun field => field.1 == name) = [(name, t.ty)]

/-- **The step**: a lawful node has distinct fields in its type if its parts have them in theirs, and
what it takes over has. -/
theorem Typed.Lawful.fieldsDistinct {t : Typed} (h : t.Lawful) (ha : t.Adopts Ty.FieldsDistinct)
    (hp : ∀ part ∈ t.children, part.ty.FieldsDistinct) : t.ty.FieldsDistinct := by
  cases h with
  | int | sizeof _ => exact Ty.fieldsDistinct_int
  | float => exact Ty.fieldsDistinct_float
  | bool | choice | fairChoice | comparison _ _ | equality _ _ | logical _ _ _ | hasKey _ _ =>
    exact Ty.fieldsDistinct_bool
  | null => exact Ty.fieldsDistinct_null
  | element => exact Ty.fieldsDistinct_enum _
  | event => exact Ty.fieldsDistinct_event
  | self | new _ _ => exact Ty.fieldsDistinct_machine
  | var | linear | default _ | call _ _ | cast _ | coerce _ => exact ha
  | neg _ | not _ | arithmetic _ _ =>
    have ht := hp _ List.mem_cons_self
    exact ht
  | tuple =>
    rw [Typed.ty, Ty.fieldsDistinct_tuple_iff]
    exact List.forall_mem_map.mpr hp
  | @named span fields hn =>
    rw [Typed.ty, Ty.fieldsDistinct_named_iff, List.map_map]
    refine ⟨hn, List.forall_mem_map.mpr fun field hf => ?_⟩
    exact hp field.2 (List.mem_map_of_mem hf)
  -- the rest is read off the type of a part, and aliases do not matter there
  | component hc he =>
    have hb := (hp _ List.mem_cons_self).of_canonical_eq hc
    exact Ty.fieldsDistinct_tuple_iff.mp hb _ (List.mem_of_getElem? he)
  | field hc hl =>
    have hb := (hp _ List.mem_cons_self).of_canonical_eq hc
    exact (Ty.fieldsDistinct_named_iff.mp hb).2 _ (mem_of_lookup hl)
  | seqItem hc _ =>
    have hb := (hp _ List.mem_cons_self).of_canonical_eq hc
    exact Ty.fieldsDistinct_seq_iff.mp hb
  | mapItem hc _ =>
    have hb := (hp _ List.mem_cons_self).of_canonical_eq hc
    exact (Ty.fieldsDistinct_map_iff.mp hb).2
  | keys hc =>
    have hb := (hp _ List.mem_cons_self).of_canonical_eq hc
    exact Ty.fieldsDistinct_seq_iff.mpr (Ty.fieldsDistinct_map_iff.mp hb).1
  | values hc =>
    have hb := (hp _ List.mem_cons_self).of_canonical_eq hc
    exact Ty.fieldsDistinct_seq_iff.mpr (Ty.fieldsDistinct_map_iff.mp hb).2

/-- A lawful node that reads a field of something with distinct fields reads the only match. -/
theorem Typed.Lawful.readsOnlyMatch {t : Typed} (h : t.Lawful)
    (hp : ∀ part ∈ t.children, part.ty.FieldsDistinct) : t.ReadsOnlyMatch := by
  intro base name hs
  cases h with
  | field hc hl =>
    cases hs
    have hb := (hp _ List.mem_cons_self).of_canonical_eq hc
    exact ⟨_, hc, filter_eq_of_lookup (Ty.fieldsDistinct_named_iff.mp hb).1 hl⟩
  | _ => cases hs

/-! ## 2. Errors -/

/-- The types that an expectation names. -/
def Expectation.types : Expectation → List Ty
  | .type t => [t]
  | .kind _ => []

/-- The types that a fault carries. -/
def Fault.types : Fault → List Ty
  | .mismatch found expected => found :: expected.flatMap Expectation.types
  | .operands _ left right | .incomparable left right => [left, right]
  | .noField _ tuple | .outOfBounds _ tuple => [tuple]
  | .undeclared _ _ | .relinquished _ | .misplacedSelf | .argumentCount _ _ | .badNumber _
  | .exponentLiteral | .repeatedField _ => []

/-- **No type in the fault repeats a field.** -/
def Fault.FieldsDistinct (fault : Fault) : Prop := ∀ t ∈ fault.types, t.FieldsDistinct

theorem Fault.fieldsDistinct_of_types {fault : Fault} (h : fault.types = []) :
    fault.FieldsDistinct := by
  unfold Fault.FieldsDistinct
  rw [h]
  exact List.forall_mem_nil _

theorem Fault.fieldsDistinct_two {fault : Fault} {left right : Ty} (h : fault.types = [left, right])
    (hl : left.FieldsDistinct) (hr : right.FieldsDistinct) : fault.FieldsDistinct := by
  unfold Fault.FieldsDistinct
  rw [h]
  exact List.forall_mem_cons.mpr ⟨hl, List.forall_mem_singleton.mpr hr⟩

theorem Typed.fieldsDistinct_mismatch {t : Typed} {expected : List Expectation}
    (ht : t.ty.FieldsDistinct)
    (he : ∀ expectation ∈ expected, ∀ u ∈ expectation.types, u.FieldsDistinct) :
    (t.mismatch expected).fault.FieldsDistinct := by
  refine List.forall_mem_cons.mpr ⟨ht, fun u hu => ?_⟩
  obtain ⟨expectation, hm, hu⟩ := List.mem_flatMap.mp hu
  exact he expectation hm u hu

theorem Typed.fieldsDistinct_mismatch_type {t : Typed} {ty : Ty} (ht : t.ty.FieldsDistinct)
    (h : ty.FieldsDistinct) : (t.mismatch [.type ty]).fault.FieldsDistinct :=
  Typed.fieldsDistinct_mismatch ht
    (List.forall_mem_singleton.mpr (List.forall_mem_singleton.mpr h))

/-- Errors of written types carry no types. -/
theorem Scope.fieldsDistinct_of_resolve_error {scope : Scope} {ref : TypeRef} {x : TypeError}
    (h : scope.resolve ref = .error x) : x.fault.FieldsDistinct := by
  have hd : scope.Disallows ref x.fault := Scope.disallows_of_resolve_error h
  apply Fault.fieldsDistinct_of_types
  cases hf : x.fault with
  | undeclared sought name | repeatedField name => rfl
  | _ =>
    rw [hf] at hd
    cases hd

/-- The slots of a payload are parts of it. -/
theorem Ty.FieldsDistinct.slots {payload : Ty} {slots : List Ty} (h : payload.FieldsDistinct)
    (hs : Rule.slots? payload = some slots) : ∀ slot ∈ slots, slot.FieldsDistinct := by
  rcases Rule.slots?_eq_some_iff.mp hs with hp | ⟨fields, hp, rfl⟩
  · exact Ty.fieldsDistinct_tuple_iff.mp (h.of_canonical_eq hp)
  · exact List.forall_mem_map.mpr (Ty.fieldsDistinct_named_iff.mp (h.of_canonical_eq hp)).2

namespace Context

variable {ctx : Context}

/-! ## 3. Trees -/

/-- What an elaborated node takes over is declared or written, and so repeats no field. -/
theorem Elaborates.adopts (hs : ctx.scope.FieldsDistinct) : ∀ {e : Expr} {t : Typed},
    ctx.Elaborates e t → t.Adopts Ty.FieldsDistinct
  | _, _, .var hl | _, _, .linear hl => hs.lookup hl _ List.mem_cons_self
  | _, _, .call hl _ => hs.lookup hl _ List.mem_cons_self
  | _, _, .default hr => (hs.resolve hr).canonical
  | _, _, .cast _ hr | _, _, .coerce _ hr _ => hs.resolve hr
  | _, _, .identity ha _ _ => ha.adopts hs
  | _, _, .element _ | _, _, .event _ | _, _, .halt _ | _, _, .self _ | _, _, .int _
  | _, _, .float _ | _, _, .bool | _, _, .null | _, _, .choice | _, _, .fairChoice
  | _, _, .unary _ | _, _, .binary _ _ _ | _, _, .member _ _ | _, _, .tuple _
  | _, _, .named _ _ | _, _, .component _ _ | _, _, .field _ | _, _, .seqItem _ _ _
  | _, _, .mapItem _ _ _ | _, _, .keys _ | _, _, .values _ | _, _, .sizeof _
  | _, _, .new _ _ => trivial

/-- **The types of a checked expression's nodes repeat no field**, and fields are read where they are
the only ones of their name. -/
theorem Checks.fieldsDistinct (hs : ctx.scope.FieldsDistinct) {e : Expr} {t : Typed}
    (h : ctx.Checks e t) : t.Everywhere fun n => n.ty.FieldsDistinct ∧ n.ReadsOnlyMatch := by
  obtain ⟨he, hl⟩ := Checks.faithful h
  have hq : t.Everywhere fun n => n.Lawful ∧ n.Adopts Ty.FieldsDistinct := by
    intro n hn
    obtain ⟨e', he'⟩ := he.node hn
    exact ⟨hl n hn, he'.adopts hs⟩
  refine hq.upward fun n ⟨hln, han⟩ hp => ?_
  have hparts : ∀ part ∈ n.children, part.ty.FieldsDistinct := fun part hm => (hp part hm).1
  exact ⟨hln.fieldsDistinct han hparts, hln.readsOnlyMatch hparts⟩

theorem Checks.fieldsDistinct_ty (hs : ctx.scope.FieldsDistinct) {e : Expr} {t : Typed}
    (h : ctx.Checks e t) : t.ty.FieldsDistinct :=
  (h.fieldsDistinct hs).root.1

/-! ## 4. Errors of expressions -/

/-- The types of arguments that check. -/
theorem Admits.fieldsDistinct_ty (hs : ctx.scope.FieldsDistinct) {args : List Expr}
    {ts : List Typed} (h : ctx.Admits args ts) : ∀ t ∈ ts, t.ty.FieldsDistinct := by
  intro t ht
  obtain ⟨e, -, he⟩ := exists_of_forall₂_mem h.1 ht
  exact he.fieldsDistinct_ty hs

/-- A payload refuses arguments with types of its own and of theirs. -/
theorem fieldsDistinct_of_refuses {payload : Ty} {span : Span} {args : List Typed} {x : TypeError}
    (hp : payload.FieldsDistinct) (ha : ∀ arg ∈ args, arg.ty.FieldsDistinct)
    (h : payload.Refuses span args x) : x.fault.FieldsDistinct := by
  cases h with
  | nothing _ | unslotted _ _ | count _ _ _ => exact Fault.fieldsDistinct_of_types rfl
  | whole _ => exact Typed.fieldsDistinct_mismatch_type (ha _ List.mem_cons_self) hp
  | slot _ hs _ hm =>
    exact Typed.fieldsDistinct_mismatch_type (ha _ hm.mem_right) (hp.slots hs _ hm.mem_left)

/-- **What is wrong with an expression itself is said with types that repeat no field.** -/
theorem Fails.fieldsDistinct (hs : ctx.scope.FieldsDistinct) {e : Expr} {x : TypeError}
    (h : ctx.Fails e x) : x.fault.FieldsDistinct := by
  cases h with
  | int _ | decimal _ | exponent | name _ | halt _ | self _ | linear _ | repeated _ _ _ | callee _
  | argumentCount _ _ | argHandedOver _ _ _ _ _ | machine _ | newArgHandedOver _ _ _ _ _ =>
    exact Fault.fieldsDistinct_of_types rfl
  | default h | castType _ h | coerceType _ h => exact Scope.fieldsDistinct_of_resolve_error h
  -- what is expected here is a number, a truth value or any collection
  | neg ht _ | not ht _ | logicalLeft _ ht _ _ | logicalRight _ _ ht _ _ | memberMap _ ht _
  | component ht _ | field ht _ | index ht _ _ _ | seqIndex _ ht _ _ | keys ht _ | values ht _
  | sizeof ht _ _ =>
    exact Typed.fieldsDistinct_mismatch (ht.fieldsDistinct_ty hs) (by simp [Expectation.types])
  | numbers _ hl hr _ | equality _ hl hr _ =>
    exact Fault.fieldsDistinct_two rfl (hl.fieldsDistinct_ty hs) (hr.fieldsDistinct_ty hs)
  | cast ht hr _ | coerce ht hr _ _ =>
    exact Fault.fieldsDistinct_two rfl (ht.fieldsDistinct_ty hs) (hs.resolve hr)
  | outOfBounds hb _ _ | noField hb _ _ =>
    exact List.forall_mem_singleton.mpr (hb.fieldsDistinct_ty hs)
  | memberKey hk hm hc _ | mapIndex hm hk hc _ =>
    have hmap := (hm.fieldsDistinct_ty hs).of_canonical_eq hc
    exact Typed.fieldsDistinct_mismatch_type (hk.fieldsDistinct_ty hs)
      (Ty.fieldsDistinct_map_iff.mp hmap).1
  | parameter hf _ hts hm =>
    have hp := hs.lookup hf _ (List.mem_cons_of_mem _ (List.mem_map_of_mem hm.mem_left))
    exact Typed.fieldsDistinct_mismatch_type (hts.fieldsDistinct_ty hs _ hm.mem_right) hp
  | payload hm hts hr =>
    exact fieldsDistinct_of_refuses (hs.lookup hm _ List.mem_cons_self) (hts.fieldsDistinct_ty hs) hr

theorem fieldsDistinct_of_check_error (hs : ctx.scope.FieldsDistinct) {e : Expr} {x : TypeError}
    (h : (ctx.check e).verdict = .error x) : x.fault.FieldsDistinct := by
  obtain ⟨d, -, hd⟩ := (shows_iff (i := .error x)).mp h
  exact hd.fieldsDistinct hs

/-! ## 5. The result -/

/-- **Field names stay unique.**  In a scope where no declared type repeats a field, at any depth,
none does that a written type resolves to, that a node of a checked expression or assignment target
has, or that is in an error; and where a field is read there is one field of the name. -/
theorem fields_stay_distinct (ctx : Context) (hs : ctx.scope.FieldsDistinct) :
    (∀ (ref : TypeRef) (ty : Ty), ctx.scope.resolve ref = .ok ty → ty.FieldsDistinct) ∧
    (∀ (e : Expr) (t : Typed), (ctx.check e).verdict = .ok t →
      t.Everywhere fun n => n.ty.FieldsDistinct ∧ n.ReadsOnlyMatch) ∧
    (∀ (target : Lvalue) (t : Typed), (ctx.checkLvalue target).verdict = .ok t →
      t.Everywhere fun n => n.ty.FieldsDistinct ∧ n.ReadsOnlyMatch) ∧
    (∀ (ref : TypeRef) (x : TypeError), ctx.scope.resolve ref = .error x → x.fault.FieldsDistinct) ∧
    (∀ (e : Expr) (x : TypeError), (ctx.check e).verdict = .error x → x.fault.FieldsDistinct) ∧
    ∀ (target : Lvalue) (x : TypeError), (ctx.checkLvalue target).verdict = .error x →
      x.fault.FieldsDistinct := by
  refine ⟨fun _ _ h => hs.resolve h, fun e t h => Checks.fieldsDistinct hs h, ?_,
    fun _ _ h => Scope.fieldsDistinct_of_resolve_error h,
    fun _ _ h => fieldsDistinct_of_check_error hs h, ?_⟩
  -- a target of a variable is checked like an expression, and any other is refused for its name
  · intro target t h
    by_cases hv : ∃ v, ctx.scope.lookup target.root.name = some (.var v)
    · rw [(checkLvalue_by_root ctx target).1 hv] at h
      exact Checks.fieldsDistinct hs h
    · rw [((checkLvalue_by_root ctx target).2 hv).1] at h
      cases h
  · intro target x h
    by_cases hv : ∃ v, ctx.scope.lookup target.root.name = some (.var v)
    · rw [(checkLvalue_by_root ctx target).1 hv] at h
      exact fieldsDistinct_of_check_error hs h
    · rw [((checkLvalue_by_root ctx target).2 hv).1] at h
      cases h
      exact Fault.fieldsDistinct_of_types rfl

/-- Fields of fields behind an alias: `Point` stands for `(x: int, y: int)`, and `s` has two of them.
The type `(p: Point, n: int)` is written, `s.a.x` is read and assigned to, and `s.a.z` is refused. -/
theorem fields_stay_distinct_point :
    let coordinates : Ty := .named [("x", .int), ("y", .int)]
    let point : Ty := .alias "Point" coordinates
    let segment : Ty := .named [("a", point), ("b", point)]
    let actions : List Scope.Action :=
      [.declare (.alias "Point" coordinates), .declare (.symbol (.var ⟨"s", segment, none⟩))]
    let ctx : Context := ⟨Scope.initial.run actions, none⟩
    let written : TypeRef := .node ⟨0, 18⟩ (.named
      [("p", .node ⟨4, 9⟩ (.name "Point")), ("n", .node ⟨14, 17⟩ (.name "int"))])
    let start : Expr := .node ⟨0, 3⟩ (.field (.node ⟨0, 1⟩ (.name "s")) "a")
    let read : Expr := .node ⟨0, 5⟩ (.field start "x")
    let refused : Expr := .node ⟨0, 5⟩ (.field start "z")
    let first : Lvalue := .node ⟨0, 3⟩ (.field (.node ⟨0, 1⟩ (.var "s")) "a")
    let target : Lvalue := .node ⟨0, 5⟩ (.field first "x")
    ctx.scope.FieldsDistinct ∧
    (∃ ty, ctx.scope.resolve written = .ok ty ∧ ty.FieldsDistinct) ∧
    (∃ t, (ctx.check read).verdict = .ok t ∧
      t.Everywhere fun n => n.ty.FieldsDistinct ∧ n.ReadsOnlyMatch) ∧
    (∃ t, (ctx.checkLvalue target).verdict = .ok t ∧
      t.Everywhere fun n => n.ty.FieldsDistinct ∧ n.ReadsOnlyMatch) ∧
    ∃ x, (ctx.check refused).verdict = .error x ∧ x.fault.FieldsDistinct := by
  intro coordinates point segment actions ctx written start read refused first target
  have hc : coordinates.FieldsDistinct := by simp [coordinates]
  have hg : segment.FieldsDistinct := by simp [segment, point, hc]
  have ha : ∀ action ∈ actions, ∀ t ∈ action.types, t.FieldsDistinct := by
    simp [actions, Scope.Action.types, Declaration.types, Declaration.symbols,
      Declaration.typeBindings, Symbol.types, hc, hg]
  have hs : ctx.scope.FieldsDistinct := Scope.fieldsDistinct_initial.run ha
  obtain ⟨hresolve, hcheck, hlvalue, -, herror, -⟩ := fields_stay_distinct ctx hs
  exact ⟨hs, ⟨_, rfl, hresolve written _ rfl⟩, ⟨_, rfl, hcheck read _ rfl⟩,
    ⟨_, rfl, hlvalue target _ rfl⟩, _, rfl, herror refused _ rfl⟩

end Context

end MachineTyping
