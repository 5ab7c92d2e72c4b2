/-
# The rules look through aliases

Every typing rule commutes with resolving aliases: on canonical operands, in a canonical scope,
it concludes the canonical form of what it concludes otherwise (`Rule.unary_canonical` and its
companions).  That holds of refusals as of nodes, so a rule can neither be passed nor be failed
by giving a type another name, and the report differs in nothing but that name.

A rule that compares types is covered by the tests being blind to aliases.  A rule that reads a
type off a part reads it off a canonical type, and then the parts are canonical too
(`Ty.canonical_elem` and the like).
-/
import MachineTyping.Proofs.Alias.Canonical

namespace MachineTyping

namespace Rule

variable {span : Span}

/-! ## 1. Leaves -/

/-- Literals have no aliases in their types. -/
theorem int_canonical (text : String) :
    (Rule.int span text).canonical Typed.canonical = Rule.int span text := by
  simp only [Rule.int]
  cases integerOfText? text <;> rfl

theorem float_canonical (literal : FloatLiteral) :
    (Rule.float span literal).canonical Typed.canonical = Rule.float span literal := by
  cases literal with
  | exponent base power => rfl
  | decimal whole fraction =>
    simp only [Rule.float]
    cases Binary64.ofDecimal? (whole.getD "") fraction <;> rfl

theorem var_canonical (scope : Scope) (name : String) :
    Rule.var scope.canonical span name =
      (Rule.var scope span name).canonical Typed.canonical := by
  simp only [Rule.var, Scope.lookupVar_canonical]
  cases scope.lookupVar name <;> rfl

theorem name_canonical (scope : Scope) (name : String) :
    Rule.name scope.canonical span name =
      (Rule.name scope span name).canonical Typed.canonical := by
  simp only [Rule.name, Scope.lookup_canonical]
  rcases scope.lookup name with - | - | - | - | - | - <;> rfl

theorem halt_canonical (scope : Scope) :
    Rule.halt scope.canonical span = (Rule.halt scope span).canonical Typed.canonical := by
  simp only [Rule.halt, Scope.lookupEvent_canonical]
  cases scope.lookupEvent Event.haltName <;> rfl

theorem self_canonical (owner : Option Machine) :
    Rule.self (owner.map Machine.canonical) span =
      (Rule.self owner span).canonical Typed.canonical := by
  cases owner <;> rfl

theorem linear_canonical (scope : Scope) (mode : LinearMode) (name : String) :
    Rule.linear scope.canonical span mode name =
      (Rule.linear scope span mode name).canonical Typed.canonical := by
  simp only [Rule.linear, Scope.lookupVar_canonical]
  cases scope.lookupVar name <;> rfl

theorem tuple_canonical (elems : List Typed) :
    Rule.tuple span (elems.map Typed.canonical) = (Rule.tuple span elems).canonical := by
  simp only [Rule.tuple, Typed.canonical, Typed.Shape.canonical, Typed.canonicalList_eq_map,
    Ty.canonical, Ty.canonicalList_eq_map, List.map_map]
  congr 3
  funext t
  exact t.ty_canonical

theorem named_canonical (fields : List (String × Typed)) :
    Rule.named span (fields.map fun field => (field.1, field.2.canonical)) =
      (Rule.named span fields).canonical := by
  simp only [Rule.named, Typed.canonical, Typed.Shape.canonical, Typed.canonicalFields_eq_map,
    Ty.canonical, Ty.canonicalFields_eq_map, List.map_map]
  congr 3
  funext field
  exact congrArg (Prod.mk field.1) field.2.ty_canonical

/-! ## 2. Operators and conversions -/

theorem unary_canonical (op : UnaryOp) (operand : Typed) :
    Rule.unary span op operand.canonical =
      (Rule.unary span op operand).canonical Typed.canonical := by
  cases op with
  | neg =>
    simp only [Rule.unary, Verdict.canonical_ite, Verdict.canonical_ok, Verdict.canonical_error,
      Typed.canonical_node, Typed.ty_canonical, Ty.isNumeric_canonical,
      ← Typed.mismatch_canonical]
    rfl
  | not =>
    simp only [Rule.unary, Verdict.canonical_ite, Verdict.canonical_ok, Verdict.canonical_error,
      Typed.canonical_node, Typed.ty_canonical, Ty.isOf_canonical, ← Typed.mismatch_canonical]
    rfl

/-- The type of the keys is read off a canonical type. -/
theorem hasKey_canonical (key map : Typed) :
    Rule.hasKey span key.canonical map.canonical =
      (Rule.hasKey span key map).canonical Typed.canonical := by
  simp only [Rule.hasKey, Typed.ty_canonical, Ty.canonical_canonical]
  cases hm : map.ty.canonical with
  | map keyTy value =>
    obtain ⟨hk, -⟩ := Ty.canonical_map hm
    simp only [Verdict.canonical_ite, Verdict.canonical_ok, Verdict.canonical_error,
      Ty.accepts_canonical_right, ← Typed.mismatch_canonical, List.map_cons, List.map_nil,
      Expectation.canonical, hk]
    rfl
  | _ =>
    simp only [Verdict.canonical_error, ← Typed.mismatch_canonical]
    rfl

theorem binary_canonical (op : BinaryOp) (lhs rhs : Typed) :
    Rule.binary span op lhs.canonical rhs.canonical =
      (Rule.binary span op lhs rhs).canonical Typed.canonical := by
  unfold Rule.binary
  cases op.family with
  | membership => exact Rule.hasKey_canonical lhs rhs
  | arithmetic | comparison =>
    simp only [Verdict.canonical_ite, Verdict.canonical_ok, Verdict.canonical_error,
      Typed.canonical_node, Typed.ty_canonical, Ty.numericPair_canonical]
    rfl
  | equality =>
    simp only [Verdict.canonical_ite, Verdict.canonical_ok, Verdict.canonical_error,
      Typed.ty_canonical, Ty.comparable_canonical]
    rfl
  | logical =>
    simp only [Verdict.canonical_ite, Verdict.canonical_ok, Verdict.canonical_error,
      Typed.ty_canonical, Ty.isOf_canonical, ← Typed.mismatch_canonical]
    rfl

theorem cast_canonical (operand : Typed) (target : Ty) :
    Rule.cast span operand.canonical target.canonical =
      (Rule.cast span operand target).canonical Typed.canonical := by
  simp only [Rule.cast, Verdict.canonical_ite, Verdict.canonical_ok, Verdict.canonical_error,
    Typed.ty_canonical, Ty.comparable_canonical]
  rfl

theorem coerce_canonical (operand : Typed) (target : Ty) :
    Rule.coerce span operand.canonical target.canonical =
      (Rule.coerce span operand target).canonical Typed.canonical := by
  simp only [Rule.coerce, Typed.ty_canonical, Ty.conversion?_canonical]
  rcases operand.ty.conversion? target with - | - | - <;> rfl

/-! ## 3. Parts of a value -/

theorem component_canonical (base : Typed) (index : String) :
    Rule.component span base.canonical index =
      (Rule.component span base index).canonical Typed.canonical := by
  simp only [Rule.component, Typed.ty_canonical, Ty.canonical_canonical]
  have hout : Fault.canonical (.outOfBounds index base.ty) = .outOfBounds index base.ty.canonical :=
    rfl
  cases hb : base.ty.canonical with
  | tuple elems =>
    rw [hb] at hout
    cases naturalOfChars? index.toList with
    | none => simp only [Verdict.canonical_error, TypeError.canonical, hout]
    | some position =>
      cases he : elems[position]? with
      | none => simp only [he, Verdict.canonical_error, TypeError.canonical, hout]
      | some elem =>
        have hc : elem.canonical = elem := Ty.canonical_elem hb (List.mem_of_getElem? he)
        simp only [he, Verdict.canonical_ok, Typed.canonical_node, hc]
        rfl
  | _ =>
    simp only [Verdict.canonical_error, ← Typed.mismatch_canonical]
    rfl

theorem field_canonical (base : Typed) (name : String) :
    Rule.field span base.canonical name =
      (Rule.field span base name).canonical Typed.canonical := by
  simp only [Rule.field, Typed.ty_canonical, Ty.canonical_canonical]
  have hno : Fault.canonical (.noField name base.ty) = .noField name base.ty.canonical := rfl
  cases hb : base.ty.canonical with
  | named fields =>
    rw [hb] at hno
    cases hf : fields.lookup name with
    | none => simp only [hf, Verdict.canonical_error, TypeError.canonical, hno]
    | some ty =>
      obtain ⟨before, after, he, -⟩ := List.lookup_eq_some_iff.mp hf
      have hm : (name, ty) ∈ fields := by simp [he]
      simp only [hf, Verdict.canonical_ok, Typed.canonical_node, Ty.canonical_field hb hm]
      rfl
  | _ =>
    simp only [Verdict.canonical_error, ← Typed.mismatch_canonical]
    rfl

theorem index_canonical (base index : Typed) :
    Rule.index span base.canonical index.canonical =
      (Rule.index span base index).canonical Typed.canonical := by
  simp only [Rule.index, Typed.ty_canonical, Ty.canonical_canonical]
  cases hb : base.ty.canonical with
  | seq elem =>
    have hc : elem.canonical = elem := Ty.canonical_seq hb
    simp only [Verdict.canonical_ite, Verdict.canonical_ok, Verdict.canonical_error,
      Ty.isOf_canonical, Typed.canonical_node, ← Typed.mismatch_canonical, hc]
    rfl
  | map key value =>
    obtain ⟨hk, hv⟩ := Ty.canonical_map hb
    simp only [Verdict.canonical_ite, Verdict.canonical_ok, Verdict.canonical_error,
      Ty.accepts_canonical_right, Typed.canonical_node, ← Typed.mismatch_canonical,
      List.map_cons, List.map_nil, Expectation.canonical, hk, hv]
    rfl
  | _ =>
    simp only [Verdict.canonical_error, ← Typed.mismatch_canonical]
    rfl

theorem keys_canonical (map : Typed) :
    Rule.keys span map.canonical = (Rule.keys span map).canonical Typed.canonical := by
  simp only [Rule.keys, Typed.ty_canonical, Ty.canonical_canonical]
  cases hm : map.ty.canonical with
  | map key value =>
    obtain ⟨hk, -⟩ := Ty.canonical_map hm
    simp only [Verdict.canonical_ok, Typed.canonical_node, Ty.canonical, hk]
    rfl
  | _ =>
    simp only [Verdict.canonical_error, ← Typed.mismatch_canonical]
    rfl

theorem values_canonical (map : Typed) :
    Rule.values span map.canonical = (Rule.values span map).canonical Typed.canonical := by
  simp only [Rule.values, Typed.ty_canonical, Ty.canonical_canonical]
  cases hm : map.ty.canonical with
  | map key value =>
    obtain ⟨-, hv⟩ := Ty.canonical_map hm
    simp only [Verdict.canonical_ok, Typed.canonical_node, Ty.canonical, hv]
    rfl
  | _ =>
    simp only [Verdict.canonical_error, ← Typed.mismatch_canonical]
    rfl

theorem sizeof_canonical (collection : Typed) :
    Rule.sizeof span collection.canonical =
      (Rule.sizeof span collection).canonical Typed.canonical := by
  simp only [Rule.sizeof, Verdict.canonical_ite, Verdict.canonical_ok, Verdict.canonical_error,
    Typed.ty_canonical, Ty.isOf_canonical, ← Typed.mismatch_canonical]
  rfl

/-! ## 4. Arguments -/

theorem relinquish_canonical (taken : List String) (arg : Typed) :
    Rule.relinquish taken arg.canonical = (Rule.relinquish taken arg).canonical id := by
  simp only [Rule.relinquish, Typed.handover?_canonical, Typed.span_canonical]
  rcases arg.handover? with - | ⟨mode, v⟩
  · rfl
  · simp only [Option.map_some, Verdict.canonical_ite]
    rfl

/-- A function takes as many arguments as before. -/
theorem callee_canonical (scope : Scope) (name : String) (count : Nat) :
    Rule.callee scope.canonical span name count =
      (Rule.callee scope span name count).canonical Function.canonical := by
  simp only [Rule.callee, Scope.lookupFunction_canonical]
  cases scope.lookupFunction name with
  | none => rfl
  | some f =>
    have hp : f.canonical.params.length = f.params.length := List.length_map _
    simp only [Option.map_some, Verdict.canonical_ite, hp]
    rfl

theorem constructor_canonical (scope : Scope) (name : String) :
    Rule.constructor scope.canonical span name =
      (Rule.constructor scope span name).canonical Machine.canonical := by
  simp only [Rule.constructor, Scope.lookupMachine_canonical]
  cases scope.lookupMachine name <;> rfl

theorem passes_canonical (param : Ty) (arg : Typed) :
    Rule.passes param.canonical arg.canonical = Rule.passes param arg := by
  simp only [Rule.passes, Typed.handover?_canonical, Typed.ty_canonical, Ty.sameAs_canonical,
    Ty.accepts_canonical]
  rcases arg.handover? with - | ⟨- | -, v⟩ <;> rfl

theorem passAll_canonical : ∀ (params : List Parameter) (args : List Typed),
    Rule.passAll (params.map Parameter.canonical) (args.map Typed.canonical) =
      (Rule.passAll params args).canonical id
  | [], _ => rfl
  | _ :: _, [] => rfl
  | param :: params, arg :: args => by
    have hp : param.canonical.ty = param.ty.canonical := rfl
    simp only [List.map_cons, Rule.passAll, hp, Rule.passes_canonical, Verdict.canonical_ite,
      Verdict.canonical_error, ← Typed.mismatch_canonical, passAll_canonical params args]
    rfl

theorem call_canonical (f : Function) (args : List Typed) :
    Rule.call span f.canonical (args.map Typed.canonical) =
      (Rule.call span f args).canonical Typed.canonical := by
  have hp : f.canonical.params = f.params.map Parameter.canonical := rfl
  rw [Rule.call, Rule.call, hp]
  refine Verdict.bind_canonical (Rule.passAll_canonical f.params args) fun _ => ?_
  rw [← Typed.canonicalList_eq_map]
  rfl

theorem fillAll_canonical : ∀ (slots : List Ty) (args : List Typed),
    Rule.fillAll (slots.map Ty.canonical) (args.map Typed.canonical) =
      (Rule.fillAll slots args).canonical id
  | [], _ => rfl
  | _ :: _, [] => rfl
  | slot :: slots, arg :: args => by
    simp only [List.map_cons, Rule.fillAll, Typed.ty_canonical, Ty.accepts_canonical,
      Verdict.canonical_ite, Verdict.canonical_error, ← Typed.mismatch_canonical,
      fillAll_canonical slots args]
    rfl

/-- The slots of a payload are those of its canonical form... -/
theorem slots?_canonical (payload : Ty) : Rule.slots? payload.canonical = Rule.slots? payload := by
  simp only [Rule.slots?, Ty.canonical_canonical]

/-- ...and canonical already. -/
theorem canonical_slots {payload : Ty} {slots : List Ty} (h : Rule.slots? payload = some slots) :
    slots.map Ty.canonical = slots := by
  unfold Rule.slots? at h
  cases hp : payload.canonical with
  | tuple elems =>
    simp only [hp, Option.some.injEq] at h
    subst h
    rw [List.map_congr_left fun elem he => Ty.canonical_elem hp he]
    exact elems.map_id
  | named fields =>
    simp only [hp, Option.some.injEq] at h
    subst h
    rw [List.map_map]
    exact List.map_congr_left fun field hf => Ty.canonical_field hp hf
  | _ => simp [hp] at h

theorem payload_canonical (payload : Ty) : ∀ args : List Typed,
    Rule.payload payload.canonical span (args.map Typed.canonical) =
      (Rule.payload payload span args).canonical id
  | [] => by
    simp only [List.map_nil, Rule.payload, Ty.canonical_canonical, Verdict.canonical_ite]
    rfl
  | [arg] => Rule.fillAll_canonical [payload] [arg]
  | a :: b :: args => by
    simp only [List.map_cons, Rule.payload, Rule.slots?_canonical]
    cases hs : Rule.slots? payload with
    | none =>
      simp only [List.length_cons, List.length_map]
      rfl
    | some slots =>
      have hf := Rule.fillAll_canonical slots (a :: b :: args)
      rw [Rule.canonical_slots hs] at hf
      simp only [List.map_cons] at hf
      simp only [List.length_cons, List.length_map, Verdict.canonical_ite, hf]
      rfl

theorem new_canonical (m : Machine) (args : List Typed) :
    Rule.new span m.canonical (args.map Typed.canonical) =
      (Rule.new span m args).canonical Typed.canonical := by
  have hp : m.canonical.payload = m.payload.canonical := rfl
  rw [Rule.new, Rule.new, hp]
  refine Verdict.bind_canonical (Rule.payload_canonical m.payload args) fun _ => ?_
  rw [← Typed.canonicalList_eq_map]
  rfl

end Rule

end MachineTyping
