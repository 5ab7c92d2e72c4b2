/-
# Everything without aliases

`Ty.canonical` resolves the aliases of one type.  Here the same is done to all that holds types:
symbols and scopes (`Scope.canonical`), typed trees (`Typed.canonical`), errors
(`TypeError.canonical`) and what checking comes to (`Outcome.canonical`).  Nothing but types
changes; names, spans, values, counts and the identities of functions stay.

Each definition comes with what the checker can observe of it:

* a lookup in a canonical scope finds the canonical symbol, under the same name
  (`Scope.lookup_canonical`);
* the tests of the rules do not tell a type from its canonical form (section 2);
* the span of a canonical tree is the tree's, and its type is the tree's type without aliases.
-/
import Mathlib.Logic.Basic
import MachineTyping.Checker

namespace MachineTyping

/-! ## 1. Symbols and scopes -/

/-- The machine, with its payload canonical. -/
def Machine.canonical (m : Machine) : Machine := { m with payload := m.payload.canonical }

/-- The variable, with its type canonical, and also its owner. -/
def Variable.canonical (v : Variable) : Variable :=
  { v with ty := v.ty.canonical, owner := v.owner.map Machine.canonical }

/-- The parameter, with its type canonical. -/
def Parameter.canonical (param : Parameter) : Parameter := { param with ty := param.ty.canonical }

/-- The function, with its signature canonical.  It keeps its identity. -/
def Function.canonical (f : Function) : Function :=
  { f with
    params := f.params.map Parameter.canonical
    result := f.result.canonical
    owner := f.owner.map Machine.canonical }

/-- The event, with its payload canonical. -/
def Event.canonical (e : Event) : Event := { e with payload := e.payload.map Ty.canonical }

/-- The symbol, with every type in it canonical.  An enum element has none. -/
def Symbol.canonical : Symbol → Symbol
  | .var v => .var v.canonical
  | .function f => .function f.canonical
  | .machine m => .machine m.canonical
  | .element e => .element e
  | .event e => .event e.canonical

/-- The frame, with all that it binds canonical. -/
def Frame.canonical (frame : Frame) : Frame :=
  ⟨frame.values.map fun b => (b.1, b.2.canonical), frame.types.map fun b => (b.1, b.2.canonical)⟩

/-- **The scope, with every type in it canonical.** -/
def Scope.canonical (scope : Scope) : Scope :=
  ⟨scope.current.canonical, scope.outer.map Frame.canonical⟩

/-- The context, with every type in it canonical. -/
def Context.canonical (ctx : Context) : Context :=
  ⟨ctx.scope.canonical, ctx.owner.map Machine.canonical⟩

@[simp] theorem Machine.canonical_canonical (m : Machine) : m.canonical.canonical = m.canonical := by
  simp only [Machine.canonical, Ty.canonical_canonical]

/-- An owner is canonical when its payload is. -/
theorem Machine.map_canonical_canonical (owner : Option Machine) :
    (owner.map Machine.canonical).map Machine.canonical = owner.map Machine.canonical := by
  cases owner with
  | none => rfl
  | some m => exact congrArg some m.canonical_canonical

@[simp] theorem Variable.canonical_canonical (v : Variable) :
    v.canonical.canonical = v.canonical := by
  simp only [Variable.canonical, Ty.canonical_canonical, Machine.map_canonical_canonical]

@[simp] theorem Parameter.canonical_canonical (param : Parameter) :
    param.canonical.canonical = param.canonical := by
  simp only [Parameter.canonical, Ty.canonical_canonical]

@[simp] theorem Function.canonical_canonical (f : Function) :
    f.canonical.canonical = f.canonical := by
  have hp : Parameter.canonical ∘ Parameter.canonical = Parameter.canonical :=
    funext Parameter.canonical_canonical
  simp only [Function.canonical, Ty.canonical_canonical, Machine.map_canonical_canonical,
    List.map_map, hp]

@[simp] theorem Event.canonical_canonical (e : Event) : e.canonical.canonical = e.canonical := by
  have ht : Ty.canonical ∘ Ty.canonical = Ty.canonical := funext Ty.canonical_canonical
  simp only [Event.canonical, Option.map_map, ht]

theorem lookup_map_snd {β γ : Type} (f : β → γ) (name : String) : ∀ bindings : List (String × β),
    (bindings.map fun b => (b.1, f b.2)).lookup name = (bindings.lookup name).map f
  | [] => rfl
  | (x, b) :: bindings => by
    rw [List.map_cons, List.lookup_cons, List.lookup_cons]
    cases name == x with
    | true => rfl
    | false => exact lookup_map_snd f name bindings

/-- The frames of a canonical scope are searched with the same success. -/
theorem findSome?_map_canonical {β : Type} {g : Frame → Option β} {f : β → β}
    (h : ∀ frame : Frame, g frame.canonical = (g frame).map f) : ∀ frames : List Frame,
    (frames.map Frame.canonical).findSome? g = (frames.findSome? g).map f
  | [] => rfl
  | frame :: frames => by
    rw [List.map_cons, List.findSome?_cons, List.findSome?_cons, h frame]
    cases g frame with
    | some b => rfl
    | none => exact findSome?_map_canonical h frames

/-- A name stands for the canonical form of what it stood for. -/
theorem Scope.lookup_canonical (scope : Scope) (name : String) :
    scope.canonical.lookup name = (scope.lookup name).map Symbol.canonical :=
  findSome?_map_canonical (fun frame => lookup_map_snd Symbol.canonical name frame.values)
    scope.frames

theorem Scope.lookupType_canonical (scope : Scope) (name : String) :
    scope.canonical.lookupType name = (scope.lookupType name).map Ty.canonical :=
  findSome?_map_canonical (fun frame => lookup_map_snd Ty.canonical name frame.types)
    scope.frames

@[simp] theorem Scope.lookupVar_canonical (scope : Scope) (name : String) :
    scope.canonical.lookupVar name = (scope.lookupVar name).map Variable.canonical := by
  simp only [Scope.lookupVar, Scope.lookup_canonical]
  rcases scope.lookup name with - | - | - | - | - | - <;> rfl

@[simp] theorem Scope.lookupFunction_canonical (scope : Scope) (name : String) :
    scope.canonical.lookupFunction name = (scope.lookupFunction name).map Function.canonical := by
  simp only [Scope.lookupFunction, Scope.lookup_canonical]
  rcases scope.lookup name with - | - | - | - | - | - <;> rfl

@[simp] theorem Scope.lookupMachine_canonical (scope : Scope) (name : String) :
    scope.canonical.lookupMachine name = (scope.lookupMachine name).map Machine.canonical := by
  simp only [Scope.lookupMachine, Scope.lookup_canonical]
  rcases scope.lookup name with - | - | - | - | - | - <;> rfl

@[simp] theorem Scope.lookupEvent_canonical (scope : Scope) (name : String) :
    scope.canonical.lookupEvent name = (scope.lookupEvent name).map Event.canonical := by
  simp only [Scope.lookupEvent, Scope.lookup_canonical]
  rcases scope.lookup name with - | - | - | - | - | - <;> rfl

/-! ## 2. The tests of the rules -/

@[simp] theorem Ty.accepts_canonical_right (target source : Ty) :
    target.accepts source.canonical = target.accepts source := by
  rw [Ty.accepts, Ty.canonical_canonical, Ty.accepts]

@[simp] theorem Ty.sameAs_canonical (a b : Ty) : a.canonical.sameAs b.canonical = a.sameAs b := by
  rw [Ty.sameAs, Ty.canonical_canonical, Ty.canonical_canonical, Ty.sameAs]

@[simp] theorem Ty.comparable_canonical (a b : Ty) :
    a.canonical.comparable b.canonical = a.comparable b := by
  rw [Ty.comparable, Ty.accepts_canonical, Ty.accepts_canonical, Ty.comparable]

@[simp] theorem Ty.isOf_canonical (t : Ty) (kind : Kind) : t.canonical.isOf kind = t.isOf kind := by
  rw [Ty.isOf, Ty.kind_canonical, Ty.isOf]

@[simp] theorem Ty.isNumeric_canonical (t : Ty) : t.canonical.isNumeric = t.isNumeric := by
  rw [Ty.isNumeric, Ty.isOf_canonical, Ty.isOf_canonical, Ty.isNumeric]

@[simp] theorem Ty.numericPair_canonical (a b : Ty) :
    a.canonical.numericPair b.canonical = a.numericPair b := by
  rw [Ty.numericPair, Ty.isNumeric_canonical, Ty.kind_canonical, Ty.kind_canonical, Ty.numericPair]

@[simp] theorem Ty.conversion?_canonical (source target : Ty) :
    source.canonical.conversion? target.canonical = source.conversion? target := by
  rw [Ty.conversion?, Ty.canonical_canonical, Ty.canonical_canonical, Ty.conversion?]

/-- What a canonical type is made of is canonical: the elements of a tuple... -/
theorem Ty.canonical_elem {t elem : Ty} {elems : List Ty} (h : t.canonical = .tuple elems)
    (he : elem ∈ elems) : elem.canonical = elem := by
  have hc : (Ty.tuple elems).canonical = .tuple elems := by rw [← h, Ty.canonical_canonical]
  rw [Ty.canonical, Ty.tuple.injEq, Ty.canonicalList_eq_map] at hc
  exact List.map_eq_map_iff.mp (hc.trans elems.map_id.symm) elem he

/-- ...the fields of a named tuple... -/
theorem Ty.canonical_field {t ty : Ty} {name : String} {fields : List (String × Ty)}
    (h : t.canonical = .named fields) (hf : (name, ty) ∈ fields) : ty.canonical = ty := by
  have hc : (Ty.named fields).canonical = .named fields := by rw [← h, Ty.canonical_canonical]
  rw [Ty.canonical, Ty.named.injEq, Ty.canonicalFields_eq_map] at hc
  have hn := List.map_eq_map_iff.mp (hc.trans fields.map_id.symm) (name, ty) hf
  exact congrArg Prod.snd hn

/-- ...and the parts of a collection. -/
theorem Ty.canonical_seq {t elem : Ty} (h : t.canonical = .seq elem) : elem.canonical = elem := by
  have hc : (Ty.seq elem).canonical = .seq elem := by rw [← h, Ty.canonical_canonical]
  rw [Ty.canonical, Ty.seq.injEq] at hc
  exact hc

theorem Ty.canonical_map {t key value : Ty} (h : t.canonical = .map key value) :
    key.canonical = key ∧ value.canonical = value := by
  have hc : (Ty.map key value).canonical = .map key value := by rw [← h, Ty.canonical_canonical]
  rw [Ty.canonical, Ty.map.injEq] at hc
  exact hc

/-! ## 3. Trees -/

mutual

/-- **The tree, with every type in it canonical**, also those of its symbols. -/
def Typed.canonical : Typed → Typed
  | .node span ty shape => .node span ty.canonical shape.canonical

/-- The shape, with every type in it canonical. -/
def Typed.Shape.canonical : Typed.Shape → Typed.Shape
  | .int value => .int value
  | .float value => .float value
  | .bool value => .bool value
  | .null => .null
  | .var v => .var v.canonical
  | .element e => .element e
  | .event e => .event e.canonical
  | .self m => .self m.canonical
  | .choice => .choice
  | .fairChoice => .fairChoice
  | .unary op operand => .unary op operand.canonical
  | .binary op lhs rhs => .binary op lhs.canonical rhs.canonical
  | .tuple elems => .tuple (Typed.canonicalList elems)
  | .named fields => .named (Typed.canonicalFields fields)
  | .component base index => .component base.canonical index
  | .field base name => .field base.canonical name
  | .seqItem base index => .seqItem base.canonical index.canonical
  | .mapItem base key => .mapItem base.canonical key.canonical
  | .hasKey key map => .hasKey key.canonical map.canonical
  | .keys map => .keys map.canonical
  | .values map => .values map.canonical
  | .sizeof collection => .sizeof collection.canonical
  | .default => .default
  | .call f args => .call f.canonical (Typed.canonicalList args)
  | .new m args => .new m.canonical (Typed.canonicalList args)
  | .cast operand => .cast operand.canonical
  | .coerce operand => .coerce operand.canonical
  | .linear mode v => .linear mode v.canonical

/-- Every tree of the list, canonical. -/
def Typed.canonicalList : List Typed → List Typed
  | [] => []
  | t :: ts => t.canonical :: Typed.canonicalList ts

/-- The same fields, each with its tree canonical. -/
def Typed.canonicalFields : List (String × Typed) → List (String × Typed)
  | [] => []
  | (name, t) :: fields => (name, t.canonical) :: Typed.canonicalFields fields

end

theorem Typed.canonicalList_eq_map :
    ∀ ts : List Typed, Typed.canonicalList ts = ts.map Typed.canonical
  | [] => rfl
  | t :: ts => by rw [Typed.canonicalList, Typed.canonicalList_eq_map ts, List.map_cons]

theorem Typed.canonicalFields_eq_map : ∀ fields : List (String × Typed),
    Typed.canonicalFields fields = fields.map fun field => (field.1, field.2.canonical)
  | [] => rfl
  | (_, _) :: fields => by
    rw [Typed.canonicalFields, Typed.canonicalFields_eq_map fields, List.map_cons]

@[simp] theorem Typed.canonical_node (span : Span) (ty : Ty) (shape : Typed.Shape) :
    (Typed.node span ty shape).canonical = .node span ty.canonical shape.canonical := rfl

@[simp] theorem Typed.ty_canonical : ∀ t : Typed, t.canonical.ty = t.ty.canonical
  | .node _ _ _ => rfl

@[simp] theorem Typed.span_canonical : ∀ t : Typed, t.canonical.span = t.span
  | .node _ _ _ => rfl

mutual

/-- **Nothing is left to resolve in a canonical tree.** -/
theorem Typed.canonical_canonical : ∀ t : Typed, t.canonical.canonical = t.canonical
  | .node span ty shape => by
    rw [Typed.canonical_node, Typed.canonical_node, ty.canonical_canonical,
      shape.canonical_canonical]

theorem Typed.Shape.canonical_canonical :
    ∀ shape : Typed.Shape, shape.canonical.canonical = shape.canonical
  | .int _ | .float _ | .bool _ | .null | .element _ | .choice | .fairChoice | .default => rfl
  | .var v => congrArg Typed.Shape.var v.canonical_canonical
  | .event e => congrArg Typed.Shape.event e.canonical_canonical
  | .self m => congrArg Typed.Shape.self m.canonical_canonical
  | .linear mode v => congrArg (Typed.Shape.linear mode) v.canonical_canonical
  | .unary op t => congrArg (Typed.Shape.unary op) t.canonical_canonical
  | .binary op l r =>
    congrArg₂ (Typed.Shape.binary op) l.canonical_canonical r.canonical_canonical
  | .tuple ts => congrArg Typed.Shape.tuple (Typed.canonicalList_canonical ts)
  | .named fields => congrArg Typed.Shape.named (Typed.canonicalFields_canonical fields)
  | .component t i => congrArg (Typed.Shape.component · i) t.canonical_canonical
  | .field t x => congrArg (Typed.Shape.field · x) t.canonical_canonical
  | .seqItem t i => congrArg₂ Typed.Shape.seqItem t.canonical_canonical i.canonical_canonical
  | .mapItem t k => congrArg₂ Typed.Shape.mapItem t.canonical_canonical k.canonical_canonical
  | .hasKey k t => congrArg₂ Typed.Shape.hasKey k.canonical_canonical t.canonical_canonical
  | .keys t => congrArg Typed.Shape.keys t.canonical_canonical
  | .values t => congrArg Typed.Shape.values t.canonical_canonical
  | .sizeof t => congrArg Typed.Shape.sizeof t.canonical_canonical
  | .call f ts =>
    congrArg₂ Typed.Shape.call f.canonical_canonical (Typed.canonicalList_canonical ts)
  | .new m ts =>
    congrArg₂ Typed.Shape.new m.canonical_canonical (Typed.canonicalList_canonical ts)
  | .cast t => congrArg Typed.Shape.cast t.canonical_canonical
  | .coerce t => congrArg Typed.Shape.coerce t.canonical_canonical

theorem Typed.canonicalList_canonical : ∀ ts : List Typed,
    Typed.canonicalList (Typed.canonicalList ts) = Typed.canonicalList ts
  | [] => rfl
  | t :: ts => congrArg₂ List.cons t.canonical_canonical (Typed.canonicalList_canonical ts)

theorem Typed.canonicalFields_canonical : ∀ fields : List (String × Typed),
    Typed.canonicalFields (Typed.canonicalFields fields) = Typed.canonicalFields fields
  | [] => rfl
  | (name, t) :: fields =>
    congrArg₂ List.cons (congrArg (Prod.mk name) t.canonical_canonical)
      (Typed.canonicalFields_canonical fields)

end

/-- What is handed over is handed over with or without aliases. -/
@[simp] theorem Typed.handover?_canonical : ∀ t : Typed, t.canonical.handover? =
    t.handover?.map fun handover => (handover.1, handover.2.canonical)
  | .node _ _ shape => by cases shape <;> rfl

/-! ## 4. Errors and verdicts -/

/-- The expectation, with its type canonical if it is one. -/
def Expectation.canonical : Expectation → Expectation
  | .type ty => .type ty.canonical
  | .kind k => .kind k

/-- The fault, with every type in it canonical. -/
def Fault.canonical : Fault → Fault
  | .mismatch found expected => .mismatch found.canonical (expected.map Expectation.canonical)
  | .operands op lhs rhs => .operands op lhs.canonical rhs.canonical
  | .incomparable left right => .incomparable left.canonical right.canonical
  | .noField field tuple => .noField field tuple.canonical
  | .outOfBounds index tuple => .outOfBounds index tuple.canonical
  | .undeclared sought name => .undeclared sought name
  | .relinquished name => .relinquished name
  | .misplacedSelf => .misplacedSelf
  | .argumentCount expected found => .argumentCount expected found
  | .badNumber text => .badNumber text
  | .exponentLiteral => .exponentLiteral
  | .repeatedField field => .repeatedField field

/-- The error, with every type in it canonical, at the same place. -/
def TypeError.canonical (e : TypeError) : TypeError := ⟨e.fault.canonical, e.span⟩

theorem Expectation.canonical_canonical (expected : Expectation) :
    expected.canonical.canonical = expected.canonical := by
  cases expected with
  | type ty => exact congrArg Expectation.type ty.canonical_canonical
  | kind k => rfl

theorem Fault.canonical_canonical (fault : Fault) :
    fault.canonical.canonical = fault.canonical := by
  have he : Expectation.canonical ∘ Expectation.canonical = Expectation.canonical :=
    funext Expectation.canonical_canonical
  cases fault <;> simp only [Fault.canonical, Ty.canonical_canonical, List.map_map, he]

/-- Nothing is left to resolve in a canonical error. -/
theorem TypeError.canonical_canonical (e : TypeError) : e.canonical.canonical = e.canonical := by
  simp only [TypeError.canonical, Fault.canonical_canonical]

/-- The verdict with what it found made canonical by `f`, or with its error canonical. -/
def Verdict.canonical {α : Type} (f : α → α) : Verdict α → Verdict α
  | .ok a => .ok (f a)
  | .error e => .error e.canonical

@[simp] theorem Verdict.canonical_ok {α : Type} (f : α → α) (a : α) :
    Verdict.canonical f (.ok a) = .ok (f a) := rfl

@[simp] theorem Verdict.canonical_error {α : Type} (f : α → α) (e : TypeError) :
    Verdict.canonical f (.error e) = .error e.canonical := rfl

/-- An operand is refused for its canonical type, and at its own place. -/
theorem Typed.mismatch_canonical (operand : Typed) (expected : List Expectation) :
    operand.canonical.mismatch (expected.map Expectation.canonical) =
      (operand.mismatch expected).canonical := by
  rw [Typed.mismatch, Typed.ty_canonical, Typed.span_canonical]
  rfl

/-- The outcome with its verdict canonical.  Choices are met all the same. -/
def Outcome.canonical {α : Type} (f : α → α) (x : Outcome α) : Outcome α :=
  ⟨x.verdict.canonical f, x.choice⟩

section

variable {α β : Type} {f : α → α} {g : β → β}

theorem Verdict.canonical_ite (c : Prop) [Decidable c] (x y : Verdict α) :
    (if c then x else y).canonical f = if c then x.canonical f else y.canonical f := by
  by_cases h : c
  · rw [if_pos h, if_pos h]
  · rw [if_neg h, if_neg h]

/-- A sequence is canonical when its parts are. -/
theorem Verdict.bind_canonical {x x' : Verdict α} {k k' : α → Verdict β}
    (hx : x' = x.canonical f) (hk : ∀ a, k' (f a) = (k a).canonical g) :
    (x' >>= k') = (x >>= k).canonical g := by
  subst hx
  cases x with
  | ok a => exact hk a
  | error e => rfl

theorem Outcome.bind_canonical {x x' : Outcome α} {k k' : α → Outcome β}
    (hx : x' = x.canonical f) (hk : ∀ a, k' (f a) = (k a).canonical g) :
    (x' >>= k') = (x >>= k).canonical g := by
  subst hx
  obtain ⟨verdict, choice⟩ := x
  cases verdict with
  | error e => rfl
  | ok a =>
    -- both sides add what the second part meets to what the first part met
    have hb : ∀ (h : α → Outcome β) (a : α), (⟨.ok a, choice⟩ : Outcome α) >>= h =
        ⟨(h a).verdict, choice || (h a).choice⟩ := fun _ _ => rfl
    rw [Outcome.canonical, Verdict.canonical_ok, hb, hb, hk a]
    rfl

end

end MachineTyping
