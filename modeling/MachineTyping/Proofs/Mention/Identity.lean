/-
# The identities of functions

The identity of a function tells it from others with an equal signature.  It goes from the scope
into the tree with the function, and no rule looks at it.  So let the identities in a context be
replaced by others (`Context.renumber`): an expression gets the same errors, and the same trees
with the identities in them replaced (`check_renumber`).

A numbering need not keep functions apart.  Contexts that were set up apart from each other have
unrelated identities in them; the constant numbering makes functions equal whose signatures are,
and a numbering by marks (`Session.isMarked`) those that are marked alike besides.
-/
import MachineTyping.Proofs.Alias.Canonical
import MachineTyping.Proofs.Mention.Agreement

namespace MachineTyping

/-! ## 1. Renumbering -/

/-- The function under the identity that stands for its own in `g`. -/
def Function.renumber (g : Nat → Nat) (f : Function) : Function := { f with id := g f.id }

/-- The symbol, renumbered if it is a function. -/
def Symbol.renumber (g : Nat → Nat) : Symbol → Symbol
  | .function f => .function (f.renumber g)
  | .var v => .var v
  | .machine m => .machine m
  | .element e => .element e
  | .event e => .event e

/-- The frame, with the functions that it binds renumbered. -/
def Frame.renumber (g : Nat → Nat) (frame : Frame) : Frame :=
  { frame with values := frame.values.map fun b => (b.1, b.2.renumber g) }

/-- The scope, with the functions that it binds renumbered. -/
def Scope.renumber (g : Nat → Nat) (scope : Scope) : Scope :=
  ⟨scope.current.renumber g, scope.outer.map (Frame.renumber g)⟩

/-- **The context, with its functions renumbered.** -/
def Context.renumber (g : Nat → Nat) (ctx : Context) : Context :=
  { ctx with scope := ctx.scope.renumber g }

mutual

/-- **The tree, with the functions that it calls renumbered.** -/
def Typed.renumber (g : Nat → Nat) : Typed → Typed
  | .node span ty shape => .node span ty (shape.renumber g)

/-- The shape, with the functions that it calls renumbered. -/
def Typed.Shape.renumber (g : Nat → Nat) : Typed.Shape → Typed.Shape
  | .call f args => .call (f.renumber g) (Typed.renumberList g args)
  | .int value => .int value
  | .float value => .float value
  | .bool value => .bool value
  | .null => .null
  | .var v => .var v
  | .element e => .element e
  | .event e => .event e
  | .self m => .self m
  | .choice => .choice
  | .fairChoice => .fairChoice
  | .unary op operand => .unary op (operand.renumber g)
  | .binary op lhs rhs => .binary op (lhs.renumber g) (rhs.renumber g)
  | .tuple elems => .tuple (Typed.renumberList g elems)
  | .named fields => .named (Typed.renumberFields g fields)
  | .component base index => .component (base.renumber g) index
  | .field base name => .field (base.renumber g) name
  | .seqItem base index => .seqItem (base.renumber g) (index.renumber g)
  | .mapItem base key => .mapItem (base.renumber g) (key.renumber g)
  | .hasKey key map => .hasKey (key.renumber g) (map.renumber g)
  | .keys map => .keys (map.renumber g)
  | .values map => .values (map.renumber g)
  | .sizeof collection => .sizeof (collection.renumber g)
  | .default => .default
  | .new m args => .new m (Typed.renumberList g args)
  | .cast operand => .cast (operand.renumber g)
  | .coerce operand => .coerce (operand.renumber g)
  | .linear mode v => .linear mode v

/-- Every tree of the list, renumbered. -/
def Typed.renumberList (g : Nat → Nat) : List Typed → List Typed
  | [] => []
  | t :: ts => t.renumber g :: Typed.renumberList g ts

/-- The same fields, each with its tree renumbered. -/
def Typed.renumberFields (g : Nat → Nat) : List (String × Typed) → List (String × Typed)
  | [] => []
  | (name, t) :: fields => (name, t.renumber g) :: Typed.renumberFields g fields

end

/-- What came out, renumbered.  Errors mention no functions, and choices are met all the same. -/
def Outcome.map {α β : Type} (f : α → β) (x : Outcome α) : Outcome β :=
  ⟨x.verdict.map f, x.choice⟩

section

variable (g : Nat → Nat)

theorem Typed.renumberList_eq_map (ts : List Typed) :
    Typed.renumberList g ts = ts.map (Typed.renumber g) := by
  induction ts with
  | nil => rfl
  | cons t ts ih => rw [Typed.renumberList, ih, List.map_cons]

theorem Typed.renumberFields_eq_map (fields : List (String × Typed)) :
    Typed.renumberFields g fields = fields.map fun field => (field.1, field.2.renumber g) := by
  induction fields with
  | nil => rfl
  | cons field fields ih => rw [Typed.renumberFields, ih, List.map_cons]

@[simp] theorem Typed.ty_renumber (t : Typed) : (t.renumber g).ty = t.ty := by
  cases t
  rfl

@[simp] theorem Typed.span_renumber (t : Typed) : (t.renumber g).span = t.span := by
  cases t
  rfl

@[simp] theorem Typed.handover?_renumber (t : Typed) : (t.renumber g).handover? = t.handover? := by
  obtain ⟨span, ty, shape⟩ := t
  cases shape <;> rfl

@[simp] theorem Typed.mismatch_renumber (t : Typed) (expected : List Expectation) :
    (t.renumber g).mismatch expected = t.mismatch expected := by
  rw [Typed.mismatch, Typed.mismatch, ty_renumber, span_renumber]

/-! ## 2. Lookup -/

/-- A name stands for what it stood for, renumbered. -/
theorem Scope.lookup_renumber (scope : Scope) (name : String) :
    (scope.renumber g).lookup name = (scope.lookup name).map (Symbol.renumber g) := by
  have hf : ∀ frame : Frame, (frame.renumber g).value? name =
      (frame.value? name).map (Symbol.renumber g) :=
    fun frame => lookup_map_snd (Symbol.renumber g) name frame.values
  have hs : (scope.renumber g).frames = scope.frames.map (Frame.renumber g) := rfl
  rw [Scope.lookup, Scope.lookup, hs, List.findSome?_map, List.map_findSome?]
  exact congrArg (List.findSome? · scope.frames) (funext hf)

/-- Types are found as before. -/
theorem Scope.lookupType_renumber (scope : Scope) (name : String) :
    (scope.renumber g).lookupType name = scope.lookupType name := by
  have hs : (scope.renumber g).frames = scope.frames.map (Frame.renumber g) := rfl
  rw [Scope.lookupType, Scope.lookupType, hs, List.findSome?_map]
  rfl

theorem Scope.resolve_renumber (scope : Scope) (ref : TypeRef) :
    (scope.renumber g).resolve ref = scope.resolve ref :=
  Scope.resolve_eq_of_lookupType ref fun n _ => scope.lookupType_renumber g n.name

theorem Scope.lookupVar_renumber (scope : Scope) (name : String) :
    (scope.renumber g).lookupVar name = scope.lookupVar name := by
  simp only [Scope.lookupVar, Scope.lookup_renumber]
  rcases scope.lookup name with - | - | - | - | - | - <;> rfl

theorem Scope.lookupFunction_renumber (scope : Scope) (name : String) :
    (scope.renumber g).lookupFunction name =
      (scope.lookupFunction name).map (Function.renumber g) := by
  simp only [Scope.lookupFunction, Scope.lookup_renumber]
  rcases scope.lookup name with - | - | - | - | - | - <;> rfl

theorem Scope.lookupMachine_renumber (scope : Scope) (name : String) :
    (scope.renumber g).lookupMachine name = scope.lookupMachine name := by
  simp only [Scope.lookupMachine, Scope.lookup_renumber]
  rcases scope.lookup name with - | - | - | - | - | - <;> rfl

theorem Scope.lookupEvent_renumber (scope : Scope) (name : String) :
    (scope.renumber g).lookupEvent name = scope.lookupEvent name := by
  simp only [Scope.lookupEvent, Scope.lookup_renumber]
  rcases scope.lookup name with - | - | - | - | - | - <;> rfl

end

/-! ## 3. Rules -/

section

variable {α β γ δ : Type} {f : α → γ} {h : β → δ}

/-- A sequence is mapped when its parts are... -/
theorem Outcome.bind_map {x : Outcome α} {x' : Outcome γ} {k : α → Outcome β} {k' : γ → Outcome δ}
    (hx : x' = x.map f) (hk : ∀ a, k' (f a) = (k a).map h) : (x' >>= k') = (x >>= k).map h := by
  subst hx
  obtain ⟨verdict, choice⟩ := x
  cases verdict with
  | error e => rfl
  | ok a =>
    have hl : (Outcome.map f ⟨.ok a, choice⟩ >>= k') =
        ⟨(k' (f a)).verdict, choice || (k' (f a)).choice⟩ := rfl
    rw [hl, hk a]
    rfl

/-- ...or when its second part is, and the first part stays. -/
theorem Outcome.bind_map_right {x x' : Outcome α} {k : α → Outcome β} {k' : α → Outcome δ}
    (hx : x' = x) (hk : ∀ a, k' a = (k a).map h) : (x' >>= k') = (x >>= k).map h := by
  have hid : x' = x.map id := by
    rw [hx]
    obtain ⟨- | -, choice⟩ := x <;> rfl
  exact Outcome.bind_map hid hk

end

namespace Rule

variable (g : Nat → Nat) {span : Span}

theorem name_renumber (scope : Scope) (name : String) :
    Rule.name (scope.renumber g) span name = (Rule.name scope span name).map (Typed.renumber g) := by
  simp only [Rule.name, Scope.lookup_renumber]
  rcases scope.lookup name with - | - | - | - | - | - <;> rfl

theorem int_renumber (text : String) :
    (Rule.int span text).map (Typed.renumber g) = Rule.int span text := by
  simp only [Rule.int]
  cases integerOfText? text <;> rfl

theorem float_renumber (literal : FloatLiteral) :
    (Rule.float span literal).map (Typed.renumber g) = Rule.float span literal := by
  cases literal with
  | exponent base power => rfl
  | decimal whole fraction =>
    simp only [Rule.float]
    cases Binary64.ofDecimal? (whole.getD "") fraction <;> rfl

theorem halt_renumber (scope : Scope) :
    Rule.halt (scope.renumber g) span = (Rule.halt scope span).map (Typed.renumber g) := by
  simp only [Rule.halt, Scope.lookupEvent_renumber]
  cases scope.lookupEvent Event.haltName <;> rfl

theorem self_renumber (owner : Option Machine) :
    (Rule.self owner span).map (Typed.renumber g) = Rule.self owner span := by
  cases owner <;> rfl

theorem linear_renumber (scope : Scope) (mode : LinearMode) (name : String) :
    Rule.linear (scope.renumber g) span mode name =
      (Rule.linear scope span mode name).map (Typed.renumber g) := by
  simp only [Rule.linear, Scope.lookupVar_renumber]
  cases scope.lookupVar name <;> rfl

theorem tuple_renumber (elems : List Typed) :
    Rule.tuple span (elems.map (Typed.renumber g)) = (Rule.tuple span elems).renumber g := by
  have ht : Typed.ty ∘ Typed.renumber g = Typed.ty := funext (Typed.ty_renumber g)
  rw [Rule.tuple, List.map_map, ht, ← Typed.renumberList_eq_map]
  rfl

theorem named_renumber (fields : List (String × Typed)) :
    Rule.named span (fields.map fun field => (field.1, field.2.renumber g)) =
      (Rule.named span fields).renumber g := by
  have ht : ∀ field : String × Typed,
      (field.1, (field.2.renumber g).ty) = (field.1, field.2.ty) :=
    fun field => congrArg (Prod.mk field.1) (Typed.ty_renumber g field.2)
  rw [Rule.named, List.map_map, ← Typed.renumberFields_eq_map]
  exact congrArg (fun tys => Typed.node span (.named tys) _) (List.map_congr_left fun b _ => ht b)

/-- Operators and conversions go by the types of their operands, and by where they stand. -/
theorem unary_renumber (op : UnaryOp) (operand : Typed) :
    Rule.unary span op (operand.renumber g) =
      (Rule.unary span op operand).map (Typed.renumber g) := by
  cases op <;>
    simp only [Rule.unary, apply_ite (Except.map _), Typed.ty_renumber, Typed.mismatch_renumber] <;> rfl

theorem hasKey_renumber (key map : Typed) :
    Rule.hasKey span (key.renumber g) (map.renumber g) =
      (Rule.hasKey span key map).map (Typed.renumber g) := by
  simp only [Rule.hasKey, Typed.ty_renumber, Typed.mismatch_renumber]
  cases map.ty.canonical with
  | map keyTy value =>
    simp only [apply_ite (Except.map _)]
    rfl
  | _ => rfl

theorem binary_renumber (op : BinaryOp) (lhs rhs : Typed) :
    Rule.binary span op (lhs.renumber g) (rhs.renumber g) =
      (Rule.binary span op lhs rhs).map (Typed.renumber g) := by
  unfold Rule.binary
  cases op.family with
  | membership => exact Rule.hasKey_renumber g lhs rhs
  | _ =>
    simp only [apply_ite (Except.map _), Typed.ty_renumber, Typed.mismatch_renumber]
    rfl

theorem cast_renumber (operand : Typed) (target : Ty) :
    Rule.cast span (operand.renumber g) target =
      (Rule.cast span operand target).map (Typed.renumber g) := by
  simp only [Rule.cast, apply_ite (Except.map _), Typed.ty_renumber]
  rfl

theorem coerce_renumber (operand : Typed) (target : Ty) :
    Rule.coerce span (operand.renumber g) target =
      (Rule.coerce span operand target).map (Typed.renumber g) := by
  simp only [Rule.coerce, Typed.ty_renumber]
  rcases operand.ty.conversion? target with - | - | - <;> rfl

theorem component_renumber (base : Typed) (index : String) :
    Rule.component span (base.renumber g) index =
      (Rule.component span base index).map (Typed.renumber g) := by
  simp only [Rule.component, Typed.ty_renumber, Typed.mismatch_renumber]
  cases base.ty.canonical with
  | tuple elems =>
    cases naturalOfChars? index.toList with
    | none => rfl
    | some position => cases he : elems[position]? <;> simp only [he] <;> rfl
  | _ => rfl

theorem field_renumber (base : Typed) (name : String) :
    Rule.field span (base.renumber g) name =
      (Rule.field span base name).map (Typed.renumber g) := by
  simp only [Rule.field, Typed.ty_renumber, Typed.mismatch_renumber]
  cases base.ty.canonical with
  | named fields => cases hf : fields.lookup name <;> simp only [hf] <;> rfl
  | _ => rfl

theorem index_renumber (base index : Typed) :
    Rule.index span (base.renumber g) (index.renumber g) =
      (Rule.index span base index).map (Typed.renumber g) := by
  simp only [Rule.index, Typed.ty_renumber, Typed.mismatch_renumber]
  cases base.ty.canonical with
  | seq elem =>
    simp only [apply_ite (Except.map _)]
    rfl
  | map key value =>
    simp only [apply_ite (Except.map _)]
    rfl
  | _ => rfl

theorem keys_renumber (map : Typed) :
    Rule.keys span (map.renumber g) = (Rule.keys span map).map (Typed.renumber g) := by
  simp only [Rule.keys, Typed.ty_renumber, Typed.mismatch_renumber]
  cases map.ty.canonical <;> rfl

theorem values_renumber (map : Typed) :
    Rule.values span (map.renumber g) = (Rule.values span map).map (Typed.renumber g) := by
  simp only [Rule.values, Typed.ty_renumber, Typed.mismatch_renumber]
  cases map.ty.canonical <;> rfl

theorem sizeof_renumber (collection : Typed) :
    Rule.sizeof span (collection.renumber g) =
      (Rule.sizeof span collection).map (Typed.renumber g) := by
  simp only [Rule.sizeof, apply_ite (Except.map _), Typed.ty_renumber, Typed.mismatch_renumber]
  rfl

theorem relinquish_renumber (taken : List String) (arg : Typed) :
    Rule.relinquish taken (arg.renumber g) = Rule.relinquish taken arg := by
  rw [Rule.relinquish, Typed.handover?_renumber, Typed.span_renumber, Rule.relinquish]

theorem callee_renumber (scope : Scope) (name : String) (count : Nat) :
    Rule.callee (scope.renumber g) span name count =
      (Rule.callee scope span name count).map (Function.renumber g) := by
  simp only [Rule.callee, Scope.lookupFunction_renumber]
  cases scope.lookupFunction name with
  | none => rfl
  | some f =>
    simp only [Option.map_some, apply_ite (Except.map _)]
    rfl

theorem constructor_renumber (scope : Scope) (name : String) :
    Rule.constructor (scope.renumber g) span name = Rule.constructor scope span name := by
  rw [Rule.constructor, Scope.lookupMachine_renumber, Rule.constructor]

theorem passes_renumber (param : Ty) (arg : Typed) :
    Rule.passes param (arg.renumber g) = Rule.passes param arg := by
  rw [Rule.passes, Typed.handover?_renumber, Typed.ty_renumber, Rule.passes]

theorem passAll_renumber : ∀ (params : List Parameter) (args : List Typed),
    Rule.passAll params (args.map (Typed.renumber g)) = Rule.passAll params args
  | [], _ => rfl
  | _ :: _, [] => rfl
  | param :: params, arg :: args => by
    rw [List.map_cons, Rule.passAll, passes_renumber, Typed.mismatch_renumber,
      passAll_renumber params args, Rule.passAll]

theorem call_renumber (f : Function) (args : List Typed) :
    Rule.call span (f.renumber g) (args.map (Typed.renumber g)) =
      (Rule.call span f args).map (Typed.renumber g) := by
  have hp : (f.renumber g).params = f.params := rfl
  rw [Rule.call, Rule.call, hp, Rule.passAll_renumber, ← Typed.renumberList_eq_map]
  cases Rule.passAll f.params args <;> rfl

theorem fillAll_renumber : ∀ (slots : List Ty) (args : List Typed),
    Rule.fillAll slots (args.map (Typed.renumber g)) = Rule.fillAll slots args
  | [], _ => rfl
  | _ :: _, [] => rfl
  | slot :: slots, arg :: args => by
    rw [List.map_cons, Rule.fillAll, Typed.ty_renumber, Typed.mismatch_renumber,
      fillAll_renumber slots args, Rule.fillAll]

theorem payload_renumber (payload : Ty) : ∀ args : List Typed,
    Rule.payload payload span (args.map (Typed.renumber g)) = Rule.payload payload span args
  | [] => rfl
  | [arg] => Rule.fillAll_renumber g [payload] [arg]
  | a :: b :: args => by
    have hl : ((a :: b :: args).map (Typed.renumber g)).length = (a :: b :: args).length :=
      List.length_map _
    have hf := fun slots => Rule.fillAll_renumber g slots (a :: b :: args)
    simp only [List.map_cons] at hl hf
    simp only [List.map_cons, Rule.payload, hl, hf]

theorem new_renumber (m : Machine) (args : List Typed) :
    Rule.new span m (args.map (Typed.renumber g)) =
      (Rule.new span m args).map (Typed.renumber g) := by
  rw [Rule.new, Rule.new, Rule.payload_renumber, ← Typed.renumberList_eq_map]
  cases Rule.payload m.payload span args <;> rfl

end Rule

/-! ## 4. Expressions -/

namespace Context

variable (g : Nat → Nat)

mutual

/-- **Checking commutes with renumbering.** -/
theorem check_renumber (ctx : Context) : ∀ e : Expr,
    (ctx.renumber g).check e = (ctx.check e).map (Typed.renumber g)
  | .node span (.name name) => congrArg Outcome.of (Rule.name_renumber g ctx.scope name)
  | .node span (.int text) => congrArg Outcome.of (Rule.int_renumber g text).symm
  | .node span (.float literal) => congrArg Outcome.of (Rule.float_renumber g literal).symm
  | .node span (.bool _) | .node span .null | .node span .choice | .node span .fairChoice => rfl
  | .node span .halt => congrArg Outcome.of (Rule.halt_renumber g ctx.scope)
  | .node span .self => congrArg Outcome.of (Rule.self_renumber g ctx.owner).symm
  | .node span (.linear mode name) =>
    congrArg Outcome.of (Rule.linear_renumber g ctx.scope mode name)
  | .node span (.unary op operand) => by
    refine Outcome.bind_map (ctx.check_renumber operand) fun o => ?_
    exact congrArg Outcome.of (Rule.unary_renumber g op o)
  | .node span (.binary op lhs rhs) => by
    refine Outcome.bind_map (ctx.check_renumber lhs) fun l => ?_
    refine Outcome.bind_map (ctx.check_renumber rhs) fun r => ?_
    exact congrArg Outcome.of (Rule.binary_renumber g op l r)
  | .node span (.tuple elems) => by
    refine Outcome.bind_map (ctx.checkList_renumber elems) fun ts => ?_
    rw [Rule.tuple_renumber]
    rfl
  | .node span (.named fields) => by
    refine Outcome.bind_map (ctx.checkFields_renumber [] fields) fun ts => ?_
    rw [Rule.named_renumber]
    rfl
  | .node span (.component base index) => by
    refine Outcome.bind_map (ctx.check_renumber base) fun b => ?_
    exact congrArg Outcome.of (Rule.component_renumber g b index)
  | .node span (.field base name) => by
    refine Outcome.bind_map (ctx.check_renumber base) fun b => ?_
    exact congrArg Outcome.of (Rule.field_renumber g b name)
  | .node span (.index base index) => by
    refine Outcome.bind_map (ctx.check_renumber base) fun b => ?_
    refine Outcome.bind_map (ctx.check_renumber index) fun i => ?_
    exact congrArg Outcome.of (Rule.index_renumber g b i)
  | .node span (.keys map) => by
    refine Outcome.bind_map (ctx.check_renumber map) fun m => ?_
    exact congrArg Outcome.of (Rule.keys_renumber g m)
  | .node span (.values map) => by
    refine Outcome.bind_map (ctx.check_renumber map) fun m => ?_
    exact congrArg Outcome.of (Rule.values_renumber g m)
  | .node span (.sizeof collection) => by
    refine Outcome.bind_map (ctx.check_renumber collection) fun c => ?_
    exact congrArg Outcome.of (Rule.sizeof_renumber g c)
  | .node span (.default ref) => by
    have ht := congrArg Outcome.of (ctx.scope.resolve_renumber g ref)
    exact Outcome.bind_map_right ht fun _ => rfl
  | .node span (.call callee args) => by
    have hf : Rule.callee (ctx.renumber g).scope span callee args.length = _ :=
      Rule.callee_renumber g ctx.scope callee args.length
    refine Outcome.bind_map (congrArg Outcome.of hf) fun f => ?_
    refine Outcome.bind_map (ctx.checkArgs_renumber [] args) fun as => ?_
    exact congrArg Outcome.of (Rule.call_renumber g f as)
  | .node span (.new machine args) => by
    have hm : Rule.constructor (ctx.renumber g).scope span machine = _ :=
      Rule.constructor_renumber g ctx.scope machine
    refine Outcome.bind_map_right (congrArg Outcome.of hm) fun m => ?_
    refine Outcome.bind_map (ctx.checkArgs_renumber [] args) fun as => ?_
    exact congrArg Outcome.of (Rule.new_renumber g m as)
  | .node span (.cast operand ref) => by
    have ht := congrArg Outcome.of (ctx.scope.resolve_renumber g ref)
    refine Outcome.bind_map (ctx.check_renumber operand) fun o => ?_
    refine Outcome.bind_map_right ht fun ty => ?_
    exact congrArg Outcome.of (Rule.cast_renumber g o ty)
  | .node span (.coerce operand ref) => by
    have ht := congrArg Outcome.of (ctx.scope.resolve_renumber g ref)
    refine Outcome.bind_map (ctx.check_renumber operand) fun o => ?_
    refine Outcome.bind_map_right ht fun ty => ?_
    exact congrArg Outcome.of (Rule.coerce_renumber g o ty)

theorem checkList_renumber (ctx : Context) : ∀ es : List Expr,
    (ctx.renumber g).checkList es = (ctx.checkList es).map (List.map (Typed.renumber g))
  | [] => rfl
  | e :: es => by
    refine Outcome.bind_map (ctx.check_renumber e) fun t => ?_
    exact Outcome.bind_map (ctx.checkList_renumber es) fun _ => rfl

theorem checkFields_renumber (ctx : Context) (seen : List String) :
    ∀ fields : List (String × Expr), (ctx.renumber g).checkFields seen fields =
      (ctx.checkFields seen fields).map (List.map fun field => (field.1, field.2.renumber g))
  | [] => rfl
  | (name, e) :: fields => by
    rw [checkFields, checkFields]
    by_cases hs : name ∈ seen
    · rw [if_pos hs, if_pos hs]
      rfl
    · rw [if_neg hs, if_neg hs]
      refine Outcome.bind_map (ctx.check_renumber e) fun t => ?_
      exact Outcome.bind_map (ctx.checkFields_renumber (name :: seen) fields) fun _ => rfl

theorem checkArgs_renumber (ctx : Context) (taken : List String) : ∀ es : List Expr,
    (ctx.renumber g).checkArgs taken es =
      (ctx.checkArgs taken es).map (List.map (Typed.renumber g))
  | [] => rfl
  | e :: es => by
    refine Outcome.bind_map (ctx.check_renumber e) fun t => ?_
    have hr := congrArg Outcome.of (Rule.relinquish_renumber g taken t)
    refine Outcome.bind_map_right hr fun taken' => ?_
    exact Outcome.bind_map (ctx.checkArgs_renumber taken' es) fun _ => rfl

end

/-- **Contexts that agree on the mentions, up to the identities of functions, check the expression to
the same outcome**, up to the identities in the tree. -/
theorem check_map_eq_of_agree {c d : Context} {g h : Nat → Nat} {e : Expr}
    (ha : (c.renumber g).Agree (d.renumber h) e.mentions) :
    (c.check e).map (Typed.renumber g) = (d.check e).map (Typed.renumber h) := by
  rw [← check_renumber, ← check_renumber]
  exact check_eq_of_agree e ha

end Context

end MachineTyping
