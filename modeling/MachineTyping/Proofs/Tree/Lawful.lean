/-
# Lawful trees

A typed tree is what later phases see, and they trust it: a node that says `int` is read as one.
This module says what that trust rests on, without the checker:

* `Typed.Lawful` is the typing rule of every kind of node, one constructor for each.  It looks at
  the node's type, its shape and the types of its parts, and at no scope;
* `Typed.Everywhere` asks for a property at every node of a tree, at any depth;
* `Typed.Bound` says that the symbols of a node are the ones that a context binds.

Types of nodes are compared up to aliases wherever a rule compares at all, and so the conditions
speak of `kind`, `canonical`, `accepts` and `sameAs`.  Where a node's type is READ OFF a part it
is canonical, because it is read off a canonical type; where it is taken over from a declaration
or from a written type, aliases stay.
-/
import Mathlib.Data.List.Forall2
import MachineTyping.Checker

namespace MachineTyping

/-! ## 1. The nodes of a tree -/

/-- The parts of a shape, in order. -/
def Typed.Shape.children : Typed.Shape → List Typed
  | .int _ | .float _ | .bool _ | .null | .var _ | .element _ | .event _ | .self _
  | .choice | .fairChoice | .default | .linear _ _ => []
  | .unary _ t | .component t _ | .field t _ | .keys t | .values t | .sizeof t
  | .cast t | .coerce t => [t]
  | .binary _ l r | .seqItem l r | .mapItem l r | .hasKey l r => [l, r]
  | .tuple ts | .call _ ts | .new _ ts => ts
  | .named fields => fields.map Prod.snd

/-- The parts of a node, in order. -/
def Typed.children (t : Typed) : List Typed := t.shape.children

/-- `n` is a node of the tree `t`: its root, or a node of one of the parts. -/
inductive Typed.IsNodeOf : Typed → Typed → Prop
  | root (t : Typed) : Typed.IsNodeOf t t
  | inner {n part t : Typed} :
      part ∈ t.children → Typed.IsNodeOf n part → Typed.IsNodeOf n t

/-- **A property of every node of a tree.** -/
def Typed.Everywhere (P : Typed → Prop) (t : Typed) : Prop := ∀ n, n.IsNodeOf t → P n

theorem Typed.everywhere_iff {P : Typed → Prop} {t : Typed} :
    t.Everywhere P ↔ P t ∧ ∀ part ∈ t.children, part.Everywhere P := by
  constructor
  · intro h
    exact ⟨h t (.root t), fun part hp n hn => h n (.inner hp hn)⟩
  · rintro ⟨hr, hp⟩ n hn
    cases hn with
    | root => exact hr
    | inner hm hn => exact hp _ hm n hn

theorem Typed.Everywhere.root {P : Typed → Prop} {t : Typed} (h : t.Everywhere P) : P t :=
  h t (.root t)

theorem Typed.Everywhere.part {P : Typed → Prop} {t part : Typed} (h : t.Everywhere P)
    (hp : part ∈ t.children) : part.Everywhere P :=
  (Typed.everywhere_iff.mp h).2 part hp

theorem Typed.Everywhere.leaf {P : Typed → Prop} {t : Typed} (h : P t) (hc : t.children = []) :
    t.Everywhere P := by
  refine Typed.everywhere_iff.mpr ⟨h, fun part hp => ?_⟩
  rw [hc] at hp
  cases hp

theorem Typed.Everywhere.one {P : Typed → Prop} {t a : Typed} (h : P t)
    (hc : t.children = [a]) (ha : a.Everywhere P) : t.Everywhere P := by
  refine Typed.everywhere_iff.mpr ⟨h, fun part hp => ?_⟩
  rw [hc, List.mem_singleton] at hp
  exact hp ▸ ha

theorem Typed.Everywhere.two {P : Typed → Prop} {t a b : Typed} (h : P t)
    (hc : t.children = [a, b]) (ha : a.Everywhere P) (hb : b.Everywhere P) : t.Everywhere P := by
  refine Typed.everywhere_iff.mpr ⟨h, fun part hp => ?_⟩
  rw [hc, List.mem_pair] at hp
  rcases hp with rfl | rfl
  · exact ha
  · exact hb

theorem Typed.Everywhere.all {P : Typed → Prop} {t : Typed} (h : P t)
    (hp : ∀ part ∈ t.children, part.Everywhere P) : t.Everywhere P :=
  Typed.everywhere_iff.mpr ⟨h, hp⟩

/-- A part is smaller than what it is a part of. -/
theorem Typed.sizeOf_lt_of_mem_children {part t : Typed} (h : part ∈ t.children) :
    sizeOf part < sizeOf t := by
  obtain ⟨span, ty, shape⟩ := t
  cases shape with
  | tuple ts | call _ ts | new _ ts =>
    have hs : sizeOf part < sizeOf ts := List.sizeOf_lt_of_mem h
    simp
    omega
  | named fields =>
    obtain ⟨field, hf, rfl⟩ := List.mem_map.mp h
    have hs : sizeOf field < sizeOf fields := List.sizeOf_lt_of_mem hf
    obtain ⟨name, t⟩ := field
    simp at hs ⊢
    omega
  | binary _ l r | seqItem l r | mapItem l r | hasKey l r =>
    rcases List.mem_pair.mp h with rfl | rfl
    all_goals
      simp
      omega
  | unary _ u | component u _ | field u _ | keys u | values u | sizeof u | cast u | coerce u =>
    obtain rfl := List.mem_singleton.mp h
    simp
    omega
  | _ => cases h

/-- **From the leaves to the root**: what passes from the parts to a node wherever another property
holds is everywhere if that one is. -/
theorem Typed.Everywhere.upward {P Q : Typed → Prop}
    (step : ∀ t, Q t → (∀ part ∈ t.children, P part) → P t) {t : Typed} (h : t.Everywhere Q) :
    t.Everywhere P :=
  have hs : ∀ part ∈ t.children, part.Everywhere P := fun part hp =>
    have : sizeOf part < sizeOf t := Typed.sizeOf_lt_of_mem_children hp
    Typed.Everywhere.upward step (h.part hp)
  .all (step t h.root fun part hp => (hs part hp).root) hs
termination_by sizeOf t

/-! ## 2. The vocabulary of the rules -/

/-- Two types are `int` both, or `float` both. -/
def Ty.SameNumber (a b : Ty) : Prop :=
  (a.kind = .int ∧ b.kind = .int) ∨ (a.kind = .float ∧ b.kind = .float)

/-- One type accepts the other. -/
def Ty.Comparable (a b : Ty) : Prop := a.accepts b = true ∨ b.accepts a = true

/-- `to` has nothing to do: both types are `int`, both are `float`, or they are one enum. -/
def Ty.SameScalar (source target : Ty) : Prop :=
  (source.canonical = .int ∧ target.canonical = .int) ∨
  (source.canonical = .float ∧ target.canonical = .float) ∨
  ∃ name, source.canonical = .enum name ∧ target.canonical = .enum name

/-- `to` converts: between the number types, and between `int` and enums. -/
def Ty.ConvertsTo (source target : Ty) : Prop :=
  (source.canonical = .int ∧ target.canonical = .float) ∨
  (source.canonical = .float ∧ target.canonical = .int) ∨
  (∃ name, source.canonical = .int ∧ target.canonical = .enum name) ∨
  ∃ name, source.canonical = .enum name ∧ target.canonical = .int

/-- The variables that arguments hand over, each as often as it is handed over.  Only arguments
that ARE a `move` or a `swap` count, not those that have one inside. -/
def Typed.handed (args : List Typed) : List String :=
  args.filterMap fun arg => arg.handover?.map fun handover => handover.2.name

/-- An argument may be passed for a parameter: its type is accepted, and of what is swapped it is
the same. -/
def Parameter.Takes (param : Parameter) (arg : Typed) : Prop :=
  param.ty.accepts arg.ty = true ∧
    ∀ v, arg.handover? = some (.swap, v) → param.ty.sameAs arg.ty = true

/-- **Arguments make up a payload**: none for `null`, one that the payload accepts, or several for
the elements or the fields of a tuple. -/
inductive Ty.SuppliedBy : Ty → List Typed → Prop
  | nothing {payload : Ty} : payload.canonical = .null → Ty.SuppliedBy payload []
  | whole {payload : Ty} {arg : Typed} :
      payload.accepts arg.ty = true → Ty.SuppliedBy payload [arg]
  | elements {payload : Ty} {elems : List Ty} {args : List Typed} :
      payload.canonical = .tuple elems → 2 ≤ args.length →
      List.Forall₂ (fun elem arg => elem.accepts arg.ty = true) elems args →
      Ty.SuppliedBy payload args
  | fields {payload : Ty} {fields : List (String × Ty)} {args : List Typed} :
      payload.canonical = .named fields → 2 ≤ args.length →
      List.Forall₂ (fun field arg => field.2.accepts arg.ty = true) fields args →
      Ty.SuppliedBy payload args

/-! ## 3. The typing rules -/

/-- **The typing rule of each kind of node.**  There is no rule for a binary node with the
operator `in`, which has a node of its own. -/
inductive Typed.Lawful : Typed → Prop
  | int {span : Span} {value : Int} : Typed.Lawful (.node span .int (.int value))
  | float {span : Span} {value : Binary64} : Typed.Lawful (.node span .float (.float value))
  | bool {span : Span} {value : Bool} : Typed.Lawful (.node span .bool (.bool value))
  | null {span : Span} : Typed.Lawful (.node span .null .null)
  | choice {span : Span} : Typed.Lawful (.node span .bool .choice)
  | fairChoice {span : Span} : Typed.Lawful (.node span .bool .fairChoice)
  /-- A variable has its declared type... -/
  | var {span : Span} {v : Variable} : Typed.Lawful (.node span v.ty (.var v))
  /-- ...also when it is handed over. -/
  | linear {span : Span} {mode : LinearMode} {v : Variable} :
      Typed.Lawful (.node span v.ty (.linear mode v))
  | element {span : Span} {e : EnumElement} :
      Typed.Lawful (.node span (.enum e.enum) (.element e))
  | event {span : Span} {e : Event} : Typed.Lawful (.node span .event (.event e))
  | self {span : Span} {m : Machine} : Typed.Lawful (.node span .machine (.self m))
  | neg {span : Span} {t : Typed} : t.ty.kind = .int ∨ t.ty.kind = .float →
      Typed.Lawful (.node span t.ty (.unary .neg t))
  | not {span : Span} {t : Typed} : t.ty.kind = .bool →
      Typed.Lawful (.node span t.ty (.unary .not t))
  /-- Arithmetic has the type of its left operand, as that operand has it. -/
  | arithmetic {span : Span} {op : BinaryOp} {l r : Typed} :
      op.family = .arithmetic → l.ty.SameNumber r.ty →
      Typed.Lawful (.node span l.ty (.binary op l r))
  | comparison {span : Span} {op : BinaryOp} {l r : Typed} :
      op.family = .comparison → l.ty.SameNumber r.ty →
      Typed.Lawful (.node span .bool (.binary op l r))
  | equality {span : Span} {op : BinaryOp} {l r : Typed} :
      op.family = .equality → l.ty.Comparable r.ty →
      Typed.Lawful (.node span .bool (.binary op l r))
  | logical {span : Span} {op : BinaryOp} {l r : Typed} :
      op.family = .logical → l.ty.kind = .bool → r.ty.kind = .bool →
      Typed.Lawful (.node span .bool (.binary op l r))
  | tuple {span : Span} {elems : List Typed} :
      Typed.Lawful (.node span (.tuple (elems.map Typed.ty)) (.tuple elems))
  | named {span : Span} {fields : List (String × Typed)} : (fields.map Prod.fst).Nodup →
      Typed.Lawful
        (.node span (.named (fields.map fun field => (field.1, field.2.ty))) (.named fields))
  | component {span : Span} {base : Typed} {position : Nat} {elems : List Ty} {ty : Ty} :
      base.ty.canonical = .tuple elems → elems[position]? = some ty →
      Typed.Lawful (.node span ty (.component base position))
  | field {span : Span} {base : Typed} {name : String} {fields : List (String × Ty)} {ty : Ty} :
      base.ty.canonical = .named fields → fields.lookup name = some ty →
      Typed.Lawful (.node span ty (.field base name))
  | seqItem {span : Span} {base index : Typed} {elem : Ty} :
      base.ty.canonical = .seq elem → index.ty.kind = .int →
      Typed.Lawful (.node span elem (.seqItem base index))
  | mapItem {span : Span} {base key : Typed} {keyTy value : Ty} :
      base.ty.canonical = .map keyTy value → keyTy.accepts key.ty = true →
      Typed.Lawful (.node span value (.mapItem base key))
  | hasKey {span : Span} {key map : Typed} {keyTy value : Ty} :
      map.ty.canonical = .map keyTy value → keyTy.accepts key.ty = true →
      Typed.Lawful (.node span .bool (.hasKey key map))
  | keys {span : Span} {map : Typed} {keyTy value : Ty} :
      map.ty.canonical = .map keyTy value → Typed.Lawful (.node span (.seq keyTy) (.keys map))
  | values {span : Span} {map : Typed} {keyTy value : Ty} :
      map.ty.canonical = .map keyTy value → Typed.Lawful (.node span (.seq value) (.values map))
  | sizeof {span : Span} {t : Typed} : t.ty.kind = .seq ∨ t.ty.kind = .map →
      Typed.Lawful (.node span .int (.sizeof t))
  | default {span : Span} {ty : Ty} : ty.canonical = ty → Typed.Lawful (.node span ty .default)
  | call {span : Span} {f : Function} {args : List Typed} :
      List.Forall₂ Parameter.Takes f.params args → (Typed.handed args).Nodup →
      Typed.Lawful (.node span f.result (.call f args))
  | new {span : Span} {m : Machine} {args : List Typed} :
      m.payload.SuppliedBy args → (Typed.handed args).Nodup →
      Typed.Lawful (.node span .machine (.new m args))
  | cast {span : Span} {ty : Ty} {t : Typed} : t.ty.Comparable ty →
      Typed.Lawful (.node span ty (.cast t))
  | coerce {span : Span} {ty : Ty} {t : Typed} : t.ty.ConvertsTo ty →
      Typed.Lawful (.node span ty (.coerce t))

/-! ## 4. Names -/

/-- **The symbols of a node are those that the context binds**: each is the innermost binding of
its own name, and `this` is the machine that owns the body. -/
def Typed.Bound (ctx : Context) (t : Typed) : Prop :=
  match t.shape with
  | .var v | .linear _ v => ctx.scope.lookup v.name = some (.var v)
  | .element e => ctx.scope.lookup e.name = some (.element e)
  | .event e => ctx.scope.lookup e.name = some (.event e)
  | .self m => ctx.owner = some m
  | .call f _ => ctx.scope.lookup f.name = some (.function f)
  | .new m _ => ctx.scope.lookup m.name = some (.machine m)
  | _ => True

end MachineTyping
