/-
# Parts of an expression

The parts of an expression are the expressions that it is built from, and their parts in turn.
Where a part stands is said by what is around it:

* a `Slot` is a form of expression with one place left open, one constructor for each place that a
  part can stand at.  In a list the place has the parts before it and the parts after it;
* a `Layer` is a slot with the span of the expression, so that filling it makes an expression;
* layers around layers make a place at any depth, `Expr.within`, **the outermost layer first**.

So `d` is a part of `e` if `e` is `d` within some layers (`Expr.IsPartOf`).  That `e` is among its
own parts, with no layer around it, is meant.
-/
import MachineTyping.Source.Expr

namespace MachineTyping

/-! ## 1. Places -/

/-- A form of expression with a place for a part. -/
inductive Expr.Slot where
  | operand (op : UnaryOp)
  /-- Left of an operator... -/
  | left (op : BinaryOp) (rhs : Expr)
  /-- ...and right of it. -/
  | right (op : BinaryOp) (lhs : Expr)
  /-- An element of a tuple. -/
  | elem (before after : List Expr)
  /-- The value of the field `name` of a named tuple. -/
  | value (before : List (String × Expr)) (name : String) (after : List (String × Expr))
  /-- What a component or a field is taken of. -/
  | component (index : String)
  | field (name : String)
  /-- What is indexed... -/
  | base (index : Expr)
  /-- ...and by what. -/
  | index (base : Expr)
  | keys
  | values
  | sizeof
  /-- An argument of a function. -/
  | arg (callee : String) (before after : List Expr)
  /-- An argument of a constructor. -/
  | newArg (machine : String) (before after : List Expr)
  | cast (type : TypeRef)
  | coerce (type : TypeRef)

/-- The form with a part in its place. -/
def Expr.Slot.fill (part : Expr) : Expr.Slot → Expr.Form
  | .operand op => .unary op part
  | .left op rhs => .binary op part rhs
  | .right op lhs => .binary op lhs part
  | .elem before after => .tuple (before ++ part :: after)
  | .value before name after => .named (before ++ (name, part) :: after)
  | .component position => .component part position
  | .field name => .field part name
  | .base position => .index part position
  | .index whole => .index whole part
  | .keys => .keys part
  | .values => .values part
  | .sizeof => .sizeof part
  | .arg callee before after => .call callee (before ++ part :: after)
  | .newArg machine before after => .new machine (before ++ part :: after)
  | .cast type => .cast part type
  | .coerce type => .coerce part type

/-- An expression with a place for a part. -/
structure Expr.Layer where
  span : Span
  slot : Expr.Slot

/-- The expression with a part in its place. -/
def Expr.Layer.fill (layer : Expr.Layer) (part : Expr) : Expr :=
  .node layer.span (layer.slot.fill part)

/-! ## 2. Parts at any depth -/

/-- The expression within layers, the outermost first. -/
def Expr.within (part : Expr) (layers : List Expr.Layer) : Expr :=
  layers.foldr Expr.Layer.fill part

@[simp] theorem Expr.within_nil (part : Expr) : part.within [] = part := rfl

@[simp] theorem Expr.within_cons (part : Expr) (layer : Expr.Layer) (layers : List Expr.Layer) :
    part.within (layer :: layers) = layer.fill (part.within layers) := rfl

/-- **One expression is a part of another**, at any depth, or is all of it. -/
def Expr.IsPartOf (part whole : Expr) : Prop := ∃ layers, part.within layers = whole

theorem Expr.IsPartOf.whole (e : Expr) : e.IsPartOf e := ⟨[], rfl⟩

theorem Expr.IsPartOf.fill {part e : Expr} (h : part.IsPartOf e) (layer : Expr.Layer) :
    part.IsPartOf (layer.fill e) := by
  obtain ⟨layers, rfl⟩ := h
  exact ⟨layer :: layers, rfl⟩

/-! ## 3. Induction on parts -/

/-- A part is smaller than what it is a part of. -/
theorem Expr.Layer.sizeOf_lt_fill (layer : Expr.Layer) (part : Expr) :
    sizeOf part < sizeOf (layer.fill part) := by
  obtain ⟨span, slot⟩ := layer
  cases slot with
  | elem before after | arg _ before after | newArg _ before after =>
    have h : sizeOf part < sizeOf (before ++ part :: after) :=
      List.sizeOf_lt_of_mem (List.mem_append_right _ List.mem_cons_self)
    simp [Expr.Layer.fill, Expr.Slot.fill]
    omega
  | value before name after =>
    have h : sizeOf (name, part) < sizeOf (before ++ (name, part) :: after) :=
      List.sizeOf_lt_of_mem (List.mem_append_right _ List.mem_cons_self)
    simp [Expr.Layer.fill, Expr.Slot.fill] at h ⊢
    omega
  | _ =>
    simp [Expr.Layer.fill, Expr.Slot.fill]
    omega

/-- **Induction on parts**: what holds of an expression as soon as it holds of the parts that it is
built from holds of every expression. -/
theorem Expr.induction_on_parts {P : Expr → Prop}
    (h : ∀ e, (∀ (layer : Expr.Layer) (part : Expr), layer.fill part = e → P part) → P e)
    (e : Expr) : P e :=
  h e fun layer part he =>
    have : sizeOf part < sizeOf e := he ▸ layer.sizeOf_lt_fill part
    Expr.induction_on_parts h part
termination_by sizeOf e

end MachineTyping
