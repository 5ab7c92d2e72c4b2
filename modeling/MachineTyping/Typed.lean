/-
# Typed trees

What checking an expression produces: every node has the span of the phrase it was made for, its
type, and a shape in which names are resolved to their declarations.  Nodes are built bottom up
by the typing rules and never changed.

Two trees are compared by value, `Typed.alike`: spans, types as written, symbols, and
floating-point literals as numbers.  A function counts with its signature and with whether it is
known to make choices; its identity does not count.
-/
import MachineTyping.Numeral.Binary64
import MachineTyping.Source.Operator
import MachineTyping.Source.Span
import MachineTyping.Symbol

namespace MachineTyping

/-! ## 1. Nodes -/

mutual

/-- A typed node: where it stands, its type and its shape. -/
inductive Typed where
  | node (span : Span) (ty : Ty) (shape : Typed.Shape)

/-- The shape of a typed node. -/
inductive Typed.Shape where
  | int (value : Int)
  | float (value : Binary64)
  | bool (value : Bool)
  | null
  | var (v : Variable)
  | element (e : EnumElement)
  | event (e : Event)
  /-- The machine that the body belongs to. -/
  | self (m : Machine)
  | choice
  | fairChoice
  | unary (op : UnaryOp) (operand : Typed)
  /-- Any operator but membership. -/
  | binary (op : BinaryOp) (lhs rhs : Typed)
  | tuple (elems : List Typed)
  | named (fields : List (String × Typed))
  | component (base : Typed) (index : Nat)
  | field (base : Typed) (name : String)
  /-- An element of a sequence. -/
  | seqItem (base index : Typed)
  /-- The value that a map has under a key. -/
  | mapItem (base key : Typed)
  /-- Whether a map has a key. -/
  | hasKey (key map : Typed)
  | keys (map : Typed)
  | values (map : Typed)
  | sizeof (collection : Typed)
  /-- The zero value of the node's type. -/
  | default
  | call (f : Function) (args : List Typed)
  | new (m : Machine) (args : List Typed)
  /-- A reinterpretation as the node's type, to be checked when the program runs. -/
  | cast (operand : Typed)
  /-- A conversion to the node's type. -/
  | coerce (operand : Typed)
  | linear (mode : LinearMode) (v : Variable)

end

instance : Inhabited Typed := ⟨.node default default .null⟩

/-- Where the phrase of a node stands. -/
def Typed.span : Typed → Span
  | .node span _ _ => span

/-- The type of a node. -/
def Typed.ty : Typed → Ty
  | .node _ ty _ => ty

/-- The shape of a node. -/
def Typed.shape : Typed → Typed.Shape
  | .node _ _ shape => shape

/-- What a node hands over, if it is a `move` or a `swap`. -/
def Typed.handover? : Typed → Option (LinearMode × Variable)
  | .node _ _ (.linear mode v) => some (mode, v)
  | _ => none

/-! ## 2. Comparing by value -/

/-- Whether two functions look alike, `marked` telling which of them make choices. -/
def Function.alike (marked : Function → Bool) (f g : Function) : Bool :=
  f.toSignature == g.toSignature && marked f == marked g

mutual

/-- Whether two trees look alike. -/
def Typed.alike (marked : Function → Bool) : Typed → Typed → Bool
  | .node s t a, .node s' t' b => s == s' && t == t' && Typed.Shape.alike marked a b

/-- Whether two shapes look alike. -/
def Typed.Shape.alike (marked : Function → Bool) : Typed.Shape → Typed.Shape → Bool
  | .int a, .int b => a == b
  | .float a, .float b => a.equals b
  | .bool a, .bool b => a == b
  | .null, .null => true
  | .var a, .var b => a == b
  | .element a, .element b => a == b
  | .event a, .event b => a == b
  | .self a, .self b => a == b
  | .choice, .choice => true
  | .fairChoice, .fairChoice => true
  | .unary o a, .unary p b => o == p && a.alike marked b
  | .binary o a b, .binary p c d => o == p && a.alike marked c && b.alike marked d
  | .tuple as, .tuple bs => Typed.alikeList marked as bs
  | .named as, .named bs => Typed.alikeFields marked as bs
  | .component a i, .component b j => a.alike marked b && i == j
  | .field a x, .field b y => a.alike marked b && x == y
  | .seqItem a b, .seqItem c d => a.alike marked c && b.alike marked d
  | .mapItem a b, .mapItem c d => a.alike marked c && b.alike marked d
  | .hasKey a b, .hasKey c d => a.alike marked c && b.alike marked d
  | .keys a, .keys b => a.alike marked b
  | .values a, .values b => a.alike marked b
  | .sizeof a, .sizeof b => a.alike marked b
  | .default, .default => true
  | .call f as, .call g bs => f.alike marked g && Typed.alikeList marked as bs
  | .new m as, .new n bs => m == n && Typed.alikeList marked as bs
  | .cast a, .cast b => a.alike marked b
  | .coerce a, .coerce b => a.alike marked b
  | .linear o a, .linear p b => o == p && a == b
  | _, _ => false

/-- Whether two lists of trees look alike. -/
def Typed.alikeList (marked : Function → Bool) : List Typed → List Typed → Bool
  | [], [] => true
  | a :: as, b :: bs => a.alike marked b && Typed.alikeList marked as bs
  | _, _ => false

/-- Whether two lists of fields look alike, names included. -/
def Typed.alikeFields (marked : Function → Bool) :
    List (String × Typed) → List (String × Typed) → Bool
  | [], [] => true
  | (x, a) :: as, (y, b) :: bs =>
    x == y && a.alike marked b && Typed.alikeFields marked as bs
  | _, _ => false

end

end MachineTyping
