/-
# Trees as JSON

Expressions, assignment targets and written types are stored as JSON: an object with the span and
the kind of the node.  A kind without parts is a string, its tag; any other kind is an object with
one member, the tag, whose value is the part, or an array or object of the parts.
-/
import MachineTyping.Json.Text
import MachineTyping.Source.Expr

namespace MachineTyping

/-! ## 1. Tags -/

/-- The tag of a unary operator. -/
def UnaryOp.tag : UnaryOp → String
  | .neg => "Neg"
  | .not => "Not"

/-- The tag of a binary operator. -/
def BinaryOp.tag : BinaryOp → String
  | .add => "Add"
  | .sub => "Sub"
  | .mul => "Mul"
  | .div => "Div"
  | .lt => "Lt"
  | .le => "Le"
  | .gt => "Gt"
  | .ge => "Ge"
  | .eq => "Eq"
  | .ne => "Ne"
  | .and => "And"
  | .or => "Or"
  | .member => "In"

/-- The tag of a mode of handing over. -/
def LinearMode.tag : LinearMode → String
  | .move => "Move"
  | .swap => "Swap"

/-! ## 2. Nodes -/

/-- A span as an object. -/
def Span.toJson (span : Span) : Json :=
  .obj [("start", .num span.start.toNat), ("end", .num span.stop.toNat)]

/-- A kind with parts. -/
def Json.tagged (tag : String) (parts : Json) : Json := .obj [(tag, parts)]

/-- A node of any tree. -/
def Json.node (span : Span) (kind : Json) : Json := .obj [("span", span.toJson), ("kind", kind)]

mutual

/-- A written type as JSON. -/
def TypeRef.toJson : TypeRef → Json
  | .node span form => .node span form.toJson

/-- The kind of a written type. -/
def TypeRef.Form.toJson : TypeRef.Form → Json
  | .name name => .tagged "Named" (.str name)
  | .tuple elems => .tagged "Tuple" (.arr (TypeRef.toJsonList elems))
  | .named fields => .tagged "NamedTuple" (.arr (TypeRef.toJsonFields fields))
  | .seq elem => .tagged "Seq" elem.toJson
  | .map key value => .tagged "Map" (.arr [key.toJson, value.toJson])

/-- Every written type of a list. -/
def TypeRef.toJsonList : List TypeRef → List Json
  | [] => []
  | ref :: refs => ref.toJson :: TypeRef.toJsonList refs

/-- Every field of a list, each a pair of a name and a written type. -/
def TypeRef.toJsonFields : List (String × TypeRef) → List Json
  | [] => []
  | (name, ref) :: fields => .arr [.str name, ref.toJson] :: TypeRef.toJsonFields fields

end

/-- A floating-point literal as JSON. -/
def FloatLiteral.toJson : FloatLiteral → Json
  | .decimal whole fraction =>
    .tagged "Decimal" (.obj [
      ("int_part", whole.elim .null .str),
      ("frac_part", .str fraction)])
  | .exponent b e => .tagged "Exponent" (.obj [("base", .str b), ("exp", .str e)])

mutual

/-- An expression as JSON. -/
def Expr.toJson : Expr → Json
  | .node span form => .node span form.toJson

/-- The kind of an expression. -/
def Expr.Form.toJson : Expr.Form → Json
  | .name name => .tagged "Name" (.str name)
  | .int text => .tagged "Int" (.str text)
  | .float literal => .tagged "Float" literal.toJson
  | .bool value => .tagged "Bool" (.bool value)
  | .null => .str "Null"
  | .choice => .str "Nondet"
  | .fairChoice => .str "FairNondet"
  | .halt => .str "Halt"
  | .self => .str "This"
  | .unary op operand =>
    .tagged "Unary" (.obj [("op", .str op.tag), ("operand", operand.toJson)])
  | .binary op lhs rhs =>
    .tagged "Binary" (.obj [("op", .str op.tag), ("lhs", lhs.toJson), ("rhs", rhs.toJson)])
  | .tuple elems => .tagged "Tuple" (.arr (Expr.toJsonList elems))
  | .named fields => .tagged "NamedTuple" (.arr (Expr.toJsonFields fields))
  | .component base index =>
    .tagged "TupleAccess" (.obj [("base", base.toJson), ("index", .str index)])
  | .field base name =>
    .tagged "NamedTupleAccess" (.obj [("base", base.toJson), ("field", .str name)])
  | .index base index =>
    .tagged "Index" (.obj [("base", base.toJson), ("index", index.toJson)])
  | .keys map => .tagged "Keys" map.toJson
  | .values map => .tagged "Values" map.toJson
  | .sizeof collection => .tagged "Sizeof" collection.toJson
  | .default type => .tagged "Default" type.toJson
  | .call callee args =>
    .tagged "Call" (.obj [("callee", .str callee), ("args", .arr (Expr.toJsonList args))])
  | .new machine args =>
    .tagged "New" (.obj [("machine", .str machine), ("args", .arr (Expr.toJsonList args))])
  | .cast operand type =>
    .tagged "Cast" (.obj [("expr", operand.toJson), ("ty", type.toJson)])
  | .coerce operand type =>
    .tagged "Coerce" (.obj [("expr", operand.toJson), ("ty", type.toJson)])
  | .linear mode name =>
    .tagged "Linear" (.obj [("mode", .str mode.tag), ("name", .str name)])

/-- Every expression of a list. -/
def Expr.toJsonList : List Expr → List Json
  | [] => []
  | e :: es => e.toJson :: Expr.toJsonList es

/-- Every field of a list, each a pair of a name and an expression. -/
def Expr.toJsonFields : List (String × Expr) → List Json
  | [] => []
  | (name, e) :: fields => .arr [.str name, e.toJson] :: Expr.toJsonFields fields

end

mutual

/-- An assignment target as JSON. -/
def Lvalue.toJson : Lvalue → Json
  | .node span form => .node span form.toJson

/-- The kind of an assignment target. -/
def Lvalue.Form.toJson : Lvalue.Form → Json
  | .var name => .tagged "Var" (.str name)
  | .field base name =>
    .tagged "NamedTupleAccess" (.obj [("base", base.toJson), ("field", .str name)])
  | .component base index =>
    .tagged "TupleAccess" (.obj [("base", base.toJson), ("index", .str index)])
  | .index base index =>
    .tagged "Index" (.obj [("base", base.toJson), ("index", index.toJson)])

end

end MachineTyping
