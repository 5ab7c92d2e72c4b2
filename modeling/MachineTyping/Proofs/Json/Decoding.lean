/-
# Trees read back

Expressions, assignment targets and written types are stored as JSON text and can be had back from
it (`Json.trees_stored_faithfully`).  Two steps: the text is read (`Json.read?`, which accepts
compact JSON and nothing else), and the value is decoded, node by node: a span, and a kind by its
tag, with members expected in the order in which they are written.

What is to be shown of a decoder is one equation for each kind (`Expr.Form.ofJson?_toJson`), by the
equations for its parts; faithfulness of the text is then the same for all trees
(`Json.faithful_of`).
-/
import Mathlib.Data.Option.NAry
import MachineTyping.Json.Tree
import MachineTyping.Proofs.Json.Reader

namespace MachineTyping

/-! ## 1. Spans and tags -/

/-- A 32-bit word. -/
def Json.word? : Json → Option UInt32
  | .num n => if n < UInt32.size then some (UInt32.ofNat n) else none
  | _ => none

theorem Json.word?_num (w : UInt32) : Json.word? (.num w.toNat) = some w := by
  rw [Json.word?, if_pos w.toNat_lt_size, UInt32.ofNat_toNat]

/-- The one of a list that has the tag. -/
def Json.tagged? {α : Type} (all : List α) (tag : α → String) : Json → Option α
  | .str s => all.find? (tag · == s)
  | _ => none

/-- A span. -/
def Span.ofJson? : Json → Option Span
  | .obj [("start", start), ("end", stop)] => Option.map₂ Span.mk start.word? stop.word?
  | _ => none

theorem Span.ofJson?_toJson (span : Span) : Span.ofJson? span.toJson = some span :=
  congrArg₂ (Option.map₂ Span.mk) (Json.word?_num span.start) (Json.word?_num span.stop)

/-- A unary operator. -/
def UnaryOp.ofJson? : Json → Option UnaryOp := Json.tagged? [.neg, .not] UnaryOp.tag

theorem UnaryOp.ofJson?_tag (op : UnaryOp) : UnaryOp.ofJson? (.str op.tag) = some op := by
  cases op <;> rfl

/-- A binary operator. -/
def BinaryOp.ofJson? : Json → Option BinaryOp :=
  Json.tagged? [.add, .sub, .mul, .div, .lt, .le, .gt, .ge, .eq, .ne, .and, .or, .member]
    BinaryOp.tag

theorem BinaryOp.ofJson?_tag (op : BinaryOp) : BinaryOp.ofJson? (.str op.tag) = some op := by
  cases op <;> rfl

/-- A mode of handing over. -/
def LinearMode.ofJson? : Json → Option LinearMode := Json.tagged? [.move, .swap] LinearMode.tag

theorem LinearMode.ofJson?_tag (mode : LinearMode) :
    LinearMode.ofJson? (.str mode.tag) = some mode := by
  cases mode <;> rfl

/-! ## 2. Written types -/

mutual

/-- A written type. -/
def TypeRef.ofJson? : Json → Option TypeRef
  | .obj [("span", span), ("kind", kind)] =>
    Option.map₂ TypeRef.node (Span.ofJson? span) (TypeRef.Form.ofJson? kind)
  | _ => none

/-- The kind of a written type. -/
def TypeRef.Form.ofJson? : Json → Option TypeRef.Form
  | .obj [("Named", .str name)] => some (.name name)
  | .obj [("Tuple", .arr elems)] => (TypeRef.ofJsonList? elems).map .tuple
  | .obj [("NamedTuple", .arr fields)] => (TypeRef.ofJsonFields? fields).map .named
  | .obj [("Seq", elem)] => (TypeRef.ofJson? elem).map .seq
  | .obj [("Map", .arr [key, value])] =>
    Option.map₂ .map (TypeRef.ofJson? key) (TypeRef.ofJson? value)
  | _ => none

/-- Written types, one after the other. -/
def TypeRef.ofJsonList? : List Json → Option (List TypeRef)
  | [] => some []
  | ref :: refs => Option.map₂ .cons (TypeRef.ofJson? ref) (TypeRef.ofJsonList? refs)

/-- Fields, each a pair of a name and a written type. -/
def TypeRef.ofJsonFields? : List Json → Option (List (String × TypeRef))
  | [] => some []
  | .arr [.str name, ref] :: fields =>
    Option.map₂ (fun ref fields => (name, ref) :: fields) (TypeRef.ofJson? ref)
      (TypeRef.ofJsonFields? fields)
  | _ => none

end

mutual

/-- **Written types are read back.** -/
theorem TypeRef.ofJson?_toJson : ∀ ref : TypeRef, TypeRef.ofJson? ref.toJson = some ref
  | .node span form =>
    congrArg₂ (Option.map₂ TypeRef.node) (Span.ofJson?_toJson span)
      (TypeRef.Form.ofJson?_toJson form)

theorem TypeRef.Form.ofJson?_toJson :
    ∀ form : TypeRef.Form, TypeRef.Form.ofJson? form.toJson = some form
  | .name _ => rfl
  | .tuple elems => congrArg (Option.map TypeRef.Form.tuple) (TypeRef.ofJsonList?_toJson elems)
  | .named fields => congrArg (Option.map TypeRef.Form.named) (TypeRef.ofJsonFields?_toJson fields)
  | .seq elem => congrArg (Option.map TypeRef.Form.seq) (TypeRef.ofJson?_toJson elem)
  | .map key value =>
    congrArg₂ (Option.map₂ TypeRef.Form.map) (TypeRef.ofJson?_toJson key)
      (TypeRef.ofJson?_toJson value)

theorem TypeRef.ofJsonList?_toJson :
    ∀ refs : List TypeRef, TypeRef.ofJsonList? (TypeRef.toJsonList refs) = some refs
  | [] => rfl
  | ref :: refs =>
    congrArg₂ (Option.map₂ List.cons) (TypeRef.ofJson?_toJson ref) (TypeRef.ofJsonList?_toJson refs)

theorem TypeRef.ofJsonFields?_toJson : ∀ fields : List (String × TypeRef),
    TypeRef.ofJsonFields? (TypeRef.toJsonFields fields) = some fields
  | [] => rfl
  | (name, ref) :: fields =>
    congrArg₂ (Option.map₂ fun ref fields => (name, ref) :: fields) (TypeRef.ofJson?_toJson ref)
      (TypeRef.ofJsonFields?_toJson fields)

end

/-! ## 3. Expressions -/

/-- A floating-point literal. -/
def FloatLiteral.ofJson? : Json → Option FloatLiteral
  | .obj [("Decimal", .obj [("int_part", .null), ("frac_part", .str fraction)])] =>
    some (.decimal none fraction)
  | .obj [("Decimal", .obj [("int_part", .str whole), ("frac_part", .str fraction)])] =>
    some (.decimal (some whole) fraction)
  | .obj [("Exponent", .obj [("base", .str b), ("exp", .str e)])] => some (.exponent b e)
  | _ => none

theorem FloatLiteral.ofJson?_toJson (literal : FloatLiteral) :
    FloatLiteral.ofJson? literal.toJson = some literal := by
  cases literal with
  | decimal whole fraction => cases whole <;> rfl
  | exponent b e => rfl

mutual

/-- An expression. -/
def Expr.ofJson? : Json → Option Expr
  | .obj [("span", span), ("kind", kind)] =>
    Option.map₂ Expr.node (Span.ofJson? span) (Expr.Form.ofJson? kind)
  | _ => none

/-- The kind of an expression. -/
def Expr.Form.ofJson? : Json → Option Expr.Form
  | .obj [("Name", .str name)] => some (.name name)
  | .obj [("Int", .str text)] => some (.int text)
  | .obj [("Float", literal)] => (FloatLiteral.ofJson? literal).map .float
  | .obj [("Bool", .bool value)] => some (.bool value)
  | .str "Null" => some .null
  | .str "Nondet" => some .choice
  | .str "FairNondet" => some .fairChoice
  | .str "Halt" => some .halt
  | .str "This" => some .self
  | .obj [("Unary", .obj [("op", op), ("operand", operand)])] =>
    Option.map₂ .unary (UnaryOp.ofJson? op) (Expr.ofJson? operand)
  | .obj [("Binary", .obj [("op", op), ("lhs", lhs), ("rhs", rhs)])] =>
    (BinaryOp.ofJson? op).bind fun op =>
      Option.map₂ (.binary op) (Expr.ofJson? lhs) (Expr.ofJson? rhs)
  | .obj [("Tuple", .arr elems)] => (Expr.ofJsonList? elems).map .tuple
  | .obj [("NamedTuple", .arr fields)] => (Expr.ofJsonFields? fields).map .named
  | .obj [("TupleAccess", .obj [("base", base), ("index", .str index)])] =>
    (Expr.ofJson? base).map (.component · index)
  | .obj [("NamedTupleAccess", .obj [("base", base), ("field", .str name)])] =>
    (Expr.ofJson? base).map (.field · name)
  | .obj [("Index", .obj [("base", base), ("index", index)])] =>
    Option.map₂ .index (Expr.ofJson? base) (Expr.ofJson? index)
  | .obj [("Keys", map)] => (Expr.ofJson? map).map .keys
  | .obj [("Values", map)] => (Expr.ofJson? map).map .values
  | .obj [("Sizeof", collection)] => (Expr.ofJson? collection).map .sizeof
  | .obj [("Default", type)] => (TypeRef.ofJson? type).map .default
  | .obj [("Call", .obj [("callee", .str callee), ("args", .arr args)])] =>
    (Expr.ofJsonList? args).map (.call callee)
  | .obj [("New", .obj [("machine", .str machine), ("args", .arr args)])] =>
    (Expr.ofJsonList? args).map (.new machine)
  | .obj [("Cast", .obj [("expr", operand), ("ty", type)])] =>
    Option.map₂ .cast (Expr.ofJson? operand) (TypeRef.ofJson? type)
  | .obj [("Coerce", .obj [("expr", operand), ("ty", type)])] =>
    Option.map₂ .coerce (Expr.ofJson? operand) (TypeRef.ofJson? type)
  | .obj [("Linear", .obj [("mode", mode), ("name", .str name)])] =>
    (LinearMode.ofJson? mode).map (.linear · name)
  | _ => none

/-- Expressions, one after the other. -/
def Expr.ofJsonList? : List Json → Option (List Expr)
  | [] => some []
  | e :: es => Option.map₂ .cons (Expr.ofJson? e) (Expr.ofJsonList? es)

/-- Fields, each a pair of a name and an expression. -/
def Expr.ofJsonFields? : List Json → Option (List (String × Expr))
  | [] => some []
  | .arr [.str name, e] :: fields =>
    Option.map₂ (fun e fields => (name, e) :: fields) (Expr.ofJson? e) (Expr.ofJsonFields? fields)
  | _ => none

end

mutual

/-- **Expressions are read back.** -/
theorem Expr.ofJson?_toJson : ∀ e : Expr, Expr.ofJson? e.toJson = some e
  | .node span form =>
    congrArg₂ (Option.map₂ Expr.node) (Span.ofJson?_toJson span) (Expr.Form.ofJson?_toJson form)

theorem Expr.Form.ofJson?_toJson : ∀ form : Expr.Form, Expr.Form.ofJson? form.toJson = some form
  | .name _ | .int _ | .bool _ | .null | .choice | .fairChoice | .halt | .self => rfl
  | .float literal => congrArg (Option.map Expr.Form.float) (FloatLiteral.ofJson?_toJson literal)
  | .unary op operand =>
    congrArg₂ (Option.map₂ Expr.Form.unary) (UnaryOp.ofJson?_tag op) (Expr.ofJson?_toJson operand)
  | .binary op lhs rhs => by
    have hop := BinaryOp.ofJson?_tag op
    have hl := Expr.ofJson?_toJson lhs
    have hr := Expr.ofJson?_toJson rhs
    calc Expr.Form.ofJson? (Expr.Form.binary op lhs rhs).toJson
        = (BinaryOp.ofJson? (.str op.tag)).bind fun op =>
            Option.map₂ (.binary op) (Expr.ofJson? lhs.toJson) (Expr.ofJson? rhs.toJson) := rfl
      _ = some (.binary op lhs rhs) := by rw [hop, hl, hr]; rfl
  | .tuple elems => congrArg (Option.map Expr.Form.tuple) (Expr.ofJsonList?_toJson elems)
  | .named fields => congrArg (Option.map Expr.Form.named) (Expr.ofJsonFields?_toJson fields)
  | .component base index =>
    congrArg (Option.map (Expr.Form.component · index)) (Expr.ofJson?_toJson base)
  | .field base name => congrArg (Option.map (Expr.Form.field · name)) (Expr.ofJson?_toJson base)
  | .index base index =>
    congrArg₂ (Option.map₂ Expr.Form.index) (Expr.ofJson?_toJson base) (Expr.ofJson?_toJson index)
  | .keys map => congrArg (Option.map Expr.Form.keys) (Expr.ofJson?_toJson map)
  | .values map => congrArg (Option.map Expr.Form.values) (Expr.ofJson?_toJson map)
  | .sizeof collection => congrArg (Option.map Expr.Form.sizeof) (Expr.ofJson?_toJson collection)
  | .default type => congrArg (Option.map Expr.Form.default) (TypeRef.ofJson?_toJson type)
  | .call callee args =>
    congrArg (Option.map (Expr.Form.call callee)) (Expr.ofJsonList?_toJson args)
  | .new machine args =>
    congrArg (Option.map (Expr.Form.new machine)) (Expr.ofJsonList?_toJson args)
  | .cast operand type =>
    congrArg₂ (Option.map₂ Expr.Form.cast) (Expr.ofJson?_toJson operand)
      (TypeRef.ofJson?_toJson type)
  | .coerce operand type =>
    congrArg₂ (Option.map₂ Expr.Form.coerce) (Expr.ofJson?_toJson operand)
      (TypeRef.ofJson?_toJson type)
  | .linear mode name =>
    congrArg (Option.map (Expr.Form.linear · name)) (LinearMode.ofJson?_tag mode)

theorem Expr.ofJsonList?_toJson :
    ∀ es : List Expr, Expr.ofJsonList? (Expr.toJsonList es) = some es
  | [] => rfl
  | e :: es =>
    congrArg₂ (Option.map₂ List.cons) (Expr.ofJson?_toJson e) (Expr.ofJsonList?_toJson es)

theorem Expr.ofJsonFields?_toJson :
    ∀ fields : List (String × Expr), Expr.ofJsonFields? (Expr.toJsonFields fields) = some fields
  | [] => rfl
  | (name, e) :: fields =>
    congrArg₂ (Option.map₂ fun e fields => (name, e) :: fields) (Expr.ofJson?_toJson e)
      (Expr.ofJsonFields?_toJson fields)

end

/-! ## 4. Assignment targets -/

mutual

/-- An assignment target. -/
def Lvalue.ofJson? : Json → Option Lvalue
  | .obj [("span", span), ("kind", kind)] =>
    Option.map₂ Lvalue.node (Span.ofJson? span) (Lvalue.Form.ofJson? kind)
  | _ => none

/-- The kind of an assignment target. -/
def Lvalue.Form.ofJson? : Json → Option Lvalue.Form
  | .obj [("Var", .str name)] => some (.var name)
  | .obj [("NamedTupleAccess", .obj [("base", base), ("field", .str name)])] =>
    (Lvalue.ofJson? base).map (.field · name)
  | .obj [("TupleAccess", .obj [("base", base), ("index", .str index)])] =>
    (Lvalue.ofJson? base).map (.component · index)
  | .obj [("Index", .obj [("base", base), ("index", index)])] =>
    Option.map₂ .index (Lvalue.ofJson? base) (Expr.ofJson? index)
  | _ => none

end

mutual

/-- **Assignment targets are read back.** -/
theorem Lvalue.ofJson?_toJson : ∀ target : Lvalue, Lvalue.ofJson? target.toJson = some target
  | .node span form =>
    congrArg₂ (Option.map₂ Lvalue.node) (Span.ofJson?_toJson span)
      (Lvalue.Form.ofJson?_toJson form)

theorem Lvalue.Form.ofJson?_toJson :
    ∀ form : Lvalue.Form, Lvalue.Form.ofJson? form.toJson = some form
  | .var _ => rfl
  | .field base name =>
    congrArg (Option.map (Lvalue.Form.field · name)) (Lvalue.ofJson?_toJson base)
  | .component base index =>
    congrArg (Option.map (Lvalue.Form.component · index)) (Lvalue.ofJson?_toJson base)
  | .index base index =>
    congrArg₂ (Option.map₂ Lvalue.Form.index) (Lvalue.ofJson?_toJson base)
      (Expr.ofJson?_toJson index)

end

/-! ## 5. The result -/

namespace Json

/-- **The text of a tree holds all of it**: it spells one value as compact JSON, the value is
decoded to the tree, and no other tree has the text. -/
structure Faithful {α : Type} (toJson : α → Json) (ofJson? : Json → Option α) : Prop where
  compact : ∀ a, Reads (toJson a).text.toList (toJson a) []
  decoded : ∀ a, (read? (toJson a).text).bind ofJson? = some a
  injective : ∀ a b, (toJson a).text = (toJson b).text → a = b

theorem faithful_of {α : Type} {toJson : α → Json} {ofJson? : Json → Option α}
    (h : ∀ a, ofJson? (toJson a) = some a) : Faithful toJson ofJson? where
  compact a := reads_text (toJson a)
  decoded a := by rw [read?_text, Option.bind_some, h]
  injective a b hab := by
    have hread : some (toJson a) = some (toJson b) := by rw [← read?_text, hab, read?_text]
    have hdecoded := h a
    rw [Option.some.inj hread, h b] at hdecoded
    exact (Option.some.inj hdecoded).symm

/-- **Trees are stored faithfully**, of every kind, with any names, texts and spans. -/
theorem trees_stored_faithfully :
    Faithful Expr.toJson Expr.ofJson? ∧
    Faithful Lvalue.toJson Lvalue.ofJson? ∧
    Faithful TypeRef.toJson TypeRef.ofJson? :=
  ⟨faithful_of Expr.ofJson?_toJson, faithful_of Lvalue.ofJson?_toJson,
    faithful_of TypeRef.ofJson?_toJson⟩

end Json

end MachineTyping
