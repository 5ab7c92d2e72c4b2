/-
# The checker

An expression is checked bottom up: its parts first, left to right, and then the rule for its
form, on the typed nodes that came out.  The first error is the verdict.  Three forms look at
something before their parts:

* a call asks for its callee and the number of its arguments;
* a constructor asks for its machine;
* a named tuple asks, before each value, whether the field was there already.

A cast or conversion resolves its type after its operand.

**Checking reads its context and changes nothing.**  What it finds out about choices is part of
the outcome.
-/
import MachineTyping.Outcome
import MachineTyping.Resolution
import MachineTyping.Rule.Access
import MachineTyping.Rule.Argument
import MachineTyping.Rule.Operator

namespace MachineTyping

/-- Where an expression stands: the names in scope and the machine that the body belongs to. -/
structure Context where
  scope : Scope
  owner : Option Machine
deriving DecidableEq, Repr

namespace Context

mutual

/-- **Check an expression.** -/
def check (ctx : Context) : Expr → Outcome Typed
  | .node span form => ctx.checkForm span form

/-- Check an expression of the given form that stands at `span`. -/
def checkForm (ctx : Context) (span : Span) : Expr.Form → Outcome Typed
  | .name name => .of (Rule.name ctx.scope span name)
  | .int text => .of (Rule.int span text)
  | .float literal => .of (Rule.float span literal)
  | .bool value => pure (.node span .bool (.bool value))
  | .null => pure (.node span .null .null)
  | .choice => .met (.node span .bool .choice)
  | .fairChoice => .met (.node span .bool .fairChoice)
  | .halt => .of (Rule.halt ctx.scope span)
  | .self => .of (Rule.self ctx.owner span)
  | .unary op operand => do
    let operand ← ctx.check operand
    .of (Rule.unary span op operand)
  | .binary op lhs rhs => do
    let lhs ← ctx.check lhs
    let rhs ← ctx.check rhs
    .of (Rule.binary span op lhs rhs)
  | .tuple elems => do
    let elems ← ctx.checkList elems
    return Rule.tuple span elems
  | .named fields => do
    let fields ← ctx.checkFields [] fields
    return Rule.named span fields
  | .component base index => do
    let base ← ctx.check base
    .of (Rule.component span base index)
  | .field base name => do
    let base ← ctx.check base
    .of (Rule.field span base name)
  | .index base index => do
    let base ← ctx.check base
    let index ← ctx.check index
    .of (Rule.index span base index)
  | .keys map => do
    let map ← ctx.check map
    .of (Rule.keys span map)
  | .values map => do
    let map ← ctx.check map
    .of (Rule.values span map)
  | .sizeof collection => do
    let collection ← ctx.check collection
    .of (Rule.sizeof span collection)
  | .default type => do
    let ty ← .of (ctx.scope.resolve type)
    return .node span ty.canonical .default
  | .call callee args => do
    let f ← .of (Rule.callee ctx.scope span callee args.length)
    let args ← ctx.checkArgs [] args
    .of (Rule.call span f args)
  | .new machine args => do
    let m ← .of (Rule.constructor ctx.scope span machine)
    let args ← ctx.checkArgs [] args
    .of (Rule.new span m args)
  | .cast operand type => do
    let operand ← ctx.check operand
    let target ← .of (ctx.scope.resolve type)
    .of (Rule.cast span operand target)
  | .coerce operand type => do
    let operand ← ctx.check operand
    let target ← .of (ctx.scope.resolve type)
    .of (Rule.coerce span operand target)
  | .linear mode name => .of (Rule.linear ctx.scope span mode name)

/-- Check expressions left to right. -/
def checkList (ctx : Context) : List Expr → Outcome (List Typed)
  | [] => return []
  | e :: es => do
    let t ← ctx.check e
    let ts ← ctx.checkList es
    return t :: ts

/-- Check the values of fields left to right, `seen` being the names before. -/
def checkFields (ctx : Context) (seen : List String) :
    List (String × Expr) → Outcome (List (String × Typed))
  | [] => return []
  | (name, e) :: fields =>
    if name ∈ seen then .of (.error ⟨.repeatedField name, e.span⟩)
    else do
      let t ← ctx.check e
      let ts ← ctx.checkFields (name :: seen) fields
      return (name, t) :: ts

/-- Check arguments left to right, `taken` being the variables handed over before. -/
def checkArgs (ctx : Context) (taken : List String) : List Expr → Outcome (List Typed)
  | [] => return []
  | e :: es => do
    let t ← ctx.check e
    let taken ← .of (Rule.relinquish taken t)
    let ts ← ctx.checkArgs taken es
    return t :: ts

end

/-- **Check a list of arguments**, handing each variable over at most once. -/
def checkArguments (ctx : Context) (args : List Expr) : Outcome (List Typed) :=
  ctx.checkArgs [] args

mutual

/-- **Check an assignment target.**  Its root is a variable, and its parts follow the rules for the
parts of an expression. -/
def checkLvalue (ctx : Context) : Lvalue → Outcome Typed
  | .node span form => ctx.checkLvalueForm span form

/-- Check an assignment target of the given form that stands at `span`. -/
def checkLvalueForm (ctx : Context) (span : Span) : Lvalue.Form → Outcome Typed
  | .var name => .of (Rule.var ctx.scope span name)
  | .field base name => do
    let base ← ctx.checkLvalue base
    .of (Rule.field span base name)
  | .component base index => do
    let base ← ctx.checkLvalue base
    .of (Rule.component span base index)
  | .index base index => do
    let base ← ctx.checkLvalue base
    let index ← ctx.check index
    .of (Rule.index span base index)

end

end Context

/-! ## Examples -/

/-- Converting a value to the type that it has leaves the value's own node. -/
example : ((Context.mk .initial none).check
    (.node ⟨0, 8⟩ (.coerce (.node ⟨0, 1⟩ (.int "1")) (.node ⟨5, 8⟩ (.name "int"))))).verdict =
    .ok (.node ⟨0, 1⟩ .int (.int 1)) := rfl

/-- The first error is the verdict, and a choice that came before it was met. -/
example : (Context.mk .initial none).check
    (.node ⟨0, 9⟩ (.tuple [.node ⟨1, 2⟩ .choice, .node ⟨4, 8⟩ .self, .node ⟨8, 9⟩ (.name "x")])) =
    ⟨.error ⟨.misplacedSelf, ⟨4, 8⟩⟩, true⟩ := rfl

/-- A call of an unknown function does not look at its arguments. -/
example : (Context.mk .initial none).check
    (.node ⟨0, 4⟩ (.call "f" [.node ⟨2, 3⟩ .choice])) =
    ⟨.error ⟨.undeclared (.one .function) "f", ⟨0, 4⟩⟩, false⟩ := rfl

end MachineTyping
