/-
# Diagnostics

A type error is reported with a code, a message, a label for the place it points at and, where a
remedy is plausible, some advice.  The same facts are rendered in two ways:

* for a tool as **one line of JSON** (`Diagnostic.line`), with the span as it is and the byte
  position of its start;
* for a person as a **report** (`Report`), which points at the span cut to the source and counts
  columns in characters.
-/
import MachineTyping.Error
import MachineTyping.Json.Tree
import MachineTyping.Source.Position
import MachineTyping.Type.Canonical

namespace MachineTyping

/-! ## 1. What is said of a fault -/

/-- The code of a fault, one for each way in which an expression can be rejected. -/
def Fault.code : Fault → String
  | .mismatch .. => "E0001"
  | .operands .. => "E0002"
  | .incomparable .. => "E0003"
  | .undeclared .. => "E0004"
  | .noField .. => "E0005"
  | .outOfBounds .. => "E0006"
  | .relinquished .. => "E0007"
  | .misplacedSelf => "E0008"
  | .argumentCount .. => "E0009"
  | .badNumber .. => "E0010"
  | .exponentLiteral => "E0011"
  | .repeatedField .. => "E0012"

/-- What is written at the place that a report points at. -/
def Fault.label : Fault → String
  | .mismatch found _ => s!"this has type `{found}`"
  | .operands _ lhs rhs => s!"`{lhs}` on the left, `{rhs}` on the right"
  | .incomparable left right => s!"`{left}` is not assignable to or from `{right}`"
  | .undeclared sought _ => s!"not a known {sought.phrase}"
  | .noField field _ => s!"no field `{field}`"
  | .outOfBounds index _ => s!"index {index} does not exist"
  | .relinquished name => s!"`{name}` was already moved or swapped in this call"
  | .misplacedSelf => "no enclosing machine"
  | .argumentCount expected _ => s!"expected {expected} argument(s) here"
  | .badNumber text =>
    if '.' ∈ text.toList then "not a decimal literal" else "does not fit in a 64-bit integer"
  | .exponentLiteral => "exponent form"
  | .repeatedField field => s!"`{field}` repeated here"

/-- Advice on how to mend a fault, where there is a plausible way. -/
def Fault.advice? : Fault → Option String
  | .operands _ lhs rhs =>
    match lhs.canonical, rhs.canonical with
    | .int, .float | .float, .int => some "convert the `int` operand with `x to float`"
    | _, _ => none
  | .mismatch found expected =>
    match found.canonical, expected with
    | .int, [.type .float] => some "use `x to float`"
    | .float, [.type .int] => some "use `x to int`"
    | _, _ => none
  | .noField _ tuple =>
    match tuple.canonical with
    | .named fields => some s!"available fields: {commaSeparated (fields.map Prod.fst)}"
    | _ => none
  | .outOfBounds _ tuple =>
    match tuple.canonical with
    | .tuple elems => some s!"the tuple has {elems.length} element(s)"
    | _ => none
  | .incomparable left right =>
    if left.isOf .bool || right.isOf .bool then
      some "`bool` converts to and from no other type"
    else none
  | .relinquished _ => some "a variable can be moved or swapped at most once per call"
  | .misplacedSelf => some "`this` is only available in functions owned by a machine"
  | .argumentCount expected found =>
    if found < expected then some s!"missing {expected - found} argument(s)"
    else some s!"{found - expected} extra argument(s)"
  | .exponentLiteral => some "write the literal in decimal form, e.g. `0.5`"
  | .undeclared .. | .badNumber .. | .repeatedField .. => none

/-! ## 2. For tools -/

/-- What a tool is told. -/
structure Diagnostic where
  code : String
  severity : String
  message : String
  file : String
  /-- The span of the error, as it is. -/
  span : Span
  /-- The byte position of its start, or of the end of the source if that comes first. -/
  position : Position
  label : String
  help : Option String
deriving DecidableEq, Repr

/-- The diagnostic for an error in a source. -/
def TypeError.diagnostic (e : TypeError) (source file : String) : Diagnostic where
  code := e.fault.code
  severity := "error"
  message := e.message
  file := file
  span := e.span
  position := (LineIndex.ofSource source).locate (min e.span.start.toNat source.utf8ByteSize)
  label := e.fault.label
  help := e.fault.advice?

/-- A diagnostic as JSON; without advice there is no member for it. -/
def Diagnostic.toJson (d : Diagnostic) : Json :=
  .obj ([
    ("code", .str d.code),
    ("severity", .str d.severity),
    ("message", .str d.message),
    ("file", .str d.file),
    ("spans", .arr [.obj [
      ("start", .num d.span.start.toNat),
      ("end", .num d.span.stop.toNat),
      ("line", .num d.position.line),
      ("col", .num d.position.column),
      ("label", .str d.label)]])] ++ (d.help.map fun help => ("help", Json.str help)).toList)

/-- **A diagnostic on one line.** -/
def Diagnostic.line (d : Diagnostic) : String := d.toJson.text

/-! ## 3. For people -/

/-- What a person is told, apart from the frame that it is drawn in. -/
structure Report where
  header : String
  /-- File, line and column of the first character pointed at. -/
  location : String
  label : String
  help : Option String
  /-- Whether the report is drawn in colour. -/
  coloured : Bool
deriving DecidableEq, Repr

/-- The report on an error in a source. -/
def TypeError.report (e : TypeError) (source file : String) (coloured : Bool) : Report :=
  let place := Position.ofOffset source (e.span.clamp source.utf8ByteSize).start
  { header := s!"[{e.fault.code}] Error: {e.message}"
    location := s!"{file}:{place.line}:{place.column}"
    label := e.fault.label
    help := e.fault.advice?
    coloured := coloured }

/-! ## 4. Styles -/

/-- How errors are to be rendered. -/
inductive Style where
  /-- One line of JSON each. -/
  | line
  /-- A report each, in colour or not. -/
  | report (coloured : Bool)
deriving DecidableEq, Repr

/-- A rendered error. -/
inductive Rendered where
  | line (text : String)
  | report (report : Report)
deriving DecidableEq, Repr

/-- Render an error in a source. -/
def TypeError.render (e : TypeError) (source file : String) : Style → Rendered
  | .line => .line (e.diagnostic source file).line
  | .report coloured => .report (e.report source file coloured)

/-! ## 5. Examples -/

/-- An error on the second line, for a tool. -/
example : (TypeError.diagnostic ⟨.misplacedSelf, ⟨10, 14⟩⟩ "x = 1\ny = this" "a.p").position =
    ⟨2, 5⟩ := by decide

/-- Expectations are listed as alternatives. -/
example : (Fault.mismatch .bool [.type .int, .type .float, .kind .enum]).message =
    "type mismatch: expected `int`, `float` or enum, found `bool`" := by decide +kernel

/-- Advice looks through an alias of what was found. -/
example : (Fault.mismatch (.alias "Id" .int) [.type .float]).advice? = some "use `x to float`" := by
  decide

end MachineTyping
