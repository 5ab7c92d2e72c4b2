/-
# Scopes

A scope is a stack of frames, one for each body or block that is open; the outermost, which is
always there, is the global one.  A frame binds names in two namespaces that do not see each
other: values (variables, functions, machines, events, enum elements) and types (enums, aliases).

* Lookup goes from the innermost frame outward and takes the first binding it meets, **of
  whatever kind**: an inner variable hides an outer event.
* A declaration looks at the innermost frame only, and fails if the name is taken there, in the
  same namespace.  Nothing changes then, but for an enum: its type is bound first and then its
  elements one by one, and those before a clash stay.

The stack is never empty, because its type does not allow it: a scope is a current frame and the
frames around it.
-/
import MachineTyping.Symbol

namespace MachineTyping

/-! ## 1. Frames -/

/-- The bindings of one body or block, the latest first. -/
structure Frame where
  values : List (String × Symbol)
  types : List (String × Ty)
deriving DecidableEq, Repr

/-- The frame without bindings. -/
def Frame.empty : Frame := ⟨[], []⟩

/-- What a frame binds a value name to. -/
def Frame.value? (frame : Frame) (name : String) : Option Symbol := frame.values.lookup name

/-- What a frame binds a type name to. -/
def Frame.type? (frame : Frame) (name : String) : Option Ty := frame.types.lookup name

/-- A name that is taken already, with what it was declared as. -/
structure Clash where
  name : String
  existing : SymbolKind
deriving DecidableEq, Repr

/-- How a clash is reported. -/
def Clash.message (clash : Clash) : String :=
  "`" ++ clash.name ++ "` is already declared as a " ++ clash.existing.noun

/-- Bind a symbol under its own name. -/
def Frame.bind (frame : Frame) (symbol : Symbol) : Except Clash Frame :=
  match frame.value? symbol.name with
  | some old => .error ⟨symbol.name, old.kind⟩
  | none => .ok { frame with values := (symbol.name, symbol) :: frame.values }

/-- Bind a type name. -/
def Frame.bindType (frame : Frame) (name : String) (ty : Ty) : Except Clash Frame :=
  match frame.type? name with
  | some _ => .error ⟨name, .type⟩
  | none => .ok { frame with types := (name, ty) :: frame.types }

/-- Bind the elements of the enum `enum` in order, up to the first clash.  What was bound before
it stays bound. -/
def Frame.bindElements (frame : Frame) (enum : String) : List (String × Int) → Frame × Option Clash
  | [] => (frame, none)
  | (name, value) :: rest =>
    match frame.bind (.element ⟨name, enum, value⟩) with
    | .ok frame => frame.bindElements enum rest
    | .error clash => (frame, some clash)

/-! ## 2. Scopes -/

/-- A stack of frames. -/
structure Scope where
  /-- The innermost frame. -/
  current : Frame
  /-- The frames around it, the global one last. -/
  outer : List Frame
deriving DecidableEq, Repr

/-- The scope at the outset: one frame, which binds the `halt` event. -/
def Scope.initial : Scope := ⟨⟨[(Event.haltName, .event .halt)], []⟩, []⟩

/-- The frames, innermost first. -/
def Scope.frames (scope : Scope) : List Frame := scope.current :: scope.outer

/-- Enter a body or block. -/
def Scope.push (scope : Scope) : Scope := ⟨.empty, scope.frames⟩

/-- Leave the innermost body or block.  The global frame cannot be left. -/
def Scope.pop? (scope : Scope) : Option Scope :=
  match scope.outer with
  | [] => none
  | frame :: rest => some ⟨frame, rest⟩

/-- How an attempt to leave the global frame is reported. -/
def Scope.popMessage : String := "cannot pop the global frame"

/-! ## 3. Lookup -/

/-- The innermost binding of a value name. -/
def Scope.lookup (scope : Scope) (name : String) : Option Symbol :=
  scope.frames.findSome? (·.value? name)

/-- The innermost binding of a type name. -/
def Scope.lookupType (scope : Scope) (name : String) : Option Ty :=
  scope.frames.findSome? (·.type? name)

/-- The innermost binding of a name, if it is a variable. -/
def Scope.lookupVar (scope : Scope) (name : String) : Option Variable :=
  match scope.lookup name with
  | some (.var v) => some v
  | _ => none

/-- The innermost binding of a name, if it is a function. -/
def Scope.lookupFunction (scope : Scope) (name : String) : Option Function :=
  match scope.lookup name with
  | some (.function f) => some f
  | _ => none

/-- The innermost binding of a name, if it is a machine. -/
def Scope.lookupMachine (scope : Scope) (name : String) : Option Machine :=
  match scope.lookup name with
  | some (.machine m) => some m
  | _ => none

/-- The innermost binding of a name, if it is an enum element. -/
def Scope.lookupElement (scope : Scope) (name : String) : Option EnumElement :=
  match scope.lookup name with
  | some (.element e) => some e
  | _ => none

/-- The innermost binding of a name, if it is an event. -/
def Scope.lookupEvent (scope : Scope) (name : String) : Option Event :=
  match scope.lookup name with
  | some (.event e) => some e
  | _ => none

/-! ## 4. Declaring -/

/-- Something to declare. -/
inductive Declaration where
  /-- A symbol, under its own name. -/
  | symbol (symbol : Symbol)
  /-- An enum and its elements. -/
  | enum (name : String) (elems : List (String × Int))
  /-- Another name for a type. -/
  | alias (name : String) (target : Ty)
deriving Repr

/-- What a declaration that succeeds has declared. -/
inductive Declared where
  | symbol (symbol : Symbol)
  | type (ty : Ty)
deriving DecidableEq, Repr

/-- **Declare in the innermost frame.**  The scope that comes out holds whatever took effect, on
failure too. -/
def Scope.declare (scope : Scope) : Declaration → Scope × Except Clash Declared
  | .symbol symbol =>
    match scope.current.bind symbol with
    | .ok frame => ({ scope with current := frame }, .ok (.symbol symbol))
    | .error clash => (scope, .error clash)
  | .enum name elems =>
    match scope.current.bindType name (.enum name) with
    | .error clash => (scope, .error clash)
    | .ok frame =>
      match frame.bindElements name elems with
      | (frame, none) => ({ scope with current := frame }, .ok (.type (.enum name)))
      | (frame, some clash) => ({ scope with current := frame }, .error clash)
  | .alias name target =>
    match scope.current.bindType name (.alias name target) with
    | .ok frame => ({ scope with current := frame }, .ok (.type (.alias name target)))
    | .error clash => (scope, .error clash)

/-! ## 5. Examples -/

/-- An inner binding hides an outer one of another kind, until its block is left. -/
example :
    let inner := (Scope.initial.push.declare (.symbol (.var ⟨"halt", .int, none⟩))).1
    inner.lookupEvent "halt" = none ∧ inner.pop? = some .initial := by decide

/-- The elements of an enum that come before a clash stay, and so does the enum. -/
example :
    let scope := (Scope.initial.declare (.enum "E" [("on", 1), ("halt", 2), ("off", 3)])).1
    scope.lookupType "E" = some (.enum "E") ∧
      scope.lookupElement "on" = some ⟨"on", "E", 1⟩ ∧ scope.lookup "off" = none := by decide

end MachineTyping
