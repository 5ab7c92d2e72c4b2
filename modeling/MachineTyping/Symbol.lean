/-
# Symbols

What a value name can be bound to: variables, functions, machines, events and enum elements.

A function has an identity besides its signature.  Whether its body makes nondeterministic
choices is found out while the body is checked, after the function was bound; the finding is kept
outside, under that identity, so that everyone who refers to the function sees it.
-/
import MachineTyping.Type.Basic

namespace MachineTyping

/-- A machine, with what a `new` must supply: `null` for nothing. -/
structure Machine where
  name : String
  payload : Ty
deriving DecidableEq, Repr

/-- A local variable, a parameter or a field of a machine. -/
structure Variable where
  name : String
  ty : Ty
  /-- The machine whose state the variable belongs to, if any. -/
  owner : Option Machine
deriving DecidableEq, Repr

/-- A formal parameter. -/
structure Parameter where
  name : String
  ty : Ty
deriving DecidableEq, Repr

/-- What is known of a function when it is declared. -/
structure Signature where
  name : String
  params : List Parameter
  result : Ty
  /-- The machine that the function belongs to, if any. -/
  owner : Option Machine
deriving DecidableEq, Repr

/-- A function or handler: a signature and an identity. -/
structure Function extends Signature where
  /-- Tells the function from all others, those with an equal signature included. -/
  id : Nat
deriving DecidableEq, Repr

/-- An event, with the type of what is sent along, if anything is. -/
structure Event where
  name : String
  payload : Option Ty
deriving DecidableEq, Repr

/-- The name of the event that ends a machine. -/
def Event.haltName : String := "halt"

/-- The event that ends a machine; nothing is sent along. -/
def Event.halt : Event := ⟨Event.haltName, none⟩

/-- One element of an enum. -/
structure EnumElement where
  name : String
  /-- The name of the enum. -/
  enum : String
  value : Int
deriving DecidableEq, Repr

/-- The type of an enum element is its enum. -/
def EnumElement.ty (e : EnumElement) : Ty := .enum e.enum

/-- What a name can be declared as. -/
inductive SymbolKind where
  | var | function | machine | element | event | type
deriving DecidableEq, Repr

/-- Every kind of symbol. -/
def SymbolKind.all : List SymbolKind := [.var, .function, .machine, .element, .event, .type]

/-- The noun for a kind of symbol. -/
def SymbolKind.noun : SymbolKind → String
  | .var => "variable"
  | .function => "function"
  | .machine => "machine"
  | .element => "enum element"
  | .event => "event"
  | .type => "type"

/-- What a value name is bound to. -/
inductive Symbol where
  | var (v : Variable)
  | function (f : Function)
  | machine (m : Machine)
  | element (e : EnumElement)
  | event (e : Event)
deriving DecidableEq, Repr

/-- The name under which a symbol is bound. -/
def Symbol.name : Symbol → String
  | .var v => v.name
  | .function f => f.name
  | .machine m => m.name
  | .element e => e.name
  | .event e => e.name

/-- The kind of a symbol. -/
def Symbol.kind : Symbol → SymbolKind
  | .var _ => .var
  | .function _ => .function
  | .machine _ => .machine
  | .element _ => .element
  | .event _ => .event

end MachineTyping
