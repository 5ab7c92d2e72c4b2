/-
# Rules for arguments

A call matches its arguments with parameters, a constructor or a send with a payload.

`move x` and `swap x` hand a variable over to the callee.  Within one list of arguments a variable
is handed over at most once, `Rule.relinquish`; lists inside of an argument are on their own.  A
swap lets the callee put a value back, so the types of variable and parameter must be the same.

A payload describes what a `new` or a send must supply: nothing for `null`, one argument for any
payload that accepts it, and several for a tuple, one for each element.
-/
import MachineTyping.Rule.Basic
import MachineTyping.Type.Assignable

namespace MachineTyping

namespace Rule

/-! ## 1. Handing over -/

/-- Note what an argument hands over, `taken` being the variables handed over before it. -/
def relinquish (taken : List String) (arg : Typed) : Verdict (List String) :=
  match arg.handover? with
  | none => .ok taken
  | some (_, v) =>
    if v.name ∈ taken then .error ⟨.relinquished v.name, arg.span⟩ else .ok (v.name :: taken)

/-! ## 2. Calls -/

/-- The function that a call names, which must take as many arguments as it is given. -/
def callee (scope : Scope) (span : Span) (name : String) (count : Nat) : Verdict Function :=
  match scope.lookupFunction name with
  | none => .error ⟨.undeclared (.one .function) name, span⟩
  | some f =>
    if count = f.params.length then .ok f
    else .error ⟨.argumentCount f.params.length count, span⟩

/-- Whether an argument may be passed for a parameter of the given type. -/
def passes (param : Ty) (arg : Typed) : Bool :=
  match arg.handover? with
  | some (.swap, _) => param.sameAs arg.ty && param.accepts arg.ty
  | _ => param.accepts arg.ty

/-- Pass arguments for parameters, left to right. -/
def passAll : List Parameter → List Typed → Verdict Unit
  | param :: params, arg :: args =>
    if passes param.ty arg then passAll params args
    else .error (arg.mismatch [.type param.ty])
  | _, _ => .ok ()

/-- A call has the type that its function returns. -/
def call (span : Span) (f : Function) (args : List Typed) : Verdict Typed := do
  passAll f.params args
  return .node span f.result (.call f args)

/-! ## 3. Payloads -/

/-- Fill slots with arguments, left to right. -/
def fillAll : List Ty → List Typed → Verdict Unit
  | slot :: slots, arg :: args =>
    if slot.accepts arg.ty then fillAll slots args
    else .error (arg.mismatch [.type slot])
  | _, _ => .ok ()

/-- The slots of a payload that is given as several arguments, if it can be. -/
def slots? (payload : Ty) : Option (List Ty) :=
  match payload.canonical with
  | .tuple elems => some elems
  | .named fields => some (fields.map Prod.snd)
  | _ => none

/-- **Whether arguments make up a payload**; `span` covers all of them, and is where a wrong number
of arguments is reported. -/
def payload (payload : Ty) (span : Span) (args : List Typed) : Verdict Unit :=
  match args with
  | [] =>
    if payload.canonical = .null then .ok () else .error ⟨.argumentCount 1 0, span⟩
  | [arg] => fillAll [payload] [arg]
  | args =>
    match slots? payload with
    | none => .error ⟨.argumentCount 1 args.length, span⟩
    | some slots =>
      if slots.length = args.length then fillAll slots args
      else .error ⟨.argumentCount slots.length args.length, span⟩

/-- The machine that a constructor names. -/
def constructor (scope : Scope) (span : Span) (name : String) : Verdict Machine :=
  match scope.lookupMachine name with
  | some m => .ok m
  | none => .error ⟨.undeclared (.one .machine) name, span⟩

/-- A constructor makes a machine out of arguments that make up its payload. -/
def new (span : Span) (m : Machine) (args : List Typed) : Verdict Typed := do
  payload m.payload span args
  return .node span .machine (.new m args)

end Rule

end MachineTyping
