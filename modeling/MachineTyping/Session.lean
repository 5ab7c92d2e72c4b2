/-
# Sessions

A session is a scope that is built up step by step and a body whose expressions are checked in it.
It also keeps what the expressions tell about functions: a function is **marked** once a choice
was met in its body.  Marks go by the identity of a function, so that a body which is also bound
in the scope shows its mark there.

A step gives an answer and a session to go on with.  A step that fails changes nothing, apart from
the elements of an enum that were bound before a clash and the choices that were met before an
error.  The identity that a failed declaration was given is not given again.
-/
import MachineTyping.Checker
import MachineTyping.Diagnostic

namespace MachineTyping

/-! ## 1. Batches -/

/-- The results of checking independent expressions. -/
structure Batch where
  /-- The trees of the expressions that were accepted, in order. -/
  typed : List Typed
  /-- The errors of the others, in order. -/
  errors : List TypeError

/-- Sort verdicts into trees and errors. -/
def Batch.ofVerdicts : List (Verdict Typed) → Batch
  | [] => ⟨[], []⟩
  | .ok t :: rest => { Batch.ofVerdicts rest with typed := t :: (Batch.ofVerdicts rest).typed }
  | .error e :: rest =>
    { Batch.ofVerdicts rest with errors := e :: (Batch.ofVerdicts rest).errors }

/-- Whether some expression was rejected. -/
def Batch.hasErrors (batch : Batch) : Bool := !batch.errors.isEmpty

/-- Every error, rendered. -/
def Batch.render (batch : Batch) (source file : String) (style : Style) : List Rendered :=
  batch.errors.map fun e => e.render source file style

/-- Check independent expressions: the trees and errors, and whether a choice was met in any. -/
def Context.checkBatch (ctx : Context) (exprs : List Expr) : Batch × Bool :=
  let outcomes := exprs.map ctx.check
  (Batch.ofVerdicts (outcomes.map Outcome.verdict), outcomes.any Outcome.choice)

/-! ## 2. Sessions -/

/-- A scope, a body and the functions that are known to make choices. -/
structure Session where
  scope : Scope
  /-- The function whose body is being checked. -/
  body : Function
  /-- Identities of the marked functions. -/
  marked : List Nat
  /-- The identity that the next function gets. -/
  fresh : Nat
deriving DecidableEq, Repr

/-- The signature of the body at the outset. -/
def Signature.entry : Signature := ⟨"main", [], .null, none⟩

/-- The session at the outset. -/
def Session.initial : Session := ⟨.initial, ⟨.entry, 0⟩, [], 1⟩

/-- Where the body's expressions stand. -/
def Session.context (session : Session) : Context := ⟨session.scope, session.body.owner⟩

/-- Whether a function is known to make choices. -/
def Session.isMarked (session : Session) (f : Function) : Bool := f.id ∈ session.marked

/-- Mark the body. -/
def Session.mark (session : Session) : Session :=
  if session.isMarked session.body then session
  else { session with marked := session.body.id :: session.marked }

/-- Mark the body if a choice was met. -/
def Session.note (session : Session) (choice : Bool) : Session :=
  if choice then session.mark else session

/-! ## 3. Steps -/

/-- What can be done in a session. -/
inductive Step where
  /-- Enter a body or block. -/
  | push
  /-- Leave it. -/
  | pop
  /-- Declare a variable, machine, event, enum element, enum or alias. -/
  | declare (declaration : Declaration)
  /-- Declare a new function. -/
  | declareFunction (signature : Signature)
  /-- Ask what a name is bound to. -/
  | lookup (name : String)
  /-- Resolve a written type. -/
  | resolve (type : TypeRef)
  /-- Turn to the body of a new function, which is bound nowhere. -/
  | enterNew (signature : Signature)
  /-- Turn to the body of the function that is bound to a name. -/
  | enterBound (name : String)
  /-- Ask for the body. -/
  | current
  /-- Mark the body. -/
  | mark
  | check (expr : Expr)
  | checkLvalue (lvalue : Lvalue)
  | checkArguments (args : List Expr)
  /-- Check arguments that are sent along with an event of the given payload. -/
  | send (args : List Expr) (payload : Ty) (span : Span)
  /-- Check two expressions and compare what comes out. -/
  | compare (first second : Expr)
  | batch (exprs : List Expr)

/-- What a name is bound to, as every kind of lookup sees it. -/
structure Findings where
  symbol : Option Symbol
  var : Option Variable
  function : Option Function
  machine : Option Machine
  element : Option EnumElement
  event : Option Event
  type : Option Ty
deriving DecidableEq, Repr

/-- Everything that a scope knows of a name. -/
def Scope.findings (scope : Scope) (name : String) : Findings where
  symbol := scope.lookup name
  var := scope.lookupVar name
  function := scope.lookupFunction name
  machine := scope.lookupMachine name
  element := scope.lookupElement name
  event := scope.lookupEvent name
  type := scope.lookupType name

/-- The answer to a step. -/
inductive Answer where
  | done
  /-- The global frame cannot be left. -/
  | globalFrame
  | declared (declared : Declared)
  | clash (clash : Clash)
  | findings (findings : Findings)
  | resolved (verdict : Verdict Ty)
  /-- No function is bound to the name. -/
  | noFunction
  | function (f : Function)
  | checked (verdict : Verdict Typed)
  | arguments (verdict : Verdict (List Typed))
  | sent (verdict : Verdict Unit)
  | compared (alike : Bool)
  | batch (batch : Batch)

/-- Whether two verdicts look alike: two trees that do, or one error twice. -/
def Verdict.alike (marked : Function → Bool) : Verdict Typed → Verdict Typed → Bool
  | .ok a, .ok b => a.alike marked b
  | .error a, .error b => a == b
  | _, _ => false

/-- Make a declaration in the scope of a session. -/
def Session.declare (session : Session) (declaration : Declaration) : Session × Answer :=
  match session.scope.declare declaration with
  | (scope, .ok declared) => ({ session with scope := scope }, .declared declared)
  | (scope, .error clash) => ({ session with scope := scope }, .clash clash)

/-- A new function with the given signature, and the session in which its identity is used. -/
def Session.newFunction (session : Session) (signature : Signature) : Session × Function :=
  ({ session with fresh := session.fresh + 1 }, ⟨signature, session.fresh⟩)

/-- **Take a step.** -/
def Session.step (session : Session) : Step → Session × Answer
  | .push => ({ session with scope := session.scope.push }, .done)
  | .pop =>
    match session.scope.pop? with
    | some scope => ({ session with scope := scope }, .done)
    | none => (session, .globalFrame)
  | .declare declaration => session.declare declaration
  | .declareFunction signature =>
    let (session, f) := session.newFunction signature
    session.declare (.symbol (.function f))
  | .lookup name => (session, .findings (session.scope.findings name))
  | .resolve type => (session, .resolved (session.scope.resolve type))
  | .enterNew signature =>
    let (session, f) := session.newFunction signature
    ({ session with body := f }, .function f)
  | .enterBound name =>
    match session.scope.lookupFunction name with
    | some f => ({ session with body := f }, .function f)
    | none => (session, .noFunction)
  | .current => (session, .function session.body)
  | .mark => (session.mark, .done)
  | .check expr =>
    let outcome := session.context.check expr
    (session.note outcome.choice, .checked outcome.verdict)
  | .checkLvalue lvalue =>
    let outcome := session.context.checkLvalue lvalue
    (session.note outcome.choice, .checked outcome.verdict)
  | .checkArguments args =>
    let outcome := session.context.checkArguments args
    (session.note outcome.choice, .arguments outcome.verdict)
  | .send args payload span =>
    let outcome := session.context.checkArguments args
    (session.note outcome.choice,
      .sent (outcome.verdict >>= fun args => Rule.payload payload span args))
  | .compare first second =>
    let first := session.context.check first
    let second := session.context.check second
    let session := session.note (first.choice || second.choice)
    (session, .compared (Verdict.alike session.isMarked first.verdict second.verdict))
  | .batch exprs =>
    let (batch, choice) := session.context.checkBatch exprs
    (session.note choice, .batch batch)

/-! ## 4. Examples -/

/-- A choice that is met in the body of a bound function shows where the function is bound. -/
example :
    let session := (Session.initial.step (.declareFunction ⟨"f", [], .int, none⟩)).1
    let session := (session.step (.enterBound "f")).1
    let session := (session.step (.check (.node default .choice))).1
    (session.scope.lookupFunction "f").map session.isMarked = some true := by decide

/-- The global frame stays. -/
example : Session.initial.step .pop = (Session.initial, .globalFrame) := rfl

end MachineTyping
