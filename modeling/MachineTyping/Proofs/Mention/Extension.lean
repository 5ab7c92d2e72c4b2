/-
# Scopes that grow past an expression

Between two checks of one expression a scope may grow: blocks are opened and names are declared.
What is declared is found from then on, and may hide what was there before.  But a declaration
changes the answers about the names that it binds, and about no others (`declare_agrees`), so an
expression that does not mention them is checked as before, however many declarations and blocks
there are (`check_reads_mentions`).

Names live in two namespaces, and a mention says which one is meant.  A variable `T` does not get
in the way of an expression that mentions the type `T`, and a type that is declared under a name
that is built in gets in nobody's way: nothing mentions it (`TypeName.of_eq_nil`).
-/
import MachineTyping.Proofs.Mention.Identity
import MachineTyping.Proofs.Scope.Declaration

namespace MachineTyping

/-! ## 1. What a frame answers after binding -/

/-- Two frames give the same answer about a mention. -/
def Frame.AgreesOn (frame frame' : Frame) : Mention → Prop
  | .value name => frame.value? name = frame'.value? name
  | .type n => frame.type? n.name = frame'.type? n.name
  | .owner => True

/-- Binding a symbol changes the answer about its name alone. -/
theorem Frame.bind_agrees {frame frame' : Frame} {symbol : Symbol}
    (hb : frame.bind symbol = .ok frame') {m : Mention} (hm : m ≠ .value symbol.name) :
    frame'.AgreesOn frame m := by
  have hg : frame.Gains frame' [] [symbol] := .of_bind hb
  cases m with
  | value name =>
    refine hg.value?_eq fun s hs => ?_
    obtain rfl := List.mem_singleton.mp hs
    rintro rfl
    exact hm rfl
  | type n => exact hg.type?_eq (List.forall_mem_nil _)
  | owner => trivial

/-- Binding a type changes the answer about its name alone. -/
theorem Frame.bindType_agrees {frame frame' : Frame} {name : String} {ty : Ty}
    (hb : frame.bindType name ty = .ok frame') {m : Mention} (hm : m ∉ (TypeName.of name).map .type) :
    frame'.AgreesOn frame m := by
  have hg : frame.Gains frame' [(name, ty)] [] := .of_bindType hb
  cases m with
  | value name' => exact hg.value?_eq (List.forall_mem_nil _)
  | type n =>
    refine hg.type?_eq fun binding hm' => ?_
    obtain rfl := List.mem_singleton.mp hm'
    rintro rfl
    rw [TypeName.of_eq n.notBuiltin] at hm
    exact hm List.mem_cons_self
  | owner => trivial

theorem Frame.AgreesOn.refl (frame : Frame) (m : Mention) : frame.AgreesOn frame m := by
  cases m with
  | value name => rfl
  | type n => rfl
  | owner => trivial

theorem Frame.AgreesOn.trans {a b c : Frame} {m : Mention} (hab : a.AgreesOn b m)
    (hbc : b.AgreesOn c m) : a.AgreesOn c m := by
  cases m with
  | value name => exact Eq.trans hab hbc
  | type n => exact Eq.trans hab hbc
  | owner => trivial

/-! ## 2. What a scope answers -/

/-- What a declaration binds, if nothing is in its way.  A type name that is built in does not
count, since its binding is never found. -/
def Declaration.binds : Declaration → List Mention
  | .symbol s => [.value s.name]
  | .enum name elems => (TypeName.of name).map .type ++ elems.map fun elem => .value elem.1
  | .alias name _ => (TypeName.of name).map .type

theorem Declaration.mem_binds_of_mem_symbols {declaration : Declaration} {symbol : Symbol}
    (h : symbol ∈ declaration.symbols) : .value symbol.name ∈ declaration.binds := by
  cases declaration with
  | symbol s =>
    obtain rfl := List.mem_singleton.mp h
    exact List.mem_cons_self
  | enum name elems =>
    obtain ⟨elem, he, rfl⟩ := List.mem_map.mp h
    exact List.mem_append_right _ (List.mem_map_of_mem he)
  | «alias» name target => exact absurd h List.not_mem_nil

theorem Declaration.mem_binds_of_mem_typeBindings {declaration : Declaration}
    {binding : String × Ty} (h : binding ∈ declaration.typeBindings) {m : Mention}
    (hm : m ∈ (TypeName.of binding.1).map Mention.type) : m ∈ declaration.binds := by
  cases declaration with
  | symbol s => exact absurd h List.not_mem_nil
  | enum name elems =>
    obtain rfl := List.mem_singleton.mp h
    exact List.mem_append_left _ hm
  | «alias» name target =>
    obtain rfl := List.mem_singleton.mp h
    exact hm

namespace Scope

variable {scope : Scope} {owner : Option Machine} {m : Mention}

/-- A scope answers as before if its current frame does. -/
theorem setCurrent_agrees {frame : Frame} (h : frame.AgreesOn scope.current m) :
    Context.AgreesOn ⟨{ scope with current := frame }, owner⟩ ⟨scope, owner⟩ m := by
  cases m with
  | value name =>
    have hv : frame.value? name = scope.current.value? name := h
    simp only [Context.AgreesOn, Scope.lookup, Scope.frames, List.findSome?_cons, hv]
  | type n =>
    have ht : frame.type? n.name = scope.current.type? n.name := h
    simp only [Context.AgreesOn, Scope.lookupType, Scope.frames, List.findSome?_cons, ht]
  | owner => rfl

/-- Opening a block changes no answer. -/
theorem push_agrees : Context.AgreesOn ⟨scope.push, owner⟩ ⟨scope, owner⟩ m := by
  cases m <;> rfl

/-- A frame that grows by a declaration answers as before about what is not declared. -/
theorem growsBy_agrees {declaration : Declaration} {frame frame' : Frame}
    (hg : Frame.GrowsBy declaration frame frame') (hm : m ∉ declaration.binds) :
    frame'.AgreesOn frame m := by
  induction hg with
  | refl => exact .refl _ m
  | bind hs hb _ ih =>
    refine ih.trans (Frame.bind_agrees hb ?_)
    rintro rfl
    exact hm (Declaration.mem_binds_of_mem_symbols hs)
  | bindType ht hb _ ih =>
    refine ih.trans (Frame.bindType_agrees hb fun h => ?_)
    exact hm (Declaration.mem_binds_of_mem_typeBindings ht h)

/-- **A declaration changes the answers about what it binds alone**, on success and on failure. -/
theorem declare_agrees {declaration : Declaration} (hm : m ∉ declaration.binds) :
    Context.AgreesOn ⟨(scope.declare declaration).1, owner⟩ ⟨scope, owner⟩ m := by
  obtain ⟨frame, he, hg⟩ := scope.declare_growsBy declaration
  rw [he]
  exact setCurrent_agrees (growsBy_agrees hg hm)

/-- **`scope'` has grown out of `scope` past the mentions**: blocks were opened, and names declared
that are not mentioned. -/
inductive GrownPast (mentions : List Mention) (scope : Scope) : Scope → Prop
  | refl : GrownPast mentions scope scope
  | push {scope' : Scope} : GrownPast mentions scope scope' → GrownPast mentions scope scope'.push
  | declare {scope' : Scope} {declaration : Declaration} :
      GrownPast mentions scope scope' → (∀ m ∈ declaration.binds, m ∉ mentions) →
      GrownPast mentions scope (scope'.declare declaration).1

/-- A scope that has grown past the mentions answers about them as before. -/
theorem GrownPast.agree {mentions : List Mention} {scope' : Scope}
    (h : GrownPast mentions scope scope') (owner : Option Machine) :
    Context.Agree ⟨scope', owner⟩ ⟨scope, owner⟩ mentions := by
  induction h with
  | refl => exact fun m _ => .refl _ m
  | push _ ih => exact fun m hm => Context.AgreesOn.trans push_agrees (ih m hm)
  | declare _ hd ih =>
    intro m hm
    have hb : m ∉ Declaration.binds _ := fun hb => hd m hb hm
    exact Context.AgreesOn.trans (declare_agrees hb) (ih m hm)

end Scope

/-! ## 3. The result -/

namespace Context

/-- **Checking reads nothing of its context but what the expression mentions.**  Contexts that agree
on the mentions check the expression to the same outcome; if they agree up to the identities of
functions, the outcome is the same up to those.  So the outcome stays what it is when blocks are
opened, when names are declared that are not mentioned, and when a type is declared under a name
that is built in.

The marks of functions are not in the trees that are compared: a call has the function as it was
declared, with its identity, and a session keeps the marks by identity.  Whether a mark is made is
told by the choice of the outcome, which is compared with the tree or the error. -/
theorem check_reads_mentions (e : Expr) :
    (∀ c d : Context, c.Agree d e.mentions → c.check e = d.check e) ∧
    (∀ (c d : Context) (g h : Nat → Nat), (c.renumber g).Agree (d.renumber h) e.mentions →
      (c.check e).map (Typed.renumber g) = (d.check e).map (Typed.renumber h)) ∧
    (∀ (scope scope' : Scope) (owner : Option Machine), scope.GrownPast e.mentions scope' →
      Context.check ⟨scope', owner⟩ e = Context.check ⟨scope, owner⟩ e) ∧
    ∀ (scope : Scope) (owner : Option Machine) (name : String) (target : Ty),
      (builtinType? name).isSome →
        Context.check ⟨(scope.declare (.alias name target)).1, owner⟩ e =
          Context.check ⟨scope, owner⟩ e := by
  refine ⟨?_, ?_, ?_, ?_⟩
  · intro c d ha
    exact check_eq_of_agree e ha
  · intro c d g h ha
    exact check_map_eq_of_agree ha
  · intro scope scope' owner hg
    exact check_eq_of_agree e (hg.agree owner)
  · intro scope owner name target hb
    have hnil : (Declaration.alias name target).binds = [] :=
      congrArg (List.map Mention.type) (TypeName.of_eq_nil hb)
    have hd : ∀ m ∈ (Declaration.alias name target).binds, m ∉ e.mentions := by
      rw [hnil]
      exact fun m hm => absurd hm List.not_mem_nil
    exact check_eq_of_agree e ((Scope.GrownPast.refl.declare hd).agree owner)

/-- `f(x as T)`, where `f`, `x` and `T` are found.  They may as well be found in a block, next to other
names and under another owner, and `f` may have another identity; blocks may be opened, a variable
`T` and a type `x` declared; and what is declared as the type `int` does not matter. -/
theorem check_reads_mentions_cast :
    let e : Expr := .node ⟨0, 9⟩ (.call "f"
      [.node ⟨2, 8⟩ (.cast (.node ⟨2, 3⟩ (.name "x")) (.node ⟨7, 8⟩ (.name "T")))])
    let f : Signature := ⟨"f", [⟨"p", .int⟩], .null, none⟩
    let m : Machine := ⟨"M", .null⟩
    let x : Frame := ⟨[("x", .var ⟨"x", .any, none⟩)], [("T", .alias "T" .int)]⟩
    let c : Context := ⟨⟨x, [⟨[("f", .function ⟨f, 0⟩)], []⟩]⟩, none⟩
    let d : Context := ⟨⟨⟨[], []⟩, [⟨("f", .function ⟨f, 0⟩) :: x.values, x.types⟩]⟩, some m⟩
    let d' : Context := ⟨⟨⟨[("f", .function ⟨f, 7⟩)], []⟩, [x]⟩, some m⟩
    let inner := c.scope.push.declare (.symbol (.var ⟨"T", .bool, none⟩))
    let innermost := inner.1.push.declare (.enum "x" [("on", 1), ("f'", 2)])
    c.check e = d.check e ∧
    (c.check e).map (Typed.renumber fun _ => 0) = (d'.check e).map (Typed.renumber fun _ => 0) ∧
    Context.check ⟨innermost.1, none⟩ e = c.check e ∧
    Context.check ⟨(c.scope.declare (.alias "int" .bool)).1, none⟩ e = c.check e := by
  intro e f m x c d d' inner innermost
  have hd : c.Agree d e.mentions := by decide
  have hd' : (c.renumber fun _ => 0).Agree (d'.renumber fun _ => 0) e.mentions := by decide
  have hg : c.scope.GrownPast e.mentions innermost.1 := by
    refine .declare (.push (.declare (.push .refl) ?_)) ?_ <;> decide
  have hb : (builtinType? "int").isSome := rfl
  obtain ⟨hagree, hupto, hgrown, halias⟩ := check_reads_mentions e
  exact ⟨hagree c d hd, hupto c d' _ _ hd', hgrown _ _ none hg, halias _ none _ _ hb⟩

end Context

end MachineTyping
