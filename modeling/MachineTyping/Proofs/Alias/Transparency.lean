/-
# Aliases are transparent

Suppose every alias that a scope holds is resolved: in the types of variables, in signatures, in
payloads, and in the types that names stand for.  Checking an expression or an assignment target
comes to the same thing (`Context.check_canonical`, `Context.checkLvalue_canonical`):

* the same trees, but for aliases in their types and symbols;
* the same errors, but for aliases in the types that they mention;
* the same choices met.

So a programmer can introduce or remove a name for a type, anywhere and at any depth, without
changing what is accepted and where an error is found.  The induction is on the expression; each
step is a rule that looks through aliases, and types that are written resolve to canonical types
(`Scope.resolve_canonical`).
-/
import MachineTyping.Proofs.Alias.Rule

namespace MachineTyping

/-! ## 1. Written types -/

theorem builtinType?_canonical {name : String} {ty : Ty} (h : builtinType? name = some ty) :
    ty.canonical = ty := by
  unfold builtinType? at h
  split at h <;> cases h <;> rfl

theorem Scope.typeNamed_canonical (scope : Scope) (span : Span) (name : String) :
    scope.canonical.typeNamed span name =
      (scope.typeNamed span name).canonical Ty.canonical := by
  simp only [Scope.typeNamed, Scope.lookupType_canonical]
  cases hb : builtinType? name with
  | some ty => exact congrArg Except.ok (builtinType?_canonical hb).symm
  | none => cases scope.lookupType name <;> rfl

mutual

/-- **A written type resolves to the canonical form of what it stood for.** -/
theorem Scope.resolve_canonical (scope : Scope) : ∀ ref : TypeRef,
    scope.canonical.resolve ref = (scope.resolve ref).canonical Ty.canonical
  | .node span (.name name) => scope.typeNamed_canonical span name
  | .node span (.tuple elems) => by
    refine Verdict.bind_canonical (scope.resolveList_canonical elems) fun tys => ?_
    rw [← Ty.canonicalList_eq_map]
    rfl
  | .node span (.named fields) => by
    refine Verdict.bind_canonical (scope.resolveFields_canonical [] fields) fun tys => ?_
    rw [← Ty.canonicalFields_eq_map]
    rfl
  | .node span (.seq elem) =>
    Verdict.bind_canonical (scope.resolve_canonical elem) fun _ => rfl
  | .node span (.map key value) => by
    refine Verdict.bind_canonical (scope.resolve_canonical key) fun k => ?_
    exact Verdict.bind_canonical (scope.resolve_canonical value) fun _ => rfl

theorem Scope.resolveList_canonical (scope : Scope) : ∀ refs : List TypeRef,
    scope.canonical.resolveList refs =
      (scope.resolveList refs).canonical (List.map Ty.canonical)
  | [] => rfl
  | ref :: refs => by
    refine Verdict.bind_canonical (scope.resolve_canonical ref) fun ty => ?_
    exact Verdict.bind_canonical (scope.resolveList_canonical refs) fun _ => rfl

theorem Scope.resolveFields_canonical (scope : Scope) (seen : List String) :
    ∀ fields : List (String × TypeRef), scope.canonical.resolveFields seen fields =
      (scope.resolveFields seen fields).canonical
        (List.map fun field => (field.1, field.2.canonical))
  | [] => rfl
  | (name, ref) :: fields => by
    rw [Scope.resolveFields, Scope.resolveFields, Verdict.canonical_ite]
    congr 1
    refine Verdict.bind_canonical (scope.resolve_canonical ref) fun ty => ?_
    exact Verdict.bind_canonical (scope.resolveFields_canonical (name :: seen) fields) fun _ => rfl

end

/-! ## 2. Expressions -/

namespace Context

mutual

/-- **Checking commutes with resolving aliases.** -/
theorem check_canonical (ctx : Context) : ∀ e : Expr,
    ctx.canonical.check e = (ctx.check e).canonical Typed.canonical
  | .node span (.name name) => congrArg Outcome.of (Rule.name_canonical ctx.scope name)
  | .node span (.int text) => congrArg Outcome.of (Rule.int_canonical text).symm
  | .node span (.float literal) => congrArg Outcome.of (Rule.float_canonical literal).symm
  | .node span (.bool _) | .node span .null | .node span .choice | .node span .fairChoice => rfl
  | .node span .halt => congrArg Outcome.of (Rule.halt_canonical ctx.scope)
  | .node span .self => congrArg Outcome.of (Rule.self_canonical ctx.owner)
  | .node span (.linear mode name) =>
    congrArg Outcome.of (Rule.linear_canonical ctx.scope mode name)
  | .node span (.unary op operand) => by
    refine Outcome.bind_canonical (ctx.check_canonical operand) fun o => ?_
    exact congrArg Outcome.of (Rule.unary_canonical op o)
  | .node span (.binary op lhs rhs) => by
    refine Outcome.bind_canonical (ctx.check_canonical lhs) fun l => ?_
    refine Outcome.bind_canonical (ctx.check_canonical rhs) fun r => ?_
    exact congrArg Outcome.of (Rule.binary_canonical op l r)
  | .node span (.tuple elems) => by
    refine Outcome.bind_canonical (ctx.checkList_canonical elems) fun ts => ?_
    rw [Rule.tuple_canonical]
    rfl
  | .node span (.named fields) => by
    refine Outcome.bind_canonical (ctx.checkFields_canonical [] fields) fun ts => ?_
    rw [Rule.named_canonical]
    rfl
  | .node span (.component base index) => by
    refine Outcome.bind_canonical (ctx.check_canonical base) fun b => ?_
    exact congrArg Outcome.of (Rule.component_canonical b index)
  | .node span (.field base name) => by
    refine Outcome.bind_canonical (ctx.check_canonical base) fun b => ?_
    exact congrArg Outcome.of (Rule.field_canonical b name)
  | .node span (.index base index) => by
    refine Outcome.bind_canonical (ctx.check_canonical base) fun b => ?_
    refine Outcome.bind_canonical (ctx.check_canonical index) fun i => ?_
    exact congrArg Outcome.of (Rule.index_canonical b i)
  | .node span (.keys map) => by
    refine Outcome.bind_canonical (ctx.check_canonical map) fun m => ?_
    exact congrArg Outcome.of (Rule.keys_canonical m)
  | .node span (.values map) => by
    refine Outcome.bind_canonical (ctx.check_canonical map) fun m => ?_
    exact congrArg Outcome.of (Rule.values_canonical m)
  | .node span (.sizeof collection) => by
    refine Outcome.bind_canonical (ctx.check_canonical collection) fun c => ?_
    exact congrArg Outcome.of (Rule.sizeof_canonical c)
  | .node span (.default ref) => by
    -- the type is made canonical here anyway, and doing so twice is the same
    have ht := congrArg Outcome.of (ctx.scope.resolve_canonical ref)
    exact Outcome.bind_canonical ht fun _ => rfl
  | .node span (.call callee args) => by
    have hf : Rule.callee ctx.canonical.scope span callee args.length = _ :=
      Rule.callee_canonical ctx.scope callee args.length
    refine Outcome.bind_canonical (congrArg Outcome.of hf) fun f => ?_
    refine Outcome.bind_canonical (ctx.checkArgs_canonical [] args) fun as => ?_
    exact congrArg Outcome.of (Rule.call_canonical f as)
  | .node span (.new machine args) => by
    have hm : Rule.constructor ctx.canonical.scope span machine = _ :=
      Rule.constructor_canonical ctx.scope machine
    refine Outcome.bind_canonical (congrArg Outcome.of hm) fun m => ?_
    refine Outcome.bind_canonical (ctx.checkArgs_canonical [] args) fun as => ?_
    exact congrArg Outcome.of (Rule.new_canonical m as)
  | .node span (.cast operand ref) => by
    have ht := congrArg Outcome.of (ctx.scope.resolve_canonical ref)
    refine Outcome.bind_canonical (ctx.check_canonical operand) fun o => ?_
    refine Outcome.bind_canonical ht fun ty => ?_
    exact congrArg Outcome.of (Rule.cast_canonical o ty)
  | .node span (.coerce operand ref) => by
    have ht := congrArg Outcome.of (ctx.scope.resolve_canonical ref)
    refine Outcome.bind_canonical (ctx.check_canonical operand) fun o => ?_
    refine Outcome.bind_canonical ht fun ty => ?_
    exact congrArg Outcome.of (Rule.coerce_canonical o ty)

theorem checkList_canonical (ctx : Context) : ∀ es : List Expr,
    ctx.canonical.checkList es = (ctx.checkList es).canonical (List.map Typed.canonical)
  | [] => rfl
  | e :: es => by
    refine Outcome.bind_canonical (ctx.check_canonical e) fun t => ?_
    exact Outcome.bind_canonical (ctx.checkList_canonical es) fun _ => rfl

theorem checkFields_canonical (ctx : Context) (seen : List String) :
    ∀ fields : List (String × Expr), ctx.canonical.checkFields seen fields =
      (ctx.checkFields seen fields).canonical
        (List.map fun field => (field.1, field.2.canonical))
  | [] => rfl
  | (name, e) :: fields => by
    rw [checkFields, checkFields]
    by_cases hs : name ∈ seen
    · rw [if_pos hs, if_pos hs]
      rfl
    · rw [if_neg hs, if_neg hs]
      refine Outcome.bind_canonical (ctx.check_canonical e) fun t => ?_
      exact Outcome.bind_canonical (ctx.checkFields_canonical (name :: seen) fields) fun _ => rfl

/-- Variables are handed over by name, so aliases do not matter to which were before. -/
theorem checkArgs_canonical (ctx : Context) (taken : List String) : ∀ es : List Expr,
    ctx.canonical.checkArgs taken es =
      (ctx.checkArgs taken es).canonical (List.map Typed.canonical)
  | [] => rfl
  | e :: es => by
    refine Outcome.bind_canonical (ctx.check_canonical e) fun t => ?_
    have hr := congrArg Outcome.of (Rule.relinquish_canonical taken t)
    refine Outcome.bind_canonical hr fun taken' => ?_
    exact Outcome.bind_canonical (ctx.checkArgs_canonical taken' es) fun _ => rfl

end

/-! ## 3. Assignment targets -/

theorem checkLvalue_canonical (ctx : Context) : ∀ target : Lvalue,
    ctx.canonical.checkLvalue target = (ctx.checkLvalue target).canonical Typed.canonical
  | .node span (.var name) => congrArg Outcome.of (Rule.var_canonical ctx.scope name)
  | .node span (.field base name) => by
    refine Outcome.bind_canonical (ctx.checkLvalue_canonical base) fun b => ?_
    exact congrArg Outcome.of (Rule.field_canonical b name)
  | .node span (.component base index) => by
    refine Outcome.bind_canonical (ctx.checkLvalue_canonical base) fun b => ?_
    exact congrArg Outcome.of (Rule.component_canonical b index)
  | .node span (.index base index) => by
    refine Outcome.bind_canonical (ctx.checkLvalue_canonical base) fun b => ?_
    refine Outcome.bind_canonical (ctx.check_canonical index) fun i => ?_
    exact congrArg Outcome.of (Rule.index_canonical b i)

end Context

/-! ## 4. The result -/

/-- **Two verdicts are the same but for aliases**: trees that are equal once every type in them is
canonical, or errors that are. -/
inductive Verdict.SameUpToAliases : Verdict Typed → Verdict Typed → Prop
  | ok {t t' : Typed} : t.canonical = t'.canonical → Verdict.SameUpToAliases (.ok t) (.ok t')
  | error {e e' : TypeError} :
      e.canonical = e'.canonical → Verdict.SameUpToAliases (.error e) (.error e')

theorem Verdict.sameUpToAliases_canonical (v : Verdict Typed) :
    Verdict.SameUpToAliases v (v.canonical Typed.canonical) := by
  cases v with
  | ok t => exact .ok t.canonical_canonical.symm
  | error e => exact .error e.canonical_canonical.symm

/-- **Aliases are transparent.**  In any scope, for any owner, an expression or an assignment
target is accepted or refused as it is when every type in the scope and in the owner is canonical;
what comes out differs in aliases only. -/
theorem Context.aliases_transparent (ctx : Context) :
    (∀ e : Expr, (ctx.check e).verdict.SameUpToAliases (ctx.canonical.check e).verdict) ∧
    ∀ target : Lvalue,
      (ctx.checkLvalue target).verdict.SameUpToAliases (ctx.canonical.checkLvalue target).verdict := by
  constructor
  · intro e
    rw [ctx.check_canonical e]
    exact Verdict.sameUpToAliases_canonical _
  · intro target
    rw [ctx.checkLvalue_canonical target]
    exact Verdict.sameUpToAliases_canonical _

end MachineTyping
