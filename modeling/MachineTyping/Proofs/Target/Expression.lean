/-
# Assignment targets as expressions

An assignment target is written like an expression: `x`, `t.x`, `t.0` and `t[i]` are forms of
both.  `Lvalue.toExpr` is the expression that a target reads as, span for span.  The two are
checked by two recursions, and this module compares them:

* if the root of the target is a variable, target and expression come to the same outcome: tree,
  error and choices met (`checkLvalue_eq_check`);
* if it is not, the target is refused at its root, before anything else in it is looked at
  (`checkLvalue_eq_undeclared`).

So all that sets a target apart is its root, where an expression also admits enum elements and
events.  `checkLvalue_by_root` puts the halves together.
-/
import MachineTyping.Checker

namespace MachineTyping

/-! ## 1. Reading a target as an expression -/

mutual

/-- The expression that a target reads as.  It has the target's spans, and index expressions are
taken over. -/
def Lvalue.toExpr : Lvalue → Expr
  | .node span form => .node span form.toExpr

/-- The form of expression that a form of target reads as. -/
def Lvalue.Form.toExpr : Lvalue.Form → Expr.Form
  | .var name => .name name
  | .field base name => .field base.toExpr name
  | .component base index => .component base.toExpr index
  | .index base index => .index base.toExpr index

end

/-- Where a target starts: the variable that is assigned to, or to a part of. -/
structure Lvalue.Root where
  name : String
  span : Span
deriving DecidableEq, Repr

mutual

/-- The root of a target. -/
def Lvalue.root : Lvalue → Lvalue.Root
  | .node span form => form.root span

/-- The root of a form of target that stands at `span`. -/
def Lvalue.Form.root (span : Span) : Lvalue.Form → Lvalue.Root
  | .var name => ⟨name, span⟩
  | .field base _ | .component base _ | .index base _ => base.root

end

/-! ## 2. Rules at the root -/

/-- A name that is a variable's is the same as a target and as an expression. -/
theorem Rule.var_eq_name {scope : Scope} {span : Span} {name : String} {v : Variable}
    (h : scope.lookup name = some (.var v)) : Rule.var scope span name = Rule.name scope span name := by
  have hv : scope.lookupVar name = some v := by
    unfold Scope.lookupVar
    rw [h]
  unfold Rule.var Rule.name
  rw [hv, h]

/-- A name that is not a variable's is refused as a target. -/
theorem Rule.var_eq_undeclared {scope : Scope} {span : Span} {name : String}
    (h : ∀ v, scope.lookup name ≠ some (.var v)) :
    Rule.var scope span name = .error ⟨.undeclared (.one .var) name, span⟩ := by
  have hv : scope.lookupVar name = none := by
    unfold Scope.lookupVar
    split
    · rename_i v hv
      exact absurd hv (h v)
    · rfl
  unfold Rule.var
  rw [hv]

/-- An error ends a sequence, and nothing more is met. -/
theorem Outcome.error_bind {α β : Type} (e : TypeError) (f : α → Outcome β) :
    (Outcome.of (.error e) >>= f) = .of (.error e) := rfl

namespace Context

variable {ctx : Context}

/-! ## 3. Targets of variables -/

/-- **Below a variable, a target is checked like the expression it reads as.** -/
theorem checkLvalue_eq_check {v : Variable} : ∀ target : Lvalue,
    ctx.scope.lookup target.root.name = some (.var v) →
      ctx.checkLvalue target = ctx.check target.toExpr
  | .node span (.var name), h => congrArg Outcome.of (Rule.var_eq_name h)
  | .node span (.field base name), h => by
    have ih : ctx.checkLvalue base = ctx.check base.toExpr := checkLvalue_eq_check base h
    calc ctx.checkLvalue (.node span (.field base name))
        = (ctx.checkLvalue base >>= fun b => .of (Rule.field span b name)) := rfl
      _ = (ctx.check base.toExpr >>= fun b => .of (Rule.field span b name)) := by rw [ih]
  | .node span (.component base index), h => by
    have ih : ctx.checkLvalue base = ctx.check base.toExpr := checkLvalue_eq_check base h
    calc ctx.checkLvalue (.node span (.component base index))
        = (ctx.checkLvalue base >>= fun b => .of (Rule.component span b index)) := rfl
      _ = (ctx.check base.toExpr >>= fun b => .of (Rule.component span b index)) := by rw [ih]
  | .node span (.index base index), h => by
    have ih : ctx.checkLvalue base = ctx.check base.toExpr := checkLvalue_eq_check base h
    calc ctx.checkLvalue (.node span (.index base index))
        = (ctx.checkLvalue base >>= fun b => ctx.check index >>= fun i =>
            .of (Rule.index span b i)) := rfl
      _ = (ctx.check base.toExpr >>= fun b => ctx.check index >>= fun i =>
            .of (Rule.index span b i)) := by rw [ih]

/-! ## 4. Targets of anything else -/

/-- **A target that does not start at a variable is refused there**, and no choice is met: the
root comes first, and what surrounds it is not looked at. -/
theorem checkLvalue_eq_undeclared : ∀ target : Lvalue,
    (∀ v, ctx.scope.lookup target.root.name ≠ some (.var v)) →
      ctx.checkLvalue target =
        .of (.error ⟨.undeclared (.one .var) target.root.name, target.root.span⟩)
  | .node span (.var name), h => congrArg Outcome.of (Rule.var_eq_undeclared h)
  | .node span (.field base name), h => by
    have ih := checkLvalue_eq_undeclared base h
    calc ctx.checkLvalue (.node span (.field base name))
        = (ctx.checkLvalue base >>= fun b => .of (Rule.field span b name)) := rfl
      _ = .of (.error ⟨.undeclared (.one .var) base.root.name, base.root.span⟩) := by
        rw [ih, Outcome.error_bind]
  | .node span (.component base index), h => by
    have ih := checkLvalue_eq_undeclared base h
    calc ctx.checkLvalue (.node span (.component base index))
        = (ctx.checkLvalue base >>= fun b => .of (Rule.component span b index)) := rfl
      _ = .of (.error ⟨.undeclared (.one .var) base.root.name, base.root.span⟩) := by
        rw [ih, Outcome.error_bind]
  | .node span (.index base index), h => by
    have ih := checkLvalue_eq_undeclared base h
    calc ctx.checkLvalue (.node span (.index base index))
        = (ctx.checkLvalue base >>= fun b => ctx.check index >>= fun i =>
            .of (Rule.index span b i)) := rfl
      _ = .of (.error ⟨.undeclared (.one .var) base.root.name, base.root.span⟩) := by
        rw [ih, Outcome.error_bind]

/-! ## 5. The result -/

/-- **Targets and expressions differ at the root only.**  If the root of a target is bound to a
variable, checking the target is checking the expression that it reads as, choices included.
Otherwise the target is refused: there is no variable of that name, which is reported where the
name stands, and no choice is met. -/
theorem checkLvalue_by_root (ctx : Context) (target : Lvalue) :
    ((∃ v, ctx.scope.lookup target.root.name = some (.var v)) →
      ctx.checkLvalue target = ctx.check target.toExpr) ∧
    ((¬ ∃ v, ctx.scope.lookup target.root.name = some (.var v)) →
      (ctx.checkLvalue target).verdict =
        .error ⟨.undeclared (.one .var) target.root.name, target.root.span⟩ ∧
      (ctx.checkLvalue target).choice = false) := by
  constructor
  · rintro ⟨v, hv⟩
    exact checkLvalue_eq_check target hv
  · intro h
    rw [checkLvalue_eq_undeclared target fun v hv => h ⟨v, hv⟩]
    exact ⟨rfl, rfl⟩

/-- Both halves, with a choice as the index: `m[$].0` is refused for its index, after the choice
was met, whether it is assigned to or read; `halt[$].0` is refused as a target before that. -/
theorem checkLvalue_by_root_choice :
    let pairs : Ty := .map .int (.tuple [.bool])
    let ctx : Context := ⟨(Scope.initial.declare (.symbol (.var ⟨"m", pairs, none⟩))).1, none⟩
    let at0 (base : Lvalue) : Lvalue :=
      .node ⟨0, 8⟩ (.component (.node ⟨0, 6⟩ (.index base (.node ⟨4, 5⟩ .choice))) "0")
    let m : Lvalue := at0 (.node ⟨0, 1⟩ (.var "m"))
    let halt : Lvalue := at0 (.node ⟨0, 4⟩ (.var "halt"))
    ctx.checkLvalue m = ctx.check m.toExpr ∧
    ctx.check m.toExpr = ⟨.error ⟨.mismatch .bool [.type .int], ⟨4, 5⟩⟩, true⟩ ∧
    (ctx.checkLvalue halt).verdict = .error ⟨.undeclared (.one .var) "halt", ⟨0, 4⟩⟩ ∧
    (ctx.checkLvalue halt).choice = false := by
  intro pairs ctx at0 m halt
  have hm : ∃ v, ctx.scope.lookup m.root.name = some (.var v) := ⟨⟨"m", pairs, none⟩, rfl⟩
  have hh : ¬ ∃ v, ctx.scope.lookup halt.root.name = some (.var v) := by
    rintro ⟨v, hv⟩
    have he : ctx.scope.lookup halt.root.name = some (.event .halt) := rfl
    rw [he] at hv
    cases hv
  exact ⟨(checkLvalue_by_root ctx m).1 hm, rfl, (checkLvalue_by_root ctx halt).2 hh⟩

end Context

end MachineTyping
