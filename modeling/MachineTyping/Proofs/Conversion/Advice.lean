/-
# Advice on conversions

Two faults come with the advice to convert: operands that are one `int` and one `float`, and a part
of one of these types where the other is wanted.  The advice is read off the types that are in the
error, far away from the rule that was not kept to.  This module says that it is good advice
(`Context.conversion_advice_works`):

* with the operand that is `int` converted, the operator applies;
* with the argument that the error is reported for converted, the whole is accepted, or an argument
  that comes later is reported.

Two things could go wrong with it.  The error might be reported for something that wants more than a
type, as functions do of what is swapped: but what is converted is a node of its own, and no `swap`
any more.  Or the name that is advised might stand for another type: but built-in names come first,
whatever is declared (`Scope.resolve_builtin`).
-/
import MachineTyping.Diagnostic
import MachineTyping.Proofs.Argument.Report

namespace MachineTyping

/-- `e to T`, where `T` is a name.  The conversion stands at `outer`, and the name at `inner`. -/
def Expr.convertedTo (e : Expr) (name : String) (outer inner : Span) : Expr :=
  .node outer (.coerce e (.node inner (.name name)))

/-! ## 1. What is advised -/

theorem Fault.advice?_operands_iff {op : BinaryOp} {lhs rhs : Ty} :
    (Fault.operands op lhs rhs).advice? = some "convert the `int` operand with `x to float`" ↔
      lhs.canonical = .int ∧ rhs.canonical = .float ∨
        lhs.canonical = .float ∧ rhs.canonical = .int := by
  simp only [Fault.advice?]
  split
  · next hl hr => simp [hl, hr]
  · next hl hr => simp [hl, hr]
  · next h₁ h₂ =>
    constructor
    · intro h
      cases h
    · rintro (⟨hl, hr⟩ | ⟨hl, hr⟩)
      · exact absurd hr (h₁ hl)
      · exact absurd hr (h₂ hl)

/-- The advice on a part names the type that is wanted, which is built in and which the part converts
to. -/
theorem Fault.wanted_of_advice? {found : Ty} {expected : List Expectation} {name : String}
    (h : (Fault.mismatch found expected).advice? = some ("use `x to " ++ name ++ "`")) :
    ∃ want, expected = [.type want] ∧ builtinType? name = some want ∧ found.ConvertsTo want := by
  simp only [Fault.advice?] at h
  split at h
  · next hf =>
    have hname : "use `x to " ++ "float" ++ "`" = "use `x to " ++ name ++ "`" := Option.some.inj h
    rw [String.append_left_inj, String.append_right_inj] at hname
    subst hname
    exact ⟨.float, rfl, rfl, Or.inl ⟨hf, rfl⟩⟩
  · next hf =>
    have hname : "use `x to " ++ "int" ++ "`" = "use `x to " ++ name ++ "`" := Option.some.inj h
    rw [String.append_left_inj, String.append_right_inj] at hname
    subst hname
    exact ⟨.int, rfl, rfl, Or.inr (Or.inl ⟨hf, rfl⟩)⟩
  · cases h

theorem Ty.ConvertsTo.ne_bool {source target : Ty} (h : source.ConvertsTo target) :
    target ≠ .bool := by
  rintro rfl
  rcases h with ⟨-, h⟩ | ⟨-, h⟩ | ⟨name, -, h⟩ | ⟨name, -, h⟩ <;> cases h

/-! ## 2. What is converted -/

/-- **Built-in names stand for their types**, whatever is declared. -/
theorem Scope.resolve_builtin {scope : Scope} {span : Span} {name : String} {ty : Ty}
    (h : builtinType? name = some ty) : scope.resolve (.node span (.name name)) = .ok ty := by
  show scope.typeNamed span name = .ok ty
  rw [Scope.typeNamed, h]

namespace Context

variable {ctx : Context} {e lhs rhs : Expr} {l r t : Typed} {op : BinaryOp} {span : Span}
  {x : TypeError}

/-- A conversion to a built-in type is a node of its own, of that type. -/
theorem Checks.convertedTo {name : String} {ty : Ty} (h : ctx.Checks e t)
    (hn : builtinType? name = some ty) (hc : t.ty.ConvertsTo ty) (outer inner : Span) :
    ctx.Checks (e.convertedTo name outer inner) (.node outer ty (.coerce t)) :=
  checks_coerce_iff.mpr ⟨t, h, ty, Scope.resolve_builtin hn, Or.inr ⟨rfl, .coerce hc⟩⟩

/-- Numbers of one type may be operands. -/
theorem exists_checks_numbers (ho : op.family = .arithmetic ∨ op.family = .comparison)
    (hl : ctx.Checks lhs l) (hr : ctx.Checks rhs r) (h : l.ty.SameNumber r.ty) :
    ∃ t, ctx.Checks (.node span (.binary op lhs rhs)) t := by
  have hm : op ≠ .member := by
    rintro rfl
    rcases ho with ho | ho <;> cases ho
  rcases ho with ho | ho
  · exact ⟨_, (checks_binary_iff hm).mpr ⟨l, hl, r, hr, _, rfl, .arithmetic ho h⟩⟩
  · exact ⟨_, (checks_binary_iff hm).mpr ⟨l, hl, r, hr, _, rfl, .comparison ho h⟩⟩

/-- Only operators on numbers report both operands. -/
theorem operands_of_error {op' : BinaryOp} {a b : Ty} (hl : ctx.Checks lhs l)
    (hr : ctx.Checks rhs r)
    (h : (ctx.check (.node span (.binary op lhs rhs))).verdict = .error x)
    (hx : x.fault = .operands op' a b) :
    (op.family = .arithmetic ∨ op.family = .comparison) ∧ a = l.ty ∧ b = r.ty := by
  have hparts : ∀ (layer : Expr.Layer) (part : Expr),
      layer.fill part = .node span (.binary op lhs rhs) → ∃ t, ctx.Checks part t := by
    rintro ⟨_, place⟩ part he
    cases place with
    | left _ _ =>
      cases he
      exact ⟨l, hl⟩
    | right _ _ =>
      cases he
      exact ⟨r, hr⟩
    | _ => cases he
  cases fails_of_parts hparts h with
  | numbers ho hl' hr' _ =>
    cases hx
    obtain rfl := hl.unique hl'
    obtain rfl := hr.unique hr'
    exact ⟨ho, rfl, rfl⟩
  | _ => cases hx

/-! ## 3. The result -/

/-- **Advice on conversions works**, whatever is declared.

If the operands of a binary expression check, and it is refused with the advice to convert the `int`
operand, then one of them is `int` and the other is `float`, and with the former `to float` it is
accepted.

If all parts of an expression check, and it is refused since one is of a wrong type, with the advice
to convert to a type by its name, then there is an argument that this is reported for.  With that
argument `to` the type, the expression is accepted, or an argument that comes later is reported. -/
theorem conversion_advice_works (ctx : Context) :
    (∀ span op lhs rhs l r x, ctx.Checks lhs l → ctx.Checks rhs r →
      (ctx.check (.node span (.binary op lhs rhs))).verdict = .error x →
      (∃ op' a b, x.fault = .operands op' a b) →
      x.fault.advice? = some "convert the `int` operand with `x to float`" →
      l.ty.canonical = .int ∧ r.ty.canonical = .float ∧
          (∀ outer inner, ∃ t,
            ctx.Checks (.node span (.binary op (lhs.convertedTo "float" outer inner) rhs)) t) ∨
        l.ty.canonical = .float ∧ r.ty.canonical = .int ∧
          ∀ outer inner, ∃ t,
            ctx.Checks (.node span (.binary op lhs (rhs.convertedTo "float" outer inner))) t) ∧
    ∀ e x name,
      (∀ (layer : Expr.Layer) part, layer.fill part = e → ∃ t, ctx.Checks part t) →
      (ctx.check e).verdict = .error x →
      (∃ found expected, x.fault = .mismatch found expected) →
      x.fault.advice? = some ("use `x to " ++ name ++ "`") →
      (∃ layer d, layer.fill d = e ∧ ctx.ReportedFor layer d x) ∧
      ∀ layer d, layer.fill d = e → ctx.ReportedFor layer d x → ∀ outer inner,
        (∃ t, ctx.Checks (layer.fill (d.convertedTo name outer inner)) t) ∨
        ∃ later part y, later.fill part = layer.fill (d.convertedTo name outer inner) ∧
          layer.slot.position < later.slot.position ∧ ctx.ReportedFor later part y ∧
          (ctx.check (layer.fill (d.convertedTo name outer inner))).verdict = .error y := by
  constructor
  · rintro span op lhs rhs l r x hl hr h ⟨op', a, b, hx⟩ hadvice
    obtain ⟨ho, rfl, rfl⟩ := operands_of_error hl hr h hx
    rw [hx, Fault.advice?_operands_iff] at hadvice
    have hname : builtinType? "float" = some .float := rfl
    rcases hadvice with ⟨hint, hfloat⟩ | ⟨hfloat, hint⟩
    · refine Or.inl ⟨hint, hfloat, fun outer inner => ?_⟩
      have hl' := hl.convertedTo hname (Or.inl ⟨hint, rfl⟩) outer inner
      exact exists_checks_numbers ho hl' hr (Or.inr ⟨rfl, Ty.kind_eq_float_iff.mpr hfloat⟩)
    · refine Or.inr ⟨hfloat, hint, fun outer inner => ?_⟩
      have hr' := hr.convertedTo hname (Or.inl ⟨hint, rfl⟩) outer inner
      exact exists_checks_numbers ho hl hr' (Or.inr ⟨Ty.kind_eq_float_iff.mpr hfloat, rfl⟩)
  · rintro e x name hparts h ⟨found, expected, hx⟩ hadvice
    rw [hx] at hadvice
    obtain ⟨want, rfl, hname, hconverts⟩ := Fault.wanted_of_advice? hadvice
    refine ⟨(fails_of_parts hparts h).exists_reportedFor hx hconverts.ne_bool, ?_⟩
    intro layer d _ hr outer inner
    obtain ⟨t, ht, rfl⟩ := hr.checks hx
    have hd' := ht.convertedTo hname hconverts outer inner
    rcases hr.mended hx hd' rfl (Ty.accepts_refl want) with hw | ⟨later, part, y, hfill, hpos, hr'⟩
    · exact Or.inl hw
    · exact Or.inr ⟨later, part, y, hfill, hpos, hr', hfill ▸ hr'.refused⟩

/-- In a scope that declares an enum `int` and an alias `float` of `bool`, and where `n` is of type
`int` by another name.  For `n + y` the advice is to convert `n`, and that works.  So it is with
`f(swap n, n)`, where `f` takes two numbers that are `float`: `swap n` is to be converted, and then
`n` is reported. -/
theorem conversion_advice_works_shadowed :
    let count : Ty := .alias "Count" .int
    let n : Variable := ⟨"n", count, none⟩
    let y : Variable := ⟨"y", .float, none⟩
    let f : Function := ⟨⟨"f", [⟨"a", .float⟩, ⟨"b", .float⟩], .null, none⟩, 0⟩
    let ctx : Context := ⟨⟨⟨[("f", .function f), ("y", .var y), ("n", .var n)],
      [("float", .alias "float" .bool), ("int", .enum "int")]⟩, []⟩, none⟩
    let nName : Expr := .node ⟨10, 11⟩ (.name "n")
    let yName : Expr := .node ⟨14, 15⟩ (.name "y")
    let swapN : Expr := .node ⟨2, 8⟩ (.linear .swap "n")
    let sum : Expr := .node ⟨10, 15⟩ (.binary .add nName yName)
    let call : Expr := .node ⟨0, 12⟩ (.call "f" [swapN, nName])
    let layer : Expr.Layer := ⟨⟨0, 12⟩, .arg "f" [] [nName]⟩
    let inSum : TypeError := ⟨.operands .add count .float, ⟨10, 15⟩⟩
    let inCall : TypeError := ⟨.mismatch count [.type .float], ⟨2, 8⟩⟩
    ((ctx.check sum).verdict = .error inSum ∧
      inSum.fault.advice? = some "convert the `int` operand with `x to float`" ∧
      ∃ t, ctx.Checks
        (.node ⟨10, 15⟩ (.binary .add (nName.convertedTo "float" ⟨10, 11⟩ ⟨10, 11⟩) yName)) t) ∧
    (ctx.check call).verdict = .error inCall ∧
    inCall.fault.advice? = some "use `x to float`" ∧ ctx.ReportedFor layer swapN inCall ∧
    ((∃ t, ctx.Checks (layer.fill (swapN.convertedTo "float" ⟨2, 8⟩ ⟨2, 8⟩)) t) ∨
      ∃ later part y, later.fill part = layer.fill (swapN.convertedTo "float" ⟨2, 8⟩ ⟨2, 8⟩) ∧
        0 < later.slot.position ∧ ctx.ReportedFor later part y ∧
        (ctx.check (layer.fill (swapN.convertedTo "float" ⟨2, 8⟩ ⟨2, 8⟩))).verdict = .error y) := by
  intro count n y f ctx nName yName swapN sum call layer inSum inCall
  have hn : ctx.Checks nName (.node ⟨10, 11⟩ count (.var n)) := rfl
  have hy : ctx.Checks yName (.node ⟨14, 15⟩ .float (.var y)) := rfl
  have hswap : ctx.Checks swapN (.node ⟨2, 8⟩ count (.linear .swap n)) := rfl
  have hsum : (ctx.check sum).verdict = .error inSum := rfl
  have hcall : (ctx.check call).verdict = .error inCall := rfl
  have hparts : ∀ (layer : Expr.Layer) part, layer.fill part = call → ∃ t, ctx.Checks part t := by
    rintro ⟨_, place⟩ part he
    have he : Expr.node _ (place.fill part) = .node ⟨0, 12⟩ (.call "f" [swapN, nName]) := he
    cases place with
    | arg callee before after =>
      have hargs : before ++ part :: after = [swapN, nName] := by
        injection he with _ he
        injection he
      have hm : part ∈ [swapN, nName] := hargs ▸ List.mem_append_right _ List.mem_cons_self
      rcases List.mem_pair.mp hm with rfl | rfl
      · exact ⟨_, hswap⟩
      · exact ⟨_, hn⟩
    | _ => cases he
  have hreported : ctx.ReportedFor layer swapN inCall := by
    have hf : ctx.scope.lookup "f" = some (.function f) := rfl
    have hw : ctx.Wants (.arg "f" [] [nName]) ([] ++ .float :: [.float]) .null [] [_] :=
      .arg hf .nil (.cons hn .nil)
    refine .misfit hw hswap (by decide) .nil (fun h => ?_) rfl
    exact absurd h.accepts (by decide)
  obtain ⟨hoperands, hparameters⟩ := conversion_advice_works ctx
  refine ⟨⟨hsum, rfl, ?_⟩, hcall, rfl, hreported, ?_⟩
  · rcases hoperands _ _ _ _ _ _ _ hn hy hsum ⟨_, _, _, rfl⟩ rfl with ⟨-, -, h⟩ | ⟨h, -⟩
    · exact h ⟨10, 11⟩ ⟨10, 11⟩
    · cases h
  · have hadvice : inCall.fault.advice? = some ("use `x to " ++ "float" ++ "`") := rfl
    exact (hparameters _ _ _ hparts hcall ⟨_, _, rfl⟩ hadvice).2 layer swapN rfl hreported _ _

end Context

end MachineTyping
