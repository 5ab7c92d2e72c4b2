/-
# Where errors and choices come from

An error is found at one expression, with everything before it checked.  `ctx.Fails e x` says that
`e` is where `x` is found: all that was checked of `e` by then checks, and now something about `e`
itself is wrong.  It has one constructor for everything that can be wrong, with the conditions that
come before it in the order of checking among its own:

* operands, elements, fields and arguments come left to right, and before the node's own rule;
* the operand of `as` and `to` comes before the written type;
* a call asks for its function, then counts its arguments, then has them all checked, and then
  looks for the first that may not be passed;
* a constructor asks for its machine, then has its arguments checked, then looks at the payload;
* a named tuple asks for each field whether it is repeated, and then has its value checked;
* `in` asks for a map, and then whether its keys accept the key.

Choices are simpler, they come from `$` and `$$`.  Every incident is raised somewhere, by an
expression that is reached (`shows_iff`).  The proof has a step for one node and an induction on
parts; that a node does nothing but what is written here is the step.
-/
import MachineTyping.Proofs.Part.Reach

namespace MachineTyping

/-- The expression is `$` or `$$`. -/
def Expr.IsChoice (e : Expr) : Prop := e.form = .choice ∨ e.form = .fairChoice

namespace Context

/-! ## 1. What can be wrong with an expression itself -/

/-- **The error is found at the expression itself**, after what comes before it has passed. -/
inductive Fails (ctx : Context) : Expr → TypeError → Prop
  | int {span : Span} {text : String} : integerOfText? text = none →
      Fails ctx (.node span (.int text)) ⟨.badNumber text, span⟩
  | decimal {span : Span} {whole : Option String} {fraction : String} :
      Binary64.ofDecimal? (whole.getD "") fraction = none →
      Fails ctx (.node span (.float (.decimal whole fraction)))
        ⟨.badNumber (whole.getD "" ++ "." ++ fraction), span⟩
  | exponent {span : Span} {base power : String} :
      Fails ctx (.node span (.float (.exponent base power))) ⟨.exponentLiteral, span⟩
  | name {span : Span} {name : String} :
      (∀ symbol, ctx.scope.lookup name = some symbol → ¬ symbol.IsValue) →
      Fails ctx (.node span (.name name)) ⟨.undeclared .value name, span⟩
  | halt {span : Span} : (∀ e, ctx.scope.lookup Event.haltName ≠ some (.event e)) →
      Fails ctx (.node span .halt) ⟨.undeclared (.one .event) Event.haltName, span⟩
  | self {span : Span} : ctx.owner = none → Fails ctx (.node span .self) ⟨.misplacedSelf, span⟩
  | linear {span : Span} {mode : LinearMode} {name : String} :
      (∀ v, ctx.scope.lookup name ≠ some (.var v)) →
      Fails ctx (.node span (.linear mode name)) ⟨.undeclared (.one .var) name, span⟩
  | default {span : Span} {ref : TypeRef} {x : TypeError} : ctx.scope.resolve ref = .error x →
      Fails ctx (.node span (.default ref)) x
  | neg {span : Span} {e : Expr} {t : Typed} : ctx.Checks e t →
      ¬ (t.ty.kind = .int ∨ t.ty.kind = .float) →
      Fails ctx (.node span (.unary .neg e)) (t.mismatch [.type .int, .type .float])
  | not {span : Span} {e : Expr} {t : Typed} : ctx.Checks e t → t.ty.kind ≠ .bool →
      Fails ctx (.node span (.unary .not e)) (t.mismatch [.type .bool])
  | numbers {span : Span} {op : BinaryOp} {lhs rhs : Expr} {l r : Typed} :
      op.family = .arithmetic ∨ op.family = .comparison → ctx.Checks lhs l → ctx.Checks rhs r →
      ¬ l.ty.SameNumber r.ty →
      Fails ctx (.node span (.binary op lhs rhs)) ⟨.operands op l.ty r.ty, span⟩
  | equality {span : Span} {op : BinaryOp} {lhs rhs : Expr} {l r : Typed} :
      op.family = .equality → ctx.Checks lhs l → ctx.Checks rhs r → ¬ l.ty.Comparable r.ty →
      Fails ctx (.node span (.binary op lhs rhs)) ⟨.incomparable l.ty r.ty, span⟩
  /-- Of the operands of `&&` and `||` the left one is looked at first. -/
  | logicalLeft {span : Span} {op : BinaryOp} {lhs rhs : Expr} {l r : Typed} :
      op.family = .logical → ctx.Checks lhs l → ctx.Checks rhs r → l.ty.kind ≠ .bool →
      Fails ctx (.node span (.binary op lhs rhs)) (l.mismatch [.type .bool])
  | logicalRight {span : Span} {op : BinaryOp} {lhs rhs : Expr} {l r : Typed} :
      op.family = .logical → ctx.Checks lhs l → ctx.Checks rhs r → l.ty.kind = .bool →
      r.ty.kind ≠ .bool → Fails ctx (.node span (.binary op lhs rhs)) (r.mismatch [.type .bool])
  /-- `in` looks at the map first... -/
  | memberMap {span : Span} {key map : Expr} {k m : Typed} :
      ctx.Checks key k → ctx.Checks map m → m.ty.kind ≠ .map →
      Fails ctx (.node span (.binary .member key map)) (m.mismatch [.kind .map])
  /-- ...and then at the key. -/
  | memberKey {span : Span} {key map : Expr} {k m : Typed} {keyTy value : Ty} :
      ctx.Checks key k → ctx.Checks map m → m.ty.canonical = .map keyTy value →
      keyTy.accepts k.ty = false →
      Fails ctx (.node span (.binary .member key map)) (k.mismatch [.type keyTy])
  /-- The values before the repeated field check; the one of the repeated field is not looked
  at, but the error is reported where it stands. -/
  | repeated {span : Span} {before after : List (String × Expr)} {name : String} {e : Expr}
      {ts : List Typed} : (before.map Prod.fst).Nodup →
      List.Forall₂ ctx.Checks (before.map Prod.snd) ts → name ∈ before.map Prod.fst →
      Fails ctx (.node span (.named (before ++ (name, e) :: after))) ⟨.repeatedField name, e.span⟩
  | component {span : Span} {base : Expr} {index : String} {b : Typed} : ctx.Checks base b →
      b.ty.kind ≠ .tuple →
      Fails ctx (.node span (.component base index)) (b.mismatch [.kind .tuple])
  | outOfBounds {span : Span} {base : Expr} {index : String} {b : Typed} {elems : List Ty} :
      ctx.Checks base b → b.ty.canonical = .tuple elems →
      (∀ position, naturalOfChars? index.toList = some position → elems.length ≤ position) →
      Fails ctx (.node span (.component base index)) ⟨.outOfBounds index b.ty, span⟩
  | field {span : Span} {base : Expr} {name : String} {b : Typed} : ctx.Checks base b →
      b.ty.kind ≠ .named → Fails ctx (.node span (.field base name)) (b.mismatch [.kind .named])
  | noField {span : Span} {base : Expr} {name : String} {b : Typed}
      {fields : List (String × Ty)} :
      ctx.Checks base b → b.ty.canonical = .named fields → fields.lookup name = none →
      Fails ctx (.node span (.field base name)) ⟨.noField name b.ty, span⟩
  | index {span : Span} {base index : Expr} {b i : Typed} :
      ctx.Checks base b → ctx.Checks index i → b.ty.kind ≠ .seq → b.ty.kind ≠ .map →
      Fails ctx (.node span (.index base index)) (b.mismatch [.kind .seq, .kind .map])
  | seqIndex {span : Span} {base index : Expr} {b i : Typed} :
      ctx.Checks base b → ctx.Checks index i → b.ty.kind = .seq → i.ty.kind ≠ .int →
      Fails ctx (.node span (.index base index)) (i.mismatch [.type .int])
  | mapIndex {span : Span} {base index : Expr} {b i : Typed} {key value : Ty} :
      ctx.Checks base b → ctx.Checks index i → b.ty.canonical = .map key value →
      key.accepts i.ty = false →
      Fails ctx (.node span (.index base index)) (i.mismatch [.type key])
  | keys {span : Span} {e : Expr} {t : Typed} : ctx.Checks e t → t.ty.kind ≠ .map →
      Fails ctx (.node span (.keys e)) (t.mismatch [.kind .map])
  | values {span : Span} {e : Expr} {t : Typed} : ctx.Checks e t → t.ty.kind ≠ .map →
      Fails ctx (.node span (.values e)) (t.mismatch [.kind .map])
  | sizeof {span : Span} {e : Expr} {t : Typed} : ctx.Checks e t → t.ty.kind ≠ .seq →
      t.ty.kind ≠ .map → Fails ctx (.node span (.sizeof e)) (t.mismatch [.kind .seq, .kind .map])
  | callee {span : Span} {callee : String} {args : List Expr} :
      (∀ f, ctx.scope.lookup callee ≠ some (.function f)) →
      Fails ctx (.node span (.call callee args)) ⟨.undeclared (.one .function) callee, span⟩
  | argumentCount {span : Span} {callee : String} {args : List Expr} {f : Function} :
      ctx.scope.lookup callee = some (.function f) → args.length ≠ f.params.length →
      Fails ctx (.node span (.call callee args))
        ⟨.argumentCount f.params.length args.length, span⟩
  | argHandedOver {span : Span} {callee : String} {before after : List Expr} {e : Expr}
      {ts : List Typed} {t : Typed} {mode : LinearMode} {v : Variable} :
      ctx.Enters (.arg callee before after) → ctx.Admits before ts → ctx.Checks e t →
      t.handover? = some (mode, v) → v.name ∈ Typed.handed ts →
      Fails ctx (.node span (.call callee (before ++ e :: after))) ⟨.relinquished v.name, t.span⟩
  /-- Parameters are matched from left to right. -/
  | parameter {span : Span} {callee : String} {args : List Expr} {f : Function}
      {ts : List Typed} {param : Parameter} {t : Typed} :
      ctx.scope.lookup callee = some (.function f) → args.length = f.params.length →
      ctx.Admits args ts → FirstMisfit Parameter.Takes f.params ts param t →
      Fails ctx (.node span (.call callee args)) (t.mismatch [.type param.ty])
  | machine {span : Span} {machine : String} {args : List Expr} :
      (∀ m, ctx.scope.lookup machine ≠ some (.machine m)) →
      Fails ctx (.node span (.new machine args)) ⟨.undeclared (.one .machine) machine, span⟩
  | newArgHandedOver {span : Span} {machine : String} {before after : List Expr} {e : Expr}
      {ts : List Typed} {t : Typed} {mode : LinearMode} {v : Variable} :
      ctx.Enters (.newArg machine before after) → ctx.Admits before ts → ctx.Checks e t →
      t.handover? = some (mode, v) → v.name ∈ Typed.handed ts →
      Fails ctx (.node span (.new machine (before ++ e :: after))) ⟨.relinquished v.name, t.span⟩
  | payload {span : Span} {machine : String} {args : List Expr} {m : Machine} {ts : List Typed}
      {x : TypeError} : ctx.scope.lookup machine = some (.machine m) → ctx.Admits args ts →
      m.payload.Refuses span ts x → Fails ctx (.node span (.new machine args)) x
  | castType {span : Span} {e : Expr} {ref : TypeRef} {t : Typed} {x : TypeError} :
      ctx.Checks e t → ctx.scope.resolve ref = .error x → Fails ctx (.node span (.cast e ref)) x
  | cast {span : Span} {e : Expr} {ref : TypeRef} {t : Typed} {ty : Ty} : ctx.Checks e t →
      ctx.scope.resolve ref = .ok ty → ¬ t.ty.Comparable ty →
      Fails ctx (.node span (.cast e ref)) ⟨.incomparable t.ty ty, span⟩
  | coerceType {span : Span} {e : Expr} {ref : TypeRef} {t : Typed} {x : TypeError} :
      ctx.Checks e t → ctx.scope.resolve ref = .error x →
      Fails ctx (.node span (.coerce e ref)) x
  | coerce {span : Span} {e : Expr} {ref : TypeRef} {t : Typed} {ty : Ty} : ctx.Checks e t →
      ctx.scope.resolve ref = .ok ty → ¬ t.ty.SameScalar ty → ¬ t.ty.ConvertsTo ty →
      Fails ctx (.node span (.coerce e ref)) ⟨.incomparable t.ty ty, span⟩

/-! ## 2. Incidents are raised -/

/-- **The incident is raised at the expression itself.** -/
def Raises (ctx : Context) (e : Expr) : Incident → Prop
  | .error x => ctx.Fails e x
  | .choice => e.IsChoice

variable {ctx : Context} {i : Incident}

/-- What fails is refused, with that error. -/
theorem Fails.shows {e : Expr} {x : TypeError} (h : ctx.Fails e x) :
    (ctx.check e).Shows (.error x) := by
  cases h with
  | int h => exact Rule.int_eq_error_iff.mpr ⟨h, rfl⟩
  | decimal h => exact Rule.decimal_eq_error_iff.mpr ⟨h, rfl⟩
  | exponent => rfl
  | name h => exact Rule.name_eq_error_iff.mpr ⟨h, rfl⟩
  | halt h => exact Rule.halt_eq_error_iff.mpr ⟨h, rfl⟩
  | self h => exact Rule.self_eq_error_iff.mpr ⟨h, rfl⟩
  | linear h => exact Rule.linear_eq_error_iff.mpr ⟨h, rfl⟩
  | default h => exact Outcome.shows_error h
  | neg ht h => exact Outcome.shows_after ht (Rule.neg_eq_error_iff.mpr ⟨h, rfl⟩)
  | not ht h => exact Outcome.shows_after ht (Rule.not_eq_error_iff.mpr ⟨h, rfl⟩)
  | numbers ho hl hr h =>
    refine Outcome.shows_after hl (Outcome.shows_after hr ?_)
    exact (Rule.numbers_eq_error_iff ho).mpr ⟨h, rfl⟩
  | equality ho hl hr h =>
    refine Outcome.shows_after hl (Outcome.shows_after hr ?_)
    exact (Rule.equality_eq_error_iff ho).mpr ⟨h, rfl⟩
  | logicalLeft ho hl hr h =>
    refine Outcome.shows_after hl (Outcome.shows_after hr ?_)
    exact (Rule.logical_eq_error_iff ho).mpr (Or.inl ⟨h, rfl⟩)
  | logicalRight ho hl hr hb h =>
    refine Outcome.shows_after hl (Outcome.shows_after hr ?_)
    exact (Rule.logical_eq_error_iff ho).mpr (Or.inr ⟨hb, h, rfl⟩)
  | memberMap hk hm h =>
    refine Outcome.shows_after hk (Outcome.shows_after hm ?_)
    exact Rule.hasKey_eq_error_iff.mpr (Or.inl ⟨h, rfl⟩)
  | memberKey hk hm hc h =>
    refine Outcome.shows_after hk (Outcome.shows_after hm ?_)
    exact Rule.hasKey_eq_error_iff.mpr (Or.inr ⟨_, _, hc, h, rfl⟩)
  | @repeated _ before after name e ts hd hts hn =>
    have hs : (ctx.checkFields [] (before ++ (name, e) :: after)).Shows
        (.error ⟨.repeatedField name, e.span⟩) :=
      shows_checkFields_iff.mpr ⟨before, name, e, after, ts, rfl, hts, fresh_of_none.mpr hd,
        Or.inl ⟨by simpa using hn, rfl⟩⟩
    exact hs.bind
  | component hb h =>
    exact Outcome.shows_after hb (Rule.component_eq_error_iff.mpr (Or.inl ⟨h, rfl⟩))
  | outOfBounds hb hc h =>
    exact Outcome.shows_after hb (Rule.component_eq_error_iff.mpr (Or.inr ⟨_, hc, h, rfl⟩))
  | field hb h => exact Outcome.shows_after hb (Rule.field_eq_error_iff.mpr (Or.inl ⟨h, rfl⟩))
  | noField hb hc h =>
    exact Outcome.shows_after hb (Rule.field_eq_error_iff.mpr (Or.inr ⟨_, hc, h, rfl⟩))
  | index hb hi hs hm =>
    refine Outcome.shows_after hb (Outcome.shows_after hi ?_)
    exact Rule.index_eq_error_iff.mpr (Or.inl ⟨hs, hm, rfl⟩)
  | seqIndex hb hi hs h =>
    refine Outcome.shows_after hb (Outcome.shows_after hi ?_)
    exact Rule.index_eq_error_iff.mpr (Or.inr (Or.inl ⟨hs, h, rfl⟩))
  | mapIndex hb hi hc h =>
    refine Outcome.shows_after hb (Outcome.shows_after hi ?_)
    exact Rule.index_eq_error_iff.mpr (Or.inr (Or.inr ⟨_, _, hc, h, rfl⟩))
  | keys ht h => exact Outcome.shows_after ht (Rule.keys_eq_error_iff.mpr ⟨h, rfl⟩)
  | values ht h => exact Outcome.shows_after ht (Rule.values_eq_error_iff.mpr ⟨h, rfl⟩)
  | sizeof ht hs hm => exact Outcome.shows_after ht (Rule.sizeof_eq_error_iff.mpr ⟨hs, hm, rfl⟩)
  | callee h =>
    exact Outcome.shows_error (Rule.callee_eq_error_iff.mpr (Or.inl ⟨h, rfl⟩))
  | argumentCount hf hc =>
    exact Outcome.shows_error (Rule.callee_eq_error_iff.mpr (Or.inr ⟨_, hf, hc, rfl⟩))
  | argHandedOver hl hts ht hv hm =>
    obtain ⟨⟨f, hf, hc⟩, -⟩ := hl
    refine Outcome.shows_after (Rule.callee_eq_ok_iff.mpr ⟨hf, by simpa using hc⟩) ?_
    exact (hts.shows_relinquished ht hv hm).bind
  | parameter hf hc hts h =>
    have hs := admits_iff.mp hts
    refine Outcome.shows_after (Rule.callee_eq_ok_iff.mpr ⟨hf, hc⟩) (Outcome.shows_after hs ?_)
    exact Rule.call_eq_error_iff.mpr ⟨_, _, h, rfl⟩
  | machine h =>
    exact Outcome.shows_error (Rule.constructor_eq_error_iff.mpr ⟨h, rfl⟩)
  | newArgHandedOver hl hts ht hv hm =>
    obtain ⟨⟨m, hm'⟩, -⟩ := hl
    refine Outcome.shows_after (Rule.constructor_eq_ok_iff.mpr hm') ?_
    exact (hts.shows_relinquished ht hv hm).bind
  | payload hm hts h =>
    have hs := admits_iff.mp hts
    refine Outcome.shows_after (Rule.constructor_eq_ok_iff.mpr hm) (Outcome.shows_after hs ?_)
    exact Rule.new_eq_error_iff.mpr h
  | castType ht h => exact Outcome.shows_after ht (Outcome.shows_error h)
  | cast ht hr h =>
    refine Outcome.shows_after ht (Outcome.shows_after hr ?_)
    exact Rule.cast_eq_error_iff.mpr ⟨h, rfl⟩
  | coerceType ht h => exact Outcome.shows_after ht (Outcome.shows_error h)
  | coerce ht hr hs hc =>
    refine Outcome.shows_after ht (Outcome.shows_after hr ?_)
    exact Rule.coerce_eq_error_iff.mpr ⟨hs, hc, rfl⟩

/-- What is raised happens. -/
theorem Raises.shows {e : Expr} (h : ctx.Raises e i) : (ctx.check e).Shows i := by
  cases i with
  | error x => exact Fails.shows h
  | choice =>
    obtain ⟨span, form⟩ := e
    rcases h with rfl | rfl <;> rfl

/-- An incident of an expression is raised there, or happens in a part that is entered. -/
def Arises (ctx : Context) (e : Expr) (i : Incident) : Prop :=
  ctx.Raises e i ∨ ∃ (layer : Expr.Layer) (d : Expr),
    layer.fill d = e ∧ ctx.Enters layer.slot ∧ (ctx.check d).Shows i

section Steps

variable {span : Span}

theorem Arises.here {e : Expr} {x : TypeError} (h : ctx.Fails e x) : ctx.Arises e (.error x) :=
  Or.inl h

theorem Arises.part (slot : Expr.Slot) {d : Expr} (hs : ctx.Enters slot)
    (h : (ctx.check d).Shows i) : ctx.Arises (.node span (slot.fill d)) i :=
  Or.inr ⟨⟨span, slot⟩, d, rfl, hs, h⟩

/-- A form with one part: the incident is in the part, or in the rule after it. -/
theorem arises_of_one (slot : Expr.Slot) {d : Expr} {f : Typed → Verdict Typed}
    (hs : ctx.Enters slot) (h : (ctx.check d >>= fun t => .of (f t)).Shows i)
    (own : ∀ t x, ctx.Checks d t → f t = .error x → ctx.Fails (.node span (slot.fill d)) x) :
    ctx.Arises (.node span (slot.fill d)) i := by
  rcases Outcome.shows_bind_iff.mp h with h | ⟨t, ht, h⟩
  · exact .part slot hs h
  · obtain ⟨x, rfl, hx⟩ := Outcome.shows_of_iff.mp h
    exact .here (own t x ht hx)

end Steps

/-- **A node does nothing else**: what happens while an expression is checked is raised there, or
happens in a part that is entered. -/
theorem arises_of_shows : ∀ {e : Expr}, (ctx.check e).Shows i → ctx.Arises e i
  | .node span (.name name), h => by
    obtain ⟨x, rfl, hx⟩ := Outcome.shows_of_iff.mp h
    obtain ⟨hn, rfl⟩ := Rule.name_eq_error_iff.mp hx
    exact .here (.name hn)
  | .node span (.int text), h => by
    obtain ⟨x, rfl, hx⟩ := Outcome.shows_of_iff.mp h
    obtain ⟨hn, rfl⟩ := Rule.int_eq_error_iff.mp hx
    exact .here (.int hn)
  | .node span (.float (.decimal whole fraction)), h => by
    obtain ⟨x, rfl, hx⟩ := Outcome.shows_of_iff.mp h
    obtain ⟨hn, rfl⟩ := Rule.decimal_eq_error_iff.mp hx
    exact .here (.decimal hn)
  | .node span (.float (.exponent base power)), h => by
    obtain ⟨x, rfl, hx⟩ := Outcome.shows_of_iff.mp h
    cases hx
    exact .here .exponent
  | .node span (.bool _), h | .node span .null, h => absurd h Outcome.not_shows_ok
  | .node span .choice, h => by
    cases i with
    | error x => cases h
    | choice => exact Or.inl (Or.inl rfl)
  | .node span .fairChoice, h => by
    cases i with
    | error x => cases h
    | choice => exact Or.inl (Or.inr rfl)
  | .node span .halt, h => by
    obtain ⟨x, rfl, hx⟩ := Outcome.shows_of_iff.mp h
    obtain ⟨hn, rfl⟩ := Rule.halt_eq_error_iff.mp hx
    exact .here (.halt hn)
  | .node span .self, h => by
    obtain ⟨x, rfl, hx⟩ := Outcome.shows_of_iff.mp h
    obtain ⟨hn, rfl⟩ := Rule.self_eq_error_iff.mp hx
    exact .here (.self hn)
  | .node span (.linear mode name), h => by
    obtain ⟨x, rfl, hx⟩ := Outcome.shows_of_iff.mp h
    obtain ⟨hn, rfl⟩ := Rule.linear_eq_error_iff.mp hx
    exact .here (.linear hn)
  | .node span (.unary op e), h => by
    refine arises_of_one (.operand op) trivial h fun t x ht hx => ?_
    cases op with
    | neg =>
      obtain ⟨hn, rfl⟩ := Rule.neg_eq_error_iff.mp hx
      exact .neg ht hn
    | not =>
      obtain ⟨hn, rfl⟩ := Rule.not_eq_error_iff.mp hx
      exact .not ht hn
  | .node span (.binary op lhs rhs), h => by
    rcases Outcome.shows_bind_iff.mp h with h | ⟨l, hl, h⟩
    · exact .part (.left op rhs) trivial h
    · refine arises_of_one (.right op lhs) ⟨l, hl⟩ h fun r x hr hx => ?_
      cases ho : op.family with
      | membership =>
        have hop : op = .member := by cases op <;> simp_all [BinaryOp.family]
        subst hop
        rcases Rule.hasKey_eq_error_iff.mp hx with ⟨hm, rfl⟩ | ⟨keyTy, value, hm, hk, rfl⟩
        · exact .memberMap hl hr hm
        · exact .memberKey hl hr hm hk
      | arithmetic =>
        obtain ⟨hn, rfl⟩ := (Rule.numbers_eq_error_iff (Or.inl ho)).mp hx
        exact .numbers (Or.inl ho) hl hr hn
      | comparison =>
        obtain ⟨hn, rfl⟩ := (Rule.numbers_eq_error_iff (Or.inr ho)).mp hx
        exact .numbers (Or.inr ho) hl hr hn
      | equality =>
        obtain ⟨hn, rfl⟩ := (Rule.equality_eq_error_iff ho).mp hx
        exact .equality ho hl hr hn
      | logical =>
        rcases (Rule.logical_eq_error_iff ho).mp hx with ⟨hn, rfl⟩ | ⟨hb, hn, rfl⟩
        · exact .logicalLeft ho hl hr hn
        · exact .logicalRight ho hl hr hb hn
  | .node span (.tuple elems), h => by
    obtain ⟨before, d, after, rfl, hb, h⟩ :=
      shows_checkList_iff.mp (Outcome.shows_bind_ok_iff.mp h)
    exact .part (.elem before after) hb h
  | .node span (.named fields), h => by
    obtain ⟨before, name, d, after, ts, rfl, hts, hd, h⟩ :=
      shows_checkFields_iff.mp (Outcome.shows_bind_ok_iff.mp h)
    have hd : (before.map Prod.fst).Nodup := fresh_of_none.mp hd
    rw [List.append_nil] at h
    rcases h with ⟨hn, rfl⟩ | ⟨hn, h⟩
    · exact .here (.repeated hd hts hn)
    · exact .part (.value before name after) ⟨hd, hn, ts, hts⟩ h
  | .node span (.component base index), h => by
    refine arises_of_one (.component index) trivial h fun b x hb hx => ?_
    rcases Rule.component_eq_error_iff.mp hx with ⟨hn, rfl⟩ | ⟨elems, hc, hp, rfl⟩
    · exact .component hb hn
    · exact .outOfBounds hb hc hp
  | .node span (.field base name), h => by
    refine arises_of_one (.field name) trivial h fun b x hb hx => ?_
    rcases Rule.field_eq_error_iff.mp hx with ⟨hn, rfl⟩ | ⟨fields, hc, hf, rfl⟩
    · exact .field hb hn
    · exact .noField hb hc hf
  | .node span (.index base index), h => by
    rcases Outcome.shows_bind_iff.mp h with h | ⟨b, hb, h⟩
    · exact .part (.base index) trivial h
    · refine arises_of_one (.index base) ⟨b, hb⟩ h fun i x hi hx => ?_
      rcases Rule.index_eq_error_iff.mp hx with
        ⟨hs, hm, rfl⟩ | ⟨hs, hn, rfl⟩ | ⟨key, value, hc, hn, rfl⟩
      · exact .index hb hi hs hm
      · exact .seqIndex hb hi hs hn
      · exact .mapIndex hb hi hc hn
  | .node span (.keys e), h => by
    refine arises_of_one .keys trivial h fun t x ht hx => ?_
    obtain ⟨hn, rfl⟩ := Rule.keys_eq_error_iff.mp hx
    exact .keys ht hn
  | .node span (.values e), h => by
    refine arises_of_one .values trivial h fun t x ht hx => ?_
    obtain ⟨hn, rfl⟩ := Rule.values_eq_error_iff.mp hx
    exact .values ht hn
  | .node span (.sizeof e), h => by
    refine arises_of_one .sizeof trivial h fun t x ht hx => ?_
    obtain ⟨hs, hm, rfl⟩ := Rule.sizeof_eq_error_iff.mp hx
    exact .sizeof ht hs hm
  | .node span (.default ref), h => by
    obtain ⟨x, rfl, hx⟩ := Outcome.shows_of_iff.mp (Outcome.shows_bind_ok_iff.mp h)
    exact .here (.default hx)
  | .node span (.call callee args), h => by
    rcases Outcome.shows_bind_iff.mp h with h | ⟨f, hcallee, h⟩
    · obtain ⟨x, rfl, hx⟩ := Outcome.shows_of_iff.mp h
      rcases Rule.callee_eq_error_iff.mp hx with ⟨hn, rfl⟩ | ⟨f, hf, hc, rfl⟩
      · exact .here (.callee hn)
      · exact .here (.argumentCount hf hc)
    obtain ⟨hf, hc⟩ := Rule.callee_eq_ok_iff.mp hcallee
    rcases Outcome.shows_bind_iff.mp h with h | ⟨ts, hts, h⟩
    · obtain ⟨before, d, after, ts, rfl, ha, h⟩ := shows_arguments_iff.mp h
      rw [List.length_append, List.length_cons] at hc
      rcases h with h | ⟨t, mode, v, ht, hv, hm, rfl⟩
      · exact .part (.arg callee before after) ⟨⟨f, hf, hc⟩, ts, ha⟩ h
      · exact .here (.argHandedOver ⟨⟨f, hf, hc⟩, ts, ha⟩ ha ht hv hm)
    · obtain ⟨x, rfl, hx⟩ := Outcome.shows_of_iff.mp h
      obtain ⟨param, t, hm, rfl⟩ := Rule.call_eq_error_iff.mp hx
      exact .here (.parameter hf hc (admits_iff.mpr hts) hm)
  | .node span (.new machine args), h => by
    rcases Outcome.shows_bind_iff.mp h with h | ⟨m, hmachine, h⟩
    · obtain ⟨x, rfl, hx⟩ := Outcome.shows_of_iff.mp h
      obtain ⟨hn, rfl⟩ := Rule.constructor_eq_error_iff.mp hx
      exact .here (.machine hn)
    have hm : ctx.scope.lookup machine = some (.machine m) :=
      Rule.constructor_eq_ok_iff.mp hmachine
    rcases Outcome.shows_bind_iff.mp h with h | ⟨ts, hts, h⟩
    · obtain ⟨before, d, after, ts, rfl, ha, h⟩ := shows_arguments_iff.mp h
      rcases h with h | ⟨t, mode, v, ht, hv, hn, rfl⟩
      · exact .part (.newArg machine before after) ⟨⟨m, hm⟩, ts, ha⟩ h
      · exact .here (.newArgHandedOver ⟨⟨m, hm⟩, ts, ha⟩ ha ht hv hn)
    · obtain ⟨x, rfl, hx⟩ := Outcome.shows_of_iff.mp h
      exact .here (.payload hm (admits_iff.mpr hts) (Rule.new_eq_error_iff.mp hx))
  | .node span (.cast e ref), h => by
    rcases Outcome.shows_bind_iff.mp h with h | ⟨t, ht, h⟩
    · exact .part (.cast ref) trivial h
    rcases Outcome.shows_bind_iff.mp h with h | ⟨ty, hr, h⟩
    · obtain ⟨x, rfl, hx⟩ := Outcome.shows_of_iff.mp h
      exact .here (.castType ht hx)
    · obtain ⟨x, rfl, hx⟩ := Outcome.shows_of_iff.mp h
      obtain ⟨hn, rfl⟩ := Rule.cast_eq_error_iff.mp hx
      exact .here (.cast ht hr hn)
  | .node span (.coerce e ref), h => by
    rcases Outcome.shows_bind_iff.mp h with h | ⟨t, ht, h⟩
    · exact .part (.coerce ref) trivial h
    rcases Outcome.shows_bind_iff.mp h with h | ⟨ty, hr, h⟩
    · obtain ⟨x, rfl, hx⟩ := Outcome.shows_of_iff.mp h
      exact .here (.coerceType ht hx)
    · obtain ⟨x, rfl, hx⟩ := Outcome.shows_of_iff.mp h
      obtain ⟨hs, hc, rfl⟩ := Rule.coerce_eq_error_iff.mp hx
      exact .here (.coerce ht hr hs hc)

/-- **Where incidents come from**: something happens while an expression is checked exactly if it is
raised by an expression that is reached. -/
theorem shows_iff {e : Expr} :
    (ctx.check e).Shows i ↔ ∃ d, ctx.Reaches e d ∧ ctx.Raises d i := by
  constructor
  · induction e using Expr.induction_on_parts with
    | h e ih =>
      intro h
      rcases arises_of_shows h with h | ⟨layer, part, rfl, hl, h⟩
      · exact ⟨e, .refl e, h⟩
      · obtain ⟨d, hr, hd⟩ := ih layer part rfl h
        exact ⟨d, hr.fill hl, hd⟩
  · rintro ⟨d, hr, hd⟩
    exact hr.shows hd.shows

end Context

end MachineTyping
