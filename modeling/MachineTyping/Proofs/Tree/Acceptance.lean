/-
# When an expression is accepted

`ctx.Checks e t` says that checking `e` succeeds and makes the tree `t`.  This module says of each
form of expression what that means in terms of its parts, in one statement for each
(`Context.checks_unary_iff` and its companions).  What the checker does in between is gone there:

* the order of checking, since it decides only which error comes first;
* the names that are remembered while a list is checked.  Of arguments they leave that no variable
  is handed over twice (`checkArgs_eq_ok_iff`), and of fields that no name is repeated
  (`checkFields_eq_ok_iff`).

What remains is that the parts check, and that the node is lawful.
-/
import Mathlib.Data.List.Nodup
import MachineTyping.Proofs.Tree.Rule

namespace MachineTyping

/-- **Checking the expression succeeds, with that tree.** -/
def Context.Checks (ctx : Context) (e : Expr) (t : Typed) : Prop := (ctx.check e).verdict = .ok t

/-- An expression has no other tree than the one that it checks with. -/
theorem Context.Checks.unique {ctx : Context} {e : Expr} {t u : Typed} (h : ctx.Checks e t)
    (h' : ctx.Checks e u) : t = u :=
  Except.ok.inj (h.symm.trans h')

theorem Outcome.bind_eq_ok_iff {α β : Type} {x : Outcome α} {f : α → Outcome β} {b : β} :
    (x >>= f).verdict = .ok b ↔ ∃ a, x.verdict = .ok a ∧ (f a).verdict = .ok b := by
  rw [Outcome.bind_verdict, Verdict.bind_eq_ok_iff]

/-! ## 1. Names that were not there before -/

/-- The names are pairwise different, and none of them was seen before. -/
def Fresh (seen names : List String) : Prop := names.Nodup ∧ ∀ x ∈ names, x ∉ seen

@[simp] theorem fresh_nil (seen : List String) : Fresh seen [] := by
  simp [Fresh]

@[simp] theorem fresh_of_none {names : List String} : Fresh [] names ↔ names.Nodup := by
  simp [Fresh]

/-- Names are fresh if the first ones are, and the others are after them. -/
theorem fresh_append {seen before after : List String} :
    Fresh seen (before ++ after) ↔ Fresh seen before ∧ Fresh (before ++ seen) after := by
  unfold Fresh
  rw [List.nodup_append']
  constructor
  · rintro ⟨⟨hb, ha, hd⟩, hs⟩
    refine ⟨⟨hb, fun x hx => hs x (List.mem_append_left _ hx)⟩, ha, fun x hx hm => ?_⟩
    rcases List.mem_append.mp hm with hm | hm
    · exact hd hm hx
    · exact hs x (List.mem_append_right _ hx) hm
  · rintro ⟨⟨hb, hbs⟩, ha, has⟩
    refine ⟨⟨hb, ha, fun x hx hx' => has x hx' (List.mem_append_left _ hx)⟩, fun x hx => ?_⟩
    rcases List.mem_append.mp hx with hx | hx
    · exact hbs x hx
    · exact fun hm => has x hx (List.mem_append_right _ hm)

theorem fresh_cons {seen names : List String} {name : String} :
    Fresh seen (name :: names) ↔ name ∉ seen ∧ Fresh (name :: seen) names := by
  rw [← List.singleton_append, fresh_append]
  simp [Fresh]

/-- One argument hands over at most one variable... -/
theorem Typed.nodup_handed_one (arg : Typed) : (Typed.handed [arg]).Nodup := by
  cases hh : arg.handover? with
  | none =>
    rw [Typed.handed_of_none hh]
    exact List.nodup_nil
  | some handover =>
    rw [Typed.handed_of_some hh]
    exact List.nodup_singleton _

/-- ...so what matters is whether it was there. -/
theorem fresh_handed_singleton {taken : List String} {arg : Typed} :
    Fresh taken (Typed.handed [arg]) ↔ ∀ x ∈ Typed.handed [arg], x ∉ taken :=
  ⟨fun h => h.2, fun h => ⟨arg.nodup_handed_one, h⟩⟩

/-! ## 2. Lists -/

namespace Context

variable {ctx : Context} {span : Span} {t : Typed}

theorem checkList_eq_ok_iff : ∀ {es : List Expr} {ts : List Typed},
    (ctx.checkList es).verdict = .ok ts ↔ List.Forall₂ ctx.Checks es ts
  | [], ts => by
    have hc : (ctx.checkList []).verdict = .ok [] := rfl
    rw [hc, List.forall₂_nil_left_iff]
    constructor
    · intro h
      cases h
      rfl
    · rintro rfl
      rfl
  | e :: es, ts => by
    have hc : ctx.checkList (e :: es) =
        (ctx.check e >>= fun t => ctx.checkList es >>= fun us => .of (.ok (t :: us))) := rfl
    simp only [hc, Outcome.bind_eq_ok_iff, Outcome.of_verdict, List.forall₂_cons_left_iff]
    constructor
    · rintro ⟨t, ht, us, hus, h⟩
      cases h
      exact ⟨t, us, ht, checkList_eq_ok_iff.mp hus, rfl⟩
    · rintro ⟨t, us, ht, hus, rfl⟩
      exact ⟨t, ht, us, checkList_eq_ok_iff.mpr hus, rfl⟩

/-- **Arguments check when each of them does and no variable is handed over twice**, also not one
of those before. -/
theorem checkArgs_eq_ok_iff : ∀ {es : List Expr} {taken : List String} {ts : List Typed},
    (ctx.checkArgs taken es).verdict = .ok ts ↔
      List.Forall₂ ctx.Checks es ts ∧ Fresh taken (Typed.handed ts)
  | [], taken, ts => by
    have hc : (ctx.checkArgs taken []).verdict = .ok [] := rfl
    rw [hc, List.forall₂_nil_left_iff]
    constructor
    · intro h
      cases h
      exact ⟨rfl, fresh_nil taken⟩
    · rintro ⟨rfl, -⟩
      rfl
  | e :: es, taken, ts => by
    have hc : ctx.checkArgs taken (e :: es) =
        (ctx.check e >>= fun t => Outcome.of (Rule.relinquish taken t) >>= fun taken' =>
          ctx.checkArgs taken' es >>= fun us => .of (.ok (t :: us))) := rfl
    simp only [hc, Outcome.bind_eq_ok_iff, Outcome.of_verdict, List.forall₂_cons_left_iff]
    constructor
    · rintro ⟨t, ht, taken', hr, us, hus, h⟩
      cases h
      obtain ⟨hone, rfl⟩ := Rule.relinquish_eq_ok_iff.mp hr
      obtain ⟨hes, hf⟩ := checkArgs_eq_ok_iff.mp hus
      refine ⟨⟨t, us, ht, hes, rfl⟩, ?_⟩
      rw [Typed.handed_cons, fresh_append]
      exact ⟨fresh_handed_singleton.mpr hone, hf⟩
    · rintro ⟨⟨t, us, ht, hes, rfl⟩, hf⟩
      rw [Typed.handed_cons, fresh_append] at hf
      refine ⟨t, ht, Typed.handed [t] ++ taken, ?_, us, checkArgs_eq_ok_iff.mpr ⟨hes, hf.2⟩, rfl⟩
      exact Rule.relinquish_eq_ok_iff.mpr ⟨fresh_handed_singleton.mp hf.1, rfl⟩

/-- **Fields check when their values do and no name is repeated**, also not one of those before. -/
theorem checkFields_eq_ok_iff :
    ∀ {fields : List (String × Expr)} {seen : List String} {checked : List (String × Typed)},
    (ctx.checkFields seen fields).verdict = .ok checked ↔
      checked.map Prod.fst = fields.map Prod.fst ∧
      List.Forall₂ (fun field c => ctx.Checks field.2 c.2) fields checked ∧
      Fresh seen (checked.map Prod.fst)
  | [], seen, checked => by
    have hc : (ctx.checkFields seen []).verdict = .ok [] := rfl
    rw [hc, List.forall₂_nil_left_iff]
    constructor
    · intro h
      cases h
      exact ⟨rfl, rfl, fresh_nil seen⟩
    · rintro ⟨-, rfl, -⟩
      rfl
  | (name, e) :: fields, seen, checked => by
    have hc : ctx.checkFields seen ((name, e) :: fields) =
        (if name ∈ seen then .of (.error ⟨.repeatedField name, e.span⟩)
        else ctx.check e >>= fun t => ctx.checkFields (name :: seen) fields >>= fun cs =>
          .of (.ok ((name, t) :: cs))) := rfl
    rw [hc]
    by_cases hs : name ∈ seen
    · rw [if_pos hs]
      constructor
      · intro h
        cases h
      · rintro ⟨hn, hf, hd⟩
        cases hf with
        | @cons _ c _ cs _ _ =>
          rw [List.map_cons, List.map_cons, List.cons.injEq] at hn
          rw [List.map_cons, fresh_cons, hn.1] at hd
          exact absurd hs hd.1
    · rw [if_neg hs]
      simp only [Outcome.bind_eq_ok_iff, Outcome.of_verdict, List.forall₂_cons_left_iff]
      constructor
      · rintro ⟨t, ht, cs, hcs, h⟩
        cases h
        obtain ⟨hn, hf, hd⟩ := checkFields_eq_ok_iff.mp hcs
        refine ⟨?_, ⟨(name, t), cs, ht, hf, rfl⟩, ?_⟩
        · rw [List.map_cons, List.map_cons, hn]
        · rw [List.map_cons, fresh_cons]
          exact ⟨hs, hd⟩
      · rintro ⟨hn, ⟨⟨name', t⟩, cs, ht, hf, rfl⟩, hd⟩
        rw [List.map_cons, List.map_cons, List.cons.injEq] at hn
        obtain ⟨rfl, hn⟩ := hn
        rw [List.map_cons, fresh_cons] at hd
        exact ⟨t, ht, cs, checkFields_eq_ok_iff.mpr ⟨hn, hf, hd.2⟩, rfl⟩

/-! ## 3. Literals and names -/

theorem checks_int_iff {text : String} :
    ctx.Checks (.node span (.int text)) t ↔
      ∃ value, integerOfText? text = some value ∧ t = .node span .int (.int value) := by
  have hc : ctx.check (.node span (.int text)) = .of (Rule.int span text) := rfl
  rw [Checks, hc, Outcome.of_verdict]
  unfold Rule.int
  cases integerOfText? text <;> simp [eq_comm]

theorem checks_decimal_iff {whole : Option String} {fraction : String} :
    ctx.Checks (.node span (.float (.decimal whole fraction))) t ↔
      ∃ value, Binary64.ofDecimal? (whole.getD "") fraction = some value ∧
        t = .node span .float (.float value) := by
  have hc : ctx.check (.node span (.float (.decimal whole fraction))) =
      .of (Rule.float span (.decimal whole fraction)) := rfl
  rw [Checks, hc, Outcome.of_verdict]
  simp only [Rule.float]
  cases Binary64.ofDecimal? (whole.getD "") fraction <;> simp [eq_comm]

theorem not_checks_exponent {base power : String} :
    ¬ ctx.Checks (.node span (.float (.exponent base power))) t := by
  have hc : (ctx.check (.node span (.float (.exponent base power)))).verdict =
      .error ⟨.exponentLiteral, span⟩ := rfl
  intro h
  rw [Checks, hc] at h
  cases h

theorem checks_bool_iff {value : Bool} :
    ctx.Checks (.node span (.bool value)) t ↔ t = .node span .bool (.bool value) := by
  have hc : ctx.check (.node span (.bool value)) = .of (.ok (.node span .bool (.bool value))) :=
    rfl
  rw [Checks, hc, Outcome.of_verdict, Except.ok.injEq, eq_comm]

theorem checks_null_iff : ctx.Checks (.node span .null) t ↔ t = .node span .null .null := by
  have hc : ctx.check (.node span .null) = .of (.ok (.node span .null .null)) := rfl
  rw [Checks, hc, Outcome.of_verdict, Except.ok.injEq, eq_comm]

theorem checks_choice_iff :
    ctx.Checks (.node span .choice) t ↔ t = .node span .bool .choice := by
  have hc : (ctx.check (.node span .choice)).verdict = .ok (.node span .bool .choice) := rfl
  rw [Checks, hc, Except.ok.injEq, eq_comm]

theorem checks_fairChoice_iff :
    ctx.Checks (.node span .fairChoice) t ↔ t = .node span .bool .fairChoice := by
  have hc : (ctx.check (.node span .fairChoice)).verdict = .ok (.node span .bool .fairChoice) := rfl
  rw [Checks, hc, Except.ok.injEq, eq_comm]

theorem checks_name_iff {name : String} :
    ctx.Checks (.node span (.name name)) t ↔
      (∃ v, ctx.scope.lookup name = some (.var v) ∧ t = .node span v.ty (.var v)) ∨
      (∃ e, ctx.scope.lookup name = some (.element e) ∧
        t = .node span (.enum e.enum) (.element e)) ∨
      ∃ e, ctx.scope.lookup name = some (.event e) ∧ t = .node span .event (.event e) := by
  have hc : ctx.check (.node span (.name name)) = .of (Rule.name ctx.scope span name) := rfl
  rw [Checks, hc, Outcome.of_verdict]
  exact Rule.name_eq_ok_iff

theorem checks_halt_iff :
    ctx.Checks (.node span .halt) t ↔
      ∃ e, ctx.scope.lookup Event.haltName = some (.event e) ∧
        t = .node span .event (.event e) := by
  have hc : ctx.check (.node span .halt) = .of (Rule.halt ctx.scope span) := rfl
  rw [Checks, hc, Outcome.of_verdict]
  exact Rule.halt_eq_ok_iff

theorem checks_self_iff :
    ctx.Checks (.node span .self) t ↔
      ∃ m, ctx.owner = some m ∧ t = .node span .machine (.self m) := by
  have hc : ctx.check (.node span .self) = .of (Rule.self ctx.owner span) := rfl
  rw [Checks, hc, Outcome.of_verdict]
  exact Rule.self_eq_ok_iff

theorem checks_linear_iff {mode : LinearMode} {name : String} :
    ctx.Checks (.node span (.linear mode name)) t ↔
      ∃ v, ctx.scope.lookup name = some (.var v) ∧ t = .node span v.ty (.linear mode v) := by
  have hc : ctx.check (.node span (.linear mode name)) =
      .of (Rule.linear ctx.scope span mode name) := rfl
  rw [Checks, hc, Outcome.of_verdict]
  exact Rule.linear_eq_ok_iff

/-! ## 4. Operators and parts of values -/

theorem checks_unary_iff {op : UnaryOp} {operand : Expr} :
    ctx.Checks (.node span (.unary op operand)) t ↔
      ∃ o, ctx.Checks operand o ∧ ∃ ty, t = .node span ty (.unary op o) ∧ t.Lawful := by
  have hc : ctx.check (.node span (.unary op operand)) =
      (ctx.check operand >>= fun o => .of (Rule.unary span op o)) := rfl
  simp only [Checks, hc, Outcome.bind_eq_ok_iff, Outcome.of_verdict, Rule.unary_eq_ok_iff]

theorem checks_member_iff {key map : Expr} :
    ctx.Checks (.node span (.binary .member key map)) t ↔
      ∃ k, ctx.Checks key k ∧ ∃ m, ctx.Checks map m ∧
        ∃ ty, t = .node span ty (.hasKey k m) ∧ t.Lawful := by
  have hc : ctx.check (.node span (.binary .member key map)) =
      (ctx.check key >>= fun k => ctx.check map >>= fun m =>
        .of (Rule.binary span .member k m)) := rfl
  simp only [Checks, hc, Outcome.bind_eq_ok_iff, Outcome.of_verdict, Rule.binary_member,
    Rule.hasKey_eq_ok_iff]

theorem checks_binary_iff {op : BinaryOp} {lhs rhs : Expr} (ho : op ≠ .member) :
    ctx.Checks (.node span (.binary op lhs rhs)) t ↔
      ∃ l, ctx.Checks lhs l ∧ ∃ r, ctx.Checks rhs r ∧
        ∃ ty, t = .node span ty (.binary op l r) ∧ t.Lawful := by
  have hc : ctx.check (.node span (.binary op lhs rhs)) =
      (ctx.check lhs >>= fun l => ctx.check rhs >>= fun r =>
        .of (Rule.binary span op l r)) := rfl
  simp only [Checks, hc, Outcome.bind_eq_ok_iff, Outcome.of_verdict, Rule.binary_eq_ok_iff ho]

theorem checks_component_iff {base : Expr} {index : String} :
    ctx.Checks (.node span (.component base index)) t ↔
      ∃ b, ctx.Checks base b ∧ ∃ position ty, naturalOfChars? index.toList = some position ∧
        t = .node span ty (.component b position) ∧ t.Lawful := by
  have hc : ctx.check (.node span (.component base index)) =
      (ctx.check base >>= fun b => .of (Rule.component span b index)) := rfl
  simp only [Checks, hc, Outcome.bind_eq_ok_iff, Outcome.of_verdict, Rule.component_eq_ok_iff]

theorem checks_field_iff {base : Expr} {name : String} :
    ctx.Checks (.node span (.field base name)) t ↔
      ∃ b, ctx.Checks base b ∧ ∃ ty, t = .node span ty (.field b name) ∧ t.Lawful := by
  have hc : ctx.check (.node span (.field base name)) =
      (ctx.check base >>= fun b => .of (Rule.field span b name)) := rfl
  simp only [Checks, hc, Outcome.bind_eq_ok_iff, Outcome.of_verdict, Rule.field_eq_ok_iff]

theorem checks_index_iff {base index : Expr} :
    ctx.Checks (.node span (.index base index)) t ↔
      ∃ b, ctx.Checks base b ∧ ∃ i, ctx.Checks index i ∧
        ∃ ty, (b.ty.kind = .seq ∧ t = .node span ty (.seqItem b i) ∨
          b.ty.kind = .map ∧ t = .node span ty (.mapItem b i)) ∧ t.Lawful := by
  have hc : ctx.check (.node span (.index base index)) =
      (ctx.check base >>= fun b => ctx.check index >>= fun i =>
        .of (Rule.index span b i)) := rfl
  simp only [Checks, hc, Outcome.bind_eq_ok_iff, Outcome.of_verdict, Rule.index_eq_ok_iff]

theorem checks_keys_iff {map : Expr} :
    ctx.Checks (.node span (.keys map)) t ↔
      ∃ m, ctx.Checks map m ∧ ∃ ty, t = .node span ty (.keys m) ∧ t.Lawful := by
  have hc : ctx.check (.node span (.keys map)) =
      (ctx.check map >>= fun m => .of (Rule.keys span m)) := rfl
  simp only [Checks, hc, Outcome.bind_eq_ok_iff, Outcome.of_verdict, Rule.keys_eq_ok_iff]

theorem checks_values_iff {map : Expr} :
    ctx.Checks (.node span (.values map)) t ↔
      ∃ m, ctx.Checks map m ∧ ∃ ty, t = .node span ty (.values m) ∧ t.Lawful := by
  have hc : ctx.check (.node span (.values map)) =
      (ctx.check map >>= fun m => .of (Rule.values span m)) := rfl
  simp only [Checks, hc, Outcome.bind_eq_ok_iff, Outcome.of_verdict, Rule.values_eq_ok_iff]

theorem checks_sizeof_iff {collection : Expr} :
    ctx.Checks (.node span (.sizeof collection)) t ↔
      ∃ c, ctx.Checks collection c ∧ ∃ ty, t = .node span ty (.sizeof c) ∧ t.Lawful := by
  have hc : ctx.check (.node span (.sizeof collection)) =
      (ctx.check collection >>= fun c => .of (Rule.sizeof span c)) := rfl
  simp only [Checks, hc, Outcome.bind_eq_ok_iff, Outcome.of_verdict, Rule.sizeof_eq_ok_iff]

/-! ## 5. Types that are written -/

theorem checks_default_iff {ref : TypeRef} :
    ctx.Checks (.node span (.default ref)) t ↔
      ∃ ty, ctx.scope.resolve ref = .ok ty ∧ t = .node span ty.canonical .default := by
  have hc : ctx.check (.node span (.default ref)) =
      (Outcome.of (ctx.scope.resolve ref) >>= fun ty =>
        .of (.ok (.node span ty.canonical .default))) := rfl
  simp only [Checks, hc, Outcome.bind_eq_ok_iff, Outcome.of_verdict, Except.ok.injEq]
  constructor
  · rintro ⟨ty, hty, rfl⟩
    exact ⟨ty, hty, rfl⟩
  · rintro ⟨ty, hty, rfl⟩
    exact ⟨ty, hty, rfl⟩

theorem checks_cast_iff {operand : Expr} {ref : TypeRef} :
    ctx.Checks (.node span (.cast operand ref)) t ↔
      ∃ o, ctx.Checks operand o ∧ ∃ ty, ctx.scope.resolve ref = .ok ty ∧
        t = .node span ty (.cast o) ∧ t.Lawful := by
  have hc : ctx.check (.node span (.cast operand ref)) =
      (ctx.check operand >>= fun o => Outcome.of (ctx.scope.resolve ref) >>= fun ty =>
        .of (Rule.cast span o ty)) := rfl
  simp only [Checks, hc, Outcome.bind_eq_ok_iff, Outcome.of_verdict, Rule.cast_eq_ok_iff]

theorem checks_coerce_iff {operand : Expr} {ref : TypeRef} :
    ctx.Checks (.node span (.coerce operand ref)) t ↔
      ∃ o, ctx.Checks operand o ∧ ∃ ty, ctx.scope.resolve ref = .ok ty ∧
        (o.ty.SameScalar ty ∧ t = o ∨ t = .node span ty (.coerce o) ∧ t.Lawful) := by
  have hc : ctx.check (.node span (.coerce operand ref)) =
      (ctx.check operand >>= fun o => Outcome.of (ctx.scope.resolve ref) >>= fun ty =>
        .of (Rule.coerce span o ty)) := rfl
  simp only [Checks, hc, Outcome.bind_eq_ok_iff, Outcome.of_verdict, Rule.coerce_eq_ok_iff]

/-! ## 6. Tuples and calls -/

theorem checks_tuple_iff {elems : List Expr} :
    ctx.Checks (.node span (.tuple elems)) t ↔
      ∃ es, List.Forall₂ ctx.Checks elems es ∧
        ∃ ty, t = .node span ty (.tuple es) ∧ t.Lawful := by
  have hc : ctx.check (.node span (.tuple elems)) =
      (ctx.checkList elems >>= fun es => .of (.ok (Rule.tuple span es))) := rfl
  simp only [Checks, hc, Outcome.bind_eq_ok_iff, Outcome.of_verdict, checkList_eq_ok_iff]
  constructor
  · rintro ⟨es, hes, h⟩
    cases h
    exact ⟨es, hes, _, rfl, .tuple⟩
  · rintro ⟨es, hes, ty, rfl, hl⟩
    cases hl with
    | tuple => exact ⟨es, hes, rfl⟩

theorem checks_named_iff {fields : List (String × Expr)} :
    ctx.Checks (.node span (.named fields)) t ↔
      ∃ fs, fs.map Prod.fst = fields.map Prod.fst ∧
        List.Forall₂ ctx.Checks (fields.map Prod.snd) (fs.map Prod.snd) ∧
        ∃ ty, t = .node span ty (.named fs) ∧ t.Lawful := by
  have hc : ctx.check (.node span (.named fields)) =
      (ctx.checkFields [] fields >>= fun fs =>
        .of (.ok (Rule.named span fs))) := rfl
  simp only [Checks, hc, Outcome.bind_eq_ok_iff, Outcome.of_verdict, checkFields_eq_ok_iff,
    fresh_of_none,
    List.forall₂_map_left_iff, List.forall₂_map_right_iff]
  constructor
  · rintro ⟨fs, ⟨hn, hfs, hd⟩, h⟩
    cases h
    exact ⟨fs, hn, hfs, _, rfl, .named hd⟩
  · rintro ⟨fs, hn, hfs, ty, rfl, hl⟩
    cases hl with
    | named hd => exact ⟨fs, ⟨hn, hfs, hd⟩, rfl⟩

/-- A call checks when its name is a function's, its arguments check, and they may be passed. -/
theorem checks_call_iff {callee : String} {args : List Expr} :
    ctx.Checks (.node span (.call callee args)) t ↔
      ∃ f, ctx.scope.lookup callee = some (.function f) ∧
        ∃ as, List.Forall₂ ctx.Checks args as ∧
          ∃ ty, t = .node span ty (.call f as) ∧ t.Lawful := by
  have hc : ctx.check (.node span (.call callee args)) =
      (Outcome.of (Rule.callee ctx.scope span callee args.length) >>= fun f =>
        ctx.checkArgs [] args >>= fun as => .of (Rule.call span f as)) := rfl
  simp only [Checks, hc, Outcome.bind_eq_ok_iff, Outcome.of_verdict, Rule.callee_eq_ok_iff,
    checkArgs_eq_ok_iff,
    fresh_of_none]
  constructor
  · rintro ⟨f, ⟨hf, hc⟩, as, ⟨has, hd⟩, h⟩
    obtain ⟨hp, rfl⟩ := (Rule.call_eq_ok_iff (has.length_eq ▸ hc)).mp h
    exact ⟨f, hf, as, has, _, rfl, .call hp hd⟩
  · rintro ⟨f, hf, as, has, ty, rfl, hl⟩
    cases hl with
    | call hp hd =>
      -- the number of arguments is asked for first, but it follows from their being passed
      have hc : as.length = f.params.length := hp.length_eq.symm
      exact ⟨f, ⟨hf, has.length_eq.trans hc⟩, as, ⟨has, hd⟩,
        (Rule.call_eq_ok_iff hc).mpr ⟨hp, rfl⟩⟩

theorem checks_new_iff {machine : String} {args : List Expr} :
    ctx.Checks (.node span (.new machine args)) t ↔
      ∃ m, ctx.scope.lookup machine = some (.machine m) ∧
        ∃ as, List.Forall₂ ctx.Checks args as ∧
          ∃ ty, t = .node span ty (.new m as) ∧ t.Lawful := by
  have hc : ctx.check (.node span (.new machine args)) =
      (Outcome.of (Rule.constructor ctx.scope span machine) >>= fun m =>
        ctx.checkArgs [] args >>= fun as => .of (Rule.new span m as)) := rfl
  simp only [Checks, hc, Outcome.bind_eq_ok_iff, Outcome.of_verdict, Rule.constructor_eq_ok_iff,
    checkArgs_eq_ok_iff, fresh_of_none, Rule.new_eq_ok_iff]
  constructor
  · rintro ⟨m, hm, as, ⟨has, hd⟩, hp, rfl⟩
    exact ⟨m, hm, as, has, _, rfl, .new hp hd⟩
  · rintro ⟨m, hm, as, has, ty, rfl, hl⟩
    cases hl with
    | new hp hd => exact ⟨m, hm, as, ⟨has, hd⟩, hp, rfl⟩

end Context

end MachineTyping
