/-
# Elaboration

Checking turns an expression into a typed tree.  Which tree belongs to which expression can be
said without a checker, and without types: `ctx.Elaborates e t` has the nodes of `e` in `t`, in
order and with their spans, with names resolved and literals read.  Three forms are not simply
copied:

* `k in m` becomes a node for the question whether `m` has the key `k`;
* `e[i]` becomes one of two nodes, by the kind of the base;
* `e to T` disappears where there is nothing to convert, and then the node of `e`, span included,
  stands in its place.

What elaboration leaves open is the type of most nodes, and there the rules come in.  The main
result is that the checker finds the trees that elaborate the expression and are lawful, all of
them and no others (`Context.check_eq_ok_iff`).  As it is an equivalence it holds the checker to
both sides: no tree comes out that is unlawful or belongs to something else, and no expression is
refused that has a lawful tree.
-/
import MachineTyping.Proofs.Tree.Acceptance

namespace MachineTyping

namespace Context

/-! ## 1. The relation -/

/-- **The tree has the expression's nodes**, with their spans, and with names and literals
resolved. -/
inductive Elaborates (ctx : Context) : Expr → Typed → Prop
  /-- A name is what its innermost binding says. -/
  | var {span : Span} {ty : Ty} {name : String} {v : Variable} :
      ctx.scope.lookup name = some (.var v) →
      Elaborates ctx (.node span (.name name)) (.node span ty (.var v))
  | element {span : Span} {ty : Ty} {name : String} {e : EnumElement} :
      ctx.scope.lookup name = some (.element e) →
      Elaborates ctx (.node span (.name name)) (.node span ty (.element e))
  | event {span : Span} {ty : Ty} {name : String} {e : Event} :
      ctx.scope.lookup name = some (.event e) →
      Elaborates ctx (.node span (.name name)) (.node span ty (.event e))
  | linear {span : Span} {ty : Ty} {mode : LinearMode} {name : String} {v : Variable} :
      ctx.scope.lookup name = some (.var v) →
      Elaborates ctx (.node span (.linear mode name)) (.node span ty (.linear mode v))
  /-- `halt` is a name as well. -/
  | halt {span : Span} {ty : Ty} {e : Event} :
      ctx.scope.lookup Event.haltName = some (.event e) →
      Elaborates ctx (.node span .halt) (.node span ty (.event e))
  | self {span : Span} {ty : Ty} {m : Machine} :
      ctx.owner = some m → Elaborates ctx (.node span .self) (.node span ty (.self m))
  | int {span : Span} {ty : Ty} {text : String} {value : Int} :
      integerOfText? text = some value →
      Elaborates ctx (.node span (.int text)) (.node span ty (.int value))
  | float {span : Span} {ty : Ty} {whole : Option String} {fraction : String}
      {value : Binary64} :
      Binary64.ofDecimal? (whole.getD "") fraction = some value →
      Elaborates ctx (.node span (.float (.decimal whole fraction))) (.node span ty (.float value))
  | bool {span : Span} {ty : Ty} {value : Bool} :
      Elaborates ctx (.node span (.bool value)) (.node span ty (.bool value))
  | null {span : Span} {ty : Ty} : Elaborates ctx (.node span .null) (.node span ty .null)
  | choice {span : Span} {ty : Ty} : Elaborates ctx (.node span .choice) (.node span ty .choice)
  | fairChoice {span : Span} {ty : Ty} :
      Elaborates ctx (.node span .fairChoice) (.node span ty .fairChoice)
  | unary {span : Span} {ty : Ty} {op : UnaryOp} {e : Expr} {t : Typed} :
      Elaborates ctx e t →
      Elaborates ctx (.node span (.unary op e)) (.node span ty (.unary op t))
  | binary {span : Span} {ty : Ty} {op : BinaryOp} {lhs rhs : Expr} {l r : Typed} :
      op ≠ .member → Elaborates ctx lhs l → Elaborates ctx rhs r →
      Elaborates ctx (.node span (.binary op lhs rhs)) (.node span ty (.binary op l r))
  /-- Membership has the key on the left. -/
  | member {span : Span} {ty : Ty} {key map : Expr} {k m : Typed} :
      Elaborates ctx key k → Elaborates ctx map m →
      Elaborates ctx (.node span (.binary .member key map)) (.node span ty (.hasKey k m))
  | tuple {span : Span} {ty : Ty} {es : List Expr} {ts : List Typed} :
      List.Forall₂ (Elaborates ctx) es ts →
      Elaborates ctx (.node span (.tuple es)) (.node span ty (.tuple ts))
  | named {span : Span} {ty : Ty} {es : List (String × Expr)} {ts : List (String × Typed)} :
      ts.map Prod.fst = es.map Prod.fst →
      List.Forall₂ (Elaborates ctx) (es.map Prod.snd) (ts.map Prod.snd) →
      Elaborates ctx (.node span (.named es)) (.node span ty (.named ts))
  | component {span : Span} {ty : Ty} {base : Expr} {index : String} {b : Typed}
      {position : Nat} :
      Elaborates ctx base b → naturalOfChars? index.toList = some position →
      Elaborates ctx (.node span (.component base index)) (.node span ty (.component b position))
  | field {span : Span} {ty : Ty} {base : Expr} {name : String} {b : Typed} :
      Elaborates ctx base b →
      Elaborates ctx (.node span (.field base name)) (.node span ty (.field b name))
  | seqItem {span : Span} {ty : Ty} {base index : Expr} {b i : Typed} :
      Elaborates ctx base b → Elaborates ctx index i → b.ty.kind = .seq →
      Elaborates ctx (.node span (.index base index)) (.node span ty (.seqItem b i))
  | mapItem {span : Span} {ty : Ty} {base index : Expr} {b i : Typed} :
      Elaborates ctx base b → Elaborates ctx index i → b.ty.kind = .map →
      Elaborates ctx (.node span (.index base index)) (.node span ty (.mapItem b i))
  | keys {span : Span} {ty : Ty} {e : Expr} {t : Typed} :
      Elaborates ctx e t → Elaborates ctx (.node span (.keys e)) (.node span ty (.keys t))
  | values {span : Span} {ty : Ty} {e : Expr} {t : Typed} :
      Elaborates ctx e t → Elaborates ctx (.node span (.values e)) (.node span ty (.values t))
  | sizeof {span : Span} {ty : Ty} {e : Expr} {t : Typed} :
      Elaborates ctx e t → Elaborates ctx (.node span (.sizeof e)) (.node span ty (.sizeof t))
  /-- Of the types that are written, only this one loses its aliases. -/
  | default {span : Span} {ref : TypeRef} {ty : Ty} :
      ctx.scope.resolve ref = .ok ty →
      Elaborates ctx (.node span (.default ref)) (.node span ty.canonical .default)
  | call {span : Span} {ty : Ty} {callee : String} {args : List Expr} {f : Function}
      {as : List Typed} :
      ctx.scope.lookup callee = some (.function f) → List.Forall₂ (Elaborates ctx) args as →
      Elaborates ctx (.node span (.call callee args)) (.node span ty (.call f as))
  | new {span : Span} {ty : Ty} {machine : String} {args : List Expr} {m : Machine}
      {as : List Typed} :
      ctx.scope.lookup machine = some (.machine m) → List.Forall₂ (Elaborates ctx) args as →
      Elaborates ctx (.node span (.new machine args)) (.node span ty (.new m as))
  | cast {span : Span} {ref : TypeRef} {ty : Ty} {e : Expr} {t : Typed} :
      Elaborates ctx e t → ctx.scope.resolve ref = .ok ty →
      Elaborates ctx (.node span (.cast e ref)) (.node span ty (.cast t))
  | coerce {span : Span} {ref : TypeRef} {ty : Ty} {e : Expr} {t : Typed} :
      Elaborates ctx e t → ctx.scope.resolve ref = .ok ty → ¬ t.ty.SameScalar ty →
      Elaborates ctx (.node span (.coerce e ref)) (.node span ty (.coerce t))
  /-- Where there is nothing to convert the operand's tree is the tree. -/
  | identity {span : Span} {ref : TypeRef} {ty : Ty} {e : Expr} {t : Typed} :
      Elaborates ctx e t → ctx.scope.resolve ref = .ok ty → t.ty.SameScalar ty →
      Elaborates ctx (.node span (.coerce e ref)) t

/-! ## 2. What is checked is an elaboration, and lawful -/

variable {ctx : Context}

mutual

/-- The tree of a checked expression elaborates it, and all its nodes are lawful. -/
theorem Checks.faithful : ∀ {e : Expr} {t : Typed},
    ctx.Checks e t → ctx.Elaborates e t ∧ t.Everywhere Typed.Lawful
  | .node span (.name name), t, h => by
    rcases checks_name_iff.mp h with ⟨v, hv, rfl⟩ | ⟨e, he, rfl⟩ | ⟨e, he, rfl⟩
    · exact ⟨.var hv, .leaf .var rfl⟩
    · exact ⟨.element he, .leaf .element rfl⟩
    · exact ⟨.event he, .leaf .event rfl⟩
  | .node span (.int text), t, h => by
    obtain ⟨value, hv, rfl⟩ := checks_int_iff.mp h
    exact ⟨.int hv, .leaf .int rfl⟩
  | .node span (.float (.decimal whole fraction)), t, h => by
    obtain ⟨value, hv, rfl⟩ := checks_decimal_iff.mp h
    exact ⟨.float hv, .leaf .float rfl⟩
  | .node span (.float (.exponent base power)), t, h => absurd h not_checks_exponent
  | .node span (.bool value), t, h => by
    obtain rfl := checks_bool_iff.mp h
    exact ⟨.bool, .leaf .bool rfl⟩
  | .node span .null, t, h => by
    obtain rfl := checks_null_iff.mp h
    exact ⟨.null, .leaf .null rfl⟩
  | .node span .choice, t, h => by
    obtain rfl := checks_choice_iff.mp h
    exact ⟨.choice, .leaf .choice rfl⟩
  | .node span .fairChoice, t, h => by
    obtain rfl := checks_fairChoice_iff.mp h
    exact ⟨.fairChoice, .leaf .fairChoice rfl⟩
  | .node span .halt, t, h => by
    obtain ⟨e, he, rfl⟩ := checks_halt_iff.mp h
    exact ⟨.halt he, .leaf .event rfl⟩
  | .node span .self, t, h => by
    obtain ⟨m, hm, rfl⟩ := checks_self_iff.mp h
    exact ⟨.self hm, .leaf .self rfl⟩
  | .node span (.linear mode name), t, h => by
    obtain ⟨v, hv, rfl⟩ := checks_linear_iff.mp h
    exact ⟨.linear hv, .leaf .linear rfl⟩
  | .node span (.unary op operand), t, h => by
    obtain ⟨o, ho, ty, rfl, hl⟩ := checks_unary_iff.mp h
    obtain ⟨heo, hlo⟩ := Checks.faithful ho
    exact ⟨.unary heo, .one hl rfl hlo⟩
  | .node span (.binary op lhs rhs), t, h => by
    by_cases hop : op = .member
    · subst hop
      obtain ⟨l, hl, r, hr, ty, rfl, hlaw⟩ := checks_member_iff.mp h
      obtain ⟨hel, hll⟩ := Checks.faithful hl
      obtain ⟨her, hlr⟩ := Checks.faithful hr
      exact ⟨.member hel her, .two hlaw rfl hll hlr⟩
    · obtain ⟨l, hl, r, hr, ty, rfl, hlaw⟩ := (checks_binary_iff hop).mp h
      obtain ⟨hel, hll⟩ := Checks.faithful hl
      obtain ⟨her, hlr⟩ := Checks.faithful hr
      exact ⟨.binary hop hel her, .two hlaw rfl hll hlr⟩
  | .node span (.tuple elems), t, h => by
    obtain ⟨ts, hts, ty, rfl, hl⟩ := checks_tuple_iff.mp h
    obtain ⟨hes, hls⟩ := faithful_list hts
    exact ⟨.tuple hes, .all hl hls⟩
  | .node span (.named fields), t, h => by
    obtain ⟨fs, hn, hfs, ty, rfl, hl⟩ := checks_named_iff.mp h
    obtain ⟨hes, hls⟩ := faithful_fields hfs
    exact ⟨.named hn hes, .all hl hls⟩
  | .node span (.component base index), t, h => by
    obtain ⟨b, hb, position, ty, hp, rfl, hl⟩ := checks_component_iff.mp h
    obtain ⟨heb, hlb⟩ := Checks.faithful hb
    exact ⟨.component heb hp, .one hl rfl hlb⟩
  | .node span (.field base name), t, h => by
    obtain ⟨b, hb, ty, rfl, hl⟩ := checks_field_iff.mp h
    obtain ⟨heb, hlb⟩ := Checks.faithful hb
    exact ⟨.field heb, .one hl rfl hlb⟩
  | .node span (.index base index), t, h => by
    obtain ⟨b, hb, i, hi, ty, hc, hl⟩ := checks_index_iff.mp h
    obtain ⟨heb, hlb⟩ := Checks.faithful hb
    obtain ⟨hei, hli⟩ := Checks.faithful hi
    rcases hc with ⟨hk, rfl⟩ | ⟨hk, rfl⟩
    · exact ⟨.seqItem heb hei hk, .two hl rfl hlb hli⟩
    · exact ⟨.mapItem heb hei hk, .two hl rfl hlb hli⟩
  | .node span (.keys map), t, h => by
    obtain ⟨m, hm, ty, rfl, hl⟩ := checks_keys_iff.mp h
    obtain ⟨hem, hlm⟩ := Checks.faithful hm
    exact ⟨.keys hem, .one hl rfl hlm⟩
  | .node span (.values map), t, h => by
    obtain ⟨m, hm, ty, rfl, hl⟩ := checks_values_iff.mp h
    obtain ⟨hem, hlm⟩ := Checks.faithful hm
    exact ⟨.values hem, .one hl rfl hlm⟩
  | .node span (.sizeof collection), t, h => by
    obtain ⟨c, hc, ty, rfl, hl⟩ := checks_sizeof_iff.mp h
    obtain ⟨hec, hlc⟩ := Checks.faithful hc
    exact ⟨.sizeof hec, .one hl rfl hlc⟩
  | .node span (.default ref), t, h => by
    obtain ⟨ty, hty, rfl⟩ := checks_default_iff.mp h
    exact ⟨.default hty, .leaf (.default ty.canonical_canonical) rfl⟩
  | .node span (.call callee args), t, h => by
    obtain ⟨f, hf, as, has, ty, rfl, hl⟩ := checks_call_iff.mp h
    obtain ⟨hes, hls⟩ := faithful_list has
    exact ⟨.call hf hes, .all hl hls⟩
  | .node span (.new machine args), t, h => by
    obtain ⟨m, hm, as, has, ty, rfl, hl⟩ := checks_new_iff.mp h
    obtain ⟨hes, hls⟩ := faithful_list has
    exact ⟨.new hm hes, .all hl hls⟩
  | .node span (.cast operand ref), t, h => by
    obtain ⟨o, ho, ty, hty, rfl, hl⟩ := checks_cast_iff.mp h
    obtain ⟨heo, hlo⟩ := Checks.faithful ho
    exact ⟨.cast heo hty, .one hl rfl hlo⟩
  | .node span (.coerce operand ref), t, h => by
    obtain ⟨o, ho, ty, hty, hc⟩ := checks_coerce_iff.mp h
    obtain ⟨heo, hlo⟩ := Checks.faithful ho
    -- the operand's tree is kept as it is, or becomes the part of a new node
    rcases hc with ⟨hs, rfl⟩ | ⟨rfl, hl⟩
    · exact ⟨.identity heo hty hs, hlo⟩
    · cases hl with
      | coerce hc => exact ⟨.coerce heo hty hc.not_sameScalar, .one (.coerce hc) rfl hlo⟩

theorem faithful_list : ∀ {es : List Expr} {ts : List Typed},
    List.Forall₂ ctx.Checks es ts →
      List.Forall₂ ctx.Elaborates es ts ∧ ∀ t ∈ ts, t.Everywhere Typed.Lawful
  | [], ts, h => by
    cases h
    exact ⟨.nil, fun t ht => nomatch ht⟩
  | e :: es, ts, h => by
    obtain ⟨t, us, ht, hus, rfl⟩ := List.forall₂_cons_left_iff.mp h
    obtain ⟨het, hlt⟩ := Checks.faithful ht
    obtain ⟨hes, hls⟩ := faithful_list hus
    exact ⟨.cons het hes, List.forall_mem_cons.mpr ⟨hlt, hls⟩⟩

theorem faithful_fields : ∀ {fields : List (String × Expr)} {ts : List Typed},
    List.Forall₂ ctx.Checks (fields.map Prod.snd) ts →
      List.Forall₂ ctx.Elaborates (fields.map Prod.snd) ts ∧
        ∀ t ∈ ts, t.Everywhere Typed.Lawful
  | [], ts, h => by
    cases h
    exact ⟨.nil, fun t ht => nomatch ht⟩
  | (name, e) :: fields, ts, h => by
    obtain ⟨t, us, ht, hus, rfl⟩ := List.forall₂_cons_left_iff.mp h
    obtain ⟨het, hlt⟩ := Checks.faithful ht
    obtain ⟨hes, hls⟩ := faithful_fields hus
    exact ⟨.cons het hes, List.forall_mem_cons.mpr ⟨hlt, hls⟩⟩

end

/-- A node of the tree of a checked expression is lawful. -/
theorem Checks.lawful {e : Expr} {t n : Typed} (h : ctx.Checks e t) (hn : n.IsNodeOf t) :
    n.Lawful :=
  (Checks.faithful h).2 n hn

/-! ## 3. A lawful elaboration is what is checked -/

mutual

/-- An expression that has a lawful elaboration checks, and its tree is that elaboration. -/
theorem Elaborates.checks : ∀ {e : Expr} {t : Typed},
    ctx.Elaborates e t → t.Everywhere Typed.Lawful → ctx.Checks e t
  | .node span (.name name), t, h, hl => by
    cases h with
    | var hv =>
      cases hl.root with
      | var => exact checks_name_iff.mpr (.inl ⟨_, hv, rfl⟩)
    | element he =>
      cases hl.root with
      | element => exact checks_name_iff.mpr (.inr (.inl ⟨_, he, rfl⟩))
    | event he =>
      cases hl.root with
      | event => exact checks_name_iff.mpr (.inr (.inr ⟨_, he, rfl⟩))
  | .node span (.int text), t, h, hl => by
    cases h with
    | int hv =>
      cases hl.root with
      | int => exact checks_int_iff.mpr ⟨_, hv, rfl⟩
  | .node span (.float literal), t, h, hl => by
    cases h with
    | float hv =>
      cases hl.root with
      | float => exact checks_decimal_iff.mpr ⟨_, hv, rfl⟩
  | .node span (.bool value), t, h, hl => by
    cases h with
    | bool =>
      cases hl.root with
      | bool => exact checks_bool_iff.mpr rfl
  | .node span .null, t, h, hl => by
    cases h with
    | null =>
      cases hl.root with
      | null => exact checks_null_iff.mpr rfl
  | .node span .choice, t, h, hl => by
    cases h with
    | choice =>
      cases hl.root with
      | choice => exact checks_choice_iff.mpr rfl
  | .node span .fairChoice, t, h, hl => by
    cases h with
    | fairChoice =>
      cases hl.root with
      | fairChoice => exact checks_fairChoice_iff.mpr rfl
  | .node span .halt, t, h, hl => by
    cases h with
    | halt he =>
      cases hl.root with
      | event => exact checks_halt_iff.mpr ⟨_, he, rfl⟩
  | .node span .self, t, h, hl => by
    cases h with
    | self hm =>
      cases hl.root with
      | self => exact checks_self_iff.mpr ⟨_, hm, rfl⟩
  | .node span (.linear mode name), t, h, hl => by
    cases h with
    | linear hv =>
      cases hl.root with
      | linear => exact checks_linear_iff.mpr ⟨_, hv, rfl⟩
  | .node span (.unary op operand), t, h, hl => by
    cases h with
    | unary ho =>
      have hc := ho.checks (hl.part (.head _))
      exact checks_unary_iff.mpr ⟨_, hc, _, rfl, hl.root⟩
  | .node span (.binary op lhs rhs), t, h, hl => by
    cases h with
    | binary hop hel her =>
      have hcl := hel.checks (hl.part (.head _))
      have hcr := her.checks (hl.part (.tail _ (.head _)))
      exact (checks_binary_iff hop).mpr ⟨_, hcl, _, hcr, _, rfl, hl.root⟩
    | member hek hem =>
      have hck := hek.checks (hl.part (.head _))
      have hcm := hem.checks (hl.part (.tail _ (.head _)))
      exact checks_member_iff.mpr ⟨_, hck, _, hcm, _, rfl, hl.root⟩
  | .node span (.tuple elems), t, h, hl => by
    cases h with
    | tuple hes =>
      have hcs := checks_list hes fun part hp => hl.part hp
      exact checks_tuple_iff.mpr ⟨_, hcs, _, rfl, hl.root⟩
  | .node span (.named fields), t, h, hl => by
    cases h with
    | named hn hes =>
      have hcs := checks_fields hes fun part hp => hl.part hp
      exact checks_named_iff.mpr ⟨_, hn, hcs, _, rfl, hl.root⟩
  | .node span (.component base index), t, h, hl => by
    cases h with
    | component hb hp =>
      have hc := hb.checks (hl.part (.head _))
      exact checks_component_iff.mpr ⟨_, hc, _, _, hp, rfl, hl.root⟩
  | .node span (.field base name), t, h, hl => by
    cases h with
    | field hb =>
      have hc := hb.checks (hl.part (.head _))
      exact checks_field_iff.mpr ⟨_, hc, _, rfl, hl.root⟩
  | .node span (.index base index), t, h, hl => by
    cases h with
    | seqItem hb hi hk =>
      have hcb := hb.checks (hl.part (.head _))
      have hci := hi.checks (hl.part (.tail _ (.head _)))
      exact checks_index_iff.mpr ⟨_, hcb, _, hci, _, .inl ⟨hk, rfl⟩, hl.root⟩
    | mapItem hb hi hk =>
      have hcb := hb.checks (hl.part (.head _))
      have hci := hi.checks (hl.part (.tail _ (.head _)))
      exact checks_index_iff.mpr ⟨_, hcb, _, hci, _, .inr ⟨hk, rfl⟩, hl.root⟩
  | .node span (.keys map), t, h, hl => by
    cases h with
    | keys hm =>
      have hc := hm.checks (hl.part (.head _))
      exact checks_keys_iff.mpr ⟨_, hc, _, rfl, hl.root⟩
  | .node span (.values map), t, h, hl => by
    cases h with
    | values hm =>
      have hc := hm.checks (hl.part (.head _))
      exact checks_values_iff.mpr ⟨_, hc, _, rfl, hl.root⟩
  | .node span (.sizeof collection), t, h, hl => by
    cases h with
    | sizeof hc =>
      have hc := hc.checks (hl.part (.head _))
      exact checks_sizeof_iff.mpr ⟨_, hc, _, rfl, hl.root⟩
  | .node span (.default ref), t, h, hl => by
    cases h with
    | default hty => exact checks_default_iff.mpr ⟨_, hty, rfl⟩
  | .node span (.call callee args), t, h, hl => by
    cases h with
    | call hf hes =>
      have hcs := checks_list hes fun part hp => hl.part hp
      exact checks_call_iff.mpr ⟨_, hf, _, hcs, _, rfl, hl.root⟩
  | .node span (.new machine args), t, h, hl => by
    cases h with
    | new hm hes =>
      have hcs := checks_list hes fun part hp => hl.part hp
      exact checks_new_iff.mpr ⟨_, hm, _, hcs, _, rfl, hl.root⟩
  | .node span (.cast operand ref), t, h, hl => by
    cases h with
    | cast ho hty =>
      have hc := ho.checks (hl.part (.head _))
      exact checks_cast_iff.mpr ⟨_, hc, _, hty, rfl, hl.root⟩
  | .node span (.coerce operand ref), t, h, hl => by
    cases h with
    | coerce ho hty hs =>
      -- that there is something to convert follows from the rule of the node
      have hc := ho.checks (hl.part (.head _))
      exact checks_coerce_iff.mpr ⟨_, hc, _, hty, .inr ⟨rfl, hl.root⟩⟩
    | identity ho hty hs =>
      exact checks_coerce_iff.mpr ⟨_, ho.checks hl, _, hty, .inl ⟨hs, rfl⟩⟩

theorem checks_list : ∀ {es : List Expr} {ts : List Typed},
    List.Forall₂ ctx.Elaborates es ts → (∀ t ∈ ts, t.Everywhere Typed.Lawful) →
      List.Forall₂ ctx.Checks es ts
  | [], ts, h, hl => by
    cases h
    exact .nil
  | e :: es, ts, h, hl => by
    obtain ⟨t, us, ht, hus, rfl⟩ := List.forall₂_cons_left_iff.mp h
    obtain ⟨hlt, hls⟩ := List.forall_mem_cons.mp hl
    exact .cons (ht.checks hlt) (checks_list hus hls)

theorem checks_fields : ∀ {fields : List (String × Expr)} {ts : List Typed},
    List.Forall₂ ctx.Elaborates (fields.map Prod.snd) ts →
      (∀ t ∈ ts, t.Everywhere Typed.Lawful) →
        List.Forall₂ ctx.Checks (fields.map Prod.snd) ts
  | [], ts, h, hl => by
    cases h
    exact .nil
  | (name, e) :: fields, ts, h, hl => by
    obtain ⟨t, us, ht, hus, rfl⟩ := List.forall₂_cons_left_iff.mp h
    obtain ⟨hlt, hls⟩ := List.forall_mem_cons.mp hl
    exact .cons (ht.checks hlt) (checks_fields hus hls)

end

/-- **Checking finds the lawful elaborations.**  It succeeds with a tree if and only if the tree
elaborates the expression and every node of it obeys its typing rule. -/
theorem check_eq_ok_iff (ctx : Context) (e : Expr) (t : Typed) :
    (ctx.check e).verdict = .ok t ↔ ctx.Elaborates e t ∧ t.Everywhere Typed.Lawful := by
  constructor
  · intro h
    exact Checks.faithful h
  · rintro ⟨he, hl⟩
    exact he.checks hl

end Context

end MachineTyping
