/-
# Errors are justified

An error makes a claim of its own: this type was found where that one was expected, this name stands
for nothing of the kind, this many arguments are not that many.  `Fault.Justified` says for every
fault when its claim is true.  It reads the fields of the fault, and for the rest the scope and what
was checked:

* what was found is none of what was expected, in kind and up to aliases, and something was expected;
* operands are refused to arithmetic and comparison only, and are not two numbers of one type;
* types are incomparable for a comparison or a cast that wants one of them to accept the other, or for
  a conversion that the table does not have.  A fault does not tell which, so the expression is asked;
* a name that is missing is not bound to a symbol of the kind, innermost, or names no type;
* a tuple has its fields and components, and the one asked for is not among them;
* counts differ, and what is repeated, or handed over twice, is there twice.

Everything that can be wrong with an expression itself is listed by `Context.Fails`, so that the main
result (`errors_are_justified`) goes through that list.  Assignment targets and argument lists add a
little of their own (section 5).
-/
import Mathlib.Data.List.Duplicate
import MachineTyping.Proofs.Choice.Mark
import MachineTyping.Proofs.Failure.First

namespace MachineTyping

/-! ## 1. Where an error can come from -/

namespace Context

/-- Checking the phrase comes to check the expression, at any depth. -/
def ReachesIn (ctx : Context) (phrase : Phrase) (d : Expr) : Prop :=
  ∃ e, ctx.ComesTo phrase e ∧ ctx.Reaches e d

/-- The arguments are the phrase, or those of a call or a constructor that is reached in it. -/
def ReachesArguments (ctx : Context) (phrase : Phrase) (args : List Expr) : Prop :=
  phrase = .arguments args ∨
    ∃ d callee, ctx.ReachesIn phrase d ∧ (d.form = .call callee args ∨ d.form = .new callee args)

/-- The names are those of the fields of a named tuple, or of a named tuple type, that is written in
an expression reached in the phrase. -/
def ReachesFields (ctx : Context) (phrase : Phrase) (names : List String) : Prop :=
  ∃ d, ctx.ReachesIn phrase d ∧
    ((∃ fields, d.form = .named fields ∧ names = fields.map Prod.fst) ∨
      ∃ (ref part : TypeRef) (fields : List (String × TypeRef)), d.written? = some ref ∧
        part.IsPartOf ref ∧ part.form = .named fields ∧ names = fields.map Prod.fst)

/-- The expression wants one of two types to accept the other: the types of the operands of an
equality, or the type of an operand and the one that it is cast to. -/
inductive Compares (ctx : Context) : Expr → Ty → Ty → Prop
  | equality {span : Span} {op : BinaryOp} {lhs rhs : Expr} {l r : Typed} :
      op.family = .equality → ctx.Checks lhs l → ctx.Checks rhs r →
      Compares ctx (.node span (.binary op lhs rhs)) l.ty r.ty
  | cast {span : Span} {e : Expr} {ref : TypeRef} {t : Typed} {ty : Ty} :
      ctx.Checks e t → ctx.scope.resolve ref = .ok ty →
      Compares ctx (.node span (.cast e ref)) t.ty ty

/-- The expression converts from the first type to the second. -/
inductive Converts (ctx : Context) : Expr → Ty → Ty → Prop
  | coerce {span : Span} {e : Expr} {ref : TypeRef} {t : Typed} {ty : Ty} :
      ctx.Checks e t → ctx.scope.resolve ref = .ok ty →
      Converts ctx (.node span (.coerce e ref)) t.ty ty

/-- Some of the arguments, from the first one on, hand the variable over twice. -/
def HandsOverTwice (ctx : Context) (args : List Expr) (name : String) : Prop :=
  ∃ first rest ts, args = first ++ rest ∧ List.Forall₂ ctx.Checks first ts ∧
    List.Duplicate name (Typed.handed ts)

/-- The phrase is refused, with that error. -/
def Refuses (ctx : Context) : Phrase → TypeError → Prop
  | .expr e, x => (ctx.check e).verdict = .error x
  | .target lvalue, x => (ctx.checkLvalue lvalue).verdict = .error x
  | .arguments args, x => (ctx.checkArguments args).verdict = .error x

end Context

/-- The expression is a literal for a number, spelled as in the text, and the text is none. -/
inductive Expr.Misspells : Expr → String → Prop
  | int {span : Span} {text : String} : integerOfText? text = none →
      Expr.Misspells (.node span (.int text)) text
  | decimal {span : Span} {whole : Option String} {fraction : String} :
      Binary64.ofDecimal? (whole.getD "") fraction = none →
      Expr.Misspells (.node span (.float (.decimal whole fraction)))
        (whole.getD "" ++ "." ++ fraction)

/-! ## 2. When a fault is justified -/

/-- The type is not what was expected: it is not the same type, or not of the kind. -/
def Expectation.RulesOut : Expectation → Ty → Prop
  | .type t, found => t.sameAs found = false
  | .kind k, found => found.kind ≠ k

/-- **The name does not stand for what is sought.**  Only its innermost binding counts. -/
def Sought.Missing (scope : Scope) (name : String) : Sought → Prop
  | .one .type => builtinType? name = none ∧ scope.lookupType name = none
  | .one kind => ∀ symbol, scope.lookup name = some symbol → symbol.kind ≠ kind
  | .value => ∀ symbol, scope.lookup name = some symbol →
      symbol.kind ≠ .var ∧ symbol.kind ≠ .element ∧ symbol.kind ≠ .event
  | .other _ => False

/-- **The fault is what it says**, where the phrase is checked. -/
def Fault.Justified (ctx : Context) (phrase : Phrase) : Fault → Prop
  | .mismatch found expected =>
    expected ≠ [] ∧ ∀ expectation ∈ expected, expectation.RulesOut found
  | .operands op lhs rhs =>
    (op.family = .arithmetic ∨ op.family = .comparison) ∧ ¬ lhs.SameNumber rhs
  | .incomparable left right =>
    (∃ d, ctx.ReachesIn phrase d ∧ ctx.Compares d left right) ∧ ¬ left.Comparable right ∨
      (∃ d, ctx.ReachesIn phrase d ∧ ctx.Converts d left right) ∧
        ¬ left.SameScalar right ∧ ¬ left.ConvertsTo right
  | .undeclared sought name => sought.Missing ctx.scope name
  | .noField field tuple =>
    ∃ fields, tuple.canonical = .named fields ∧ field ∉ fields.map Prod.fst
  | .outOfBounds index tuple =>
    ∃ elems, tuple.canonical = .tuple elems ∧
      ∀ position, naturalOfChars? index.toList = some position → ¬ position < elems.length
  | .relinquished name => ∃ args, ctx.ReachesArguments phrase args ∧ ctx.HandsOverTwice args name
  | .misplacedSelf => ctx.owner = none
  | .argumentCount expected found => expected ≠ found
  | .badNumber text => ∃ d, ctx.ReachesIn phrase d ∧ d.Misspells text
  | .exponentLiteral =>
    ∃ d base power, ctx.ReachesIn phrase d ∧ d.form = .float (.exponent base power)
  | .repeatedField field => ∃ names, ctx.ReachesFields phrase names ∧ List.Duplicate field names

section Types

variable {a b : Ty}

/-- Types of different kinds are different types. -/
theorem Ty.sameAs_eq_false_of_kind (h : b.kind ≠ a.kind) : a.sameAs b = false := by
  rw [← Bool.not_eq_true, Ty.sameAs_iff]
  intro hab
  exact h (by rw [← Ty.kind_canonical b, ← hab, Ty.kind_canonical])

/-- What a type does not accept is not that type, because it accepts itself. -/
theorem Ty.sameAs_eq_false_of_accepts (h : a.accepts b = false) : a.sameAs b = false := by
  rw [← Bool.not_eq_true]
  intro hab
  rw [Ty.accepts_of_sameAs hab] at h
  cases h

/-- An argument that may not be passed has not the type of the parameter. -/
theorem Parameter.sameAs_eq_false_of_not_takes {param : Parameter} {arg : Typed}
    (h : ¬ param.Takes arg) : param.ty.sameAs arg.ty = false := by
  rw [← Bool.not_eq_true]
  intro hs
  exact h ⟨Ty.accepts_of_sameAs hs, fun _ _ => hs⟩

end Types

section Faults

variable {ctx : Context} {phrase : Phrase}

/-- An operand that one thing was expected of, and that is not that. -/
theorem Typed.justified_mismatch_one {t : Typed} {expectation : Expectation}
    (h : expectation.RulesOut t.ty) :
    (t.mismatch [expectation]).fault.Justified ctx phrase :=
  ⟨List.cons_ne_nil _ _, List.forall_mem_singleton.mpr h⟩

/-- One that either of two things was expected of. -/
theorem Typed.justified_mismatch_two {t : Typed} {first second : Expectation}
    (hf : first.RulesOut t.ty) (hs : second.RulesOut t.ty) :
    (t.mismatch [first, second]).fault.Justified ctx phrase :=
  ⟨List.cons_ne_nil _ _, List.forall_mem_cons.mpr ⟨hf, List.forall_mem_singleton.mpr hs⟩⟩

/-- A field that is looked up in vain is not there. -/
theorem Fault.justified_noField {name : String} {tuple : Ty} {fields : List (String × Ty)}
    (hc : tuple.canonical = .named fields) (hl : fields.lookup name = none) :
    (Fault.noField name tuple).Justified ctx phrase := by
  refine ⟨fields, hc, fun hm => ?_⟩
  obtain ⟨⟨_, ty⟩, hf, rfl⟩ := List.mem_map.mp hm
  have hne := List.lookup_eq_none_iff.mp hl (_, ty) hf
  simp at hne

/-- A position that is out of bounds is not below the number of elements. -/
theorem Fault.justified_outOfBounds {index : String} {tuple : Ty} {elems : List Ty}
    (hc : tuple.canonical = .tuple elems)
    (hp : ∀ position, naturalOfChars? index.toList = some position → elems.length ≤ position) :
    (Fault.outOfBounds index tuple).Justified ctx phrase :=
  ⟨elems, hc, fun position hpos => Nat.not_lt.mpr (hp position hpos)⟩

/-- What was there before comes twice. -/
theorem duplicate_of_mem {name : String} {before after : List String} (h : name ∈ before) :
    List.Duplicate name (before ++ name :: after) := by
  rw [List.duplicate_iff_sublist]
  have hs : List.Sublist [name] (name :: after) :=
    List.singleton_sublist.mpr List.mem_cons_self
  exact (List.singleton_sublist.mpr h).append hs

end Faults

/-! ## 3. Written types -/

section Resolution

variable {scope : Scope} {x : TypeError}

/-- What can be wrong with a written type: a name in it that is no type, or a field in it that is
repeated. -/
inductive Scope.Disallows (scope : Scope) (ref : TypeRef) : Fault → Prop
  | undeclared {span : Span} {name : String} : (TypeRef.node span (.name name)).IsPartOf ref →
      builtinType? name = none → scope.lookupType name = none →
      Scope.Disallows scope ref (.undeclared (.one .type) name)
  | repeated {span : Span} {fields : List (String × TypeRef)} {name : String} :
      (TypeRef.node span (.named fields)).IsPartOf ref →
      List.Duplicate name (fields.map Prod.fst) → Scope.Disallows scope ref (.repeatedField name)

/-- **An error of a written type is something that is wrong with it.** -/
theorem Scope.disallows_of_resolve_error {ref : TypeRef} (h : scope.resolve ref = .error x) :
    scope.Disallows ref x.fault := by
  obtain ⟨part, site, hp, hs, hx⟩ := Scope.exists_site_of_resolve_error h
  cases hs with
  | name =>
    obtain ⟨hn, rfl⟩ := Scope.offence?_name_eq_some_iff.mp hx
    obtain ⟨hb, hl⟩ := Option.or_eq_none_iff.mp hn
    exact .undeclared hp hb hl
  | field =>
    obtain ⟨hn, rfl⟩ := Scope.offence?_field_eq_some_iff.mp hx
    refine .repeated hp ?_
    rw [List.map_append]
    exact duplicate_of_mem hn

end Resolution

namespace Context

variable {ctx : Context} {phrase : Phrase} {x : TypeError}

/-- So an error of a type that is written in an expression is justified there. -/
theorem justified_of_resolve_error {d : Expr} {ref : TypeRef} (hd : ctx.ReachesIn phrase d)
    (hw : d.written? = some ref) (h : ctx.scope.resolve ref = .error x) :
    x.fault.Justified ctx phrase := by
  have hx : ctx.scope.Disallows ref x.fault := Scope.disallows_of_resolve_error h
  cases hf : x.fault with
  | undeclared sought name =>
    rw [hf] at hx
    cases hx with
    | undeclared _ hb hl => exact ⟨hb, hl⟩
  | repeatedField name =>
    rw [hf] at hx
    cases hx with
    | repeated hp hn => exact ⟨_, ⟨d, hd, Or.inr ⟨ref, _, _, hw, hp, rfl, rfl⟩⟩, hn⟩
  | _ =>
    rw [hf] at hx
    cases hx

/-! ## 4. Expressions -/

/-- A variable that was handed over before is handed over twice. -/
theorem handsOverTwice_of_mem {before after : List Expr} {e : Expr} {ts : List Typed} {t : Typed}
    {mode : LinearMode} {v : Variable} (hts : List.Forall₂ ctx.Checks before ts)
    (ht : ctx.Checks e t) (hv : t.handover? = some (mode, v)) (hm : v.name ∈ Typed.handed ts) :
    ctx.HandsOverTwice (before ++ e :: after) v.name := by
  refine ⟨before ++ [e], after, ts ++ [t], by simp, ?_, ?_⟩
  · exact List.rel_append hts (.cons ht .nil)
  · rw [Typed.handed_append, Typed.handed_of_some hv]
    exact duplicate_of_mem hm

/-- A payload refuses arguments for a reason. -/
theorem justified_of_refuses {payload : Ty} {span : Span} {args : List Typed}
    (h : payload.Refuses span args x) : x.fault.Justified ctx phrase := by
  cases h with
  | nothing _ => exact Nat.one_ne_zero
  | whole ha => exact Typed.justified_mismatch_one (Ty.sameAs_eq_false_of_accepts ha)
  | unslotted hl _ =>
    show 1 ≠ args.length
    omega
  | count _ _ hc => exact hc
  | slot _ _ _ hm =>
    obtain ⟨-, -, -, -, -, -, -, hn⟩ := hm
    exact Typed.justified_mismatch_one
      (Ty.sameAs_eq_false_of_accepts (Bool.eq_false_iff.mpr hn))

/-- **What is wrong with an expression itself is what the error says.** -/
theorem Fails.justified {d : Expr} (hd : ctx.ReachesIn phrase d) (h : ctx.Fails d x) :
    x.fault.Justified ctx phrase := by
  cases h with
  | int h => exact ⟨_, hd, .int h⟩
  | decimal h => exact ⟨_, hd, .decimal h⟩
  | exponent => exact ⟨_, _, _, hd, rfl⟩
  | name h =>
    intro symbol hs
    have hv : ¬ symbol.IsValue := h symbol hs
    cases symbol with
    | function _ | machine _ => simp [Symbol.kind]
    | var _ | element _ | event _ => exact absurd trivial hv
  | halt h =>
    rintro (_ | _ | _ | _ | e) hs
    case event => exact absurd hs (h e)
    all_goals simp [Symbol.kind]
  | self h => exact h
  | linear h =>
    rintro (v | _ | _ | _ | _) hs
    case var => exact absurd hs (h v)
    all_goals simp [Symbol.kind]
  | default h | castType _ h | coerceType _ h => exact justified_of_resolve_error hd rfl h
  | neg _ hn =>
    obtain ⟨hi, hf⟩ := not_or.mp hn
    exact Typed.justified_mismatch_two (Ty.sameAs_eq_false_of_kind hi)
      (Ty.sameAs_eq_false_of_kind hf)
  | not _ hn | logicalLeft _ _ _ hn | logicalRight _ _ _ _ hn | seqIndex _ _ _ hn =>
    exact Typed.justified_mismatch_one (Ty.sameAs_eq_false_of_kind hn)
  | numbers ho _ _ hn => exact ⟨ho, hn⟩
  | equality ho hl hr hn => exact Or.inl ⟨⟨_, hd, .equality ho hl hr⟩, hn⟩
  | memberMap _ _ hn | component _ hn | field _ hn | keys _ hn | values _ hn =>
    exact Typed.justified_mismatch_one hn
  | memberKey _ _ _ hn | mapIndex _ _ _ hn =>
    exact Typed.justified_mismatch_one (Ty.sameAs_eq_false_of_accepts hn)
  | repeated _ _ hn =>
    refine ⟨_, ⟨_, hd, Or.inl ⟨_, rfl, rfl⟩⟩, ?_⟩
    rw [List.map_append]
    exact duplicate_of_mem hn
  | outOfBounds _ hc hp => exact Fault.justified_outOfBounds hc hp
  | noField _ hc hl => exact Fault.justified_noField hc hl
  | index _ _ hs hm => exact Typed.justified_mismatch_two hs hm
  | sizeof _ hs hm => exact Typed.justified_mismatch_two hs hm
  | callee h =>
    rintro (_ | f | _ | _ | _) hs
    case function => exact absurd hs (h f)
    all_goals simp [Symbol.kind]
  | argumentCount _ hc => exact hc.symm
  | argHandedOver _ hts ht hv hm =>
    exact ⟨_, Or.inr ⟨_, _, hd, Or.inl rfl⟩, handsOverTwice_of_mem hts.1 ht hv hm⟩
  | newArgHandedOver _ hts ht hv hm =>
    exact ⟨_, Or.inr ⟨_, _, hd, Or.inr rfl⟩, handsOverTwice_of_mem hts.1 ht hv hm⟩
  | parameter _ _ _ hm =>
    obtain ⟨-, -, -, -, -, -, -, hn⟩ := hm
    exact Typed.justified_mismatch_one (Parameter.sameAs_eq_false_of_not_takes hn)
  | machine h =>
    rintro (_ | _ | m | _ | _) hs
    case machine => exact absurd hs (h m)
    all_goals simp [Symbol.kind]
  | payload _ _ hr => exact justified_of_refuses hr
  | cast ht hr hn => exact Or.inl ⟨⟨_, hd, .cast ht hr⟩, hn⟩
  | coerce ht hr hs hc => exact Or.inr ⟨⟨_, hd, .coerce ht hr⟩, hs, hc⟩

/-- Errors of an expression that is come to are justified. -/
theorem justified_of_check {e : Expr} (he : ctx.ComesTo phrase e)
    (h : (ctx.check e).verdict = .error x) : x.fault.Justified ctx phrase := by
  obtain ⟨d, hr, hd⟩ := (shows_iff (i := .error x)).mp h
  exact Fails.justified ⟨e, he, hr⟩ hd

/-! ## 5. Targets and arguments -/

/-- An error of a target is one of an index that is come to, or one that the target's own rules
report.  What they report is justified wherever it is. -/
theorem error_of_target : ∀ {target : Lvalue}, (ctx.checkLvalue target).verdict = .error x →
    (∃ e, ctx.ComesToIndex target e ∧ (ctx.check e).verdict = .error x) ∨
      ∀ phrase, x.fault.Justified ctx phrase
  | .node span (.var name), h => by
    have h : Rule.var ctx.scope span name = .error x := h
    refine Or.inr fun phrase => ?_
    unfold Rule.var at h
    split at h
    · cases h
    · rename_i hn
      cases h
      rintro (v | _ | _ | _ | _) hs
      case var => exact absurd hs (Scope.lookupVar_eq_none_iff.mp hn v)
      all_goals simp [Symbol.kind]
  | .node span (.field base name), h => by
    rcases Outcome.shows_bind_iff (i := .error x) |>.mp h with h | ⟨b, -, h⟩
    · rcases error_of_target h with ⟨e, he, hx⟩ | hx
      · exact Or.inl ⟨e, .field he, hx⟩
      · exact Or.inr hx
    · refine Or.inr fun phrase => ?_
      rcases Rule.field_eq_error_iff.mp h with ⟨hn, rfl⟩ | ⟨fields, hc, hl, rfl⟩
      · exact Typed.justified_mismatch_one hn
      · exact Fault.justified_noField hc hl
  | .node span (.component base index), h => by
    rcases Outcome.shows_bind_iff (i := .error x) |>.mp h with h | ⟨b, -, h⟩
    · rcases error_of_target h with ⟨e, he, hx⟩ | hx
      · exact Or.inl ⟨e, .component he, hx⟩
      · exact Or.inr hx
    · refine Or.inr fun phrase => ?_
      rcases Rule.component_eq_error_iff.mp h with ⟨hn, rfl⟩ | ⟨elems, hc, hp, rfl⟩
      · exact Typed.justified_mismatch_one hn
      · exact Fault.justified_outOfBounds hc hp
  | .node span (.index base index), h => by
    rcases Outcome.shows_bind_iff (i := .error x) |>.mp h with h | ⟨b, hb, h⟩
    · rcases error_of_target h with ⟨e, he, hx⟩ | hx
      · exact Or.inl ⟨e, .base he, hx⟩
      · exact Or.inr hx
    · rcases Outcome.shows_bind_iff (i := .error x) |>.mp h with h | ⟨i, -, h⟩
      · exact Or.inl ⟨index, .here hb, h⟩
      · refine Or.inr fun phrase => ?_
        rcases Rule.index_eq_error_iff.mp h with
          ⟨hs, hm, rfl⟩ | ⟨-, hn, rfl⟩ | ⟨key, value, -, ha, rfl⟩
        · exact Typed.justified_mismatch_two hs hm
        · exact Typed.justified_mismatch_one (Ty.sameAs_eq_false_of_kind hn)
        · exact Typed.justified_mismatch_one (Ty.sameAs_eq_false_of_accepts ha)

/-- An error of arguments is one of an argument that is come to, or tells of a variable that they
hand over twice. -/
theorem error_of_arguments {args : List Expr}
    (h : (ctx.checkArguments args).verdict = .error x) :
    (∃ e, ctx.ComesTo (.arguments args) e ∧ (ctx.check e).verdict = .error x) ∨
      ∃ name, x.fault = .relinquished name ∧ ctx.HandsOverTwice args name := by
  obtain ⟨before, d, after, ts, rfl, hts, h⟩ := (shows_arguments_iff (i := .error x)).mp h
  rcases h with h | ⟨t, mode, v, ht, hv, hm, hx⟩
  · exact Or.inl ⟨d, ⟨before, after, rfl, ts, hts⟩, h⟩
  · cases hx
    exact Or.inr ⟨v.name, rfl, handsOverTwice_of_mem hts.1 ht hv hm⟩

/-! ## 6. The result -/

/-- **Errors are justified.**  Whatever is reported when an expression, an assignment target or a list
of arguments is refused is true by the fields of the error: no error contradicts itself, as one would
that found what it expected. -/
theorem errors_are_justified (ctx : Context) (phrase : Phrase) (x : TypeError)
    (h : ctx.Refuses phrase x) : x.fault.Justified ctx phrase := by
  cases phrase with
  | expr e => exact justified_of_check rfl h
  | target target =>
    rcases error_of_target h with ⟨e, he, hx⟩ | hx
    · exact justified_of_check he hx
    · exact hx _
  | arguments args =>
    rcases error_of_arguments h with ⟨e, he, hx⟩ | ⟨name, hx, hn⟩
    · exact justified_of_check he hx
    · rw [hx]
      exact ⟨args, Or.inl rfl, hn⟩

/-- One of each: with `p : Pair`, where `Pair` is another name for `(int, bool)`, and `x : int`, the
conversion `p to int`, the target `p.2` and the arguments `move x, swap x`. -/
theorem errors_are_justified_pair :
    let pair : Ty := .alias "Pair" (.tuple [.int, .bool])
    let scope := (Scope.initial.declare (.symbol (.var ⟨"p", pair, none⟩))).1
    let ctx : Context := ⟨(scope.declare (.symbol (.var ⟨"x", .int, none⟩))).1, none⟩
    let conversion : Phrase :=
      .expr (.node ⟨0, 8⟩ (.coerce (.node ⟨0, 1⟩ (.name "p")) (.node ⟨5, 8⟩ (.name "int"))))
    let part : Phrase := .target (.node ⟨0, 3⟩ (.component (.node ⟨0, 1⟩ (.var "p")) "2"))
    let twice : Phrase :=
      .arguments [.node ⟨0, 6⟩ (.linear .move "x"), .node ⟨8, 14⟩ (.linear .swap "x")]
    (ctx.Refuses conversion ⟨.incomparable pair .int, ⟨0, 8⟩⟩ ∧
      (Fault.incomparable pair .int).Justified ctx conversion) ∧
    (ctx.Refuses part ⟨.outOfBounds "2" pair, ⟨0, 3⟩⟩ ∧
      (Fault.outOfBounds "2" pair).Justified ctx part) ∧
    ctx.Refuses twice ⟨.relinquished "x", ⟨8, 14⟩⟩ ∧
      (Fault.relinquished "x").Justified ctx twice := by
  intro pair scope ctx conversion part twice
  have hc : ctx.Refuses conversion ⟨.incomparable pair .int, ⟨0, 8⟩⟩ := rfl
  have hp : ctx.Refuses part ⟨.outOfBounds "2" pair, ⟨0, 3⟩⟩ := rfl
  have ht : ctx.Refuses twice ⟨.relinquished "x", ⟨8, 14⟩⟩ := rfl
  exact ⟨⟨hc, errors_are_justified ctx conversion _ hc⟩,
    ⟨hp, errors_are_justified ctx part _ hp⟩, ht, errors_are_justified ctx twice _ ht⟩

end Context

end MachineTyping
