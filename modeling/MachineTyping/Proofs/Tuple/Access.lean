/-
# Reading the parts of tuples

A component is read by its position, which is written as a numeral of any length, and a field by its
name.  Positions never go out of range (`Context.SelectsComponent`): a component is found exactly if
the numeral is one and its value, as a number without bounds, is below the number of components.  It
makes no difference to read the numeral into a machine word, because no tuple has more components
than there are words (`component_of_word`): a numeral that does not fit is out of range anyway.

Reading undoes building.  A tuple of expressions that check has at each position the type of the
expression there, and a named tuple under each name that of the field's value, since no other field
has the name (`lookup_of_mem`).
-/
import MachineTyping.Proofs.Alias.Canonical
import MachineTyping.Proofs.Failure.Rule
import MachineTyping.Proofs.Numeral.Digit
import MachineTyping.Proofs.Tree.Acceptance

namespace MachineTyping

/-! ## 1. Positions -/

/-- **What it means to read the component of a base whose type is a tuple of `elems`.**  The verdict is
the component at the position that the index stands for, if it is a row of digits whose number is
below that of the components, and out of bounds otherwise. -/
def SelectsComponent (span : Span) (base : Typed) (elems : List Ty) (index : String)
    (verdict : Verdict Typed) : Prop :=
  (∀ t, verdict = .ok t ↔
    ∃ (digits : Digits) (h : digits.value < elems.length), digits ≠ [] ∧ index = digits.text ∧
      t = .node span elems[digits.value] (.component base digits.value)) ∧
  ((¬ ∃ digits : Digits, digits ≠ [] ∧ index = digits.text ∧ digits.value < elems.length) →
    verdict = .error ⟨.outOfBounds index base.ty, span⟩)

section Positions

variable {span : Span} {base : Typed} {elems : List Ty} {index : String}

theorem Rule.selectsComponent (hbase : base.ty.canonical = .tuple elems) :
    SelectsComponent span base elems index (Rule.component span base index) := by
  constructor
  · intro t
    rw [Rule.component_eq_ok_iff]
    constructor
    · rintro ⟨position, ty, hp, rfl, hl⟩
      cases hl with
      | component hc he =>
        obtain rfl := Ty.tuple.inj (hc.symm.trans hbase)
        obtain ⟨digits, hne, hindex, rfl⟩ := naturalOfChars?_eq_some_iff.mp hp
        obtain ⟨hlt, rfl⟩ := List.getElem?_eq_some_iff.mp he
        exact ⟨digits, hlt, hne, Digits.text_eq_iff.mpr hindex, rfl⟩
    · rintro ⟨digits, hlt, hne, hindex, rfl⟩
      exact ⟨digits.value, elems[digits.value],
        naturalOfChars?_eq_some_iff.mpr ⟨digits, hne, Digits.text_eq_iff.mp hindex, rfl⟩, rfl,
        .component hbase (List.getElem?_eq_getElem hlt)⟩
  · intro hnone
    refine Rule.component_eq_error_iff.mpr (Or.inr ⟨elems, hbase, fun position hp => ?_, rfl⟩)
    obtain ⟨digits, hne, hindex, rfl⟩ := naturalOfChars?_eq_some_iff.mp hp
    by_contra hlt
    exact hnone ⟨digits, hne, Digits.text_eq_iff.mpr hindex, Nat.lt_of_not_le hlt⟩

/-- The components of a canonical tuple are canonical. -/
theorem Ty.canonical_of_mem_elems {t ty : Ty} (h : t.canonical = .tuple elems) (hty : ty ∈ elems) :
    ty.canonical = ty := by
  have hc := Ty.canonical_canonical t
  rw [h, Ty.canonical, Ty.canonicalList_eq_map, Ty.tuple.injEq] at hc
  have hid : elems.map Ty.canonical = elems.map id := hc.trans (List.map_id elems).symm
  exact List.map_inj_left.mp hid ty hty

/-- **Numerals may be read into words**: where there are no more components than numbers below
`bound`, a numeral that does not stay below it finds no component either way. -/
theorem component_of_word {bound : Nat} (hbound : 0 < bound) (h : elems.length ≤ bound)
    (text : List Char) :
    ((readBelow? bound text).bind fun position => elems[position]?) =
      (naturalOfChars? text).bind fun position => elems[position]? := by
  rw [readBelow?_eq hbound]
  cases naturalOfChars? text with
  | none => rfl
  | some position =>
    rw [Option.filter_some]
    split
    · rfl
    · rename_i hge
      have hlen : elems.length ≤ position := by
        rw [decide_eq_true_eq] at hge
        omega
      rw [Option.bind_none, Option.bind_some, List.getElem?_eq_none hlen]

end Positions

/-! ## 2. Names -/

/-- Where no name is repeated, each binding is found by its name. -/
theorem lookup_of_mem {β : Type} {name : String} {b : β} {bindings : List (String × β)}
    (hn : (bindings.map Prod.fst).Nodup) (h : (name, b) ∈ bindings) :
    bindings.lookup name = some b := by
  induction bindings with
  | nil => cases h
  | cons binding bindings ih =>
    obtain ⟨x, a⟩ := binding
    rw [List.map_cons, List.nodup_cons] at hn
    rw [List.lookup_cons]
    rcases List.mem_cons.mp h with heq | hmem
    · cases heq
      simp
    · have hne : name ≠ x := by
        rintro rfl
        exact hn.1 (List.mem_map.mpr ⟨(name, b), hmem, rfl⟩)
      rw [beq_false_of_ne hne]
      exact ih hn.2 hmem

/-! ## 3. Reading what was built -/

namespace Context

variable {ctx : Context} {span : Span}

theorem check_component {base : Expr} {b : Typed} (h : ctx.Checks base b) (index : String) :
    (ctx.check (.node span (.component base index))).verdict = Rule.component span b index := by
  have hc : ctx.check (.node span (.component base index)) =
      (ctx.check base >>= fun b => .of (Rule.component span b index)) := rfl
  rw [hc, Outcome.bind_verdict, h]
  rfl

theorem checkLvalue_component {base : Lvalue} {b : Typed}
    (h : (ctx.checkLvalue base).verdict = .ok b) (index : String) :
    (ctx.checkLvalue (.node span (.component base index))).verdict =
      Rule.component span b index := by
  have hc : ctx.checkLvalue (.node span (.component base index)) =
      (ctx.checkLvalue base >>= fun b => .of (Rule.component span b index)) := rfl
  rw [hc, Outcome.bind_verdict, h]
  rfl

/-- The node of a tuple of expressions that check. -/
theorem checks_tuple {es : List Expr} {ts : List Typed} (h : List.Forall₂ ctx.Checks es ts) :
    ctx.Checks (.node span (.tuple es)) (Rule.tuple span ts) :=
  checks_tuple_iff.mpr ⟨ts, h, _, rfl, .tuple⟩

/-- The node of a named tuple of expressions that check, under names that are different. -/
theorem checks_named {fields : List (String × Expr)} {fs : List (String × Typed)}
    (hnames : fs.map Prod.fst = fields.map Prod.fst) (hn : (fields.map Prod.fst).Nodup)
    (h : List.Forall₂ ctx.Checks (fields.map Prod.snd) (fs.map Prod.snd)) :
    ctx.Checks (.node span (.named fields)) (Rule.named span fs) :=
  checks_named_iff.mpr ⟨fs, hnames, h, _, rfl, .named (hnames ▸ hn)⟩

theorem checks_component_of_tuple {base : Expr} {span' : Span} {ts : List Typed}
    (h : ctx.Checks base (Rule.tuple span' ts)) {digits : Digits} (hne : digits ≠ [])
    (hlt : digits.value < ts.length) :
    ctx.Checks (.node span (.component base digits.text))
      (.node span ts[digits.value].ty.canonical
        (.component (Rule.tuple span' ts) digits.value)) := by
  have hnumber : naturalOfChars? digits.text.toList = some digits.value :=
    naturalOfChars?_eq_some_iff.mpr ⟨digits, hne, Digits.toList_text digits, rfl⟩
  have hbase : (Rule.tuple span' ts).ty.canonical =
      .tuple ((ts.map Typed.ty).map Ty.canonical) := by
    rw [← Ty.canonicalList_eq_map]
    rfl
  refine checks_component_iff.mpr ⟨_, h, _, _, hnumber, rfl, .component hbase ?_⟩
  rw [List.map_map, List.getElem?_map, List.getElem?_eq_getElem hlt]
  rfl

theorem checks_field_of_named {base : Expr} {span' : Span} {fs : List (String × Typed)}
    (h : ctx.Checks base (Rule.named span' fs)) (hn : (fs.map Prod.fst).Nodup) {name : String}
    {t : Typed} (ht : (name, t) ∈ fs) :
    ctx.Checks (.node span (.field base name))
      (.node span t.ty.canonical (.field (Rule.named span' fs) name)) := by
  have hbase : (Rule.named span' fs).ty.canonical =
      .named ((fs.map fun field => (field.1, field.2.ty)).map
        fun field => (field.1, field.2.canonical)) := by
    rw [← Ty.canonicalFields_eq_map]
    rfl
  refine checks_field_iff.mpr ⟨_, h, _, rfl, .field hbase ?_⟩
  rw [lookup_map_snd, lookup_map_snd, lookup_of_mem hn ht]
  rfl

/-- **Positions never go out of range, and reading undoes building.**

1. Where the type of a base that checks is a tuple, of whatever alias, a position is read exactly if
   it is a row of digits, of any length, whose number is below that of the components.  The node has
   that position and the type of that component, and everything else is out of bounds.  It is so in
   expressions and in the targets of assignments.
2. The type that is read is canonical.
3. No component is lost or found by reading positions into words.
4. Of expressions that check a tuple is built, and it has at each position the type of the
   expression there, in its canonical form;
5. under different names a named tuple is, and it has under each name that of the value there. -/
theorem components_invert_construction (ctx : Context) :
    (∀ (span : Span) (index : String) (b : Typed) (elems : List Ty),
      b.ty.canonical = .tuple elems →
        (∀ base, ctx.Checks base b →
          SelectsComponent span b elems index
            (ctx.check (.node span (.component base index))).verdict) ∧
        ∀ target, (ctx.checkLvalue target).verdict = .ok b →
          SelectsComponent span b elems index
            (ctx.checkLvalue (.node span (.component target index))).verdict) ∧
    (∀ (ty : Ty) (elems : List Ty), ty.canonical = .tuple elems →
      ∀ elem ∈ elems, elem.canonical = elem) ∧
    (∀ (elems : List Ty) (index : String), elems.length ≤ 2 ^ 64 →
      ((readBelow? (2 ^ 64) index.toList).bind fun position => elems[position]?) =
        (naturalOfChars? index.toList).bind fun position => elems[position]?) ∧
    (∀ (es : List Expr) (ts : List Typed), List.Forall₂ ctx.Checks es ts →
      ∀ span, ctx.Checks (.node span (.tuple es)) (Rule.tuple span ts) ∧
        ∀ (span' : Span) (digits : Digits) (_ : digits ≠ []) (_ : digits.value < ts.length),
          ctx.Checks (.node span' (.component (.node span (.tuple es)) digits.text))
            (.node span' ts[digits.value].ty.canonical
              (.component (Rule.tuple span ts) digits.value))) ∧
    ∀ (fields : List (String × Expr)) (fs : List (String × Typed)),
      fs.map Prod.fst = fields.map Prod.fst → (fields.map Prod.fst).Nodup →
      List.Forall₂ ctx.Checks (fields.map Prod.snd) (fs.map Prod.snd) →
      ∀ span, ctx.Checks (.node span (.named fields)) (Rule.named span fs) ∧
        ∀ span' name t, (name, t) ∈ fs →
          ctx.Checks (.node span' (.field (.node span (.named fields)) name))
            (.node span' t.ty.canonical (.field (Rule.named span fs) name)) := by
  refine ⟨fun span index b elems hb => ⟨fun base h => ?_, fun target h => ?_⟩,
    fun _ _ h _ he => Ty.canonical_of_mem_elems h he,
    fun _ _ hlen => component_of_word (by decide) hlen _, fun es ts h span => ?_,
    fun fields fs hnames hn h span => ?_⟩
  · rw [check_component h]
    exact Rule.selectsComponent hb
  · rw [checkLvalue_component h]
    exact Rule.selectsComponent hb
  · have hc : ctx.Checks (.node span (.tuple es)) (Rule.tuple span ts) := checks_tuple h
    exact ⟨hc, fun _ _ hne hlt => checks_component_of_tuple hc hne hlt⟩
  · have hc : ctx.Checks (.node span (.named fields)) (Rule.named span fs) :=
      checks_named hnames hn h
    exact ⟨hc, fun _ _ _ ht => checks_field_of_named hc (hnames ▸ hn) ht⟩

/-- With a zero in front, from a pair whose type has a name: `t.01` is its second component, read or
assigned to.  `t.18446744073709551617`, whose index is one more than there are words, is out of
bounds.  `(true, t.01).01` and `(a = true, b = t.01).b` are `t.01` again. -/
theorem components_invert_construction_padded :
    let t : Variable := ⟨"t", .alias "Pair" (.tuple [.int, .alias "Flag" .bool]), none⟩
    let ctx : Context := ⟨(Scope.initial.declare (.symbol (.var t))).1, none⟩
    let name : Expr := .node ⟨0, 1⟩ (.name "t")
    let target : Lvalue := .node ⟨0, 1⟩ (.var "t")
    let base : Typed := .node ⟨0, 1⟩ t.ty (.var t)
    let large : String := "18446744073709551617"
    let second : Expr := .node ⟨0, 4⟩ (.component name "01")
    let read : Typed := .node ⟨0, 4⟩ .bool (.component base 1)
    let yes : Expr := .node ⟨5, 9⟩ (.bool true)
    let ts : List Typed := [.node ⟨5, 9⟩ .bool (.bool true), read]
    let fs : List (String × Typed) := [("a", .node ⟨5, 9⟩ .bool (.bool true)), ("b", read)]
    (ctx.check second).verdict = .ok read ∧
    (ctx.checkLvalue (.node ⟨0, 4⟩ (.component target "01"))).verdict = .ok read ∧
    (ctx.check (.node ⟨0, 22⟩ (.component name large))).verdict =
      .error ⟨.outOfBounds large t.ty, ⟨0, 22⟩⟩ ∧
    Ty.bool.canonical = .bool ∧
    ((readBelow? (2 ^ 64) large.toList).bind fun position => [Ty.int, .bool][position]?) =
      ((naturalOfChars? large.toList).bind fun position => [Ty.int, .bool][position]?) ∧
    ctx.Checks (.node ⟨0, 13⟩ (.component (.node ⟨0, 10⟩ (.tuple [yes, second])) "01"))
      (.node ⟨0, 13⟩ .bool (.component (Rule.tuple ⟨0, 10⟩ ts) 1)) ∧
    ctx.Checks (.node ⟨0, 12⟩ (.field (.node ⟨0, 10⟩ (.named [("a", yes), ("b", second)])) "b"))
      (.node ⟨0, 12⟩ .bool (.field (Rule.named ⟨0, 10⟩ fs) "b")) := by
  intro t ctx name target base large second read yes ts fs
  obtain ⟨hselect, hcanonical, hword, htuple, hnamed⟩ := components_invert_construction ctx
  have hpair : base.ty.canonical = .tuple [.int, .bool] := rfl
  have hbase : ctx.Checks name base := rfl
  have htarget : (ctx.checkLvalue target).verdict = .ok base := rfl
  have hread : (ctx.check second).verdict = .ok read :=
    (((hselect ⟨0, 4⟩ "01" base _ hpair).1 name hbase).1 read).mpr
      ⟨[0, 1], by decide, by decide, by decide, rfl⟩
  have hassigned := (((hselect ⟨0, 4⟩ "01" base _ hpair).2 target htarget).1 read).mpr
    ⟨[0, 1], by decide, by decide, by decide, rfl⟩
  have hlarge : ¬ ∃ digits : Digits, digits ≠ [] ∧ large = digits.text ∧ digits.value < 2 := by
    rintro ⟨digits, -, htext, hlt⟩
    have hdigits : large =
        Digits.text [1, 8, 4, 4, 6, 7, 4, 4, 0, 7, 3, 7, 0, 9, 5, 5, 1, 6, 1, 7] := by decide
    obtain rfl := Digits.text_inj.mp (htext.symm.trans hdigits)
    exact absurd hlt (by decide)
  have hall : List.Forall₂ ctx.Checks [yes, second] ts := .cons rfl (.cons hread .nil)
  exact ⟨hread, hassigned, ((hselect ⟨0, 22⟩ large base _ hpair).1 name hbase).2 hlarge,
    hcanonical _ _ hpair .bool (.tail _ (.head _)), hword [.int, .bool] large (by decide),
    (htuple _ ts hall ⟨0, 10⟩).2 ⟨0, 13⟩ [0, 1] (by decide) (by decide),
    (hnamed [("a", yes), ("b", second)] fs rfl (by decide) hall ⟨0, 10⟩).2 ⟨0, 12⟩ "b" read
      (.tail _ (.head _))⟩

end Context

end MachineTyping
