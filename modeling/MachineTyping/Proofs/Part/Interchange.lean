/-
# Interchangeable parts

What stands around an expression does not look into it.  Of a part that is checked it sees the
**face** of the node: its type, its span, and what it hands over, if it is a `move` or a `swap`.
Two parts with the same face can take each other's place, anywhere (`interchangeable_parts`):
either both wholes are accepted, with the same face again, or both are refused for the same reason.

* A rule that is given nodes with the same faces comes to related verdicts: the same error, or nodes
  with the same face.  For lists of arguments this includes what was handed over before.
* So one layer around two interchangeable expressions makes interchangeable expressions
  (`Interchangeable.fill`), and by induction so do any number of them.

That the face comes out the same again is what the induction needs, and it is not for free: `to` may
give its operand's node back, and then the whole hands over what its part does.

The span of the expressions must be the same as well, because a repeated field is reported where its
value stands, without checking it.
-/
import MachineTyping.Proofs.Part.Layer
import MachineTyping.Proofs.Tree.Acceptance

namespace MachineTyping

/-! ## 1. Faces and related verdicts -/

/-- **Two nodes have the same face**: they are the same to what is around them. -/
structure Typed.SameFace (t u : Typed) : Prop where
  ty : t.ty = u.ty
  span : t.span = u.span
  handover : t.handover? = u.handover?

/-- Two fields have the same name, and values with the same face. -/
def Typed.SameField (field field' : String × Typed) : Prop :=
  field.1 = field'.1 ∧ field.2.SameFace field'.2

theorem Typed.SameFace.refl (t : Typed) : t.SameFace t := ⟨rfl, rfl, rfl⟩

/-- The same is reported of operands with the same face. -/
theorem Typed.SameFace.mismatch {t u : Typed} (h : t.SameFace u) (expected : List Expectation) :
    t.mismatch expected = u.mismatch expected := by
  simp only [Typed.mismatch, h.ty, h.span]

/-- **Two verdicts are related**: both are the same error, or both find something, and what they
find is related. -/
inductive Verdict.Related {α β : Type} (R : α → β → Prop) : Verdict α → Verdict β → Prop
  | ok {a : α} {b : β} : R a b → Verdict.Related R (.ok a) (.ok b)
  | error (x : TypeError) : Verdict.Related R (.error x) (.error x)

namespace Verdict.Related

variable {α β γ δ : Type} {R : α → β → Prop} {S : γ → δ → Prop}

theorem refl {R : α → α → Prop} (hr : ∀ a, R a a) (v : Verdict α) : Verdict.Related R v v := by
  cases v with
  | ok a => exact .ok (hr a)
  | error x => exact .error x

theorem same (v : Verdict α) : Verdict.Related Eq v v := refl (fun _ => rfl) v

/-- Two rules that ask the same question. -/
theorem ite {c : Prop} [Decidable c] {v v' : Verdict α} {w w' : Verdict β}
    (hv : Verdict.Related R v w) (hv' : Verdict.Related R v' w') :
    Verdict.Related R (if c then v else v') (if c then w else w') := by
  split
  · exact hv
  · exact hv'

/-- Related verdicts that are gone on with in related ways. -/
theorem bind {v : Verdict α} {w : Verdict β} {f : α → Verdict γ} {g : β → Verdict δ}
    (h : Verdict.Related R v w) (hfg : ∀ a b, R a b → Verdict.Related S (f a) (g b)) :
    Verdict.Related S (v >>= f) (w >>= g) := by
  cases h with
  | ok hab => exact hfg _ _ hab
  | error x => exact .error x

/-- The same for outcomes, whose choices do not matter. -/
theorem outcome {x : Outcome α} {y : Outcome β} {f : α → Outcome γ} {g : β → Outcome δ}
    (h : Verdict.Related R x.verdict y.verdict)
    (hfg : ∀ a b, R a b → Verdict.Related S (f a).verdict (g b).verdict) :
    Verdict.Related S (x >>= f).verdict (y >>= g).verdict := by
  rw [Outcome.bind_verdict, Outcome.bind_verdict]
  exact h.bind hfg

/-- Verdicts that are related either find something both, or are the same error. -/
theorem cases_ok_or_error {v : Verdict α} {w : Verdict β} (h : Verdict.Related R v w) :
    (∃ a b, v = .ok a ∧ w = .ok b ∧ R a b) ∨ ∃ x, v = .error x ∧ w = .error x := by
  cases h with
  | ok hab => exact Or.inl ⟨_, _, rfl, rfl, hab⟩
  | error x => exact Or.inr ⟨x, rfl, rfl⟩

end Verdict.Related

/-! ## 2. Rules see faces -/

namespace Rule

variable {span : Span} {t u t' u' : Typed}

theorem unary_related (op : UnaryOp) (h : t.SameFace u) :
    Verdict.Related Typed.SameFace (Rule.unary span op t) (Rule.unary span op u) := by
  cases op <;>
  · simp only [Rule.unary, h.ty, h.mismatch]
    exact .ite (.ok ⟨rfl, rfl, rfl⟩) (.error _)

theorem hasKey_related (h : t.SameFace u) (h' : t'.SameFace u') :
    Verdict.Related Typed.SameFace (Rule.hasKey span t t') (Rule.hasKey span u u') := by
  simp only [Rule.hasKey, h.ty, h'.ty, h.mismatch, h'.mismatch]
  cases u'.ty.canonical with
  | map key value => exact .ite (.ok ⟨rfl, rfl, rfl⟩) (.error _)
  | _ => exact .error _

theorem binary_related (op : BinaryOp) (h : t.SameFace u) (h' : t'.SameFace u') :
    Verdict.Related Typed.SameFace (Rule.binary span op t t') (Rule.binary span op u u') := by
  unfold Rule.binary
  cases op.family with
  | membership => exact hasKey_related h h'
  | arithmetic | comparison | equality =>
    simp only [h.ty, h'.ty]
    exact .ite (.ok ⟨rfl, rfl, rfl⟩) (.error _)
  | logical =>
    simp only [h.ty, h'.ty, h.mismatch, h'.mismatch]
    exact .ite (.ite (.ok ⟨rfl, rfl, rfl⟩) (.error _)) (.error _)

theorem cast_related (target : Ty) (h : t.SameFace u) :
    Verdict.Related Typed.SameFace (Rule.cast span t target) (Rule.cast span u target) := by
  simp only [Rule.cast, h.ty]
  exact .ite (.ok ⟨rfl, rfl, rfl⟩) (.error _)

/-- Where nothing is converted the face is that of the operand. -/
theorem coerce_related (target : Ty) (h : t.SameFace u) :
    Verdict.Related Typed.SameFace (Rule.coerce span t target) (Rule.coerce span u target) := by
  simp only [Rule.coerce, h.ty]
  rcases u.ty.conversion? target with - | - | -
  · exact .error _
  · exact .ok h
  · exact .ok ⟨rfl, rfl, rfl⟩

theorem component_related (index : String) (h : t.SameFace u) :
    Verdict.Related Typed.SameFace (Rule.component span t index) (Rule.component span u index) := by
  simp only [Rule.component, h.ty, h.mismatch]
  cases u.ty.canonical with
  | tuple elems =>
    rcases naturalOfChars? index.toList with - | position
    · exact .error _
    · simp only
      cases elems[position]? with
      | none => exact .error _
      | some elem => exact .ok ⟨rfl, rfl, rfl⟩
  | _ => exact .error _

theorem field_related (name : String) (h : t.SameFace u) :
    Verdict.Related Typed.SameFace (Rule.field span t name) (Rule.field span u name) := by
  simp only [Rule.field, h.ty, h.mismatch]
  cases u.ty.canonical with
  | named fields =>
    simp only
    cases fields.lookup name with
    | none => exact .error _
    | some ty => exact .ok ⟨rfl, rfl, rfl⟩
  | _ => exact .error _

theorem index_related (h : t.SameFace u) (h' : t'.SameFace u') :
    Verdict.Related Typed.SameFace (Rule.index span t t') (Rule.index span u u') := by
  simp only [Rule.index, h.ty, h'.ty, h.mismatch, h'.mismatch]
  cases u.ty.canonical with
  | seq elem | map key value => exact .ite (.ok ⟨rfl, rfl, rfl⟩) (.error _)
  | _ => exact .error _

theorem keys_related (h : t.SameFace u) :
    Verdict.Related Typed.SameFace (Rule.keys span t) (Rule.keys span u) := by
  simp only [Rule.keys, h.ty, h.mismatch]
  cases u.ty.canonical with
  | map key value => exact .ok ⟨rfl, rfl, rfl⟩
  | _ => exact .error _

theorem values_related (h : t.SameFace u) :
    Verdict.Related Typed.SameFace (Rule.values span t) (Rule.values span u) := by
  simp only [Rule.values, h.ty, h.mismatch]
  cases u.ty.canonical with
  | map key value => exact .ok ⟨rfl, rfl, rfl⟩
  | _ => exact .error _

theorem sizeof_related (h : t.SameFace u) :
    Verdict.Related Typed.SameFace (Rule.sizeof span t) (Rule.sizeof span u) := by
  simp only [Rule.sizeof, h.ty, h.mismatch]
  exact .ite (.ok ⟨rfl, rfl, rfl⟩) (.error _)

section Lists

variable {ts us : List Typed}

theorem map_ty_of_sameFace (h : List.Forall₂ Typed.SameFace ts us) :
    ts.map Typed.ty = us.map Typed.ty := by
  induction h with
  | nil => rfl
  | cons h _ ih => rw [List.map_cons, List.map_cons, h.ty, ih]

theorem tuple_sameFace (h : List.Forall₂ Typed.SameFace ts us) :
    (Rule.tuple span ts).SameFace (Rule.tuple span us) :=
  ⟨congrArg Ty.tuple (map_ty_of_sameFace h), rfl, rfl⟩

theorem named_sameFace {fs gs : List (String × Typed)} (h : List.Forall₂ Typed.SameField fs gs) :
    (Rule.named span fs).SameFace (Rule.named span gs) := by
  have hm : (fs.map fun field => (field.1, field.2.ty)) =
      gs.map fun field => (field.1, field.2.ty) := by
    induction h with
    | nil => rfl
    | cons h _ ih => rw [List.map_cons, List.map_cons, h.1, h.2.ty, ih]
  exact ⟨congrArg Ty.named hm, rfl, rfl⟩

/-- The same variables are handed over. -/
theorem relinquish_eq (taken : List String) (h : t.SameFace u) :
    Rule.relinquish taken t = Rule.relinquish taken u := by
  simp only [Rule.relinquish, h.handover, h.span]

theorem passes_eq (param : Ty) (h : t.SameFace u) : Rule.passes param t = Rule.passes param u := by
  simp only [Rule.passes, h.handover, h.ty]

theorem passAll_eq (params : List Parameter) (h : List.Forall₂ Typed.SameFace ts us) :
    Rule.passAll params ts = Rule.passAll params us := by
  induction h generalizing params with
  | nil => rfl
  | cons h _ ih =>
    cases params with
    | nil => rfl
    | cons param params => simp only [Rule.passAll, passes_eq param.ty h, h.mismatch, ih params]

theorem fillAll_eq (slots : List Ty) (h : List.Forall₂ Typed.SameFace ts us) :
    Rule.fillAll slots ts = Rule.fillAll slots us := by
  induction h generalizing slots with
  | nil => rfl
  | cons h _ ih =>
    cases slots with
    | nil => rfl
    | cons slot slots => simp only [Rule.fillAll, h.ty, h.mismatch, ih slots]

theorem payload_eq (payload : Ty) (h : List.Forall₂ Typed.SameFace ts us) :
    Rule.payload payload span ts = Rule.payload payload span us := by
  have hfill := fun slots => fillAll_eq slots h
  have hl := h.length_eq
  cases h with
  | nil => rfl
  | cons _ hs =>
    cases hs with
    | nil => exact hfill [payload]
    | cons _ _ => simp only [Rule.payload, hl, hfill]

theorem call_related (f : Function) (h : List.Forall₂ Typed.SameFace ts us) :
    Verdict.Related Typed.SameFace (Rule.call span f ts) (Rule.call span f us) := by
  rw [Rule.call, Rule.call, passAll_eq f.params h]
  exact (Verdict.Related.same _).bind fun _ _ _ => .ok ⟨rfl, rfl, rfl⟩

theorem new_related (m : Machine) (h : List.Forall₂ Typed.SameFace ts us) :
    Verdict.Related Typed.SameFace (Rule.new span m ts) (Rule.new span m us) := by
  rw [Rule.new, Rule.new, payload_eq m.payload h]
  exact (Verdict.Related.same _).bind fun _ _ _ => .ok ⟨rfl, rfl, rfl⟩

end Lists

end Rule

namespace Context

variable {ctx : Context}

/-! ## 3. Lists of interchangeable expressions -/

/-- **Two expressions are interchangeable**: they stand at the same place, and are both refused for
the same reason or check to nodes with the same face. -/
structure Interchangeable (ctx : Context) (e f : Expr) : Prop where
  span : e.span = f.span
  verdict : Verdict.Related Typed.SameFace (ctx.check e).verdict (ctx.check f).verdict

theorem Interchangeable.refl (e : Expr) : ctx.Interchangeable e e :=
  ⟨rfl, .refl Typed.SameFace.refl _⟩

theorem checkList_related {es fs : List Expr} (h : List.Forall₂ ctx.Interchangeable es fs) :
    Verdict.Related (List.Forall₂ Typed.SameFace) (ctx.checkList es).verdict
      (ctx.checkList fs).verdict := by
  induction h with
  | nil => exact .ok .nil
  | cons h _ ih =>
    refine h.verdict.outcome fun t u htu => ?_
    exact ih.outcome fun ts us hts => .ok (.cons htu hts)

/-- Two fields have the same name, and interchangeable values. -/
def InterchangeableFields (ctx : Context) (field field' : String × Expr) : Prop :=
  field.1 = field'.1 ∧ ctx.Interchangeable field.2 field'.2

/-- A field that is repeated is repeated in both, and reported at the same place. -/
theorem checkFields_related {es fs : List (String × Expr)}
    (h : List.Forall₂ ctx.InterchangeableFields es fs) (seen : List String) :
    Verdict.Related (List.Forall₂ Typed.SameField) (ctx.checkFields seen es).verdict
      (ctx.checkFields seen fs).verdict := by
  induction h generalizing seen with
  | nil => exact .ok .nil
  | @cons field field' _ _ h _ ih =>
    obtain ⟨name, e⟩ := field
    obtain ⟨name', f⟩ := field'
    obtain ⟨rfl, hef⟩ : name = name' ∧ ctx.Interchangeable e f := h
    by_cases hs : name ∈ seen
    · simp only [checkFields, if_pos hs, hef.span]
      exact .error _
    · simp only [checkFields, if_neg hs]
      refine hef.verdict.outcome fun t u htu => ?_
      exact (ih (name :: seen)).outcome fun ts us hts => .ok (.cons ⟨rfl, htu⟩ hts)

/-- The same variables are handed over along the lists. -/
theorem checkArgs_related {es fs : List Expr} (h : List.Forall₂ ctx.Interchangeable es fs)
    (taken : List String) :
    Verdict.Related (List.Forall₂ Typed.SameFace) (ctx.checkArgs taken es).verdict
      (ctx.checkArgs taken fs).verdict := by
  induction h generalizing taken with
  | nil => exact .ok .nil
  | cons h _ ih =>
    refine h.verdict.outcome fun t u htu => ?_
    rw [Rule.relinquish_eq taken htu]
    refine (Verdict.Related.same _).outcome fun taken' _ ht => ?_
    subst ht
    exact (ih taken').outcome fun ts us hts => .ok (.cons htu hts)

/-! ## 4. Interchangeable parts -/

/-- Lists that differ at one place are related if what stands there is. -/
theorem forall₂_place {α : Type} {R : α → α → Prop} (hr : ∀ a, R a a) {a b : α} (h : R a b)
    (before after : List α) : List.Forall₂ R (before ++ a :: after) (before ++ b :: after) := by
  induction before with
  | nil => exact .cons h (List.forall₂_same.mpr fun a _ => hr a)
  | cons c before ih => exact .cons (hr c) ih

/-- **One layer**: expressions with interchangeable parts are interchangeable. -/
theorem Interchangeable.fill {e f : Expr} (h : ctx.Interchangeable e f) (layer : Expr.Layer) :
    ctx.Interchangeable (layer.fill e) (layer.fill f) := by
  obtain ⟨span, slot⟩ := layer
  refine ⟨rfl, ?_⟩
  have itself : ∀ d, ctx.Interchangeable d d := Interchangeable.refl
  have args := fun before after => checkArgs_related (forall₂_place itself h before after) []
  cases slot with
  | operand op => exact h.verdict.outcome fun t u htu => Rule.unary_related op htu
  | left op rhs =>
    refine h.verdict.outcome fun t u htu => ?_
    exact (itself rhs).verdict.outcome fun t' u' htu' => Rule.binary_related op htu htu'
  | right op lhs =>
    refine (itself lhs).verdict.outcome fun t u htu => ?_
    exact h.verdict.outcome fun t' u' htu' => Rule.binary_related op htu htu'
  | elem before after =>
    have hs := checkList_related (forall₂_place itself h before after)
    exact hs.outcome fun ts us hts => .ok (Rule.tuple_sameFace hts)
  | value before name after =>
    have hf : ctx.InterchangeableFields (name, e) (name, f) := ⟨rfl, h⟩
    have hs := checkFields_related
      (forall₂_place (fun field => ⟨rfl, itself field.2⟩) hf before after) []
    exact hs.outcome fun fs gs hfs => .ok (Rule.named_sameFace hfs)
  | component index => exact h.verdict.outcome fun t u htu => Rule.component_related index htu
  | field name => exact h.verdict.outcome fun t u htu => Rule.field_related name htu
  | base index =>
    refine h.verdict.outcome fun t u htu => ?_
    exact (itself index).verdict.outcome fun t' u' htu' => Rule.index_related htu htu'
  | index base =>
    refine (itself base).verdict.outcome fun t u htu => ?_
    exact h.verdict.outcome fun t' u' htu' => Rule.index_related htu htu'
  | keys => exact h.verdict.outcome fun t u htu => Rule.keys_related htu
  | values => exact h.verdict.outcome fun t u htu => Rule.values_related htu
  | sizeof => exact h.verdict.outcome fun t u htu => Rule.sizeof_related htu
  | arg callee before after =>
    simp only [Expr.Layer.fill, Expr.Slot.fill, check, checkForm, List.length_append,
      List.length_cons]
    refine (Verdict.Related.same _).outcome fun g _ hg => ?_
    subst hg
    exact (args before after).outcome fun ts us hts => Rule.call_related g hts
  | newArg machine before after =>
    refine (Verdict.Related.same _).outcome fun m _ hm => ?_
    subst hm
    exact (args before after).outcome fun ts us hts => Rule.new_related m hts
  | cast ref =>
    refine h.verdict.outcome fun t u htu => (Verdict.Related.same _).outcome fun ty _ hty => ?_
    subst hty
    exact Rule.cast_related ty htu
  | coerce ref =>
    refine h.verdict.outcome fun t u htu => (Verdict.Related.same _).outcome fun ty _ hty => ?_
    subst hty
    exact Rule.coerce_related ty htu

/-- Any number of layers. -/
theorem Interchangeable.within {e f : Expr} (h : ctx.Interchangeable e f)
    (layers : List Expr.Layer) : ctx.Interchangeable (e.within layers) (f.within layers) := by
  induction layers with
  | nil => exact h
  | cons layer layers ih => exact ih.fill layer

/-- **Parts with the same face are interchangeable.**  Take two expressions with the same span that
check to nodes of the same type and span, and that hand over the same or nothing.  In every place,
at any depth, either both are accepted, and the wholes have the same type and span, or both are
refused with the same error. -/
theorem interchangeable_parts (ctx : Context) (layers : List Expr.Layer) {e f : Expr}
    {t u : Typed} (he : ctx.Checks e t) (hf : ctx.Checks f u) (hspan : e.span = f.span)
    (hty : t.ty = u.ty) (hnode : t.span = u.span) (hhand : t.handover? = u.handover?) :
    (∃ v w, ctx.Checks (e.within layers) v ∧ ctx.Checks (f.within layers) w ∧
        v.ty = w.ty ∧ v.span = w.span) ∨
      ∃ x, (ctx.check (e.within layers)).verdict = .error x ∧
        (ctx.check (f.within layers)).verdict = .error x := by
  have h : ctx.Interchangeable e f := by
    refine ⟨hspan, ?_⟩
    rw [he, hf]
    exact .ok ⟨hty, hnode, hhand⟩
  rcases (h.within layers).verdict.cases_ok_or_error with ⟨v, w, hv, hw, hvw⟩ | hx
  · exact Or.inl ⟨v, w, hv, hw, hvw.ty, hvw.span⟩
  · exact Or.inr hx

/-- `move x` and `move x to int` are the same node, where there is nothing to convert.  As the second
argument of `f(move x, _)` both hand `x` over again. -/
theorem interchangeable_parts_handed_over :
    let x : Variable := ⟨"x", .int, none⟩
    let f : Function := ⟨⟨"f", [⟨"a", .int⟩, ⟨"b", .int⟩], .null, none⟩, 0⟩
    let ctx : Context := ⟨⟨⟨[("f", .function f), ("x", .var x)], []⟩, []⟩, none⟩
    let move : Expr := .node ⟨10, 16⟩ (.linear .move "x")
    let moveTo : Expr := .node ⟨10, 16⟩ (.coerce move (.node ⟨20, 23⟩ (.name "int")))
    let layers : List Expr.Layer := [⟨⟨0, 24⟩, .arg "f" [.node ⟨2, 8⟩ (.linear .move "x")] []⟩]
    let t : Typed := .node ⟨10, 16⟩ .int (.linear .move x)
    (ctx.Checks move t ∧ ctx.Checks moveTo t ∧ move.span = moveTo.span) ∧
      ((∃ v w, ctx.Checks (move.within layers) v ∧ ctx.Checks (moveTo.within layers) w ∧
          v.ty = w.ty ∧ v.span = w.span) ∨
        ∃ y, (ctx.check (move.within layers)).verdict = .error y ∧
          (ctx.check (moveTo.within layers)).verdict = .error y) := by
  intro x f ctx move moveTo layers t
  have hm : ctx.Checks move t := rfl
  have ht : ctx.Checks moveTo t := rfl
  exact ⟨⟨hm, ht, rfl⟩, interchangeable_parts ctx layers hm ht rfl rfl rfl rfl⟩

end Context

end MachineTyping
