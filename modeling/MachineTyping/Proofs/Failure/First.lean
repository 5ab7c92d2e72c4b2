/-
# The first failure

An expression is refused because of one of the expressions in it, where the error is found.
`errors_come_from_first_failure` says which: the one that checking gets to with everything before it
passed, and that fails by itself.  The report points there, and nowhere else: to that expression,
to an expression inside it, or to a type that is written in it.  What checking does not get to might
as well be another expression (`check_within_congr`).

Three facts lead to the first failure:

* an expression that is refused is refused by a part that is entered, or fails by itself
  (`arises_of_shows`);
* a part that is entered and refused has the whole refused for the same reason (`shows_fill`).  So
  the search goes on in that part, and where it ends everything that was checked checks;
* the span of an error is that of the expression, of a typed part, or of a written type.  The node of
  a typed part may stand further inside, as `to` gives its operand's node back where there is nothing
  to convert (`Checks.span`).
-/
import MachineTyping.Proofs.Failure.Origin
import MachineTyping.Proofs.Resolution.Offence
import MachineTyping.Proofs.Tree.Elaboration

namespace MachineTyping

/-! ## 1. Where errors are reported -/

/-- The type that is written in an expression, outside of its parts. -/
def Expr.written? (e : Expr) : Option TypeRef :=
  match e.form with
  | .default ref | .cast _ ref | .coerce _ ref => some ref
  | _ => none

/-- **The span is that of something in the expression**: of the expression or of a part of it, or of
a type that is written in it. -/
def Expr.Locates (e : Expr) (span : Span) : Prop :=
  (∃ part : Expr, part.IsPartOf e ∧ span = part.span) ∨
    ∃ ref part : TypeRef, e.written? = some ref ∧ part.IsPartOf ref ∧ span = part.span

theorem Expr.Locates.whole {e : Expr} : e.Locates e.span := Or.inl ⟨e, .whole e, rfl⟩

/-- What is wrong with a written type is reported at one of its parts: where a name stands, or where
the type of a field does. -/
theorem Scope.span_of_resolve_error {scope : Scope} {ref : TypeRef} {x : TypeError}
    (h : scope.resolve ref = .error x) : ∃ part : TypeRef, part.IsPartOf ref ∧ x.span = part.span := by
  obtain ⟨part, site, hp, hs, hx⟩ := Scope.exists_site_of_resolve_error h
  cases hs with
  | name =>
    obtain ⟨-, rfl⟩ := Scope.offence?_name_eq_some_iff.mp hx
    exact ⟨_, hp, rfl⟩
  | @field _ before after name field =>
    obtain ⟨-, rfl⟩ := Scope.offence?_field_eq_some_iff.mp hx
    have hm : (name, field) ∈ before ++ (name, field) :: after :=
      List.mem_append_right before List.mem_cons_self
    exact ⟨field, (TypeRef.IsPartOf.field hm (.whole field)).trans hp, rfl⟩

namespace Context

variable {ctx : Context} {x : TypeError}

/-- A checked node has the span of the expression, or of a part that it stands for. -/
theorem Elaborates.span : ∀ {e : Expr} {t : Typed}, ctx.Elaborates e t →
    ∃ part : Expr, part.IsPartOf e ∧ t.span = part.span
  | .node span (.coerce e ref), _, .identity ha _ _ => by
    obtain ⟨part, hp, hs⟩ := ha.span
    exact ⟨part, hp.fill ⟨span, .coerce ref⟩, hs⟩
  | _, _, .var _ | _, _, .element _ | _, _, .event _ | _, _, .linear _ | _, _, .halt _
  | _, _, .self _ | _, _, .int _ | _, _, .float _ | _, _, .bool | _, _, .null | _, _, .choice
  | _, _, .fairChoice | _, _, .unary _ | _, _, .binary _ _ _ | _, _, .member _ _
  | _, _, .tuple _ | _, _, .named _ _ | _, _, .component _ _ | _, _, .field _
  | _, _, .seqItem _ _ _ | _, _, .mapItem _ _ _ | _, _, .keys _ | _, _, .values _
  | _, _, .sizeof _ | _, _, .default _ | _, _, .call _ _ | _, _, .new _ _ | _, _, .cast _ _
  | _, _, .coerce _ _ _ => ⟨_, .whole _, rfl⟩

theorem Checks.span {e : Expr} {t : Typed} (h : ctx.Checks e t) :
    ∃ part : Expr, part.IsPartOf e ∧ t.span = part.span :=
  h.faithful.1.span

/-- What is reported at a checked part is reported inside the whole. -/
theorem Checks.locates {d : Expr} {t : Typed} (h : ctx.Checks d t) (layer : Expr.Layer) :
    (layer.fill d).Locates t.span := by
  obtain ⟨part, hp, hs⟩ := h.span
  exact Or.inl ⟨part, hp.fill layer, hs⟩

/-- An argument that is reported stands among the arguments. -/
theorem checks_of_firstMisfit {α : Type} {fits : α → Typed → Prop} {slots : List α}
    {args : List Expr} {ts : List Typed} {slot : α} {t : Typed}
    (hts : List.Forall₂ ctx.Checks args ts) (h : FirstMisfit fits slots ts slot t) :
    ∃ before d after, args = before ++ d :: after ∧ ctx.Checks d t := by
  obtain ⟨-, -, ts₁, ts₂, -, rfl, -, -⟩ := h
  obtain ⟨before, d, after, rfl, -, hd, -⟩ := forall₂_append_cons_iff.mp hts.flip
  exact ⟨before, d, after, rfl, hd⟩

/-- **The error is reported inside the expression where it is found.** -/
theorem Fails.locates {e : Expr} (h : ctx.Fails e x) : e.Locates x.span := by
  cases h with
  | int _ | decimal _ | exponent | name _ | halt _ | self _ | linear _ | numbers _ _ _ _
  | equality _ _ _ _ | outOfBounds _ _ _ | noField _ _ _ | callee _ | argumentCount _ _
  | machine _ | cast _ _ _ | coerce _ _ _ _ => exact .whole
  | default h | castType _ h | coerceType _ h =>
    obtain ⟨part, hp, hx⟩ := Scope.span_of_resolve_error h
    exact Or.inr ⟨_, part, rfl, hp, hx⟩
  | @neg span _ _ ht _ => exact ht.locates ⟨span, .operand .neg⟩
  | @not span _ _ ht _ => exact ht.locates ⟨span, .operand .not⟩
  | @logicalLeft span op _ rhs _ _ _ hl _ _ => exact hl.locates ⟨span, .left op rhs⟩
  | @logicalRight span op lhs _ _ _ _ _ hr _ _ =>
    exact hr.locates ⟨span, .right op lhs⟩
  | @memberMap span key _ _ _ _ hm _ => exact hm.locates ⟨span, .right .member key⟩
  | @memberKey span _ map _ _ _ _ hk _ _ _ =>
    exact hk.locates ⟨span, .left .member map⟩
  | @repeated span before after name e _ _ _ _ =>
    exact Or.inl ⟨e, (Expr.IsPartOf.whole e).fill ⟨span, .value before name after⟩, rfl⟩
  | @component span _ index _ hb _ => exact hb.locates ⟨span, .component index⟩
  | @field span _ name _ hb _ => exact hb.locates ⟨span, .field name⟩
  | @index span _ index _ _ hb _ _ _ => exact hb.locates ⟨span, .base index⟩
  | @seqIndex span base _ _ _ _ hi _ _ | @mapIndex span base _ _ _ _ _ _ hi _ _ =>
    exact hi.locates ⟨span, .index base⟩
  | @keys span _ _ ht _ => exact ht.locates ⟨span, .keys⟩
  | @values span _ _ ht _ => exact ht.locates ⟨span, .values⟩
  | @sizeof span _ _ ht _ _ => exact ht.locates ⟨span, .sizeof⟩
  | @argHandedOver span callee before after _ _ _ _ _ _ _ ht _ _ =>
    exact ht.locates ⟨span, .arg callee before after⟩
  | @newArgHandedOver span machine before after _ _ _ _ _ _ _ ht _ _ =>
    exact ht.locates ⟨span, .newArg machine before after⟩
  | @parameter span callee _ _ _ _ _ _ _ hts hm =>
    obtain ⟨before, d, after, rfl, hd⟩ := checks_of_firstMisfit hts.1 hm
    exact hd.locates ⟨span, .arg callee before after⟩
  | @payload span machine _ _ _ _ _ hts hr =>
    cases hr with
    | nothing _ | unslotted _ _ | count _ _ _ => exact .whole
    | whole _ =>
      cases hts.1 with
      | cons hd _ => exact Checks.locates hd ⟨span, .newArg machine [] _⟩
    | slot _ _ _ hm =>
      obtain ⟨before, d, after, rfl, hd⟩ := checks_of_firstMisfit hts.1 hm
      exact hd.locates ⟨span, .newArg machine before after⟩

/-! ## 2. The first failure -/

/-- What is reached in an expression is the expression itself, or checks. -/
def Passes (ctx : Context) (e : Expr) : Prop :=
  ∀ part, ctx.Reaches e part → part = e ∨ ∃ t, ctx.Checks part t

/-- **There is a first failure**: an expression that is reached, fails by itself, and has no other
failure in what is reached of it. -/
theorem exists_first_failure {e : Expr} (h : (ctx.check e).verdict = .error x) :
    ∃ d, ctx.Reaches e d ∧ ctx.Fails d x ∧ ctx.Passes d := by
  induction e using Expr.induction_on_parts with
  | h e ih =>
    by_cases hp : ∃ (layer : Expr.Layer) (d : Expr) (y : TypeError),
        layer.fill d = e ∧ ctx.Enters layer.slot ∧ (ctx.check d).verdict = .error y
    · -- a part is refused, so the whole is refused for that, and the search goes on there
      obtain ⟨layer, part, y, rfl, hl, hy⟩ := hp
      have hxy : Except.error y = .error x :=
        (shows_fill (i := .error y) hl hy).symm.trans h
      cases hxy
      obtain ⟨d, hr, hd⟩ := ih layer part rfl hy
      exact ⟨d, hr.fill hl, hd⟩
    · -- all parts that are entered check, so the failure is here
      have entered : ∀ (layer : Expr.Layer) (d : Expr), layer.fill d = e →
          ctx.Enters layer.slot → ∃ t, ctx.Checks d t := by
        intro layer d he hl
        cases hd : (ctx.check d).verdict with
        | ok t => exact ⟨t, hd⟩
        | error y => exact absurd ⟨layer, d, y, he, hl, hd⟩ hp
      refine ⟨e, .refl e, ?_, fun part hr => ?_⟩
      · rcases arises_of_shows (i := .error x) h with h | ⟨layer, d, he, hl, hd⟩
        · exact h
        · exact absurd ⟨layer, d, x, he, hl, hd⟩ hp
      · rcases reaches_iff.mp hr with rfl | ⟨layer, d, he, hl, hr⟩
        · exact Or.inl rfl
        · obtain ⟨t, ht⟩ := entered layer d he hl
          exact Or.inr (ht.reaches hr.isPartOf).2

/-- **Errors come from the first, innermost failure.**  An expression is refused with an error
exactly if one of the expressions in it is reached and fails by itself with this error, all else
that is reached of it being checked.  The error is then reported at that expression, at an
expression inside it or at a type that is written in it.

What is not reached is not looked at, except for its span: the outcome is the same with any other
expression there.  Where a part is reached it is the same with any other that comes to the same
outcome. -/
theorem errors_come_from_first_failure (ctx : Context) :
    (∀ (e : Expr) (x : TypeError), (ctx.check e).verdict = .error x ↔
      ∃ d, d.IsPartOf e ∧ ctx.Reaches e d ∧ (ctx.check d).verdict = .error x ∧ ctx.Fails d x ∧
        ctx.Passes d ∧ d.Locates x.span) ∧
    ∀ (layers : List Expr.Layer) (d d' : Expr), d.span = d'.span →
      ((∀ layer ∈ layers, ctx.Enters layer.slot) → ctx.check d = ctx.check d') →
        ctx.check (d.within layers) = ctx.check (d'.within layers) := by
  constructor
  · intro e x
    constructor
    · intro h
      obtain ⟨d, hr, hd, hp⟩ := exists_first_failure h
      exact ⟨d, hr.isPartOf, hr, hd.shows, hd, hp, hd.locates⟩
    · rintro ⟨d, -, hr, hd, -⟩
      exact hr.shows (i := .error x) hd
  · intro layers d d' hs h
    exact check_within_congr hs h

/-- In `(0, not 1 + y)` the operand of `not` is reported, and `y`, which is not declared, is not
come to: a choice in its place is not met. -/
theorem errors_come_from_first_failure_left :
    let ctx : Context := ⟨.initial, none⟩
    let lhs : Expr := .node ⟨4, 9⟩ (.unary .not (.node ⟨8, 9⟩ (.int "1")))
    let layers : List Expr.Layer :=
      [⟨⟨0, 14⟩, .elem [.node ⟨1, 2⟩ (.int "0")] []⟩, ⟨⟨4, 13⟩, .right .add lhs⟩]
    let undeclared : Expr := .node ⟨12, 13⟩ (.name "y")
    let choice : Expr := .node ⟨12, 13⟩ .choice
    let x : TypeError := ⟨.mismatch .int [.type .bool], ⟨8, 9⟩⟩
    (ctx.check (undeclared.within layers)).verdict = .error x ∧
    (∃ d, ctx.Reaches (undeclared.within layers) d ∧ ctx.Fails d x ∧ d.Locates x.span) ∧
    (¬ ∀ layer ∈ layers, ctx.Enters layer.slot) ∧
    ctx.check (undeclared.within layers) = ctx.check (choice.within layers) ∧
    (ctx.check (choice.within layers)).choice = false := by
  intro ctx lhs layers undeclared choice x
  obtain ⟨hfirst, hreached⟩ := errors_come_from_first_failure ctx
  have hx : (ctx.check (undeclared.within layers)).verdict = .error x := rfl
  have hlhs : (ctx.check lhs).verdict = .error x := rfl
  have hnot : ¬ ∀ layer ∈ layers, ctx.Enters layer.slot := by
    intro h
    obtain ⟨l, hl⟩ : ∃ l, ctx.Checks lhs l := h _ (.tail _ (.head _))
    cases hlhs.symm.trans hl
  obtain ⟨d, -, hr, -, hd, -, hs⟩ := (hfirst _ x).mp hx
  exact ⟨hx, ⟨d, hr, hd, hs⟩, hnot, hreached layers undeclared choice rfl fun h => absurd h hnot,
    rfl⟩

end Context

end MachineTyping
