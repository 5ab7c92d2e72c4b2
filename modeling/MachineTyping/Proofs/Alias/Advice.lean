/-
# What advice sees of aliases

The advice on a fault is read off the types in it, and aliases are to be transparent there as
everywhere: with every type in the error canonical, the advice should be what it was.  It is not.
Of a part that has the wrong type, what was **found** is looked at in its canonical form, and what
was **wanted** as it is written.  So nothing is advised where a number is found and the other type
of numbers is wanted **by another name** (`Fault.WantsNumberByAlias`).

That is all that goes wrong (`Fault.advice_through_aliases`):

* for every other fault, of any kind, the advice is the same with aliases and without;
* no text ever changes.  Advice that is given is given without aliases too, and what is missing is
  the advice to convert;
* the checker itself reports such faults at arguments only, because that is where a type as it was
  declared is wanted: that of a parameter, or a payload that is sent as one argument
  (`Context.DeclaresWanted`).  Every other type that a rule wants is built in, or a part of a
  canonical one.
-/
import MachineTyping.Diagnostic
import MachineTyping.Proofs.Alias.Canonical
import MachineTyping.Proofs.Failure.Justified

namespace MachineTyping

/-! ## 1. The faults that are overlooked -/

/-- **A number is found, and the other type of numbers is wanted, by another name.** -/
def Fault.WantsNumberByAlias : Fault → Prop
  | .mismatch found [.type want] =>
    want.canonical ≠ want ∧
      (found.canonical = .int ∧ want.canonical = .float ∨
        found.canonical = .float ∧ want.canonical = .int)
  | _ => False

section Mismatch

variable {found want : Ty} {expected : List Expectation}

/-- What is advised where one type was wanted.  That type is not resolved. -/
theorem Fault.advice?_mismatch_one (found want : Ty) :
    (Fault.mismatch found [.type want]).advice? =
      if found.canonical = .int ∧ want = .float then some "use `x to float`"
      else if found.canonical = .float ∧ want = .int then some "use `x to int`"
      else none := by
  simp only [Fault.advice?]
  split
  · next hf hw =>
    cases hw
    simp [hf]
  · next hf hw =>
    cases hw
    simp [hf]
  · next hfloat hint =>
    rw [if_neg, if_neg]
    · rintro ⟨hf, rfl⟩
      exact hint hf rfl
    · rintro ⟨hf, rfl⟩
      exact hfloat hf rfl

/-- Where more than one thing would have done, or a kind of type, nothing is advised. -/
theorem Fault.advice?_mismatch_eq_none (h : ∀ want, expected ≠ [.type want]) :
    (Fault.mismatch found expected).advice? = none := by
  simp only [Fault.advice?]
  split
  · exact absurd rfl (h _)
  · exact absurd rfl (h _)
  · rfl

/-- One type is wanted after its aliases are resolved only if one was before. -/
theorem Expectation.map_canonical_ne_one (h : ∀ want, expected ≠ [.type want]) (want : Ty) :
    expected.map Expectation.canonical ≠ [.type want] := by
  intro he
  match expected, he with
  | [.type t], _ => exact h t rfl
  | [.kind _], he => cases he

/-- What is overlooked comes with no advice, and without aliases with the advice to convert. -/
theorem Fault.WantsNumberByAlias.advice {fault : Fault} (h : fault.WantsNumberByAlias) :
    fault.advice? = none ∧
      ∃ name, fault.canonical.advice? = some ("use `x to " ++ name ++ "`") := by
  match fault, h with
  | .mismatch found [.type want], ⟨halias, hnumbers⟩ =>
    have hcanonical : (Fault.mismatch found [.type want]).canonical =
        .mismatch found.canonical [.type want.canonical] := rfl
    rw [hcanonical, Fault.advice?_mismatch_one, Fault.advice?_mismatch_one,
      Ty.canonical_canonical]
    rcases hnumbers with ⟨hf, hw⟩ | ⟨hf, hw⟩
    · refine ⟨?_, "float", by simp [hf, hw]⟩
      have hne : want ≠ .float := fun he => halias (by rw [he]; rfl)
      simp [hf, hne]
    · refine ⟨?_, "int", by simp [hf, hw]⟩
      have hne : want ≠ .int := fun he => halias (by rw [he]; rfl)
      simp [hf, hne]

/-- Where one type is wanted that is no such alias, the advice is what it is without aliases. -/
theorem Fault.advice?_mismatch_canonical
    (h : ¬ (Fault.mismatch found [.type want]).WantsNumberByAlias) :
    (Fault.mismatch found.canonical [.type want.canonical]).advice? =
      (Fault.mismatch found [.type want]).advice? := by
  rw [Fault.advice?_mismatch_one, Fault.advice?_mismatch_one, Ty.canonical_canonical]
  by_cases hw : want.canonical = want
  · rw [hw]
  · -- neither number type is wanted by its own name, so neither advice was given
    have hself : want ≠ .float ∧ want ≠ .int :=
      ⟨fun he => hw (by rw [he]; rfl), fun he => hw (by rw [he]; rfl)⟩
    have hnumbers := not_or.mp fun hn => h ⟨hw, hn⟩
    rw [if_neg hnumbers.1, if_neg hnumbers.2, if_neg fun hf => hself.1 hf.2,
      if_neg fun hf => hself.2 hf.2]

end Mismatch

/-- **Advice sees through all aliases but those.** -/
theorem Fault.advice?_canonical_iff (fault : Fault) :
    fault.canonical.advice? = fault.advice? ↔ ¬ fault.WantsNumberByAlias := by
  constructor
  · intro h hw
    obtain ⟨hnone, name, hsome⟩ := hw.advice
    rw [hnone, hsome] at h
    cases h
  · intro h
    cases fault with
    | mismatch found expected =>
      by_cases hone : ∃ want, expected = [.type want]
      · obtain ⟨want, rfl⟩ := hone
        exact Fault.advice?_mismatch_canonical h
      · have hone := not_exists.mp hone
        rw [Fault.advice?_mismatch_eq_none hone]
        exact Fault.advice?_mismatch_eq_none (Expectation.map_canonical_ne_one hone)
    | operands op lhs rhs => simp only [Fault.canonical, Fault.advice?, Ty.canonical_canonical]
    | incomparable left right => simp only [Fault.canonical, Fault.advice?, Ty.isOf_canonical]
    | noField field tuple => simp only [Fault.canonical, Fault.advice?, Ty.canonical_canonical]
    | outOfBounds index tuple => simp only [Fault.canonical, Fault.advice?, Ty.canonical_canonical]
    | _ => rfl

/-! ## 2. Where the checker reports them -/

/-- The slots of a payload that is sent as several arguments are canonical. -/
theorem Ty.canonical_slot {payload slot : Ty} {slots : List Ty}
    (hs : Rule.slots? payload = some slots) (h : slot ∈ slots) : slot.canonical = slot := by
  rcases Rule.slots?_eq_some_iff.mp hs with hc | ⟨fields, hc, rfl⟩
  · exact Ty.canonical_elem hc h
  · obtain ⟨⟨name, ty⟩, hf, rfl⟩ := List.mem_map.mp h
    exact Ty.canonical_field hc hf

/-- A canonical type is no other name for anything. -/
theorem Typed.not_wantsNumberByAlias {t : Typed} {want : Ty} (h : want.canonical = want) :
    ¬ (t.mismatch [.type want]).fault.WantsNumberByAlias := by
  rintro ⟨halias, -⟩
  exact halias h

namespace Context

variable {ctx : Context} {x : TypeError}

/-- **The type is wanted as it was declared**: it is the type of a parameter of the function that is
called, or the payload of the machine that is made from one argument. -/
inductive DeclaresWanted (ctx : Context) : Expr → Ty → Prop
  | parameter {span : Span} {callee : String} {args : List Expr} {f : Function}
      {param : Parameter} : ctx.scope.lookup callee = some (.function f) → param ∈ f.params →
      DeclaresWanted ctx (.node span (.call callee args)) param.ty
  | payload {span : Span} {machine : String} {arg : Expr} {m : Machine} :
      ctx.scope.lookup machine = some (.machine m) →
      DeclaresWanted ctx (.node span (.new machine [arg])) m.payload

/-- An error of a written type is about names. -/
theorem not_wantsNumberByAlias_of_resolve {ref : TypeRef} (h : ctx.scope.resolve ref = .error x) :
    ¬ x.fault.WantsNumberByAlias := by
  have hx := Scope.disallows_of_resolve_error h
  intro hw
  cases hf : x.fault with
  | mismatch found expected =>
    rw [hf] at hx
    cases hx
  | _ =>
    rw [hf] at hw
    exact hw

/-- **An expression that is at fault in this way wants a type as it was declared.** -/
theorem Fails.declaresWanted {d : Expr} (h : ctx.Fails d x) (hw : x.fault.WantsNumberByAlias) :
    ∃ found want, x.fault = .mismatch found [.type want] ∧ ctx.DeclaresWanted d want := by
  cases h with
  | parameter hf _ _ hm => exact ⟨_, _, rfl, .parameter hf hm.mem_left⟩
  | payload hm hts hr =>
    cases hr with
    | whole _ =>
      cases hts.1 with
      | cons _ hnil =>
        cases hnil
        exact ⟨_, _, rfl, .payload hm⟩
    | slot _ hs _ hmisfit =>
      exact absurd hw (Typed.not_wantsNumberByAlias (Ty.canonical_slot hs hmisfit.mem_left))
    | _ => exact hw.elim
  | default h | castType _ h | coerceType _ h =>
    exact absurd hw (not_wantsNumberByAlias_of_resolve h)
  | not _ _ | logicalLeft _ _ _ _ | logicalRight _ _ _ _ _ | seqIndex _ _ _ _ =>
    exact absurd hw (Typed.not_wantsNumberByAlias rfl)
  | memberKey _ _ hc _ | mapIndex _ _ hc _ =>
    exact absurd hw (Typed.not_wantsNumberByAlias (Ty.canonical_map hc).1)
  | _ => exact hw.elim

end Context

/-! ## 3. The result -/

/-- **Advice on faults and aliases.**  With every type in it canonical, a fault has the advice that it
had, unless it is that a number was found where the other type of numbers was wanted by another
name.  Advice that is given is never lost or changed in this way; in the other case there is none,
and without aliases there is the advice to convert.  When an expression is refused in this way, then
at a call or a constructor in it, where the type that is wanted is that of a parameter, or the
payload, as it was declared. -/
theorem Fault.advice_through_aliases (fault : Fault) :
    (fault.canonical.advice? = fault.advice? ↔ ¬ fault.WantsNumberByAlias) ∧
    (∀ help, fault.advice? = some help → fault.canonical.advice? = some help) ∧
    (fault.WantsNumberByAlias → fault.advice? = none ∧
      ∃ name, fault.canonical.advice? = some ("use `x to " ++ name ++ "`")) ∧
    ∀ (ctx : Context) (e : Expr) (span : Span), (ctx.check e).verdict = .error ⟨fault, span⟩ →
      fault.WantsNumberByAlias →
      ∃ d found want, ctx.Reaches e d ∧ ctx.Fails d ⟨fault, span⟩ ∧
        fault = .mismatch found [.type want] ∧ ctx.DeclaresWanted d want := by
  refine ⟨fault.advice?_canonical_iff, ?_, fun h => h.advice, ?_⟩
  · intro help h
    have hw : ¬ fault.WantsNumberByAlias := by
      intro hw
      rw [hw.advice.1] at h
      cases h
    rw [fault.advice?_canonical_iff.mpr hw, h]
  · intro ctx e span h hw
    obtain ⟨d, hr, hd, -⟩ := Context.exists_first_failure h
    obtain ⟨found, want, hx, hwant⟩ := hd.declaresWanted hw
    exact ⟨d, found, want, hr, hd, hx, hwant⟩

namespace AliasedParameter

/-- `Metres`, another name for `float`. -/
def metres : Ty := .alias "Metres" .float

/-- A function `f` of one parameter, of type `Metres`, and a variable `n` of type `int`. -/
def context : Context :=
  let outer := (Scope.initial.declare
    (.symbol (.function ⟨⟨"f", [⟨"length", metres⟩], .null, none⟩, 0⟩))).1
  ⟨(outer.declare (.symbol (.var ⟨"n", .int, none⟩))).1, none⟩

/-- `f(n)` -/
def call : Expr := .node ⟨0, 4⟩ (.call "f" [.node ⟨2, 3⟩ (.name "n")])

/-- What `f(n)` is refused for. -/
def error : TypeError := ⟨.mismatch .int [.type metres], ⟨2, 3⟩⟩

theorem refused : (context.check call).verdict = .error error := rfl

end AliasedParameter

/-- The call `f(n)`, where `f` takes `Metres`, another name for `float`, and `n` is an `int`: nothing
is advised, and without the alias it would be `n to float`.  With `float` by its own name and `n` of a
type that is another name for `int` there is advice, with the alias and without. -/
theorem Fault.advice_through_aliases_metres :
    let given : Fault := .mismatch (.alias "Count" .int) [.type .float]
    let fault := AliasedParameter.error.fault
    fault.WantsNumberByAlias ∧ fault.advice? = none ∧
    (∃ name, fault.canonical.advice? = some ("use `x to " ++ name ++ "`")) ∧
    given.canonical.advice? = some "use `x to float`" ∧
    ∃ d found want, AliasedParameter.context.Reaches AliasedParameter.call d ∧
      AliasedParameter.context.Fails d AliasedParameter.error ∧
      fault = .mismatch found [.type want] ∧ AliasedParameter.context.DeclaresWanted d want := by
  intro given fault
  have hw : fault.WantsNumberByAlias := ⟨by decide, Or.inl ⟨rfl, rfl⟩⟩
  obtain ⟨-, -, hlost, hchecked⟩ := Fault.advice_through_aliases fault
  obtain ⟨-, hkept, -, -⟩ := Fault.advice_through_aliases given
  obtain ⟨hnone, hsome⟩ := hlost hw
  exact ⟨hw, hnone, hsome, hkept _ rfl, hchecked _ _ _ AliasedParameter.refused hw⟩

/-- So advice does not always see through aliases, not even that on what the checker reports. -/
theorem Context.advice_not_always_through_aliases :
    ¬ ∀ (ctx : Context) (e : Expr) (x : TypeError), (ctx.check e).verdict = .error x →
      x.canonical.fault.advice? = x.fault.advice? := by
  intro h
  have hsame := h _ _ _ AliasedParameter.refused
  have hnone : AliasedParameter.error.fault.advice? = none := rfl
  have hsome : AliasedParameter.error.canonical.fault.advice? = some "use `x to float`" := rfl
  rw [hnone, hsome] at hsame
  cases hsame

end MachineTyping
