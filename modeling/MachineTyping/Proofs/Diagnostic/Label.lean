/-
# What the label on incomparable types says

Three constructs report that types are incomparable: an equality, a cast and a conversion.  The label
on the report says one thing for all of them, that **neither type is assignable from the other**.  It is
what equality and `as` ask for, so of them the label is true.  But `to` does not ask for it.  It goes by
a table of its own, which has rows for numbers and enums only, and takes no other type to itself: from
`bool` to `bool` there is no conversion, and the label is false.

The result is which phrases get a false label (`Context.incomparable_label_is_false_iff`): those where
checking comes to a conversion between types one of which accepts the other, and that are not both
numbers or enums.  Between numbers and enums, what `to` refuses has nothing in common.

An error does not tell which construct it comes from, so its origin is looked for.  Of expressions it is
known (`shows_iff`).  The targets' and arguments' own errors are about other things, and what goes
wrong in an expression of theirs goes wrong with the whole (`ComesTo.refuses`).
-/
import MachineTyping.Diagnostic
import MachineTyping.Proofs.Conversion.Law
import MachineTyping.Proofs.Failure.Justified

namespace MachineTyping

/-! ## 1. Comparable types and the table -/

section Types

variable {a b : Ty}

/-- Numbers and enums accept their own type only. -/
theorem Ty.IsScalar.sameAs_of_accepts (h : a.IsScalar) (hab : a.accepts b = true) :
    a.sameAs b = true := by
  rw [Ty.sameAs_iff]
  rcases h with ha | ha | ⟨name, ha⟩
  · rw [Ty.accepts, ha] at hab
    exact ha.trans (Ty.int_admits_iff.mp hab).symm
  · rw [Ty.accepts, ha] at hab
    exact ha.trans (Ty.float_admits_iff.mp hab).symm
  · rw [Ty.accepts, ha] at hab
    exact ha.trans (Ty.enum_admits_iff.mp hab).symm

/-- What `to` knows of types that convert is that both are numbers or enums. -/
theorem Ty.Converts.isScalar (h : a.Converts b) : a.IsScalar ∧ b.IsScalar := by
  rcases h with h | h
  · exact ⟨(Ty.sameScalar_iff.mp h).1, (Ty.sameScalar_iff.mp h.symm).1⟩
  · exact ⟨h.symm.isScalar, h.isScalar⟩

/-- **Of types one of which accepts the other**, `to` converts the numbers and enums. -/
theorem Ty.Comparable.converts_iff (h : a.Comparable b) :
    a.Converts b ↔ a.IsScalar ∧ b.IsScalar := by
  constructor
  · exact Ty.Converts.isScalar
  · rintro ⟨ha, hb⟩
    rcases h with hab | hba
    · exact Or.inl (Ty.sameScalar_iff.mpr ⟨ha, ha.sameAs_of_accepts hab⟩)
    · exact Or.inl (Ty.sameScalar_iff.mpr ⟨hb, hb.sameAs_of_accepts hba⟩).symm

end Types

namespace Context

variable {ctx : Context} {phrase : Phrase} {x : TypeError} {left right : Ty} {span : Span}

/-! ## 2. Where the error comes from -/

/-- An index of a target that is refused has the target refused, with its error. -/
theorem ComesToIndex.shows {target : Lvalue} {e : Expr} (h : ctx.ComesToIndex target e)
    (hx : (ctx.check e).Shows (.error x)) : (ctx.checkLvalue target).Shows (.error x) := by
  induction h with
  | here hb => exact Outcome.shows_after hb hx.bind
  | base _ ih | field _ ih | component _ ih => exact (ih hx).bind

/-- **What is wrong with an expression that is come to is what the phrase is refused for.** -/
theorem ComesTo.refuses {e : Expr} (h : ctx.ComesTo phrase e)
    (hx : (ctx.check e).verdict = .error x) : ctx.Refuses phrase x := by
  cases phrase with
  | expr d =>
    obtain rfl : e = d := h
    exact hx
  | target target => exact ComesToIndex.shows h (x := x) hx
  | arguments args =>
    obtain ⟨before, after, rfl, ts, hts⟩ := h
    exact hts.shows (i := .error x) hx

/-- What a reached expression is at fault for is what the phrase is refused for. -/
theorem Fails.refuses {d : Expr} (hd : ctx.ReachesIn phrase d) (h : ctx.Fails d x) :
    ctx.Refuses phrase x := by
  obtain ⟨e, he, hr⟩ := hd
  exact he.refuses (hr.shows (i := .error x) h.shows)

/-- Incomparable types are found in an expression.  What can be wrong with a target itself, or with
arguments as a list, is something else. -/
theorem exists_fails_of_incomparable
    (h : ctx.Refuses phrase ⟨.incomparable left right, span⟩) :
    ∃ d, ctx.ReachesIn phrase d ∧ ctx.Fails d ⟨.incomparable left right, span⟩ := by
  have hcome : ∃ e, ctx.ComesTo phrase e ∧
      (ctx.check e).verdict = .error ⟨.incomparable left right, span⟩ := by
    cases phrase with
    | expr e => exact ⟨e, rfl, h⟩
    | target target =>
      rcases error_of_target h with ⟨e, he, hx⟩ | hjustified
      · exact ⟨e, he, hx⟩
      · -- a target's own error would be one without any expression
        rcases hjustified (.arguments []) with ⟨⟨d, ⟨e, he, -⟩, -⟩, -⟩ | ⟨⟨d, ⟨e, he, -⟩, -⟩, -⟩
        · exact absurd he.mem_exprs List.not_mem_nil
        · exact absurd he.mem_exprs List.not_mem_nil
    | arguments args =>
      rcases error_of_arguments h with ⟨e, he, hx⟩ | ⟨name, hx, -⟩
      · exact ⟨e, he, hx⟩
      · cases hx
  obtain ⟨e, he, hx⟩ := hcome
  obtain ⟨d, hr, hd⟩ := (shows_iff (i := .error ⟨.incomparable left right, span⟩)).mp hx
  exact ⟨d, ⟨e, he, hr⟩, hd⟩

/-- **The three constructs.**  Equality and `as` report types neither of which accepts the other, and
`to` those between which there is no conversion. -/
theorem Fails.of_incomparable {d : Expr} (h : ctx.Fails d ⟨.incomparable left right, span⟩) :
    ctx.Compares d left right ∧ ¬ left.Comparable right ∨
      (∃ e ref t, d = .node span (.coerce e ref) ∧ ctx.Checks e t ∧ t.ty = left ∧
        ctx.scope.resolve ref = .ok right) ∧ ¬ left.Converts right := by
  cases h with
  | equality ho hl hr hn => exact Or.inl ⟨.equality ho hl hr, hn⟩
  | cast ht hr hn => exact Or.inl ⟨.cast ht hr, hn⟩
  | coerce ht hr hs hc =>
    exact Or.inr ⟨⟨_, _, _, rfl, ht, rfl, hr⟩, not_or.mpr ⟨hs, hc⟩⟩
  | default h | castType _ h | coerceType _ h => cases Scope.disallows_of_resolve_error h
  | payload _ _ hr => cases hr

/-! ## 3. The result -/

/-- **The label on incomparable types is false for some conversions, and true otherwise.**  A phrase is
refused since two types are incomparable, where one of them accepts the other, exactly if checking it
comes to a conversion between them that are not both numbers or enums. -/
theorem incomparable_label_is_false_iff (ctx : Context) (phrase : Phrase) (left right : Ty)
    (span : Span) :
    ctx.Refuses phrase ⟨.incomparable left right, span⟩ ∧
        ¬ (left.accepts right = false ∧ right.accepts left = false) ↔
      ∃ e ref t, ctx.ReachesIn phrase (.node span (.coerce e ref)) ∧ ctx.Checks e t ∧
        t.ty = left ∧ ctx.scope.resolve ref = .ok right ∧
        (left.accepts right = true ∨ right.accepts left = true) ∧
        ¬ (left.IsScalar ∧ right.IsScalar) := by
  constructor
  · rintro ⟨h, hfalse⟩
    have hc : left.Comparable right := by
      rw [not_and_or, Bool.not_eq_false, Bool.not_eq_false] at hfalse
      exact hfalse
    obtain ⟨d, hd, hf⟩ := exists_fails_of_incomparable h
    rcases hf.of_incomparable with ⟨-, hn⟩ | ⟨⟨e, ref, t, rfl, ht, hty, hr⟩, hn⟩
    · exact absurd hc hn
    · rw [hc.converts_iff] at hn
      exact ⟨e, ref, t, hd, ht, hty, hr, hc, hn⟩
  · rintro ⟨e, ref, t, hd, ht, rfl, hr, hc, hn⟩
    have hcomparable : t.ty.Comparable right := hc
    rw [← hcomparable.converts_iff] at hn
    obtain ⟨hs, hv⟩ := not_or.mp hn
    refine ⟨Fails.refuses hd (.coerce ht hr hs hv), ?_⟩
    rw [not_and_or, Bool.not_eq_false, Bool.not_eq_false]
    exact hc

/-- So the label is not always true: `true to bool` is refused, with the label that `bool` is not
assignable to or from `bool`. -/
theorem incomparable_label_not_always_true :
    ¬ ∀ (ctx : Context) (phrase : Phrase) (left right : Ty) (span : Span),
      ctx.Refuses phrase ⟨.incomparable left right, span⟩ →
      (Fault.incomparable left right).label =
        "`" ++ left.spelling ++ "` is not assignable to or from `" ++ right.spelling ++ "`" →
      left.accepts right = false ∧ right.accepts left = false := by
  intro h
  have hrefused : (Context.mk .initial none).Refuses
      (.expr (.node ⟨0, 12⟩ (.coerce (.node ⟨0, 4⟩ (.bool true)) (.node ⟨8, 12⟩ (.name "bool")))))
      ⟨.incomparable .bool .bool, ⟨0, 12⟩⟩ := rfl
  have hlabel : (Fault.incomparable .bool .bool).label =
      "`" ++ Ty.bool.spelling ++ "` is not assignable to or from `" ++ Ty.bool.spelling ++ "`" :=
    rfl
  exact absurd (h _ _ _ _ _ hrefused hlabel).1 (by decide)

end Context

end MachineTyping
