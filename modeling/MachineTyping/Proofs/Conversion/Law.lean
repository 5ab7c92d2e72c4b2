/-
# The laws of `to`

`e to T` converts between numbers, and between integers and enums.  A value that has the type
already is given back as it is, so what comes of a conversion may be a node of its own or the
operand's.  Whichever it is, these laws hold (`Context.conversion_laws`):

* the result has the type that was asked for, up to aliases, and **asking for it again changes
  nothing**, since the types that `to` knows are those that it takes to themselves (`Ty.IsScalar`);
* whether there is a conversion is told by the two types alone, with their aliases resolved;
* a conversion can always be undone.

What `to` does is a table with rows for two ways, to leave alone and to convert.  The laws ask
only whether there is a row at all, `Ty.Converts`.
-/
import MachineTyping.Proofs.Tree.Acceptance

namespace MachineTyping

/-! ## 1. The table, without its two ways -/

/-- The types that `to` knows: the number types and the enums. -/
def Ty.IsScalar (t : Ty) : Prop :=
  t.canonical = .int ∨ t.canonical = .float ∨ ∃ name, t.canonical = .enum name

/-- **Values of one type can be made values of the other**, by converting them or by leaving them
as they are. -/
def Ty.Converts (source target : Ty) : Prop := source.SameScalar target ∨ source.ConvertsTo target

section Types

variable {a b c d : Ty}

/-- `to` does nothing to the values of a type that it knows and is to take to itself. -/
theorem Ty.sameScalar_iff : a.SameScalar b ↔ a.IsScalar ∧ a.sameAs b = true := by
  rw [Ty.sameAs_iff]
  constructor
  · rintro (⟨ha, hb⟩ | ⟨ha, hb⟩ | ⟨name, ha, hb⟩)
    · exact ⟨Or.inl ha, ha.trans hb.symm⟩
    · exact ⟨Or.inr (Or.inl ha), ha.trans hb.symm⟩
    · exact ⟨Or.inr (Or.inr ⟨name, ha⟩), ha.trans hb.symm⟩
  · rintro ⟨ha | ha | ⟨name, ha⟩, hab⟩
    · exact Or.inl ⟨ha, hab ▸ ha⟩
    · exact Or.inr (Or.inl ⟨ha, hab ▸ ha⟩)
    · exact Or.inr (Or.inr ⟨name, ha, hab ▸ ha⟩)

theorem Ty.SameScalar.symm (h : a.SameScalar b) : b.SameScalar a := by
  obtain ⟨ha, hab⟩ := Ty.sameScalar_iff.mp h
  rw [Ty.sameAs_iff] at hab
  refine Ty.sameScalar_iff.mpr ⟨?_, Ty.sameAs_iff.mpr hab.symm⟩
  rwa [Ty.IsScalar, ← hab]

/-- Every conversion has its inverse in the table. -/
theorem Ty.ConvertsTo.symm (h : a.ConvertsTo b) : b.ConvertsTo a := by
  rcases h with ⟨ha, hb⟩ | ⟨ha, hb⟩ | ⟨name, ha, hb⟩ | ⟨name, ha, hb⟩
  · exact Or.inr (Or.inl ⟨hb, ha⟩)
  · exact Or.inl ⟨hb, ha⟩
  · exact Or.inr (Or.inr (Or.inr ⟨name, hb, ha⟩))
  · exact Or.inr (Or.inr (Or.inl ⟨name, hb, ha⟩))

theorem Ty.Converts.symm (h : a.Converts b) : b.Converts a := by
  rcases h with h | h
  · exact Or.inl h.symm
  · exact Or.inr h.symm

theorem Ty.ConvertsTo.isScalar (h : a.ConvertsTo b) : b.IsScalar := by
  rcases h with ⟨-, hb⟩ | ⟨-, hb⟩ | ⟨name, -, hb⟩ | ⟨-, -, hb⟩
  · exact Or.inr (Or.inl hb)
  · exact Or.inl hb
  · exact Or.inr (Or.inr ⟨name, hb⟩)
  · exact Or.inl hb

/-- **The table looks at canonical types only.** -/
theorem Ty.converts_congr (hac : a.sameAs c = true) (hbd : b.sameAs d = true) :
    a.Converts b ↔ c.Converts d := by
  rw [Ty.sameAs_iff] at hac hbd
  simp only [Ty.Converts, Ty.SameScalar, Ty.ConvertsTo, hac, hbd]

end Types

namespace Context

variable {ctx : Context} {e : Expr} {ref : TypeRef} {ty : Ty} {span : Span} {o t : Typed}

/-! ## 2. Conversions that are written -/

/-- A conversion is accepted if the table has a row for it. -/
theorem exists_checks_coerce_iff (ho : ctx.Checks e o) (hty : ctx.scope.resolve ref = .ok ty) :
    (∃ t, ctx.Checks (.node span (.coerce e ref)) t) ↔ o.ty.Converts ty := by
  constructor
  · rintro ⟨t, ht⟩
    obtain ⟨o', ho', ty', hty', h⟩ := checks_coerce_iff.mp ht
    obtain rfl := ho.unique ho'
    obtain rfl := Except.ok.inj (hty.symm.trans hty')
    rcases h with ⟨hs, -⟩ | ⟨rfl, hl⟩
    · exact Or.inl hs
    · cases hl with
      | coerce hc => exact Or.inr hc
  · rintro (hs | hc)
    · exact ⟨o, checks_coerce_iff.mpr ⟨o, ho, ty, hty, Or.inl ⟨hs, rfl⟩⟩⟩
    · exact ⟨_, checks_coerce_iff.mpr ⟨o, ho, ty, hty, Or.inr ⟨rfl, .coerce hc⟩⟩⟩

/-- **What comes of a conversion needs no other**: `to` would leave it alone. -/
theorem Checks.sameScalar (ht : ctx.Checks (.node span (.coerce e ref)) t)
    (hty : ctx.scope.resolve ref = .ok ty) : t.ty.SameScalar ty := by
  obtain ⟨o, -, ty', hty', h⟩ := checks_coerce_iff.mp ht
  obtain rfl := Except.ok.inj (hty.symm.trans hty')
  rcases h with ⟨hs, rfl⟩ | ⟨rfl, hl⟩
  · exact hs
  · cases hl with
    | coerce hc => exact Ty.sameScalar_iff.mpr ⟨hc.isScalar, Ty.sameAs_iff.mpr rfl⟩

/-! ## 3. The result -/

/-- **The laws of `to`.**  Let `T` and `T'` be written types that are the same type.

A conversion to `T` has that type, and converting it to `T'` gives the very same tree.  Whether
there is one is the same for every other operand and written type, in any context, whose types
have the same canonical forms.  And if values of the type of `e` convert to `T`, values of that
type convert to every written form of the type of `e`. -/
theorem conversion_laws (ctx : Context) (e : Expr) (ref ref' : TypeRef) (ty ty' : Ty)
    (hty : ctx.scope.resolve ref = .ok ty) (hty' : ctx.scope.resolve ref' = .ok ty')
    (hsame : ty.sameAs ty' = true) :
    (∀ span t, ctx.Checks (.node span (.coerce e ref)) t →
      t.ty.sameAs ty = true ∧
      ∀ outer, ctx.Checks (.node outer (.coerce (.node span (.coerce e ref)) ref')) t) ∧
    (∀ o, ctx.Checks e o → ∀ (other : Context) (d : Expr) (p : Typed) (target : TypeRef) (u : Ty),
      other.Checks d p → other.scope.resolve target = .ok u →
      p.ty.canonical = o.ty.canonical → u.canonical = ty.canonical →
      ∀ span span', (∃ t, ctx.Checks (.node span (.coerce e ref)) t) ↔
        ∃ t, other.Checks (.node span' (.coerce d target)) t) ∧
    ∀ o, ctx.Checks e o → ∀ span, (∃ t, ctx.Checks (.node span (.coerce e ref)) t) →
      ∀ (d : Expr) (p : Typed) (back : TypeRef) (u : Ty), ctx.Checks d p →
        p.ty.sameAs ty = true → ctx.scope.resolve back = .ok u → u.sameAs o.ty = true →
        ∀ span', ∃ t, ctx.Checks (.node span' (.coerce d back)) t := by
  refine ⟨fun span t ht => ?_, ?_, ?_⟩
  · obtain ⟨hscalar, hself⟩ := Ty.sameScalar_iff.mp (ht.sameScalar hty)
    refine ⟨hself, fun outer => checks_coerce_iff.mpr ⟨t, ht, ty', hty', Or.inl ⟨?_, rfl⟩⟩⟩
    rw [Ty.sameAs_iff] at hself hsame
    exact Ty.sameScalar_iff.mpr ⟨hscalar, Ty.sameAs_iff.mpr (hself.trans hsame)⟩
  · intro o ho other d p target u hp hu hpo hu' span span'
    rw [exists_checks_coerce_iff ho hty, exists_checks_coerce_iff hp hu]
    exact Ty.converts_congr (Ty.sameAs_iff.mpr hpo.symm) (Ty.sameAs_iff.mpr hu'.symm)
  · intro o ho span h d p back u hp hpty hu huo span'
    rw [exists_checks_coerce_iff ho hty] at h
    rw [exists_checks_coerce_iff hp hu]
    exact (Ty.converts_congr hpty huo).mpr h.symm

/-- `(swap n to Total) to float` for `n` of type `Count`, where `Count` is `int` and `Total` is
`float` under another name.  The inner conversion makes a node, the outer one gives it back, and
what comes of it converts to `Count` again. -/
theorem conversion_laws_total :
    let count : Ty := .alias "Count" .int
    let total : Ty := .alias "Total" .float
    let n : Variable := ⟨"n", count, none⟩
    let ctx : Context :=
      ⟨⟨⟨[("n", .var n)], [("Total", total), ("Count", count)]⟩, []⟩, none⟩
    let e : Expr := .node ⟨0, 6⟩ (.linear .swap "n")
    let toTotal : Expr := .node ⟨0, 15⟩ (.coerce e (.node ⟨10, 15⟩ (.name "Total")))
    let o : Typed := .node ⟨0, 6⟩ count (.linear .swap n)
    let t : Typed := .node ⟨0, 15⟩ total (.coerce o)
    ctx.scope.resolve (.node ⟨10, 15⟩ (.name "Total")) = .ok total ∧
    ctx.scope.resolve (.node ⟨20, 25⟩ (.name "float")) = .ok .float ∧
    total.sameAs .float = true ∧ ctx.Checks toTotal t ∧
    (∀ outer, ctx.Checks (.node outer (.coerce toTotal (.node ⟨20, 25⟩ (.name "float")))) t) ∧
    ∀ span, ∃ u, ctx.Checks (.node span (.coerce toTotal (.node ⟨20, 25⟩ (.name "Count")))) u := by
  intro count total n ctx e toTotal o t
  have hty : ctx.scope.resolve (.node ⟨10, 15⟩ (.name "Total")) = .ok total := rfl
  have hty' : ctx.scope.resolve (.node ⟨20, 25⟩ (.name "float")) = .ok .float := rfl
  have hsame : total.sameAs .float = true := rfl
  have ht : ctx.Checks toTotal t := rfl
  obtain ⟨htwice, -, hback⟩ := conversion_laws ctx e _ _ total .float hty hty' hsame
  obtain ⟨hself, hagain⟩ := htwice ⟨0, 15⟩ t ht
  refine ⟨hty, hty', hsame, ht, hagain, fun span => ?_⟩
  exact hback o rfl ⟨0, 15⟩ ⟨t, ht⟩ toTotal t _ count ht hself rfl rfl span

end Context

end MachineTyping
