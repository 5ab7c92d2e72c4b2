/-
# The argument that an error is reported for

Where all parts of an expression check, it may still be refused since one of them is not of the type
that is wanted of it.  `ctx.ReportedFor layer d x` says that this is `d`, which stands at a place
where a type is wanted, and that `x` is the error: everything before `d` fits, and `d` does not.

* The error is what the checker then reports (`ReportedFor.refused`), and every error that is about
  one type that is wanted comes about in this way (`Fails.exists_reportedFor`).  Only the operands of
  `&&`, `||` and `!` are no arguments, and the type that is wanted of them is `bool`.
* **An argument that is mended is not reported again** (`ReportedFor.mended`): if something else is
  put in its place that is accepted there, the whole is accepted, or an error is reported for an
  argument that comes later.  A place is told by all that is around it, so the later one has the
  mended argument in it; `Wants.later` says that the same is wanted there.
-/
import MachineTyping.Proofs.Argument.Wanted
import MachineTyping.Proofs.Failure.Justified

namespace MachineTyping

/-- Lists that are related up to a place and of one length are of one length after it. -/
theorem length_eq_after {α β : Type} {R : α → β → Prop} {as₁ as₂ : List α} {bs₁ bs₂ : List β}
    {a : α} {b : β} (h : List.Forall₂ R as₁ bs₁)
    (hl : (as₁ ++ a :: as₂).length = (bs₁ ++ b :: bs₂).length) : as₂.length = bs₂.length := by
  have hl₁ := h.length_eq
  simp only [List.length_append, List.length_cons] at hl
  omega

namespace Context

/-! ## 1. Errors that are reported for an argument -/

/-- **The error is reported for the part at a place**: those before it fit what is wanted of them,
and it does not. -/
inductive ReportedFor (ctx : Context) : Expr.Layer → Expr → TypeError → Prop
  | misfit {span : Span} {place : Expr.Slot} {d : Expr} {wants₁ wants₂ : List Ty} {want result : Ty}
      {ts us : List Typed} {t : Typed} :
      ctx.Wants place (wants₁ ++ want :: wants₂) result ts us → ctx.Checks d t →
      (Typed.handed (ts ++ t :: us)).Nodup →
      List.Forall₂ place.Fits wants₁ ts → ¬ place.Fits want t → wants₂.length = us.length →
      ReportedFor ctx ⟨span, place⟩ d (t.mismatch [.type want])

variable {ctx : Context} {layer : Expr.Layer} {place : Expr.Slot} {span : Span} {d : Expr}
  {x : TypeError} {t u : Typed}

/-- A key or an index is the only part that something is wanted of. -/
theorem ReportedFor.single {want result : Ty} (hw : ctx.Wants place [want] result [] [])
    (hd : ctx.Checks d t) (hmiss : ¬ place.Fits want t) :
    ctx.ReportedFor ⟨span, place⟩ d (t.mismatch [.type want]) := by
  have hw : ctx.Wants place ([] ++ want :: []) result [] [] := hw
  exact .misfit hw hd t.nodup_handed_one .nil hmiss rfl

/-- The type that is found is that of the part. -/
theorem ReportedFor.checks {found : Ty} {expected : List Expectation}
    (h : ctx.ReportedFor layer d x) (hx : x.fault = .mismatch found expected) :
    ∃ t, ctx.Checks d t ∧ t.ty = found := by
  cases h with
  | misfit _ hd _ _ _ _ =>
    cases hx
    exact ⟨_, hd, rfl⟩

/-- **It is what the checker reports.** -/
theorem ReportedFor.refused (h : ctx.ReportedFor layer d x) :
    (ctx.check (layer.fill d)).verdict = .error x := by
  cases h with
  | @misfit span place _ wants₁ wants₂ want result ts us t hw hd hn hfit hmiss hl =>
    refine hw.refused hd hn ?_ ⟨wants₁, wants₂, ts, us, rfl, rfl, hfit, hmiss⟩
    rw [List.length_append, List.length_append, List.length_cons, List.length_cons,
      hfit.length_eq, hl]

/-! ## 2. Mending an argument -/

/-- Checked arguments are split where their trees are. -/
theorem exists_argument_after {before after : List Expr} {ts us₁ us₂ : List Typed}
    (hts : List.Forall₂ ctx.Checks before ts) (hd : ctx.Checks d t)
    (hafter : List.Forall₂ ctx.Checks after (us₁ ++ u :: us₂)) :
    ∃ after₁ part after₂, after = after₁ ++ part :: after₂ ∧
      List.Forall₂ ctx.Checks (before ++ d :: after₁) (ts ++ t :: us₁) ∧ ctx.Checks part u ∧
      List.Forall₂ ctx.Checks after₂ us₂ := by
  obtain ⟨after₁, part, after₂, rfl, h₁, hpart, h₂⟩ := forall₂_append_cons_iff.mp hafter.flip
  exact ⟨after₁, part, after₂, rfl, List.rel_append hts (.cons hd h₁.flip), hpart, h₂.flip⟩

/-- **What is around one argument is also around a later one.** -/
theorem Wants.later {wanted : List Ty} {result : Ty} {ts us us₁ us₂ : List Typed}
    (h : ctx.Wants place wanted result ts us) (hd : ctx.Checks d t) (hus : us = us₁ ++ u :: us₂) :
    ∃ later part, later.fill part = place.fill d ∧ place.position < later.position ∧
      later.Fits = place.Fits ∧ ctx.Wants later wanted result (ts ++ t :: us₁) us₂ ∧
      ctx.Checks part u := by
  cases h with
  | @arg callee before _ f _ _ hf hts hafter =>
    subst hus
    obtain ⟨after₁, part, after₂, rfl, hbefore, hpart, hrest⟩ :=
      exists_argument_after hts hd hafter
    refine ⟨.arg callee (before ++ d :: after₁) after₂, part, ?_, ?_, rfl,
      .arg hf hbefore hrest, hpart⟩
    · simp [Expr.Slot.fill]
    · simp [Expr.Slot.position]
  | @newArg machine before _ m _ _ hm hts hafter =>
    subst hus
    obtain ⟨after₁, part, after₂, rfl, hbefore, hpart, hrest⟩ :=
      exists_argument_after hts hd hafter
    -- there are as many arguments as before, so the payload has the same slots for them
    have hcount : (ts ++ t :: us₁).length + (us₂.length + 1) =
        ts.length + ((us₁ ++ u :: us₂).length + 1) := by
      simp
      omega
    have hw : ctx.Wants (.newArg machine (before ++ d :: after₁) after₂) _ _ _ _ :=
      .newArg hm hbefore hrest
    rw [hcount] at hw
    refine ⟨.newArg machine (before ++ d :: after₁) after₂, part, ?_, ?_, rfl, hw, hpart⟩
    · simp [Expr.Slot.fill]
    · simp [Expr.Slot.position]
  | key _ _ | seqIndex _ _ | mapIndex _ _ => cases us₁ <;> cases hus

/-- If an argument and those before it fit, the first that does not fit after them is reported. -/
theorem Wants.reports_later {wants₁ wants₂ : List Ty} {want result slot : Ty} {ts us : List Typed}
    {arg : Typed} (h : ctx.Wants place (wants₁ ++ want :: wants₂) result ts us)
    (hd : ctx.Checks d t) (hn : (Typed.handed (ts ++ t :: us)).Nodup)
    (hbefore : List.Forall₂ place.Fits wants₁ ts) (hfit : place.Fits want t)
    (hl : wants₂.length = us.length) (hm : FirstMisfit place.Fits wants₂ us slot arg) :
    ∃ later part, later.fill part = place.fill d ∧ place.position < later.position ∧
      ctx.ReportedFor ⟨span, later⟩ part (arg.mismatch [.type slot]) := by
  obtain ⟨wants₃, wants₄, us₁, us₂, rfl, rfl, hbetween, hmiss⟩ := hm
  obtain ⟨later, part, hfill, hpos, hsame, hw, hpart⟩ := h.later hd rfl
  refine ⟨later, part, hfill, hpos, ?_⟩
  -- the argument is now one of those before the place
  have hassoc : wants₁ ++ want :: (wants₃ ++ slot :: wants₄) =
      (wants₁ ++ want :: wants₃) ++ slot :: wants₄ := by simp
  rw [hassoc] at hw
  have hn' : (Typed.handed ((ts ++ t :: us₁) ++ arg :: us₂)).Nodup := by simpa using hn
  have hfits : List.Forall₂ later.Fits (wants₁ ++ want :: wants₃) (ts ++ t :: us₁) :=
    hsame ▸ List.rel_append hbefore (.cons hfit hbetween)
  exact .misfit hw hpart hn' hfits (hsame ▸ hmiss) (length_eq_after hbetween hl)

/-- **An argument that is mended is not reported again.** -/
theorem ReportedFor.mended {d' : Expr} {found want : Ty} (h : ctx.ReportedFor layer d x)
    (hx : x.fault = .mismatch found [.type want]) (hd' : ctx.Checks d' u)
    (hu : u.handover? = none) (ha : want.accepts u.ty = true) :
    (∃ w, ctx.Checks (layer.fill d') w) ∨
      ∃ later part y, later.fill part = layer.fill d' ∧
        layer.slot.position < later.slot.position ∧ ctx.ReportedFor later part y := by
  cases h with
  | @misfit span place _ wants₁ wants₂ _ result ts us t hw hd hn hbefore hmiss hl =>
    cases hx
    have hfit : place.Fits want u := Expr.Slot.fits_of_accepts ha hu
    have hn' : (Typed.handed (ts ++ u :: us)).Nodup := Typed.nodup_handed_replace hn hu
    have hafter : List.Forall₂ place.Fits wants₂ us ∨
        ∃ slot arg, FirstMisfit place.Fits wants₂ us slot arg := forall₂_or_firstMisfit hl
    rcases hafter with hafter | ⟨slot, arg, hm⟩
    · obtain ⟨w, hw', -⟩ := hw.checks hd' (List.rel_append hbefore (.cons hfit hafter)) hn'
      exact Or.inl ⟨w, hw'⟩
    · obtain ⟨later, part, hfill, hpos, hr⟩ := hw.reports_later hd' hn' hbefore hfit hl hm
      exact Or.inr ⟨⟨span, later⟩, part, _, congrArg (Expr.node span) hfill, hpos, hr⟩

/-! ## 3. Where such errors come from -/

/-- Of the arguments of a function, the first that may not be passed is reported. -/
theorem exists_reportedFor_call {callee : String} {args : List Expr} {f : Function}
    {ts : List Typed} {param : Parameter} (hf : ctx.scope.lookup callee = some (.function f))
    (hc : args.length = f.params.length) (hts : ctx.Admits args ts)
    (hm : FirstMisfit Parameter.Takes f.params ts param t) :
    ∃ layer d, layer.fill d = .node span (.call callee args) ∧
      ctx.ReportedFor layer d (t.mismatch [.type param.ty]) := by
  obtain ⟨params₁, params₂, ts₁, ts₂, hps, rfl, htakes, hmiss⟩ := hm
  obtain ⟨before, d, after, rfl, h₁, hd, h₂⟩ := forall₂_append_cons_iff.mp hts.1.flip
  have hw : ctx.Wants (.arg callee before after) (f.params.map Parameter.ty) f.result ts₁ ts₂ :=
    .arg hf h₁.flip h₂.flip
  rw [hps, List.map_append, List.map_cons] at hw
  have hall : (params₁ ++ param :: params₂).length = (ts₁ ++ t :: ts₂).length :=
    hps ▸ hc.symm.trans hts.1.length_eq
  have hl : (params₂.map Parameter.ty).length = ts₂.length := by
    rw [List.length_map, length_eq_after htakes hall]
  refine ⟨⟨span, .arg callee before after⟩, d, rfl, ?_⟩
  exact .misfit hw hd hts.2 (Expr.Slot.forall₂_fits_arg_iff.mpr htakes) hmiss hl

/-- Of those of a constructor, the first that does not fit its slot. -/
theorem exists_reportedFor_new {machine : String} {args : List Expr} {m : Machine}
    {ts : List Typed} {found : Ty} {expected : List Expectation}
    (hm : ctx.scope.lookup machine = some (.machine m)) (hts : ctx.Admits args ts)
    (hr : m.payload.Refuses span ts x) (hx : x.fault = .mismatch found expected) :
    ∃ layer d, layer.fill d = .node span (.new machine args) ∧ ctx.ReportedFor layer d x := by
  obtain ⟨hl, want, t, ⟨wants₁, wants₂, ts₁, ts₂, hs, rfl, hfit, hmiss⟩, rfl⟩ := hr.firstMisfit hx
  obtain ⟨before, d, after, rfl, h₁, hd, h₂⟩ := forall₂_append_cons_iff.mp hts.1.flip
  have hw : ctx.Wants (.newArg machine before after) _ _ ts₁ ts₂ := .newArg hm h₁.flip h₂.flip
  have hcount : ts₁.length + (ts₂.length + 1) = (ts₁ ++ t :: ts₂).length := by simp
  rw [hcount, hs] at hw
  rw [hs] at hl
  refine ⟨⟨span, .newArg machine before after⟩, d, rfl, ?_⟩
  exact .misfit hw hd hts.2 hfit hmiss (length_eq_after hfit hl)

/-- **An expression that fails by itself, since a part is not of the one type that is wanted, fails
for an argument**, unless that type is `bool`. -/
theorem Fails.exists_reportedFor {e : Expr} {found want : Ty} (h : ctx.Fails e x)
    (hx : x.fault = .mismatch found [.type want]) (hb : want ≠ .bool) :
    ∃ layer d, layer.fill d = e ∧ ctx.ReportedFor layer d x := by
  cases h with
  | int _ | decimal _ | exponent | name _ | halt _ | self _ | linear _ | neg _ _
  | numbers _ _ _ _ | equality _ _ _ _ | memberMap _ _ _ | repeated _ _ _ | component _ _
  | outOfBounds _ _ _ | field _ _ | noField _ _ _ | index _ _ _ _ | keys _ _ | values _ _
  | sizeof _ _ _ | callee _ | argumentCount _ _ | argHandedOver _ _ _ _ _ | machine _
  | newArgHandedOver _ _ _ _ _ | cast _ _ _ | coerce _ _ _ _ => cases hx
  | not _ _ | logicalLeft _ _ _ _ | logicalRight _ _ _ _ _ =>
    cases hx
    exact absurd rfl hb
  | default hr | castType _ hr | coerceType _ hr =>
    have hd := Scope.disallows_of_resolve_error hr
    rw [hx] at hd
    cases hd
  | @memberKey span key map k m keyTy value hk hm hc ha =>
    have hmiss : ¬ (Expr.Slot.left .member map).Fits keyTy k := Bool.eq_false_iff.mp ha
    exact ⟨⟨span, .left .member map⟩, key, rfl, .single (.key hm hc) hk hmiss⟩
  | @seqIndex span base index b i hb' hi hs hk =>
    obtain ⟨elem, hc⟩ := Ty.kind_eq_seq_iff.mp hs
    have hmiss : ¬ (Expr.Slot.index base).Fits .int i := fun h => hk (Ty.int_accepts_iff.mp h)
    exact ⟨⟨span, .index base⟩, index, rfl, .single (.seqIndex hb' hc) hi hmiss⟩
  | @mapIndex span base index b i key value hb' hi hc ha =>
    have hmiss : ¬ (Expr.Slot.index base).Fits key i := Bool.eq_false_iff.mp ha
    exact ⟨⟨span, .index base⟩, index, rfl, .single (.mapIndex hb' hc) hi hmiss⟩
  | parameter hf hc hts hm => exact exists_reportedFor_call hf hc hts hm
  | payload hm hts hr => exact exists_reportedFor_new hm hts hr hx

/-- If all parts check, what is refused fails by itself. -/
theorem fails_of_parts {e : Expr}
    (hparts : ∀ (layer : Expr.Layer) (part : Expr), layer.fill part = e →
      ∃ t, ctx.Checks part t)
    (h : (ctx.check e).verdict = .error x) : ctx.Fails e x := by
  have hshows : (ctx.check e).Shows (.error x) := h
  rcases arises_of_shows hshows with hfails | ⟨layer, part, he, -, hpart⟩
  · exact hfails
  · obtain ⟨t, ht⟩ := hparts layer part he
    cases ht.symm.trans hpart

end Context

end MachineTyping
