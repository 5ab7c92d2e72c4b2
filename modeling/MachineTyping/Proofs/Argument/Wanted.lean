/-
# What is wanted of an argument

Four forms of expression match some of their parts with types: a call its arguments with the
parameters, a constructor its own with the slots of the payload, `k in m` the key with the keys of
the map, and `e[i]` the index with `int` or with the keys of a map.  The rules for them differ, but
what they ask of a part is the same thing.

`ctx.Wants place wanted result ts us` says what is around a part in such a place: the parts before
it and after it check to `ts` and to `us`, parts of the types `wanted` are wanted, one each, and the
whole would be of type `result`.  What becomes of the whole is then told by the parts alone:

* if all of them fit, it checks, with the type `result` (`Wants.checks`);
* otherwise the first that does not fit is reported (`Wants.refused`);
* and it checks in no other way (`Checks.wants`).

No variable is handed over twice among the parts, which is looked at before anything else.
-/
import MachineTyping.Proofs.Failure.Origin
import MachineTyping.Proofs.Ownership.Swap
import MachineTyping.Proofs.Payload.Spread

namespace MachineTyping

/-! ## 1. Places -/

/-- **The place of an argument**, of a function or a constructor, or of a key or an index. -/
inductive Expr.Slot.IsArgument : Expr.Slot → Prop
  | arg (callee : String) (before after : List Expr) :
      Expr.Slot.IsArgument (.arg callee before after)
  | newArg (machine : String) (before after : List Expr) :
      Expr.Slot.IsArgument (.newArg machine before after)
  | key (map : Expr) : Expr.Slot.IsArgument (.left .member map)
  | index (base : Expr) : Expr.Slot.IsArgument (.index base)

/-- How many arguments stand before the place. -/
def Expr.Slot.position : Expr.Slot → Nat
  | .arg _ before _ | .newArg _ before _ => before.length
  | _ => 0

/-- **What stands at the place fits the type that is wanted there**: the type accepts it, and a
function asks for more where it is swapped. -/
def Expr.Slot.Fits : Expr.Slot → Ty → Typed → Prop
  | .arg _ _ _, want, t =>
    want.accepts t.ty = true ∧ ∀ v, t.handover? = some (.swap, v) → want.sameAs t.ty = true
  | _, want, t => want.accepts t.ty = true

section Fits

variable {place : Expr.Slot} {want : Ty} {t : Typed}

/-- What fits the parameters of a function may be passed for them. -/
theorem Expr.Slot.forall₂_fits_arg_iff {callee : String} {before after : List Expr}
    {params : List Parameter} {args : List Typed} :
    List.Forall₂ (Expr.Slot.arg callee before after).Fits (params.map Parameter.ty) args ↔
      List.Forall₂ Parameter.Takes params args :=
  List.forall₂_map_left_iff

theorem Expr.Slot.Fits.accepts (h : place.Fits want t) : want.accepts t.ty = true := by
  cases place with
  | arg _ _ _ => exact h.1
  | _ => exact h

/-- The first argument that does not fit may not be passed for its parameter. -/
theorem Expr.Slot.firstMisfit_fits_arg {callee : String} {before after : List Expr}
    {params : List Parameter} {args : List Typed}
    (h : FirstMisfit (Expr.Slot.arg callee before after).Fits (params.map Parameter.ty) args
      want t) :
    ∃ param, FirstMisfit Parameter.Takes params args param t ∧ param.ty = want := by
  obtain ⟨wants₁, wants₂, args₁, args₂, hw, rfl, hfit, hmiss⟩ := h
  obtain ⟨params₁, rest, rfl, rfl, hrest⟩ := List.map_eq_append_iff.mp hw
  obtain ⟨param, params₂, rfl, rfl, -⟩ := List.map_eq_cons_iff.mp hrest
  have htakes : List.Forall₂ Parameter.Takes params₁ args₁ :=
    Expr.Slot.forall₂_fits_arg_iff.mp hfit
  exact ⟨param, ⟨params₁, params₂, args₁, args₂, rfl, rfl, htakes, hmiss⟩, rfl⟩

/-- Being accepted is enough for what is no reference. -/
theorem Expr.Slot.fits_of_accepts (h : want.accepts t.ty = true) (hh : t.handover? = none) :
    place.Fits want t := by
  cases place with
  | arg _ _ _ =>
    refine ⟨h, fun v hv => ?_⟩
    rw [hh] at hv
    cases hv
  | _ => exact h

end Fits

/-- What is no reference can take the place of any part. -/
theorem Typed.nodup_handed_replace {ts us : List Typed} {t u : Typed}
    (h : (Typed.handed (ts ++ t :: us)).Nodup) (hu : u.handover? = none) :
    (Typed.handed (ts ++ u :: us)).Nodup := by
  rw [Typed.handed_append, Typed.handed_cons] at h ⊢
  rw [Typed.handed_of_none hu, List.nil_append]
  exact h.sublist ((List.sublist_append_right _ _).append_left _)

/-! ## 2. Payloads -/

section Payload

variable {payload : Ty} {span : Span} {args : List Typed}

/-- Several arguments are handed to the slots that the payload has, if it can be spread. -/
theorem Ty.slotsFor_eq_getD {count : Nat} (h : 2 ≤ count) :
    payload.slotsFor count = (Rule.slots? payload).getD [] := by
  unfold Ty.slotsFor Rule.slots?
  rw [if_neg (by omega)]
  cases payload.canonical <;> rfl

/-- Where there is a slot for each argument, all that is left to do is to fill the slots. -/
theorem Rule.payload_eq_fillAll (hn : args ≠ [])
    (hl : (payload.slotsFor args.length).length = args.length) :
    Rule.payload payload span args = Rule.fillAll (payload.slotsFor args.length) args := by
  obtain _ | ⟨first, _ | ⟨second, rest⟩⟩ := args
  · exact absurd rfl hn
  · rfl
  · have hcount : 2 ≤ (first :: second :: rest).length := by simp
    rw [Ty.slotsFor_eq_getD hcount] at hl ⊢
    cases hs : Rule.slots? payload with
    | none =>
      rw [hs] at hl
      cases hl
    | some slots =>
      rw [hs] at hl
      rw [Rule.payload_many_eq hcount hs]
      exact if_pos hl

/-- Arguments that fill the slots make up the payload. -/
theorem Ty.suppliedBy_of_fills (hn : args ≠ [])
    (h : List.Forall₂ (fun slot arg => slot.accepts arg.ty = true)
      (payload.slotsFor args.length) args) : payload.SuppliedBy args := by
  have hp : Rule.payload payload ⟨0, 0⟩ args = .ok () := by
    rw [Rule.payload_eq_fillAll hn h.length_eq]
    exact (Rule.fillAll_eq_ok_iff h.length_eq).mpr h
  exact Rule.payload_eq_ok_iff.mp hp

/-- The first argument that does not fit its slot is what the payload refuses. -/
theorem Ty.refuses_of_firstMisfit {want : Ty} {arg : Typed}
    (hl : (payload.slotsFor args.length).length = args.length)
    (h : FirstMisfit (fun slot arg => slot.accepts arg.ty = true)
      (payload.slotsFor args.length) args want arg) :
    payload.Refuses span args (arg.mismatch [.type want]) := by
  have hn : args ≠ [] := List.ne_nil_of_mem h.mem_right
  have hp : Rule.payload payload span args = .error (arg.mismatch [.type want]) := by
    rw [Rule.payload_eq_fillAll hn hl]
    exact Rule.fillAll_eq_error_iff.mpr ⟨want, arg, h, rfl⟩
  exact Rule.payload_eq_error_iff.mp hp

/-- A payload reports no argument for its type but the first that does not fit its slot. -/
theorem Ty.Refuses.firstMisfit {x : TypeError} {found : Ty} {expected : List Expectation}
    (h : payload.Refuses span args x) (hx : x.fault = .mismatch found expected) :
    (payload.slotsFor args.length).length = args.length ∧
      ∃ want arg, FirstMisfit (fun slot arg => slot.accepts arg.ty = true)
        (payload.slotsFor args.length) args want arg ∧ x = arg.mismatch [.type want] := by
  cases h with
  | nothing _ | unslotted _ _ | count _ _ _ => cases hx
  | @whole arg ha =>
    have hmiss : ¬ payload.accepts arg.ty = true := by rw [ha]; simp
    exact ⟨rfl, payload, arg, firstMisfit_one_iff.mpr ⟨rfl, rfl, hmiss⟩, rfl⟩
  | @slot _ slots want arg hcount hs hl hm =>
    have hslots : payload.slotsFor args.length = slots := by
      rw [Ty.slotsFor_eq_getD hcount, hs, Option.getD_some]
    rw [hslots]
    exact ⟨hl, want, arg, hm, rfl⟩

end Payload

/-! ## 3. What is around an argument -/

/-- **What is wanted of the parts at a place and around it.**  The parts before it check to `ts` and
those after it to `us`.  There are types for all of them, `wanted`, and if they fit these the whole
is of type `result`. -/
inductive Context.Wants (ctx : Context) :
    Expr.Slot → List Ty → Ty → List Typed → List Typed → Prop
  | arg {callee : String} {before after : List Expr} {f : Function} {ts us : List Typed} :
      ctx.scope.lookup callee = some (.function f) →
      List.Forall₂ ctx.Checks before ts → List.Forall₂ ctx.Checks after us →
      Context.Wants ctx (.arg callee before after) (f.params.map Parameter.ty) f.result ts us
  | newArg {machine : String} {before after : List Expr} {m : Machine} {ts us : List Typed} :
      ctx.scope.lookup machine = some (.machine m) →
      List.Forall₂ ctx.Checks before ts → List.Forall₂ ctx.Checks after us →
      Context.Wants ctx (.newArg machine before after)
        (m.payload.slotsFor (ts.length + (us.length + 1))) .machine ts us
  | key {map : Expr} {m : Typed} {keyTy value : Ty} :
      ctx.Checks map m → m.ty.canonical = .map keyTy value →
      Context.Wants ctx (.left .member map) [keyTy] .bool [] []
  | seqIndex {base : Expr} {b : Typed} {elem : Ty} :
      ctx.Checks base b → b.ty.canonical = .seq elem →
      Context.Wants ctx (.index base) [.int] elem [] []
  | mapIndex {base : Expr} {b : Typed} {keyTy value : Ty} :
      ctx.Checks base b → b.ty.canonical = .map keyTy value →
      Context.Wants ctx (.index base) [keyTy] value [] []

namespace Context

variable {ctx : Context} {place : Expr.Slot} {wanted : List Ty} {result : Ty}
  {ts us : List Typed} {d : Expr} {t : Typed} {span : Span}

/-- **If all parts fit, the whole checks.** -/
theorem Wants.checks (h : ctx.Wants place wanted result ts us) (hd : ctx.Checks d t)
    (hfit : List.Forall₂ place.Fits wanted (ts ++ t :: us))
    (hn : (Typed.handed (ts ++ t :: us)).Nodup) :
    ∃ w, ctx.Checks (.node span (place.fill d)) w ∧ w.ty = result ∧ w.span = span := by
  cases h with
  | @arg callee before after f _ _ hf hts hus =>
    have hargs : List.Forall₂ ctx.Checks (before ++ d :: after) (ts ++ t :: us) :=
      List.rel_append hts (.cons hd hus)
    have htakes : List.Forall₂ Parameter.Takes f.params (ts ++ t :: us) :=
      Expr.Slot.forall₂_fits_arg_iff.mp hfit
    exact ⟨_, checks_call_iff.mpr ⟨f, hf, _, hargs, _, rfl, .call htakes hn⟩, rfl, rfl⟩
  | @newArg machine before after m _ _ hm hts hus =>
    have hargs : List.Forall₂ ctx.Checks (before ++ d :: after) (ts ++ t :: us) :=
      List.rel_append hts (.cons hd hus)
    have hl : (ts ++ t :: us).length = ts.length + (us.length + 1) := by simp
    have hsupplied : m.payload.SuppliedBy (ts ++ t :: us) :=
      Ty.suppliedBy_of_fills (by simp) (hl ▸ hfit)
    exact ⟨_, checks_new_iff.mpr ⟨m, hm, _, hargs, _, rfl, .new hsupplied hn⟩, rfl, rfl⟩
  | key hm hc =>
    obtain ⟨ha, -⟩ := List.forall₂_cons.mp hfit
    exact ⟨_, checks_member_iff.mpr ⟨t, hd, _, hm, _, rfl, .hasKey hc ha⟩, rfl, rfl⟩
  | seqIndex hb hc =>
    obtain ⟨ha, -⟩ := List.forall₂_cons.mp hfit
    have hk : t.ty.kind = .int := Ty.int_accepts_iff.mp ha
    exact ⟨_, checks_index_iff.mpr ⟨_, hb, t, hd, _,
      Or.inl ⟨Ty.kind_of_canonical hc, rfl⟩, .seqItem hc hk⟩, rfl, rfl⟩
  | mapIndex hb hc =>
    obtain ⟨ha, -⟩ := List.forall₂_cons.mp hfit
    exact ⟨_, checks_index_iff.mpr ⟨_, hb, t, hd, _,
      Or.inr ⟨Ty.kind_of_canonical hc, rfl⟩, .mapItem hc ha⟩, rfl, rfl⟩

/-- **Otherwise the first part that does not fit is reported**, wherever it stands. -/
theorem Wants.refused {want : Ty} {part : Typed} (h : ctx.Wants place wanted result ts us)
    (hd : ctx.Checks d t) (hn : (Typed.handed (ts ++ t :: us)).Nodup)
    (hl : wanted.length = (ts ++ t :: us).length)
    (hm : FirstMisfit place.Fits wanted (ts ++ t :: us) want part) :
    (ctx.check (.node span (place.fill d))).verdict = .error (part.mismatch [.type want]) := by
  cases h with
  | @arg callee before after f _ _ hf hts hus =>
    have hargs : List.Forall₂ ctx.Checks (before ++ d :: after) (ts ++ t :: us) :=
      List.rel_append hts (.cons hd hus)
    obtain ⟨param, hmisfit, rfl⟩ := Expr.Slot.firstMisfit_fits_arg hm
    rw [List.length_map] at hl
    exact (Fails.parameter hf (hargs.length_eq.trans hl.symm) ⟨hargs, hn⟩ hmisfit).shows
  | @newArg machine before after m _ _ hm' hts hus =>
    have hargs : List.Forall₂ ctx.Checks (before ++ d :: after) (ts ++ t :: us) :=
      List.rel_append hts (.cons hd hus)
    have hcount : ts.length + (us.length + 1) = (ts ++ t :: us).length := by simp
    rw [hcount] at hl hm
    exact (Fails.payload hm' ⟨hargs, hn⟩ (Ty.refuses_of_firstMisfit hl hm)).shows
  | key hm' hc =>
    obtain ⟨rfl, rfl, ha⟩ := firstMisfit_one_iff.mp hm
    exact (Fails.memberKey hd hm' hc (Bool.not_eq_true _ ▸ ha)).shows
  | seqIndex hb hc =>
    obtain ⟨rfl, rfl, ha⟩ := firstMisfit_one_iff.mp hm
    have hk : part.ty.kind ≠ .int := fun hk => ha (Ty.int_accepts_iff.mpr hk)
    exact (Fails.seqIndex hb hd (Ty.kind_of_canonical hc) hk).shows
  | mapIndex hb hc =>
    obtain ⟨rfl, rfl, ha⟩ := firstMisfit_one_iff.mp hm
    exact (Fails.mapIndex hb hd hc (Bool.not_eq_true _ ▸ ha)).shows

/-- **It checks in no other way.** -/
theorem Checks.wants {w : Typed} (hp : place.IsArgument)
    (h : ctx.Checks (.node span (place.fill d)) w) :
    ∃ wanted ts t us, ctx.Wants place wanted w.ty ts us ∧ ctx.Checks d t ∧
      List.Forall₂ place.Fits wanted (ts ++ t :: us) ∧ (Typed.handed (ts ++ t :: us)).Nodup ∧
      w.span = span := by
  cases hp with
  | arg callee before after =>
    obtain ⟨f, hf, args, hargs, ty, rfl, hl⟩ := checks_call_iff.mp h
    obtain ⟨ts, t, us, rfl, hts, ht, hus⟩ := forall₂_append_cons_iff.mp hargs
    cases hl with
    | call htakes hn =>
      exact ⟨_, ts, t, us, .arg hf hts hus, ht, Expr.Slot.forall₂_fits_arg_iff.mpr htakes, hn, rfl⟩
  | newArg machine before after =>
    obtain ⟨m, hm, args, hargs, ty, rfl, hl⟩ := checks_new_iff.mp h
    obtain ⟨ts, t, us, rfl, hts, ht, hus⟩ := forall₂_append_cons_iff.mp hargs
    cases hl with
    | new hsupplied hn =>
      have hcount : (ts ++ t :: us).length = ts.length + (us.length + 1) := by simp
      exact ⟨_, ts, t, us, .newArg hm hts hus, ht, hcount ▸ hsupplied.fills, hn, rfl⟩
  | key map =>
    obtain ⟨k, hk, m, hm, ty, rfl, hl⟩ := checks_member_iff.mp h
    cases hl with
    | hasKey hc ha =>
      exact ⟨_, [], k, [], .key hm hc, hk, .cons ha .nil, k.nodup_handed_one, rfl⟩
  | index base =>
    obtain ⟨b, hb, i, hi, ty, ⟨-, rfl⟩ | ⟨-, rfl⟩, hl⟩ := checks_index_iff.mp h
    · cases hl with
      | seqItem hc hk =>
        exact ⟨_, [], i, [], .seqIndex hb hc, hi, .cons (Ty.int_accepts_iff.mpr hk) .nil,
          i.nodup_handed_one, rfl⟩
    · cases hl with
      | mapItem hc ha =>
        exact ⟨_, [], i, [], .mapIndex hb hc, hi, .cons ha .nil, i.nodup_handed_one, rfl⟩

end Context

end MachineTyping
