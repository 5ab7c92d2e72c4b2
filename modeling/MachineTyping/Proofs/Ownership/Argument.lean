/-
# Arguments, one after the other

A list of arguments is checked from left to right, and what was handed over is noted on the way.
This module says what comes of that, without the loop and without the notes:

* a list is accepted if every argument checks and the variables that are handed over are
  different.  An argument hands something over if it is a reference, and conversions that have
  nothing to do may stand around it (`ctx.Refers`);
* a list that is not accepted is refused at one position, the first whose argument is refused after
  those before it (`ctx.RejectsFirstAt`).  Nothing that comes later is looked at, not even for the
  choices in it;
* lists inside an argument are on their own: an argument that has one may be left out, and
  the rest of the list is judged as before (`checkArgs_insert`).

The notes are gone because the arguments that were passed are a list that is admitted by itself.
Admitted lists are followed from one argument to the next (`admits_snoc_iff`), and a list in which
nothing is refused is admitted to its end (`admits_iff_not_rejects`).  So being refused first says
all that the loop knows when it comes to an argument.
-/
import Mathlib.Data.List.Induction
import MachineTyping.Proofs.Part.Reach
import MachineTyping.Proofs.Tree.Soundness

namespace MachineTyping

/-- The arguments that an expression gives to a function or a constructor. -/
def Expr.arguments? (e : Expr) : Option (List Expr) :=
  match e.form with
  | .call _ args | .new _ args => some args
  | _ => none

theorem Typed.mem_handed_iff {args : List Typed} {name : String} :
    name ∈ Typed.handed args ↔
      ∃ t ∈ args, ∃ mode v, t.handover? = some (mode, v) ∧ v.name = name := by
  simp only [Typed.handed, List.mem_filterMap, Option.map_eq_some_iff, Prod.exists]

namespace Context

variable {ctx : Context} {mode : LinearMode} {v : Variable} {x : TypeError}

/-! ## 1. References -/

/-- **The expression is a reference to the variable**, maybe with conversions around it that have
nothing to do. -/
inductive Refers (ctx : Context) : Expr → LinearMode → Variable → Prop
  | reference {span : Span} {mode : LinearMode} {name : String} {v : Variable} :
      ctx.scope.lookup name = some (.var v) → Refers ctx (.node span (.linear mode name)) mode v
  | converted {span : Span} {e : Expr} {ref : TypeRef} {ty : Ty} {mode : LinearMode}
      {v : Variable} : Refers ctx e mode v → ctx.scope.resolve ref = .ok ty →
      v.ty.SameScalar ty → Refers ctx (.node span (.coerce e ref)) mode v

/-- A reference checks, and its tree is the `move` or `swap` itself. -/
theorem Refers.checks {e : Expr} (h : ctx.Refers e mode v) :
    ∃ span, ctx.Checks e (.node span v.ty (.linear mode v)) := by
  induction h with
  | @reference span mode name v hv => exact ⟨span, checks_linear_iff.mpr ⟨v, hv, rfl⟩⟩
  | converted _ hty hs ih =>
    obtain ⟨span, ht⟩ := ih
    exact ⟨span, checks_coerce_iff.mpr ⟨_, ht, _, hty, Or.inl ⟨hs, rfl⟩⟩⟩

/-- A tree that is a `move` or a `swap` is the tree of a reference. -/
theorem Refers.of_elaborates : ∀ {e : Expr} {span : Span} {ty : Ty},
    ctx.Elaborates e (.node span ty (.linear mode v)) → v.ty = ty → ctx.Refers e mode v
  | .node _ _, _, _, .linear hv, _ => .reference hv
  | .node _ (.coerce _ _), _, _, .identity ha hty hs, hv =>
    .converted (Refers.of_elaborates ha hv) hty (hv ▸ hs)

/-- **The trees that hand a variable over are those of the references to it.** -/
theorem refers_iff {e : Expr} :
    ctx.Refers e mode v ↔ ∃ t, ctx.Checks e t ∧ t.handover? = some (mode, v) := by
  constructor
  · intro h
    obtain ⟨span, ht⟩ := h.checks
    exact ⟨_, ht, rfl⟩
  · rintro ⟨⟨span, ty, shape⟩, ht, hh⟩
    obtain ⟨he, hl⟩ := Checks.faithful ht
    cases shape with
    | linear mode' v' =>
      cases hh
      cases hl.root with
      | linear => exact .of_elaborates he rfl
    | _ => cases hh

/-- There are no arguments anywhere in a reference. -/
theorem Refers.arguments?_eq_none {e part : Expr} (h : ctx.Refers e mode v)
    (hp : part.IsPartOf e) : part.arguments? = none := by
  induction h generalizing part with
  | reference _ =>
    obtain ⟨_ | ⟨⟨span, slot⟩, layers⟩, he⟩ := hp
    · rw [Expr.within_nil] at he
      rw [he]
      rfl
    · cases slot <;> cases he
  | converted _ _ _ ih =>
    obtain ⟨_ | ⟨⟨span, slot⟩, layers⟩, he⟩ := hp
    · rw [Expr.within_nil] at he
      rw [he]
      rfl
    · cases slot with
      | coerce _ =>
        cases he
        exact ih ⟨layers, rfl⟩
      | _ => cases he

/-- So an expression with arguments in it hands nothing over. -/
theorem handover?_eq_none {e part : Expr} {t : Typed} {inner : List Expr} (ht : ctx.Checks e t)
    (hp : part.IsPartOf e) (ha : part.arguments? = some inner) : t.handover? = none := by
  cases hh : t.handover? with
  | none => rfl
  | some handover =>
    obtain ⟨mode, v⟩ := handover
    have hr : ctx.Refers e mode v := refers_iff.mpr ⟨t, ht, hh⟩
    rw [hr.arguments?_eq_none hp] at ha
    cases ha

/-! ## 2. Refusals -/

/-- **The argument is refused after those before it**: it does not check, or it hands over what one
of them did. -/
inductive RejectsAfter (ctx : Context) (before : List Expr) (e : Expr) : TypeError → Prop
  | fails {x : TypeError} : (ctx.check e).verdict = .error x → RejectsAfter ctx before e x
  | again {d : Expr} {t u : Typed} {mode mode' : LinearMode} {v w : Variable} :
      ctx.Checks e t → t.handover? = some (mode, v) → d ∈ before → ctx.Checks d u →
      u.handover? = some (mode', w) → w.name = v.name →
      RejectsAfter ctx before e ⟨.relinquished v.name, t.span⟩

/-- The argument at the position is refused. -/
def RejectsAt (ctx : Context) (args : List Expr) (i : Nat) (x : TypeError) : Prop :=
  ∃ e, args[i]? = some e ∧ ctx.RejectsAfter (args.take i) e x

/-- **It is the first one to be refused.** -/
def RejectsFirstAt (ctx : Context) (args : List Expr) (i : Nat) (x : TypeError) : Prop :=
  ctx.RejectsAt args i x ∧ ∀ j < i, ∀ y, ¬ ctx.RejectsAt args j y

theorem rejectsAt_append_cons {before after : List Expr} {e : Expr} :
    ctx.RejectsAt (before ++ e :: after) before.length x ↔ ctx.RejectsAfter before e x := by
  unfold RejectsAt
  rw [List.getElem?_append_right (Nat.le_refl _), Nat.sub_self, List.getElem?_cons_zero,
    List.take_left]
  constructor
  · rintro ⟨_, he, h⟩
    cases he
    exact h
  · intro h
    exact ⟨e, rfl, h⟩

/-- What comes later does not matter for a refusal. -/
theorem rejectsAt_append {before after : List Expr} {i : Nat} (hi : i < before.length) :
    ctx.RejectsAt (before ++ after) i x ↔ ctx.RejectsAt before i x := by
  unfold RejectsAt
  rw [List.getElem?_append_left hi, List.take_append_of_le_length (Nat.le_of_lt hi)]

/-- A refusal is at one of the arguments. -/
theorem RejectsAt.lt_length {args : List Expr} {i : Nat} (h : ctx.RejectsAt args i x) :
    i < args.length := by
  obtain ⟨e, he, -⟩ := h
  exact (List.getElem?_eq_some_iff.mp he).1

theorem RejectsAt.exists_split {args : List Expr} {i : Nat} (h : ctx.RejectsAt args i x) :
    ∃ before e after, args = before ++ e :: after ∧ before.length = i ∧
      ctx.RejectsAfter before e x := by
  have hi : i < args.length := h.lt_length
  have hargs : args.take i ++ args[i] :: args.drop (i + 1) = args := by
    rw [← List.drop_eq_getElem_cons hi, List.take_append_drop]
  have hlength : (args.take i).length = i := List.length_take_of_le (Nat.le_of_lt hi)
  refine ⟨args.take i, args[i], args.drop (i + 1), hargs.symm, hlength, ?_⟩
  rwa [← rejectsAt_append_cons, hargs, hlength]

/-! ## 3. Admitted lists -/

/-- What admitted arguments hand over is what the arguments that are references do. -/
theorem Admits.mem_handed_iff {args : List Expr} {ts : List Typed} (h : ctx.Admits args ts)
    {name : String} :
    name ∈ Typed.handed ts ↔ ∃ d ∈ args, ∃ u mode w, ctx.Checks d u ∧
      u.handover? = some (mode, w) ∧ w.name = name := by
  rw [Typed.mem_handed_iff]
  constructor
  · rintro ⟨u, hu, mode, w, hw, hn⟩
    obtain ⟨d, hd, hc⟩ := exists_of_forall₂_mem h.1 hu
    exact ⟨d, hd, u, mode, w, hc, hw, hn⟩
  · rintro ⟨d, hd, u, mode, w, hc, hw, hn⟩
    obtain ⟨u', hu, hc'⟩ := exists_of_forall₂_mem h.1.flip hd
    obtain rfl := hc.unique hc'
    exact ⟨u, hu, mode, w, hw, hn⟩

/-- **One argument more** is admitted if it is not refused. -/
theorem admits_snoc_iff {before : List Expr} {e : Expr} :
    (∃ ts, ctx.Admits (before ++ [e]) ts) ↔
      (∃ us, ctx.Admits before us) ∧ ∀ x, ¬ ctx.RejectsAfter before e x := by
  constructor
  · rintro ⟨ts, hts, hd⟩
    obtain ⟨us, t, rest, rfl, hus, ht, -⟩ := forall₂_append_cons_iff.mp hts
    rw [Typed.handed_append] at hd
    have hadm : ctx.Admits before us := ⟨hus, hd.of_append_left⟩
    refine ⟨⟨us, hadm⟩, ?_⟩
    rintro x (hx | ⟨ht', hv, hm, hu, hw, hn⟩)
    · have heq : Except.ok t = .error x := ht.symm.trans hx
      cases heq
    · obtain rfl := ht.unique ht'
      have hbefore := hadm.mem_handed_iff.mpr ⟨_, hm, _, _, _, hu, hw, hn⟩
      have hafter : _ ∈ Typed.handed (t :: rest) :=
        Typed.mem_handed_iff.mpr ⟨t, List.mem_cons_self, _, _, hv, rfl⟩
      exact (List.nodup_append.mp hd).2.2 _ hbefore _ hafter rfl
  · rintro ⟨⟨us, hadm⟩, hr⟩
    cases ht : (ctx.check e).verdict with
    | error x => exact absurd (.fails ht) (hr x)
    | ok t =>
      refine ⟨us ++ [t], List.rel_append hadm.1 (.cons ht .nil), ?_⟩
      rw [Typed.handed_append, ← fresh_of_none, fresh_append]
      refine ⟨fresh_of_none.mpr hadm.2, fresh_handed_singleton.mpr ?_⟩
      intro name hname hbefore
      rw [List.append_nil] at hbefore
      obtain ⟨t', ht', mode, v, hv, rfl⟩ := Typed.mem_handed_iff.mp hname
      obtain rfl := List.mem_singleton.mp ht'
      obtain ⟨d, hd, u, mode', w, hu, hw, hn⟩ := hadm.mem_handed_iff.mp hbefore
      exact hr _ (.again ht hv hd hu hw hn)

/-- **What is not refused anywhere is admitted.** -/
theorem admits_iff_not_rejects {args : List Expr} :
    (∃ ts, ctx.Admits args ts) ↔ ∀ i x, ¬ ctx.RejectsAt args i x := by
  induction args using List.reverseRecOn with
  | nil =>
    refine ⟨fun _ i x h => ?_, fun _ => ⟨[], .nil, List.nodup_nil⟩⟩
    exact Nat.not_lt_zero i h.lt_length
  | append_singleton before e ih =>
    rw [admits_snoc_iff, ih]
    constructor
    · rintro ⟨hb, he⟩ i x h
      have hlt := h.lt_length
      rw [List.length_append, List.length_singleton] at hlt
      rcases Nat.lt_succ_iff_lt_or_eq.mp hlt with hlt | rfl
      · exact hb i x ((rejectsAt_append hlt).mp h)
      · exact he x (rejectsAt_append_cons.mp h)
    · intro h
      constructor
      · intro i x hb
        exact h i x ((rejectsAt_append hb.lt_length).mpr hb)
      · intro x he
        exact h before.length x (rejectsAt_append_cons.mpr he)

/-- The first to be refused comes after a list that is admitted. -/
theorem rejectsFirstAt_iff {args : List Expr} {i : Nat} :
    ctx.RejectsFirstAt args i x ↔ ∃ before e after, args = before ++ e :: after ∧
      before.length = i ∧ (∃ us, ctx.Admits before us) ∧ ctx.RejectsAfter before e x := by
  constructor
  · rintro ⟨h, hfirst⟩
    obtain ⟨before, e, after, rfl, rfl, hr⟩ := h.exists_split
    refine ⟨before, e, after, rfl, rfl, admits_iff_not_rejects.mpr ?_, hr⟩
    intro j y hj
    exact hfirst j hj.lt_length y ((rejectsAt_append hj.lt_length).mpr hj)
  · rintro ⟨before, e, after, rfl, rfl, hadm, hr⟩
    refine ⟨rejectsAt_append_cons.mpr hr, fun j hj y h => ?_⟩
    exact admits_iff_not_rejects.mp hadm j y ((rejectsAt_append hj).mp h)

/-! ## 4. Lists that are refused -/

/-- **A list is refused for the first argument that is.** -/
theorem checkArguments_eq_error_iff {args : List Expr} :
    (ctx.checkArguments args).verdict = .error x ↔ ∃ i, ctx.RejectsFirstAt args i x := by
  have hs : (ctx.checkArguments args).verdict = .error x ↔
      (ctx.checkArgs [] args).Shows (.error x) := Iff.rfl
  rw [hs, shows_arguments_iff]
  constructor
  · rintro ⟨before, d, after, us, rfl, hadm, h⟩
    refine ⟨_, rejectsFirstAt_iff.mpr ⟨before, d, after, rfl, rfl, ⟨us, hadm⟩, ?_⟩⟩
    rcases h with h | ⟨t, mode, v, ht, hv, hm, hx⟩
    · exact .fails h
    · cases hx
      obtain ⟨c, hc, u, mode', w, hu, hw, hn⟩ := hadm.mem_handed_iff.mp hm
      exact .again ht hv hc hu hw hn
  · rintro ⟨i, h⟩
    obtain ⟨before, d, after, rfl, rfl, ⟨us, hadm⟩, hr⟩ := rejectsFirstAt_iff.mp h
    refine ⟨before, d, after, us, rfl, hadm, ?_⟩
    cases hr with
    | fails h => exact Or.inl h
    | again ht hv hm hu hw hn =>
      have hmem := hadm.mem_handed_iff.mpr ⟨_, hm, _, _, _, hu, hw, hn⟩
      exact Or.inr ⟨_, _, _, ht, hv, hmem, rfl⟩

/-- **What comes after it is not looked at**: whatever it is, the outcome is the same. -/
theorem RejectsFirstAt.checkArguments_eq {args : List Expr} {i : Nat}
    (h : ctx.RejectsFirstAt args i x) (rest : List Expr) :
    ctx.checkArguments (args.take (i + 1) ++ rest) = ctx.checkArguments args := by
  obtain ⟨before, e, after, rfl, rfl, -, hr⟩ := rejectsFirstAt_iff.mp h
  have hnot : ¬ ∃ ts, ctx.Admits (before ++ [e]) ts :=
    fun hadm => (admits_snoc_iff.mp hadm).2 x hr
  have htake : (before ++ e :: after).take (before.length + 1) = before ++ [e] :=
    List.take_length_add_append 1
  have hargs : before ++ e :: after = before ++ [e] ++ after := by simp
  rw [htake, hargs]
  refine checkArgs_append_congr ?_
  rintro ⟨ts, hts, hf⟩
  exact absurd ⟨ts, hts, fresh_of_none.mp hf⟩ hnot

/-! ## 5. Arguments that hand nothing over -/

theorem checkArgs_cons_verdict {e : Expr} {es : List Expr} {taken : List String} :
    (ctx.checkArgs taken (e :: es)).verdict =
      ((ctx.check e).verdict >>= fun t => Rule.relinquish taken t >>= fun taken' =>
        (ctx.checkArgs taken' es).verdict >>= fun us => .ok (t :: us)) := by
  simp only [checkArgs, Outcome.bind_verdict, Outcome.of_verdict, Outcome.pure_eq]

/-- **The rest of the list is judged as without the argument**, whatever was handed over before. -/
theorem checkArgs_insert {before after : List Expr} {e : Expr} {t : Typed} {taken : List String}
    (ht : ctx.Checks e t) (hn : t.handover? = none) :
    (ctx.checkArgs taken (before ++ e :: after)).verdict =
      (ctx.checkArgs taken (before ++ after)).verdict.map (·.insertIdx before.length t) := by
  induction before generalizing taken with
  | nil =>
    have hr : Rule.relinquish taken t = .ok taken := by simp [Rule.relinquish, hn]
    have hc : (ctx.checkArgs taken (e :: after)).verdict =
        ((ctx.checkArgs taken after).verdict >>= fun us => .ok (t :: us)) := by
      rw [checkArgs_cons_verdict, show (ctx.check e).verdict = .ok t from ht]
      show (Rule.relinquish taken t >>= _) = _
      rw [hr]
      rfl
    rw [List.nil_append, List.nil_append, hc]
    cases (ctx.checkArgs taken after).verdict <;> rfl
  | cons d before ih =>
    rw [List.cons_append, List.cons_append, checkArgs_cons_verdict, checkArgs_cons_verdict]
    simp only [ih]
    -- an error before the argument is the error of either list
    cases (ctx.check d).verdict with
    | error y => rfl
    | ok u =>
      show (Rule.relinquish taken u >>= _) = Except.map _ (Rule.relinquish taken u >>= _)
      cases Rule.relinquish taken u with
      | error y => rfl
      | ok taken' =>
        show (Except.map _ (ctx.checkArgs taken' (before ++ after)).verdict >>= _) =
          Except.map _ ((ctx.checkArgs taken' (before ++ after)).verdict >>= _)
        cases (ctx.checkArgs taken' (before ++ after)).verdict <;> rfl

/-! ## 6. The result -/

/-- **Arguments are checked in order.**

A list is accepted with the trees that its arguments have, if the variables that these hand over are
different.  Otherwise it is refused with the error of the first argument that is refused, and the
outcome does not depend on what comes after that one.  What hands a variable over is a reference to
it.  An argument that has arguments of its own inside hands nothing over and has its own tree
wherever it stands: without it the others are judged as they are with it. -/
theorem arguments_checked_in_order (ctx : Context) (args : List Expr) :
    (∀ ts, (ctx.checkArguments args).verdict = .ok ts ↔
      List.Forall₂ ctx.Checks args ts ∧ (Typed.handed ts).Nodup) ∧
    (∀ x, (ctx.checkArguments args).verdict = .error x ↔ ∃ i, ctx.RejectsFirstAt args i x) ∧
    (∀ i x, ctx.RejectsFirstAt args i x → ∀ rest,
      ctx.checkArguments (args.take (i + 1) ++ rest) = ctx.checkArguments args) ∧
    (∀ e mode v, (∃ t, ctx.Checks e t ∧ t.handover? = some (mode, v)) ↔ ctx.Refers e mode v) ∧
    ∀ before e after, args = before ++ e :: after →
      ∀ (part : Expr) (inner : List Expr) (t : Typed), part.IsPartOf e →
        part.arguments? = some inner → ctx.Checks e t →
        t.handover? = none ∧ (ctx.checkArguments args).verdict =
          (ctx.checkArguments (before ++ after)).verdict.map (·.insertIdx before.length t) := by
  refine ⟨fun ts => ?_, fun x => checkArguments_eq_error_iff, ?_, ?_, ?_⟩
  · exact admits_iff.symm
  · intro i x h rest
    exact h.checkArguments_eq rest
  · intro e mode v
    exact refers_iff.symm
  · rintro before e after rfl part inner t hp ha ht
    have hn : t.handover? = none := handover?_eq_none ht hp ha
    exact ⟨hn, checkArgs_insert ht hn⟩

/-- `move x, g(move x), (swap x) to int, $`.  That `g` is given `x` is no concern of the list; the
third argument is refused, as `to` has nothing to do there; and the choice is not met. -/
theorem arguments_checked_in_order_nested :
    let x : Variable := ⟨"x", .int, none⟩
    let g : Function := ⟨⟨"g", [⟨"p", .int⟩], .int, none⟩, 0⟩
    let symbols : List Symbol := [.function g, .var x]
    let ctx : Context :=
      ⟨symbols.foldl (fun scope symbol => (scope.declare (.symbol symbol)).1) .initial, none⟩
    let first : Expr := .node ⟨0, 6⟩ (.linear .move "x")
    let inner : List Expr := [.node ⟨10, 16⟩ (.linear .move "x")]
    let call : Expr := .node ⟨8, 17⟩ (.call "g" inner)
    let again : Expr := .node ⟨19, 34⟩
      (.coerce (.node ⟨20, 26⟩ (.linear .swap "x")) (.node ⟨31, 34⟩ (.name "int")))
    let choice : Expr := .node ⟨36, 37⟩ .choice
    let called : Typed := .node ⟨8, 17⟩ .int (.call g [.node ⟨10, 16⟩ .int (.linear .move x)])
    let args : List Expr := [first, call, again, choice]
    ctx.RejectsFirstAt args 2 ⟨.relinquished "x", ⟨20, 26⟩⟩ ∧
    ctx.checkArguments [first, call, again] = ctx.checkArguments args ∧
    (ctx.checkArguments args).choice = false ∧
    ctx.Checks call called ∧ (ctx.checkArguments args).verdict =
      (ctx.checkArguments [first, again, choice]).verdict.map (·.insertIdx 1 called) := by
  intro x g symbols ctx first inner call again choice called args
  have hfirst : ctx.Checks first (.node ⟨0, 6⟩ .int (.linear .move x)) := rfl
  have hagain : ctx.Checks again (.node ⟨20, 26⟩ .int (.linear .swap x)) := rfl
  have hcall : ctx.Checks call called := rfl
  have hadm : ∃ us, ctx.Admits [first, call] us := ⟨_, admits_iff.mpr rfl⟩
  have hrejects : ctx.RejectsAfter [first, call] again ⟨.relinquished "x", ⟨20, 26⟩⟩ :=
    .again hagain rfl List.mem_cons_self hfirst rfl rfl
  have h : ctx.RejectsFirstAt args 2 ⟨.relinquished "x", ⟨20, 26⟩⟩ :=
    rejectsFirstAt_iff.mpr ⟨[first, call], again, [choice], rfl, rfl, hadm, hrejects⟩
  obtain ⟨-, -, htail, -, hnested⟩ := arguments_checked_in_order ctx args
  exact ⟨h, htail 2 _ h [], rfl, hcall,
    (hnested [first] call [again, choice] rfl call inner called (.whole call) rfl hcall).2⟩

end Context

end MachineTyping
