/-
# How far checking gets

Checking an expression checks its parts, one after the other, but not always all of them: the first
error ends it, and some forms ask for something before they look at a part.  So whether a part is
checked at all depends on what stands before it.

* `ctx.Enters slot` says that checking gets to the part at that place: what comes before it passes.
  This does not depend on the part, nor on what comes after it;
* `ctx.Reaches e d` says that checking `e` comes to check `d`: every place on the way to it is
  entered.

Checking comes to an error or meets a choice; both are an `Incident`.  Incidents of a part that is
entered are incidents of the whole (`shows_fill`).  When the whole succeeds every part was entered,
and succeeded (`checks_fill`), so that everything was reached (`Checks.reaches`).

The other way round, the outcome of a part is all that the whole takes from it, and it takes that
only if the part is reached (`check_within_congr`): a part that is not might as well be another.
-/
import MachineTyping.Proofs.Failure.Rule
import MachineTyping.Proofs.Part.Layer
import MachineTyping.Proofs.Tree.Acceptance

namespace MachineTyping

/-! ## 1. Incidents -/

/-- What can happen on the way: an error ends the check, or a choice is met. -/
inductive Incident where
  | error (e : TypeError)
  | choice

/-- An outcome shows that something happened. -/
def Outcome.Shows {α : Type} (outcome : Outcome α) : Incident → Prop
  | .error e => outcome.verdict = .error e
  | .choice => outcome.choice = true

/-- **What happens in a sequence** happens in its first part, or in the second if it is come to. -/
theorem Outcome.shows_bind_iff {α β : Type} {x : Outcome α} {f : α → Outcome β} {i : Incident} :
    (x >>= f).Shows i ↔ x.Shows i ∨ ∃ a, x.verdict = .ok a ∧ (f a).Shows i := by
  cases hx : x.verdict with
  | error e =>
    have he : (Except.error e >>= fun a => (f a).verdict) = .error e := rfl
    cases i <;> simp [Outcome.Shows, Outcome.bind_choice_error hx, hx, he]
  | ok a =>
    have ha : (Except.ok a >>= fun a => (f a).verdict) = (f a).verdict := rfl
    cases i <;> simp [Outcome.Shows, Outcome.bind_choice_ok hx, hx, ha]

theorem Outcome.Shows.bind {α β : Type} {x : Outcome α} {f : α → Outcome β} {i : Incident}
    (h : x.Shows i) : (x >>= f).Shows i :=
  Outcome.shows_bind_iff.mpr (Or.inl h)

theorem Outcome.shows_after {α β : Type} {x : Outcome α} {f : α → Outcome β} {i : Incident}
    {a : α} (hx : x.verdict = .ok a) (h : (f a).Shows i) : (x >>= f).Shows i :=
  Outcome.shows_bind_iff.mpr (Or.inr ⟨a, hx, h⟩)

/-- A rule can come to an error only. -/
theorem Outcome.shows_of_iff {α : Type} {v : Verdict α} {i : Incident} :
    (Outcome.of v).Shows i ↔ ∃ e, i = .error e ∧ v = .error e := by
  cases i <;> simp [Outcome.Shows]

/-- A rule that fails ends the sequence. -/
theorem Outcome.shows_error {α β : Type} {v : Verdict α} {f : α → Outcome β} {e : TypeError}
    (h : v = .error e) : (Outcome.of v >>= f).Shows (.error e) :=
  Outcome.Shows.bind (Outcome.shows_of_iff.mpr ⟨e, rfl, h⟩)

theorem Outcome.not_shows_ok {α : Type} {a : α} {i : Incident} :
    ¬ (Outcome.of (.ok a)).Shows i := by
  rw [Outcome.shows_of_iff]
  rintro ⟨e, -, h⟩
  cases h

/-- Nothing happens when a result is put together. -/
theorem Outcome.shows_bind_ok_iff {α β : Type} {x : Outcome α} {f : α → β} {i : Incident} :
    (x >>= fun a => .of (.ok (f a))).Shows i ↔ x.Shows i := by
  rw [Outcome.shows_bind_iff]
  constructor
  · rintro (h | ⟨a, -, h⟩)
    · exact h
    · exact absurd h Outcome.not_shows_ok
  · exact Or.inl

/-- Sequences that go on in the same way from what was found are the same. -/
theorem Outcome.bind_congr_ok {α β : Type} {x : Outcome α} {f g : α → Outcome β}
    (h : ∀ a, x.verdict = .ok a → f a = g a) : (x >>= f) = (x >>= g) := by
  show Outcome.bind x f = Outcome.bind x g
  unfold Outcome.bind
  cases hx : x.verdict with
  | error e => rfl
  | ok a => simp only [h a hx]

namespace Context

variable {ctx : Context} {i : Incident}

/-! ## 2. Places that are entered -/

/-- The arguments check, and hand no variable over twice. -/
def Admits (ctx : Context) (args : List Expr) (checked : List Typed) : Prop :=
  List.Forall₂ ctx.Checks args checked ∧ (Typed.handed checked).Nodup

theorem admits_iff {args : List Expr} {checked : List Typed} :
    ctx.Admits args checked ↔ (ctx.checkArgs [] args).verdict = .ok checked := by
  rw [checkArgs_eq_ok_iff, fresh_of_none]
  rfl

/-- **Checking gets to the place**, because everything that comes before it passes: what stands on
the left checks; the names of the fields up to here are different; the function that is called
is there and takes as many arguments, or the machine is there.  Every other place is entered at
once. -/
def Enters (ctx : Context) : Expr.Slot → Prop
  | .right _ lhs => ∃ l, ctx.Checks lhs l
  | .index base => ∃ b, ctx.Checks base b
  | .elem before _ => ∃ ts, List.Forall₂ ctx.Checks before ts
  | .value before name _ =>
    (before.map Prod.fst).Nodup ∧ name ∉ before.map Prod.fst ∧
      ∃ ts, List.Forall₂ ctx.Checks (before.map Prod.snd) ts
  | .arg callee before after =>
    (∃ f, ctx.scope.lookup callee = some (.function f) ∧
      before.length + (after.length + 1) = f.params.length) ∧ ∃ ts, ctx.Admits before ts
  | .newArg machine before _ =>
    (∃ m, ctx.scope.lookup machine = some (.machine m)) ∧ ∃ ts, ctx.Admits before ts
  | .operand _ | .left _ _ | .component _ | .field _ | .base _ | .keys | .values | .sizeof
  | .cast _ | .coerce _ => True

/-- **Checking the expression comes to check the part.** -/
def Reaches (ctx : Context) (e part : Expr) : Prop :=
  ∃ layers : List Expr.Layer,
    (∀ layer ∈ layers, ctx.Enters layer.slot) ∧ part.within layers = e

theorem Reaches.refl (e : Expr) : ctx.Reaches e e := ⟨[], by simp, rfl⟩

theorem Reaches.fill {e part : Expr} (h : ctx.Reaches e part) {layer : Expr.Layer}
    (hl : ctx.Enters layer.slot) : ctx.Reaches (layer.fill e) part := by
  obtain ⟨layers, hls, rfl⟩ := h
  exact ⟨layer :: layers, List.forall_mem_cons.mpr ⟨hl, hls⟩, rfl⟩

theorem Reaches.isPartOf {e part : Expr} (h : ctx.Reaches e part) : part.IsPartOf e := by
  obtain ⟨layers, -, rfl⟩ := h
  exact ⟨layers, rfl⟩

/-- What is reached is the expression itself, or is reached through one of the parts that it is
built from. -/
theorem reaches_iff {e part : Expr} :
    ctx.Reaches e part ↔ part = e ∨
      ∃ (layer : Expr.Layer) (d : Expr), layer.fill d = e ∧ ctx.Enters layer.slot ∧
        ctx.Reaches d part := by
  constructor
  · rintro ⟨layers, hls, rfl⟩
    cases layers with
    | nil => exact Or.inl rfl
    | cons layer layers =>
      obtain ⟨hl, hls⟩ := List.forall_mem_cons.mp hls
      exact Or.inr ⟨layer, part.within layers, rfl, hl, layers, hls, rfl⟩
  · rintro (rfl | ⟨layer, d, rfl, hl, hr⟩)
    · exact .refl part
    · exact hr.fill hl

/-! ## 3. Lists -/

theorem shows_checkList_cons {e : Expr} {es : List Expr} :
    (ctx.checkList (e :: es)).Shows i ↔
      (ctx.check e).Shows i ∨ ∃ t, ctx.Checks e t ∧ (ctx.checkList es).Shows i := by
  have hc : ctx.checkList (e :: es) =
      (ctx.check e >>= fun t => ctx.checkList es >>= fun us => .of (.ok (t :: us))) := rfl
  rw [hc, Outcome.shows_bind_iff]
  simp only [Outcome.shows_bind_ok_iff]
  rfl

/-- What happens while a list is checked happens at one of its expressions, after those before it
checked. -/
theorem shows_checkList_iff {es : List Expr} :
    (ctx.checkList es).Shows i ↔
      ∃ before d after, es = before ++ d :: after ∧
        (∃ ts, List.Forall₂ ctx.Checks before ts) ∧ (ctx.check d).Shows i := by
  induction es with
  | nil =>
    constructor
    · intro h
      exact absurd h Outcome.not_shows_ok
    · rintro ⟨before, d, after, he, -, -⟩
      cases before <;> cases he
  | cons e es ih =>
    rw [shows_checkList_cons, ih]
    constructor
    · rintro (h | ⟨t, ht, before, d, after, rfl, ⟨ts, hts⟩, h⟩)
      · exact ⟨[], e, es, rfl, ⟨[], .nil⟩, h⟩
      · exact ⟨e :: before, d, after, rfl, ⟨t :: ts, .cons ht hts⟩, h⟩
    · rintro ⟨before, d, after, he, ⟨ts, hts⟩, h⟩
      cases hts with
      | nil =>
        cases he
        exact Or.inl h
      | @cons _ t before ts ht hts =>
        cases he
        exact Or.inr ⟨t, ht, before, d, after, rfl, ⟨ts, hts⟩, h⟩

theorem shows_checkFields_cons {name : String} {e : Expr} {fields : List (String × Expr)}
    {seen : List String} :
    (ctx.checkFields seen ((name, e) :: fields)).Shows i ↔
      name ∈ seen ∧ i = .error ⟨.repeatedField name, e.span⟩ ∨
      name ∉ seen ∧ ((ctx.check e).Shows i ∨
        ∃ t, ctx.Checks e t ∧ (ctx.checkFields (name :: seen) fields).Shows i) := by
  have hc : ctx.checkFields seen ((name, e) :: fields) =
      (if name ∈ seen then .of (.error ⟨.repeatedField name, e.span⟩)
      else ctx.check e >>= fun t => ctx.checkFields (name :: seen) fields >>= fun cs =>
        .of (.ok ((name, t) :: cs))) := rfl
  rw [hc]
  by_cases hs : name ∈ seen
  · simp [hs, Outcome.shows_of_iff]
  · rw [if_neg hs, Outcome.shows_bind_iff]
    simp only [Outcome.shows_bind_ok_iff, hs, false_and, false_or, not_false_iff, true_and]
    rfl

/-- The values of fields are checked like a list, but a name that was there already is noticed
before the value. -/
theorem shows_checkFields_iff {fields : List (String × Expr)} {seen : List String} :
    (ctx.checkFields seen fields).Shows i ↔
      ∃ before name d after ts, fields = before ++ (name, d) :: after ∧
        List.Forall₂ ctx.Checks (before.map Prod.snd) ts ∧ Fresh seen (before.map Prod.fst) ∧
        (name ∈ before.map Prod.fst ++ seen ∧ i = .error ⟨.repeatedField name, d.span⟩ ∨
          name ∉ before.map Prod.fst ++ seen ∧ (ctx.check d).Shows i) := by
  induction fields generalizing seen with
  | nil =>
    constructor
    · intro h
      exact absurd h Outcome.not_shows_ok
    · rintro ⟨before, name, d, after, ts, he, -⟩
      cases before <;> cases he
  | cons field fields ih =>
    obtain ⟨x, e⟩ := field
    -- the first name is one of those before the others, or one of those seen: it is the same
    have hmem : ∀ (before : List (String × Expr)) (name : String),
        name ∈ before.map Prod.fst ++ x :: seen ↔
          name ∈ ((x, e) :: before).map Prod.fst ++ seen := by
      intro before name
      simp only [List.map_cons, List.mem_append, List.mem_cons]
      tauto
    rw [shows_checkFields_cons, ih]
    constructor
    · rintro (⟨hs, rfl⟩ | ⟨hs, h | ⟨t, ht, before, name, d, after, ts, rfl, hts, hf, h⟩⟩)
      · exact ⟨[], x, e, fields, [], rfl, .nil, fresh_nil seen, Or.inl ⟨hs, rfl⟩⟩
      · exact ⟨[], x, e, fields, [], rfl, .nil, fresh_nil seen, Or.inr ⟨hs, h⟩⟩
      · rw [hmem] at h
        exact ⟨(x, e) :: before, name, d, after, t :: ts, rfl, .cons ht hts,
          fresh_cons.mpr ⟨hs, hf⟩, h⟩
    · rintro ⟨before, name, d, after, ts, he, hts, hf, h⟩
      cases before with
      | nil =>
        cases he
        rcases h with h | ⟨hs, h⟩
        · exact Or.inl h
        · exact Or.inr ⟨hs, Or.inl h⟩
      | cons first before =>
        cases he
        obtain ⟨hs, hf⟩ := fresh_cons.mp hf
        rw [← hmem] at h
        cases hts with
        | @cons _ t _ ts ht hts =>
          exact Or.inr ⟨hs, Or.inr ⟨t, ht, before, name, d, after, ts, rfl, hts, hf, h⟩⟩

theorem shows_checkArgs_cons {e : Expr} {es : List Expr} {taken : List String} :
    (ctx.checkArgs taken (e :: es)).Shows i ↔
      (ctx.check e).Shows i ∨ ∃ t, ctx.Checks e t ∧
        ((∃ mode v, t.handover? = some (mode, v) ∧ v.name ∈ taken ∧
            i = .error ⟨.relinquished v.name, t.span⟩) ∨
          Fresh taken (Typed.handed [t]) ∧
            (ctx.checkArgs (Typed.handed [t] ++ taken) es).Shows i) := by
  have hc : ctx.checkArgs taken (e :: es) =
      (ctx.check e >>= fun t => Outcome.of (Rule.relinquish taken t) >>= fun taken' =>
        ctx.checkArgs taken' es >>= fun us => .of (.ok (t :: us))) := rfl
  -- after the argument the question is put, and only then the others are checked
  have ht : ∀ t : Typed,
      (Outcome.of (Rule.relinquish taken t) >>= fun taken' =>
        ctx.checkArgs taken' es >>= fun us => .of (.ok (t :: us))).Shows i ↔
        (∃ mode v, t.handover? = some (mode, v) ∧ v.name ∈ taken ∧
            i = .error ⟨.relinquished v.name, t.span⟩) ∨
          Fresh taken (Typed.handed [t]) ∧
            (ctx.checkArgs (Typed.handed [t] ++ taken) es).Shows i := by
    intro t
    rw [Outcome.shows_bind_iff, fresh_handed_singleton]
    simp only [Outcome.shows_bind_ok_iff, Outcome.shows_of_iff, Outcome.of_verdict,
      Rule.relinquish_eq_error_iff, Rule.relinquish_eq_ok_iff]
    constructor
    · rintro (⟨_, rfl, mode, v, hv, hm, rfl⟩ | ⟨_, ⟨hone, rfl⟩, h⟩)
      · exact Or.inl ⟨mode, v, hv, hm, rfl⟩
      · exact Or.inr ⟨hone, h⟩
    · rintro (⟨mode, v, hv, hm, rfl⟩ | ⟨hone, h⟩)
      · exact Or.inl ⟨_, rfl, mode, v, hv, hm, rfl⟩
      · exact Or.inr ⟨_, ⟨hone, rfl⟩, h⟩
  rw [hc, Outcome.shows_bind_iff]
  simp only [ht]
  rfl

/-- Arguments are checked like a list, and after each of them it is asked whether it hands over a
variable that was handed over before. -/
theorem shows_checkArgs_iff {es : List Expr} {taken : List String} :
    (ctx.checkArgs taken es).Shows i ↔
      ∃ before d after ts, es = before ++ d :: after ∧
        List.Forall₂ ctx.Checks before ts ∧ Fresh taken (Typed.handed ts) ∧
        ((ctx.check d).Shows i ∨ ∃ t mode v, ctx.Checks d t ∧ t.handover? = some (mode, v) ∧
          v.name ∈ Typed.handed ts ++ taken ∧ i = .error ⟨.relinquished v.name, t.span⟩) := by
  induction es generalizing taken with
  | nil =>
    constructor
    · intro h
      exact absurd h Outcome.not_shows_ok
    · rintro ⟨before, d, after, ts, he, -⟩
      cases before <;> cases he
  | cons e es ih =>
    have hmem : ∀ (t : Typed) (ts : List Typed) (name : String),
        name ∈ Typed.handed ts ++ (Typed.handed [t] ++ taken) ↔
          name ∈ Typed.handed (t :: ts) ++ taken := by
      intro t ts name
      rw [Typed.handed_cons t ts]
      simp only [List.mem_append]
      tauto
    simp only [shows_checkArgs_cons, ih, hmem]
    constructor
    · rintro (h | ⟨t, ht, ⟨mode, v, hv, hm, rfl⟩ |
        ⟨hone, before, d, after, ts, rfl, hts, hf, h⟩⟩)
      · exact ⟨[], e, es, [], rfl, .nil, fresh_nil taken, Or.inl h⟩
      · exact ⟨[], e, es, [], rfl, .nil, fresh_nil taken, Or.inr ⟨t, mode, v, ht, hv, hm, rfl⟩⟩
      · refine ⟨e :: before, d, after, t :: ts, rfl, .cons ht hts, ?_, h⟩
        rw [Typed.handed_cons, fresh_append]
        exact ⟨hone, hf⟩
    · rintro ⟨before, d, after, ts, he, hts, hf, h⟩
      cases hts with
      | nil =>
        cases he
        rcases h with h | ⟨t, mode, v, ht, hv, hm, rfl⟩
        · exact Or.inl h
        · exact Or.inr ⟨t, ht, Or.inl ⟨mode, v, hv, hm, rfl⟩⟩
      | @cons _ t before ts ht hts =>
        cases he
        rw [Typed.handed_cons, fresh_append] at hf
        exact Or.inr ⟨t, ht, Or.inr ⟨hf.1, before, d, after, ts, rfl, hts, hf.2, h⟩⟩

/-- **What happens in a whole list of arguments** happens in the first one that is not admitted, or
is that it hands over what an earlier one did. -/
theorem shows_arguments_iff {args : List Expr} :
    (ctx.checkArgs [] args).Shows i ↔
      ∃ before d after ts, args = before ++ d :: after ∧ ctx.Admits before ts ∧
        ((ctx.check d).Shows i ∨ ∃ t mode v, ctx.Checks d t ∧ t.handover? = some (mode, v) ∧
          v.name ∈ Typed.handed ts ∧ i = .error ⟨.relinquished v.name, t.span⟩) := by
  rw [shows_checkArgs_iff]
  simp only [Admits, fresh_of_none, List.append_nil, and_assoc]

/-- Arguments after those that are admitted are come to... -/
theorem Admits.shows {before after : List Expr} {d : Expr} {ts : List Typed}
    (h : ctx.Admits before ts) (hd : (ctx.check d).Shows i) :
    (ctx.checkArgs [] (before ++ d :: after)).Shows i :=
  shows_arguments_iff.mpr ⟨before, d, after, ts, rfl, h, Or.inl hd⟩

/-- ...and refused if they hand over what one of those did. -/
theorem Admits.shows_relinquished {before after : List Expr} {d : Expr} {ts : List Typed}
    {t : Typed} {mode : LinearMode} {v : Variable} (h : ctx.Admits before ts) (ht : ctx.Checks d t)
    (hv : t.handover? = some (mode, v)) (hm : v.name ∈ Typed.handed ts) :
    (ctx.checkArgs [] (before ++ d :: after)).Shows (.error ⟨.relinquished v.name, t.span⟩) :=
  shows_arguments_iff.mpr ⟨before, d, after, ts, rfl, h, Or.inr ⟨t, mode, v, ht, hv, hm, rfl⟩⟩

/-! ## 4. Parts and wholes -/

/-- **What happens in a part that is entered happens in the whole.** -/
theorem shows_fill {layer : Expr.Layer} {d : Expr} (hl : ctx.Enters layer.slot)
    (h : (ctx.check d).Shows i) : (ctx.check (layer.fill d)).Shows i := by
  obtain ⟨span, slot⟩ := layer
  cases slot with
  | right op lhs =>
    obtain ⟨l, hlhs⟩ := hl
    exact Outcome.shows_after hlhs h.bind
  | index base =>
    obtain ⟨b, hb⟩ := hl
    exact Outcome.shows_after hb h.bind
  | elem before after =>
    have hs := shows_checkList_iff.mpr ⟨before, d, after, rfl, hl, h⟩
    exact hs.bind
  | value before name after =>
    obtain ⟨hd, hn, ts, hts⟩ := hl
    have hs : (ctx.checkFields [] (before ++ (name, d) :: after)).Shows i :=
      shows_checkFields_iff.mpr ⟨before, name, d, after, ts, rfl, hts, fresh_of_none.mpr hd,
        Or.inr ⟨by simpa using hn, h⟩⟩
    exact hs.bind
  | arg callee before after =>
    obtain ⟨⟨f, hf, hc⟩, ts, hts⟩ := hl
    have hcallee : Rule.callee ctx.scope span callee (before ++ d :: after).length = .ok f :=
      Rule.callee_eq_ok_iff.mpr ⟨hf, by simpa using hc⟩
    exact Outcome.shows_after hcallee (hts.shows h).bind
  | newArg machine before after =>
    obtain ⟨⟨m, hm⟩, ts, hts⟩ := hl
    have hmachine : Rule.constructor ctx.scope span machine = .ok m :=
      Rule.constructor_eq_ok_iff.mpr hm
    exact Outcome.shows_after hmachine (hts.shows h).bind
  | _ => exact h.bind

/-- So is what happens in any part that is reached. -/
theorem Reaches.shows {e part : Expr} (h : ctx.Reaches e part) (hp : (ctx.check part).Shows i) :
    (ctx.check e).Shows i := by
  obtain ⟨layers, hls, rfl⟩ := h
  induction layers with
  | nil => exact hp
  | cons layer layers ih =>
    obtain ⟨hl, hls⟩ := List.forall_mem_cons.mp hls
    exact shows_fill hl (ih hls)

/-- What is related to a list has a part for each part of the list. -/
theorem forall₂_append_cons_iff {α β : Type} {R : α → β → Prop} {a : α} {as bs : List α}
    {cs : List β} :
    List.Forall₂ R (as ++ a :: bs) cs ↔
      ∃ before c after, cs = before ++ c :: after ∧
        List.Forall₂ R as before ∧ R a c ∧ List.Forall₂ R bs after := by
  constructor
  · intro h
    induction as generalizing cs with
    | nil =>
      cases h with
      | @cons _ c _ cs hac hbs => exact ⟨[], c, cs, rfl, .nil, hac, hbs⟩
    | cons x as ih =>
      cases h with
      | @cons _ y _ cs hxy hs =>
        obtain ⟨before, c, after, rfl, hb, hc, ha⟩ := ih hs
        exact ⟨y :: before, c, after, rfl, .cons hxy hb, hc, ha⟩
  · rintro ⟨before, c, after, rfl, hb, hc, ha⟩
    exact List.rel_append hb (.cons hc ha)

/-- The arguments before one of them hand no variable over twice either. -/
theorem admits_before {before after : List Expr} {d : Expr} {ts : List Typed}
    (h : List.Forall₂ ctx.Checks (before ++ d :: after) ts) (hd : (Typed.handed ts).Nodup) :
    (∃ us, ctx.Admits before us) ∧ ∃ u, ctx.Checks d u := by
  obtain ⟨us, u, rest, rfl, hus, hu, -⟩ := forall₂_append_cons_iff.mp h
  rw [Typed.handed_append] at hd
  exact ⟨⟨us, hus, hd.of_append_left⟩, u, hu⟩

/-- **Success needs every part**: each is entered, and checks. -/
theorem checks_fill {layer : Expr.Layer} {d : Expr} {t : Typed}
    (h : ctx.Checks (layer.fill d) t) : ctx.Enters layer.slot ∧ ∃ u, ctx.Checks d u := by
  obtain ⟨span, slot⟩ := layer
  have first : ∀ {α : Type} {f : Typed → Outcome α} {a : α},
      (ctx.check d >>= f).verdict = .ok a → ∃ u, ctx.Checks d u := by
    intro α f a h
    obtain ⟨u, hu, -⟩ := Outcome.bind_eq_ok_iff.mp h
    exact ⟨u, hu⟩
  cases slot with
  | right op lhs =>
    obtain ⟨l, hl, h⟩ := Outcome.bind_eq_ok_iff.mp h
    exact ⟨⟨l, hl⟩, first h⟩
  | index base =>
    obtain ⟨b, hb, h⟩ := Outcome.bind_eq_ok_iff.mp h
    exact ⟨⟨b, hb⟩, first h⟩
  | elem before after =>
    obtain ⟨ts, hts, -⟩ := checks_tuple_iff.mp h
    obtain ⟨us, u, -, -, hus, hu, -⟩ := forall₂_append_cons_iff.mp hts
    exact ⟨⟨us, hus⟩, u, hu⟩
  | value before name after =>
    obtain ⟨fs, hn, hfs, ty, rfl, hl⟩ := checks_named_iff.mp h
    cases hl with
    | named hd =>
      rw [hn, List.map_append, List.map_cons] at hd
      rw [List.map_append, List.map_cons] at hfs
      obtain ⟨us, u, -, -, hus, hu, -⟩ := forall₂_append_cons_iff.mp hfs
      have hname : name ∉ before.map Prod.fst := fun hm =>
        (List.nodup_append.mp hd).2.2 name hm name List.mem_cons_self rfl
      exact ⟨⟨hd.of_append_left, hname, us, hus⟩, u, hu⟩
  | arg callee before after =>
    obtain ⟨f, hf, ts, hts, ty, rfl, hl⟩ := checks_call_iff.mp h
    cases hl with
    | call hp hd =>
      have hc : (before ++ d :: after).length = f.params.length :=
        hts.length_eq.trans hp.length_eq.symm
      rw [List.length_append, List.length_cons] at hc
      obtain ⟨hb, hu⟩ := admits_before hts hd
      exact ⟨⟨⟨f, hf, hc⟩, hb⟩, hu⟩
  | newArg machine before after =>
    obtain ⟨m, hm, ts, hts, ty, rfl, hl⟩ := checks_new_iff.mp h
    cases hl with
    | new _ hd =>
      obtain ⟨hb, hu⟩ := admits_before hts hd
      exact ⟨⟨⟨m, hm⟩, hb⟩, hu⟩
  | _ => exact ⟨trivial, first h⟩

/-- Every part of an expression that checks is reached, and checks. -/
theorem Checks.reaches {e part : Expr} {t : Typed} (h : ctx.Checks e t) (hp : part.IsPartOf e) :
    ctx.Reaches e part ∧ ∃ u, ctx.Checks part u := by
  obtain ⟨layers, rfl⟩ := hp
  induction layers generalizing t with
  | nil => exact ⟨.refl part, t, h⟩
  | cons layer layers ih =>
    obtain ⟨hl, u, hu⟩ := checks_fill h
    obtain ⟨hr, hp⟩ := ih hu
    exact ⟨hr.fill hl, hp⟩

/-! ## 5. What the whole takes from a part -/

theorem checkList_congr {before after : List Expr} {d d' : Expr}
    (h : (∃ ts, List.Forall₂ ctx.Checks before ts) → ctx.check d = ctx.check d') :
    ctx.checkList (before ++ d :: after) = ctx.checkList (before ++ d' :: after) := by
  induction before with
  | nil => simp only [List.nil_append, checkList, h ⟨[], .nil⟩]
  | cons e before ih =>
    refine Outcome.bind_congr_ok fun t ht => ?_
    rw [List.append_eq, List.append_eq, ih fun ⟨ts, hts⟩ => h ⟨t :: ts, .cons ht hts⟩]

/-- The span of a value is asked for too, where its field is a repetition. -/
theorem checkFields_congr {before after : List (String × Expr)} {name : String} {d d' : Expr}
    {seen : List String} (hs : d.span = d'.span)
    (h : Fresh seen (before.map Prod.fst) → name ∉ before.map Prod.fst ++ seen →
      (∃ ts, List.Forall₂ ctx.Checks (before.map Prod.snd) ts) → ctx.check d = ctx.check d') :
    ctx.checkFields seen (before ++ (name, d) :: after) =
      ctx.checkFields seen (before ++ (name, d') :: after) := by
  induction before generalizing seen with
  | nil =>
    by_cases hn : name ∈ seen
    · simp only [List.nil_append, checkFields, if_pos hn, hs]
    · simp only [List.nil_append, checkFields, if_neg hn, h (fresh_nil seen) hn ⟨[], .nil⟩]
  | cons field before ih =>
    obtain ⟨x, e⟩ := field
    simp only [List.cons_append, checkFields]
    split
    · rfl
    · rename_i hx
      refine Outcome.bind_congr_ok fun t ht => ?_
      rw [ih]
      rintro hf hn ⟨ts, hts⟩
      refine h (fresh_cons.mpr ⟨hx, hf⟩) ?_ ⟨t :: ts, .cons ht hts⟩
      simp only [List.map_cons, List.mem_append, List.mem_cons] at hn ⊢
      tauto

/-- What follows a list of arguments matters only where these are admitted. -/
theorem checkArgs_append_congr {args rest rest' : List Expr} {taken : List String}
    (h : (∃ ts, List.Forall₂ ctx.Checks args ts ∧ Fresh taken (Typed.handed ts)) →
      ∀ taken', ctx.checkArgs taken' rest = ctx.checkArgs taken' rest') :
    ctx.checkArgs taken (args ++ rest) = ctx.checkArgs taken (args ++ rest') := by
  induction args generalizing taken with
  | nil => exact h ⟨[], .nil, fresh_nil taken⟩ taken
  | cons e args ih =>
    simp only [List.cons_append, checkArgs]
    refine Outcome.bind_congr_ok fun t ht => Outcome.bind_congr_ok fun taken' htaken => ?_
    obtain ⟨hone, rfl⟩ := Rule.relinquish_eq_ok_iff.mp htaken
    rw [ih]
    rintro ⟨ts, hts, hf⟩
    refine h ⟨t :: ts, .cons ht hts, ?_⟩
    rw [Typed.handed_cons, fresh_append]
    exact ⟨fresh_handed_singleton.mpr hone, hf⟩

theorem checkArgs_congr {before after : List Expr} {d d' : Expr}
    (h : (∃ ts, ctx.Admits before ts) → ctx.check d = ctx.check d') :
    ctx.checkArgs [] (before ++ d :: after) = ctx.checkArgs [] (before ++ d' :: after) := by
  refine checkArgs_append_congr ?_
  rintro ⟨ts, hts, hf⟩ taken'
  simp only [checkArgs, h ⟨ts, hts, fresh_of_none.mp hf⟩]

/-- **A part counts through its outcome, and only if it is entered.** -/
theorem check_fill_congr {layer : Expr.Layer} {d d' : Expr} (hs : d.span = d'.span)
    (h : ctx.Enters layer.slot → ctx.check d = ctx.check d') :
    ctx.check (layer.fill d) = ctx.check (layer.fill d') := by
  obtain ⟨span, slot⟩ := layer
  cases slot with
  | right op lhs => exact Outcome.bind_congr_ok fun l hl => congrArg (· >>= _) (h ⟨l, hl⟩)
  | index base => exact Outcome.bind_congr_ok fun b hb => congrArg (· >>= _) (h ⟨b, hb⟩)
  | elem before after =>
    have hc : ctx.checkList (before ++ d :: after) = ctx.checkList (before ++ d' :: after) :=
      checkList_congr h
    exact congrArg (· >>= _) hc
  | value before name after =>
    have hc : ctx.checkFields [] (before ++ (name, d) :: after) =
        ctx.checkFields [] (before ++ (name, d') :: after) := by
      refine checkFields_congr hs fun hf hn hts => ?_
      rw [List.append_nil] at hn
      exact h ⟨fresh_of_none.mp hf, hn, hts⟩
    exact congrArg (· >>= _) hc
  | arg callee before after =>
    have hl : ∀ e : Expr, (before ++ e :: after).length = before.length + (after.length + 1) :=
      fun e => by rw [List.length_append, List.length_cons]
    simp only [Expr.Layer.fill, Expr.Slot.fill, check, checkForm, hl]
    refine Outcome.bind_congr_ok fun f hf => ?_
    rw [checkArgs_congr fun hadm => h ⟨⟨f, Rule.callee_eq_ok_iff.mp hf⟩, hadm⟩]
  | newArg machine before after =>
    refine Outcome.bind_congr_ok fun m hm => ?_
    rw [checkArgs_congr fun hadm => h ⟨⟨m, Rule.constructor_eq_ok_iff.mp hm⟩, hadm⟩]
  | _ => exact congrArg (· >>= _) (h trivial)

/-- **The same at any depth**: a part counts only if it is reached. -/
theorem check_within_congr {layers : List Expr.Layer} {d d' : Expr} (hs : d.span = d'.span)
    (h : (∀ layer ∈ layers, ctx.Enters layer.slot) → ctx.check d = ctx.check d') :
    ctx.check (d.within layers) = ctx.check (d'.within layers) := by
  induction layers with
  | nil => exact h (List.forall_mem_nil _)
  | cons layer layers ih =>
    have hspan : (d.within layers).span = (d'.within layers).span := by
      cases layers with
      | nil => exact hs
      | cons => rfl
    refine check_fill_congr hspan fun hl => ih fun hls => h ?_
    exact List.forall_mem_cons.mpr ⟨hl, hls⟩

end Context

end MachineTyping
