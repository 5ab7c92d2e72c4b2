/-
# Marks are exact

A session marks its body once a choice was met in it.  What is checked in a session is a `Phrase`: an
expression, an assignment target or a list of arguments.  Checking it changes nothing but the mark
of the body, and that exactly (`marks_are_exact`):

* if the phrase is accepted, the body is marked if it was before, or if `$` or `$$` occurs anywhere in
  the phrase (`Phrase.HasChoice`, a matter of syntax);
* if the phrase is refused, if it was before, or if a choice was reached before the error
  (`Context.MeetsChoice`);
* the marks of other functions stay as they are, those of the functions that are called included,
  and the body does not take theirs.

One phrase is the step, a list of phrases the run (`isMarked_checkAll`).  Whatever else is done in a
session, no mark is lost (`isMarked_run`).

A phrase is a list of expressions with something around them, so what is met in it is met in one of
them that is come to (`Context.ComesTo`), and from there on everything is known: a choice is met
exactly if it is reached (`Context.shows_iff`).
-/
import MachineTyping.Proofs.Failure.Origin
import MachineTyping.Session

namespace MachineTyping

/-! ## 1. Phrases -/

/-- What is checked in a session. -/
inductive Phrase where
  | expr (e : Expr)
  | target (lvalue : Lvalue)
  | arguments (args : List Expr)

mutual

/-- The index expressions of an assignment target, in the order in which they are checked. -/
def Lvalue.indices : Lvalue → List Expr
  | .node _ form => form.indices

def Lvalue.Form.indices : Lvalue.Form → List Expr
  | .var _ => []
  | .field base _ => base.indices
  | .component base _ => base.indices
  | .index base index => base.indices ++ [index]

end

/-- The expressions of a phrase, in the order in which they are checked. -/
def Phrase.exprs : Phrase → List Expr
  | .expr e => [e]
  | .target lvalue => lvalue.indices
  | .arguments args => args

/-- **A choice occurs in the phrase**, at any depth. -/
def Phrase.HasChoice (phrase : Phrase) : Prop :=
  ∃ e ∈ phrase.exprs, ∃ d : Expr, d.IsPartOf e ∧ d.IsChoice

namespace Context

variable {ctx : Context}

/-- Checking a target comes to check the index: what it is an index of checks. -/
inductive ComesToIndex (ctx : Context) : Lvalue → Expr → Prop
  | here {span : Span} {base : Lvalue} {index : Expr} {b : Typed} :
      (ctx.checkLvalue base).verdict = .ok b → ComesToIndex ctx (.node span (.index base index)) index
  | base {span : Span} {base : Lvalue} {index e : Expr} :
      ComesToIndex ctx base e → ComesToIndex ctx (.node span (.index base index)) e
  | field {span : Span} {base : Lvalue} {name : String} {e : Expr} :
      ComesToIndex ctx base e → ComesToIndex ctx (.node span (.field base name)) e
  | component {span : Span} {base : Lvalue} {index : String} {e : Expr} :
      ComesToIndex ctx base e → ComesToIndex ctx (.node span (.component base index)) e

/-- **Checking the phrase comes to check the expression**, which is one of its own. -/
def ComesTo (ctx : Context) : Phrase → Expr → Prop
  | .expr e, d => d = e
  | .target lvalue, d => ctx.ComesToIndex lvalue d
  | .arguments args, d => ∃ before after, args = before ++ d :: after ∧ ∃ ts, ctx.Admits before ts

/-- **A choice is reached**, before an error or before the end. -/
def MeetsChoice (ctx : Context) (phrase : Phrase) : Prop :=
  ∃ e d, ctx.ComesTo phrase e ∧ ctx.Reaches e d ∧ d.IsChoice

/-- Whether a choice is met while the phrase is checked. -/
def choiceIn (ctx : Context) : Phrase → Bool
  | .expr e => (ctx.check e).choice
  | .target lvalue => (ctx.checkLvalue lvalue).choice
  | .arguments args => (ctx.checkArguments args).choice

/-- The phrase is accepted. -/
def Accepts (ctx : Context) : Phrase → Prop
  | .expr e => ∃ t, (ctx.check e).verdict = .ok t
  | .target lvalue => ∃ t, (ctx.checkLvalue lvalue).verdict = .ok t
  | .arguments args => ∃ ts, (ctx.checkArguments args).verdict = .ok ts

/-! ## 2. Choices that are met -/

/-- A rule meets no choice. -/
theorem not_choice_of {α : Type} {v : Verdict α} : ¬ (Outcome.of v).Shows .choice := by
  rw [Outcome.shows_of_iff]
  rintro ⟨x, hx, -⟩
  cases hx

/-- A choice that is met before a rule is met in what comes before. -/
theorem choice_bind_of_iff {α β : Type} {x : Outcome α} {f : α → Verdict β} :
    (x >>= fun a => .of (f a)).Shows .choice ↔ x.Shows .choice := by
  rw [Outcome.shows_bind_iff]
  constructor
  · rintro (h | ⟨a, -, h⟩)
    · exact h
    · exact absurd h not_choice_of
  · exact Or.inl

/-- What is met in a target is met in one of its indices. -/
theorem choice_checkLvalue_iff : ∀ {target : Lvalue},
    (ctx.checkLvalue target).Shows .choice ↔
      ∃ e, ctx.ComesToIndex target e ∧ (ctx.check e).Shows .choice
  | .node span (.var name) => by
    constructor
    · intro h
      exact absurd h not_choice_of
    · rintro ⟨e, h, -⟩
      cases h
  | .node span (.field base name) => by
    have hc : ctx.checkLvalue (.node span (.field base name)) =
        (ctx.checkLvalue base >>= fun b => .of (Rule.field span b name)) := rfl
    rw [hc, choice_bind_of_iff, choice_checkLvalue_iff]
    constructor
    · rintro ⟨e, he, h⟩
      exact ⟨e, .field he, h⟩
    · rintro ⟨e, he, h⟩
      cases he with
      | field he => exact ⟨e, he, h⟩
  | .node span (.component base index) => by
    have hc : ctx.checkLvalue (.node span (.component base index)) =
        (ctx.checkLvalue base >>= fun b => .of (Rule.component span b index)) := rfl
    rw [hc, choice_bind_of_iff, choice_checkLvalue_iff]
    constructor
    · rintro ⟨e, he, h⟩
      exact ⟨e, .component he, h⟩
    · rintro ⟨e, he, h⟩
      cases he with
      | component he => exact ⟨e, he, h⟩
  | .node span (.index base index) => by
    have hc : ctx.checkLvalue (.node span (.index base index)) =
        (ctx.checkLvalue base >>= fun b => ctx.check index >>= fun i =>
          .of (Rule.index span b i)) := rfl
    rw [hc, Outcome.shows_bind_iff, choice_checkLvalue_iff]
    simp only [choice_bind_of_iff]
    constructor
    · rintro (⟨e, he, h⟩ | ⟨b, hb, h⟩)
      · exact ⟨e, .base he, h⟩
      · exact ⟨index, .here hb, h⟩
    · rintro ⟨e, he, h⟩
      cases he with
      | here hb => exact Or.inr ⟨_, hb, h⟩
      | base he => exact Or.inl ⟨e, he, h⟩

/-- What is met in a phrase is met in an expression of it that is come to. -/
theorem choiceIn_iff_comesTo {phrase : Phrase} :
    ctx.choiceIn phrase = true ↔ ∃ e, ctx.ComesTo phrase e ∧ (ctx.check e).Shows .choice := by
  cases phrase with
  | expr e =>
    constructor
    · intro h
      exact ⟨e, rfl, h⟩
    · rintro ⟨d, rfl, h⟩
      exact h
  | target lvalue => exact choice_checkLvalue_iff
  | arguments args =>
    constructor
    · intro h
      obtain ⟨before, d, after, ts, rfl, hts, h | ⟨_, _, _, _, _, _, hx⟩⟩ :=
        (shows_arguments_iff (i := .choice)).mp h
      · exact ⟨d, ⟨before, after, rfl, ts, hts⟩, h⟩
      · cases hx
    · rintro ⟨d, ⟨before, after, rfl, ts, hts⟩, h⟩
      exact hts.shows h

/-- **A choice is met exactly if one is reached.** -/
theorem choiceIn_iff {phrase : Phrase} : ctx.choiceIn phrase = true ↔ ctx.MeetsChoice phrase := by
  rw [choiceIn_iff_comesTo]
  constructor
  · rintro ⟨e, he, h⟩
    obtain ⟨d, hd, hc⟩ := shows_iff.mp h
    exact ⟨e, d, he, hd, hc⟩
  · rintro ⟨e, d, he, hd, hc⟩
    exact ⟨e, he, shows_iff.mpr ⟨d, hd, hc⟩⟩

/-! ## 3. Choices that occur -/

theorem ComesToIndex.mem_indices {target : Lvalue} {e : Expr} (h : ctx.ComesToIndex target e) :
    e ∈ target.indices := by
  induction h with
  | here _ => exact List.mem_append_right _ (List.mem_singleton.mpr rfl)
  | base _ ih => exact List.mem_append_left _ ih
  | field _ ih | component _ ih => exact ih

/-- Only the phrase's own expressions are come to. -/
theorem ComesTo.mem_exprs {phrase : Phrase} {e : Expr} (h : ctx.ComesTo phrase e) :
    e ∈ phrase.exprs := by
  cases phrase with
  | expr d => exact List.mem_singleton.mpr h
  | target lvalue => exact ComesToIndex.mem_indices h
  | arguments args =>
    obtain ⟨before, after, rfl, -⟩ := h
    exact List.mem_append_right _ List.mem_cons_self

/-- What is reached occurs. -/
theorem MeetsChoice.hasChoice {phrase : Phrase} (h : ctx.MeetsChoice phrase) :
    phrase.HasChoice := by
  obtain ⟨e, d, he, hd, hc⟩ := h
  exact ⟨e, he.mem_exprs, d, hd.isPartOf, hc⟩

/-- A target that is accepted has all its indices come to and accepted. -/
theorem checkLvalue_comesTo : ∀ {target : Lvalue} {t : Typed},
    (ctx.checkLvalue target).verdict = .ok t →
      ∀ e ∈ target.indices, ctx.ComesToIndex target e ∧ ∃ u, ctx.Checks e u
  | .node _ (.var _), _, _, _, he => absurd he List.not_mem_nil
  | .node span (.field base name), t, h, e, he => by
    obtain ⟨b, hb, -⟩ := Outcome.bind_eq_ok_iff.mp h
    obtain ⟨hc, hu⟩ := checkLvalue_comesTo hb e he
    exact ⟨.field hc, hu⟩
  | .node span (.component base index), t, h, e, he => by
    obtain ⟨b, hb, -⟩ := Outcome.bind_eq_ok_iff.mp h
    obtain ⟨hc, hu⟩ := checkLvalue_comesTo hb e he
    exact ⟨.component hc, hu⟩
  | .node span (.index base index), t, h, e, he => by
    obtain ⟨b, hb, h⟩ := Outcome.bind_eq_ok_iff.mp h
    obtain ⟨i, hi, -⟩ := Outcome.bind_eq_ok_iff.mp h
    rcases List.mem_append.mp he with he | he
    · obtain ⟨hc, hu⟩ := checkLvalue_comesTo hb e he
      exact ⟨.base hc, hu⟩
    · obtain rfl := List.mem_singleton.mp he
      exact ⟨.here hb, i, hi⟩

/-- A phrase that is accepted has all its expressions come to and accepted. -/
theorem Accepts.comesTo {phrase : Phrase} (h : ctx.Accepts phrase) {e : Expr}
    (he : e ∈ phrase.exprs) : ctx.ComesTo phrase e ∧ ∃ t, ctx.Checks e t := by
  cases phrase with
  | expr d =>
    obtain rfl := List.mem_singleton.mp he
    exact ⟨rfl, h⟩
  | target lvalue =>
    obtain ⟨t, ht⟩ := h
    exact checkLvalue_comesTo ht e he
  | arguments args =>
    obtain ⟨ts, hts⟩ := h
    obtain ⟨hts, hd⟩ := admits_iff.mpr hts
    obtain ⟨before, after, rfl⟩ := List.append_of_mem he
    obtain ⟨hb, hu⟩ := admits_before hts hd
    exact ⟨⟨before, after, rfl, hb⟩, hu⟩

/-- **In a phrase that is accepted everything is reached**, so choices are met that occur. -/
theorem Accepts.meetsChoice_iff {phrase : Phrase} (h : ctx.Accepts phrase) :
    ctx.MeetsChoice phrase ↔ phrase.HasChoice := by
  constructor
  · exact MeetsChoice.hasChoice
  · rintro ⟨e, he, d, hd, hc⟩
    obtain ⟨hcomes, t, ht⟩ := h.comesTo he
    exact ⟨e, d, hcomes, (ht.reaches hd).1, hc⟩

end Context

/-! ## 4. One step -/

/-- Check the phrase. -/
def Phrase.step : Phrase → Step
  | .expr e => .check e
  | .target lvalue => .checkLvalue lvalue
  | .arguments args => .checkArguments args

/-- The answer is that a phrase was accepted. -/
def Answer.Accepts : Answer → Prop
  | .checked verdict => ∃ t, verdict = .ok t
  | .arguments verdict => ∃ ts, verdict = .ok ts
  | _ => False

namespace Session

variable {session : Session} {phrase : Phrase} {f : Function}

theorem accepts_step_iff :
    (session.step phrase.step).2.Accepts ↔ session.context.Accepts phrase := by
  cases phrase <;> rfl

/-- Checking a phrase notes whether a choice was met, and does nothing else. -/
theorem step_phrase (session : Session) (phrase : Phrase) :
    (session.step phrase.step).1 = session.note (session.context.choiceIn phrase) := by
  cases phrase <;> rfl

@[simp] theorem note_scope (session : Session) (choice : Bool) :
    (session.note choice).scope = session.scope := by
  unfold Session.note Session.mark
  split
  · split <;> rfl
  · rfl

@[simp] theorem note_body (session : Session) (choice : Bool) :
    (session.note choice).body = session.body := by
  unfold Session.note Session.mark
  split
  · split <;> rfl
  · rfl

@[simp] theorem note_context (session : Session) (choice : Bool) :
    (session.note choice).context = session.context := by
  rw [Session.context, note_scope, note_body, Session.context]

theorem isMarked_iff : session.isMarked f = true ↔ f.id ∈ session.marked := decide_eq_true_iff

/-- **Noting a choice marks the body**, and no other function. -/
theorem isMarked_note {choice : Bool} :
    (session.note choice).isMarked f = true ↔
      session.isMarked f = true ∨ f.id = session.body.id ∧ choice = true := by
  cases choice with
  | false => simp [Session.note]
  | true =>
    simp only [Session.note, if_true, Session.mark, isMarked_iff, and_true]
    split
    · rename_i hb
      constructor
      · exact Or.inl
      · rintro (h | h)
        · exact h
        · rwa [h]
    · rw [List.mem_cons, or_comm]

/-- Marking a body twice is marking it once. -/
theorem mark_mark (session : Session) : session.mark.mark = session.mark := by
  have hm : session.mark.isMarked session.mark.body = true := by
    have hb : (session.note true).body = session.body := note_body session true
    exact isMarked_note.mpr (Or.inr ⟨congrArg Function.id hb, rfl⟩)
  exact if_pos hm

/-- **Choices are noted one by one or all at once.** -/
theorem note_or (session : Session) (c d : Bool) :
    session.note (c || d) = (session.note c).note d := by
  cases c with
  | false => rfl
  | true =>
    cases d with
    | false => rfl
    | true => exact (mark_mark session).symm

/-- A phrase is answered by the scope and the body that it stands in. -/
theorem answer_phrase_congr {session' : Session} (h : session.context = session'.context)
    (phrase : Phrase) : (session.step phrase.step).2 = (session'.step phrase.step).2 := by
  cases phrase with
  | expr e => exact congrArg (fun ctx : Context => Answer.checked (ctx.check e).verdict) h
  | target lvalue =>
    exact congrArg (fun ctx : Context => Answer.checked (ctx.checkLvalue lvalue).verdict) h
  | arguments args =>
    exact congrArg (fun ctx : Context => Answer.arguments (ctx.checkArguments args).verdict) h

/-- What was noted before makes no difference to an answer, because checking does not look at marks. -/
theorem answer_note_phrase (session : Session) (choice : Bool) (phrase : Phrase) :
    ((session.note choice).step phrase.step).2 = (session.step phrase.step).2 :=
  answer_phrase_congr (note_context session choice) phrase

/-- **One check**: the body is marked if it was before or if a choice is reached. -/
theorem isMarked_step_phrase :
    (session.step phrase.step).1.isMarked f = true ↔
      session.isMarked f = true ∨ f.id = session.body.id ∧ session.context.MeetsChoice phrase := by
  rw [step_phrase, isMarked_note, Context.choiceIn_iff]

theorem declare_marked (session : Session) (declaration : Declaration) :
    (session.declare declaration).1.marked = session.marked := by
  unfold Session.declare
  split <;> rfl

/-- Any step marks the body, or leaves the marks as they are. -/
theorem exists_note_step (session : Session) (step : Step) :
    ∃ choice, (session.step step).1.marked = (session.note choice).marked := by
  cases step with
  | push | lookup _ | resolve _ | enterNew _ | current => exact ⟨false, rfl⟩
  | declare declaration => exact ⟨false, session.declare_marked declaration⟩
  | declareFunction signature => exact ⟨false, declare_marked _ _⟩
  | pop =>
    refine ⟨false, ?_⟩
    simp only [Session.step]
    split <;> rfl
  | enterBound name =>
    refine ⟨false, ?_⟩
    simp only [Session.step]
    split <;> rfl
  | mark => exact ⟨true, rfl⟩
  | check _ | checkLvalue _ | checkArguments _ | send _ _ _ | compare _ _ | batch _ =>
    exact ⟨_, rfl⟩

/-- **No step takes a mark away.** -/
theorem isMarked_step (step : Step) (h : session.isMarked f = true) :
    (session.step step).1.isMarked f = true := by
  obtain ⟨choice, hm⟩ := session.exists_note_step step
  rw [isMarked_iff, hm, ← isMarked_iff]
  exact isMarked_note.mpr (Or.inl h)

/-! ## 5. Runs -/

/-- Take steps, one after the other. -/
def run (session : Session) (steps : List Step) : Session :=
  steps.foldl (fun session step => (session.step step).1) session

@[simp] theorem run_nil (session : Session) : session.run [] = session := rfl

@[simp] theorem run_cons (session : Session) (step : Step) (steps : List Step) :
    session.run (step :: steps) = (session.step step).1.run steps := rfl

/-- **Marks stay.** -/
theorem isMarked_run (steps : List Step) (h : session.isMarked f = true) :
    (session.run steps).isMarked f = true := by
  induction steps generalizing session with
  | nil => exact h
  | cons step steps ih => exact ih (isMarked_step step h)

/-- Check phrases, one after the other. -/
def checkAll (session : Session) (phrases : List Phrase) : Session :=
  session.run (phrases.map Phrase.step)

/-- **A run of checks**: the body is marked if it was before, or if a choice is reached in one of the
phrases.  What is marked on the way does not matter, because checking does not look at it. -/
theorem isMarked_checkAll (phrases : List Phrase) :
    (session.checkAll phrases).isMarked f = true ↔
      session.isMarked f = true ∨
        f.id = session.body.id ∧ ∃ phrase ∈ phrases, session.context.MeetsChoice phrase := by
  induction phrases generalizing session with
  | nil => simp [Session.checkAll]
  | cons phrase phrases ih =>
    have hc : session.checkAll (phrase :: phrases) =
        (session.step phrase.step).1.checkAll phrases := rfl
    rw [hc, ih, isMarked_step_phrase, step_phrase, note_body, note_context]
    simp only [List.exists_mem_cons_iff, and_or_left, or_assoc]

/-! ## 6. The result -/

/-- **Marks are exact.**  Checking an expression, an assignment target or a list of arguments marks the
body if a choice occurs in it, or on failure if one is reached before the error, and does nothing
else: no other function is marked or loses its mark, whatever is called, and the scope stays.  Over
any run of checks the same holds with any of the phrases, and over any run at all marks stay. -/
theorem marks_are_exact (session : Session) (phrase : Phrase) :
    ((session.step phrase.step).2.Accepts → ∀ f : Function,
      ((session.step phrase.step).1.isMarked f = true ↔
        session.isMarked f = true ∨ f.id = session.body.id ∧ phrase.HasChoice)) ∧
    (¬ (session.step phrase.step).2.Accepts → ∀ f : Function,
      ((session.step phrase.step).1.isMarked f = true ↔
        session.isMarked f = true ∨
          f.id = session.body.id ∧ session.context.MeetsChoice phrase)) ∧
    (session.step phrase.step).1.scope = session.scope ∧
    (session.step phrase.step).1.body = session.body ∧
    (¬ phrase.HasChoice → (session.step phrase.step).1 = session) ∧
    (∀ (phrases : List Phrase) (f : Function), (session.checkAll phrases).isMarked f = true ↔
      session.isMarked f = true ∨
        f.id = session.body.id ∧ ∃ p ∈ phrases, session.context.MeetsChoice p) ∧
    ∀ (steps : List Step) (f : Function),
      session.isMarked f = true → (session.run steps).isMarked f = true := by
  refine ⟨?_, ?_, ?_, ?_, ?_, ?_, ?_⟩
  · intro ha f
    rw [isMarked_step_phrase, (accepts_step_iff.mp ha).meetsChoice_iff]
  · intro _ f
    exact isMarked_step_phrase
  · rw [step_phrase, note_scope]
  · rw [step_phrase, note_body]
  · intro hn
    have hc : session.context.choiceIn phrase = false := by
      rw [← Bool.not_eq_true, Context.choiceIn_iff]
      exact fun hm => hn hm.hasChoice
    rw [step_phrase, hc]
    rfl
  · intro phrases f
    exact isMarked_checkAll phrases
  · intro steps f h
    exact isMarked_run steps h

/-- At the outset `!$` is accepted and `$ + x` is refused, and both mark the body. -/
theorem marks_are_exact_initial :
    let choice : Expr := .node ⟨1, 2⟩ .choice
    let x : Expr := .node ⟨5, 6⟩ (.name "x")
    let accepted : Phrase := .expr (.node ⟨0, 2⟩ (.unary .not choice))
    let refused : Phrase := .expr (.node ⟨1, 6⟩ (.binary .add choice x))
    let start : Session := .initial
    ((start.step accepted.step).2.Accepts ∧
      (start.step accepted.step).1.isMarked start.body = true) ∧
    ¬ (start.step refused.step).2.Accepts ∧
      (start.step refused.step).1.isMarked start.body = true := by
  intro choice x accepted refused start
  have ha : (start.step accepted.step).2.Accepts := ⟨_, rfl⟩
  have hr : ¬ (start.step refused.step).2.Accepts := by
    rintro ⟨t, ht⟩
    cases ht
  have occurs : accepted.HasChoice :=
    ⟨_, List.mem_singleton.mpr rfl, choice,
      (Expr.IsPartOf.whole choice).fill ⟨⟨0, 2⟩, .operand .not⟩, Or.inl rfl⟩
  have reached : start.context.MeetsChoice refused := by
    refine ⟨_, choice, rfl, ⟨[⟨⟨1, 6⟩, .left .add x⟩], ?_, rfl⟩, Or.inl rfl⟩
    intro layer hl
    obtain rfl := List.mem_singleton.mp hl
    trivial
  refine ⟨⟨ha, ?_⟩, hr, ?_⟩
  · exact ((marks_are_exact start accepted).1 ha start.body).mpr (Or.inr ⟨rfl, occurs⟩)
  · exact ((marks_are_exact start refused).2.1 hr start.body).mpr (Or.inr ⟨rfl, reached⟩)

/-- In `x + $` the error comes before the choice, and in `$ + x` after it. -/
example :
    let x : Expr := .node ⟨0, 1⟩ (.name "x")
    let choice : Expr := .node ⟨4, 5⟩ .choice
    (Session.initial.step (.check (.node ⟨0, 5⟩ (.binary .add x choice)))).1.marked = [] ∧
      (Session.initial.step (.check (.node ⟨0, 5⟩ (.binary .add choice x)))).1.marked = [0] := by
  decide

end Session

end MachineTyping
