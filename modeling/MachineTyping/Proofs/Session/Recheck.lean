/-
# Checking again

Checking an expression a second time changes nothing and finds nothing new
(`Session.rechecking_is_stable`).  The argument has two halves.

* **Sessions.**  All that a check leaves behind is a mark, and checking looks at no marks
  (`answer_note_phrase`).  So the second verdict is the first one, tree and all, and the mark that the
  second check would make is there (`step_phrase_twice`).  Where the body calls itself next to a
  choice, the tree of the first check holds a function that is marked only afterwards, and that is
  why trees are compared with the marks as they are then.
* **Numbers.**  Being the first verdict is not enough, because a tree need not look like itself: a
  literal that is no number is not even equal to itself (`Binary64.equals_self_iff`), and a tree looks
  like itself exactly if it has no such literal (`Typed.alike_self_iff`).  Literals are rounded
  quotients, and at worst infinity (`Binary64.isNaN_of_ofDecimal?`).
-/
import MachineTyping.Proofs.Choice.Mark
import MachineTyping.Proofs.Numeral.Nearest
import MachineTyping.Proofs.Tree.Soundness

namespace MachineTyping

/-! ## 1. Numbers -/

/-- A number is equal to itself, and nothing else is. -/
theorem Binary64.equals_self_iff {x : Binary64} : x.equals x = true ↔ x.isNaN = false := by
  simp [Binary64.equals]

/-- **A decimal is a number.** -/
theorem Binary64.isNaN_of_ofDecimal? {whole fraction : String} {x : Binary64}
    (h : Binary64.ofDecimal? whole fraction = some x) : x.isNaN = false := by
  obtain ⟨digits, places, -, -, -, rfl⟩ := Binary64.ofDecimal?_eq_some_iff.mp h
  exact Binary64.isNaN_ofQuotient _ _

/-! ## 2. Trees that look like themselves -/

/-- The node is not a literal that is no number. -/
def Typed.IsNumberIfFloat (t : Typed) : Prop := ∀ x, t.shape = .float x → x.isNaN = false

section Alike

variable {marked : Function → Bool}

theorem Function.alike_self (f : Function) : f.alike marked f = true := by
  simp [Function.alike]

theorem Typed.alikeList_self_iff {ts : List Typed} :
    Typed.alikeList marked ts ts = true ↔ ∀ t ∈ ts, t.alike marked t = true := by
  induction ts with
  | nil => simp [Typed.alikeList]
  | cons t ts ih => simp [Typed.alikeList, ih]

theorem Typed.alikeFields_self_iff {fields : List (String × Typed)} :
    Typed.alikeFields marked fields fields = true ↔
      ∀ t ∈ fields.map Prod.snd, t.alike marked t = true := by
  induction fields with
  | nil => simp [Typed.alikeFields]
  | cons field fields ih =>
    obtain ⟨name, t⟩ := field
    rw [List.map_cons, List.forall_mem_cons, ← ih]
    simp [Typed.alikeFields]

/-- **The step**: a node looks like itself if its parts do and, as a literal, it is a number. -/
theorem Typed.alike_self_step {t : Typed} :
    t.alike marked t = true ↔
      t.IsNumberIfFloat ∧ ∀ part ∈ t.children, part.alike marked part = true := by
  obtain ⟨span, ty, shape⟩ := t
  cases shape with
  | float x =>
    simp [Typed.alike, Typed.Shape.alike, Typed.IsNumberIfFloat, Typed.shape, Typed.children,
      Typed.Shape.children, Binary64.equals_self_iff]
  | _ =>
    simp [Typed.alike, Typed.Shape.alike, Typed.IsNumberIfFloat, Typed.shape, Typed.children,
      Typed.Shape.children, Typed.alikeList_self_iff, Typed.alikeFields_self_iff,
      Function.alike_self]

/-- **A tree looks like itself exactly if its literals are numbers**, whatever is marked. -/
theorem Typed.alike_self_iff {t : Typed} :
    t.alike marked t = true ↔ t.Everywhere Typed.IsNumberIfFloat := by
  constructor
  · intro h n hn
    induction hn with
    | root => exact (Typed.alike_self_step.mp h).1
    | inner hp _ ih => exact ih ((Typed.alike_self_step.mp h).2 _ hp)
  · intro h
    exact (h.upward fun n hn hp => Typed.alike_self_step.mpr ⟨hn, hp⟩).root

end Alike

namespace Context

variable {ctx : Context}

/-- Literals are read as numbers. -/
theorem Elaborates.isNumberIfFloat : ∀ {e : Expr} {t : Typed},
    ctx.Elaborates e t → t.IsNumberIfFloat
  | _, _, .float hv => by
    intro x hx
    cases hx
    exact Binary64.isNaN_of_ofDecimal? hv
  | _, _, .identity ha _ _ => ha.isNumberIfFloat
  | _, _, .var _ | _, _, .element _ | _, _, .event _ | _, _, .linear _ | _, _, .halt _
  | _, _, .self _ | _, _, .int _ | _, _, .bool | _, _, .null | _, _, .choice
  | _, _, .fairChoice | _, _, .unary _ | _, _, .binary _ _ _ | _, _, .member _ _
  | _, _, .tuple _ | _, _, .named _ _ | _, _, .component _ _ | _, _, .field _
  | _, _, .seqItem _ _ _ | _, _, .mapItem _ _ _ | _, _, .keys _ | _, _, .values _
  | _, _, .sizeof _ | _, _, .default _ | _, _, .call _ _ | _, _, .new _ _ | _, _, .cast _ _
  | _, _, .coerce _ _ _ => nofun

/-- **What is checked looks like itself**, tree or error. -/
theorem alike_check_self (ctx : Context) (marked : Function → Bool) (e : Expr) :
    Verdict.alike marked (ctx.check e).verdict (ctx.check e).verdict = true := by
  cases hv : (ctx.check e).verdict with
  | ok t =>
    obtain ⟨he, -⟩ := Checks.faithful hv
    refine Typed.alike_self_iff.mpr fun n hn => ?_
    obtain ⟨e', he'⟩ := he.node hn
    exact he'.isNumberIfFloat
  | error x => exact beq_self_eq_true x

end Context

/-! ## 3. Sessions -/

namespace Session

/-- **A second check leaves the session as the first one left it.** -/
theorem step_phrase_twice (session : Session) (phrase : Phrase) :
    ((session.step phrase.step).1.step phrase.step).1 = (session.step phrase.step).1 := by
  rw [step_phrase, step_phrase, note_context, ← note_or, Bool.or_self]

/-- And it gives the answer that the first one gave. -/
theorem answer_phrase_twice (session : Session) (phrase : Phrase) :
    ((session.step phrase.step).1.step phrase.step).2 = (session.step phrase.step).2 := by
  rw [step_phrase, answer_note_phrase]

/-- **Checking again is stable.**  In any session, whatever has been done in it before, an expression
that is checked twice in a row gives two verdicts that look alike, trees or errors, no matter which
functions are marked by the time they are compared; and the second check leaves scope, body and marks
as the first one left them.  The same is seen by comparing the expression with itself. -/
theorem rechecking_is_stable (session : Session) (e : Expr) :
    let first := session.step (.check e)
    let second := first.1.step (.check e)
    second.1 = first.1 ∧
    (∃ v w, first.2 = .checked v ∧ second.2 = .checked w ∧
      ∀ marked : Function → Bool, Verdict.alike marked v w = true) ∧
    (session.step (.compare e e)).2 = .compared true := by
  intro first second
  refine ⟨step_phrase_twice session (.expr e), ?_, ?_⟩
  · have ha : second.2 = first.2 := answer_phrase_twice session (.expr e)
    exact ⟨_, _, rfl, ha, fun marked => session.context.alike_check_self marked e⟩
  · exact congrArg Answer.compared (Context.alike_check_self _ _ e)

end Session

end MachineTyping
