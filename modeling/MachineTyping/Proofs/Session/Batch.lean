/-
# Batches

The expressions of a batch share a scope and a body, and are checked one after the other.  They do not
share anything that matters: each is accepted or refused as it is alone, at the outset
(`Session.batches_are_isolated`).

* **Sorting.**  A batch sorts verdicts into trees and errors, and keeps the order of each.  That is two
  filters over one list (`Batch.typed_ofVerdicts`, `Batch.errors_ofVerdicts`), so nothing is lost, and
  batches of lists that are joined are joined.
* **Checking in turn.**  A run of checks gives the answers that the checks give alone
  (`Session.answers_checkAll`): an earlier one has marked the body at most, and checking does not look
  at marks.  It ends in the session in which the batch ends (`Session.run_checks`).
-/
import MachineTyping.Proofs.Choice.Mark

namespace MachineTyping

/-! ## 1. Sorting verdicts -/

/-- The error of a verdict, if it is one. -/
def Verdict.error? {α : Type} : Verdict α → Option TypeError
  | .ok _ => none
  | .error x => some x

/-- Two batches in one: trees after trees, and errors after errors. -/
def Batch.append (first second : Batch) : Batch :=
  ⟨first.typed ++ second.typed, first.errors ++ second.errors⟩

namespace Batch

theorem typed_ofVerdicts (verdicts : List (Verdict Typed)) :
    (Batch.ofVerdicts verdicts).typed = verdicts.filterMap Except.toOption := by
  induction verdicts with
  | nil => rfl
  | cons verdict verdicts ih =>
    cases verdict with
    | ok t => exact congrArg (t :: ·) ih
    | error x => exact ih

theorem errors_ofVerdicts (verdicts : List (Verdict Typed)) :
    (Batch.ofVerdicts verdicts).errors = verdicts.filterMap Verdict.error? := by
  induction verdicts with
  | nil => rfl
  | cons verdict verdicts ih =>
    cases verdict with
    | ok t => exact ih
    | error x => exact congrArg (x :: ·) ih

/-- **Every verdict ends up on one side.** -/
theorem length_ofVerdicts (verdicts : List (Verdict Typed)) :
    (Batch.ofVerdicts verdicts).typed.length + (Batch.ofVerdicts verdicts).errors.length =
      verdicts.length := by
  induction verdicts with
  | nil => rfl
  | cons verdict verdicts ih =>
    cases verdict with
    | ok t =>
      simp only [Batch.ofVerdicts, List.length_cons]
      omega
    | error x =>
      simp only [Batch.ofVerdicts, List.length_cons]
      omega

theorem ofVerdicts_append (first second : List (Verdict Typed)) :
    Batch.ofVerdicts (first ++ second) =
      (Batch.ofVerdicts first).append (Batch.ofVerdicts second) := by
  induction first with
  | nil => rfl
  | cons verdict first ih =>
    cases verdict with
    | ok t => simp only [List.cons_append, Batch.ofVerdicts, ih, Batch.append]
    | error x => simp only [List.cons_append, Batch.ofVerdicts, ih, Batch.append]

/-- There are errors if some verdict is one. -/
theorem hasErrors_ofVerdicts_iff {verdicts : List (Verdict Typed)} :
    (Batch.ofVerdicts verdicts).hasErrors = true ↔ ∃ x, .error x ∈ verdicts := by
  induction verdicts with
  | nil => simp [Batch.ofVerdicts, Batch.hasErrors]
  | cons verdict verdicts ih =>
    cases verdict with
    | ok t =>
      have hr : (Batch.ofVerdicts (.ok t :: verdicts)).hasErrors =
          (Batch.ofVerdicts verdicts).hasErrors := rfl
      rw [hr, ih]
      simp
    | error x => simp [Batch.ofVerdicts, Batch.hasErrors]

end Batch

/-! ## 2. Batches and their marks -/

namespace Context

/-- The batch of a list of expressions is made of what they come to alone. -/
theorem checkBatch_eq (ctx : Context) (exprs : List Expr) :
    (ctx.checkBatch exprs).1 = Batch.ofVerdicts (exprs.map fun e => (ctx.check e).verdict) := by
  rw [checkBatch, List.map_map]
  rfl

theorem checkBatch_append (ctx : Context) (first second : List Expr) :
    ctx.checkBatch (first ++ second) =
      ((ctx.checkBatch first).1.append (ctx.checkBatch second).1,
        (ctx.checkBatch first).2 || (ctx.checkBatch second).2) := by
  simp only [checkBatch, List.map_append, List.any_append, Batch.ofVerdicts_append]

end Context

namespace Session

/-- The answers to steps that are taken one after the other. -/
def answers (session : Session) : List Step → List Answer
  | [] => []
  | step :: steps => (session.step step).2 :: (session.step step).1.answers steps

/-- **Checks in turn are answered as if each was alone.**  By the time that a phrase is checked the
session differs from the first one by a mark, if at all. -/
theorem answers_checkAll (session : Session) (phrases : List Phrase) :
    session.answers (phrases.map Phrase.step) =
      phrases.map fun phrase => (session.step phrase.step).2 := by
  induction phrases generalizing session with
  | nil => rfl
  | cons phrase phrases ih =>
    simp only [List.map_cons, Session.answers, ih, step_phrase, answer_note_phrase]

/-- A batch notes whether a choice was met in any of its expressions, and does nothing else. -/
theorem step_batch (session : Session) (exprs : List Expr) :
    (session.step (.batch exprs)).1 = session.note (session.context.checkBatch exprs).2 := rfl

/-- **Checks in turn end where the batch ends.** -/
theorem run_checks (session : Session) (exprs : List Expr) :
    session.run (exprs.map .check) = (session.step (.batch exprs)).1 := by
  induction exprs generalizing session with
  | nil => rfl
  | cons e exprs ih =>
    have hb : (session.context.checkBatch (e :: exprs)).2 =
        ((session.context.check e).choice || (session.context.checkBatch exprs).2) := rfl
    have he : (session.step (.check e)).1 = session.note (session.context.check e).choice := rfl
    rw [List.map_cons, run_cons, ih, step_batch, step_batch, he, note_context, hb, note_or]

/-- A batch marks what one of its expressions marks alone. -/
theorem isMarked_step_batch (session : Session) (exprs : List Expr) (f : Function) :
    (session.step (.batch exprs)).1.isMarked f =
      (session.isMarked f || exprs.any fun e => (session.step (.check e)).1.isMarked f) := by
  have he : ∀ e, (session.step (.check e)).1 = session.note (session.context.check e).choice :=
    fun _ => rfl
  rw [step_batch, Bool.eq_iff_iff, Bool.or_eq_true, isMarked_note, List.any_eq_true]
  simp only [he, isMarked_note, Context.checkBatch, List.any_map, List.any_eq_true,
    Function.comp_apply]
  constructor
  · rintro (h | ⟨hf, e, hm, hc⟩)
    · exact Or.inl h
    · exact Or.inr ⟨e, hm, Or.inr ⟨hf, hc⟩⟩
  · rintro (h | ⟨e, hm, h | ⟨hf, hc⟩⟩)
    · exact Or.inl h
    · exact Or.inl h
    · exact Or.inr ⟨hf, e, hm, hc⟩

/-- **A batch of more expressions is two batches**, one after the other. -/
theorem step_batch_append (session : Session) (exprs more : List Expr) :
    session.step (.batch (exprs ++ more)) =
      (((session.step (.batch exprs)).1.step (.batch more)).1,
        .batch ((session.context.checkBatch exprs).1.append
          (session.context.checkBatch more).1)) := by
  have hs : session.step (.batch (exprs ++ more)) =
      (session.note (session.context.checkBatch (exprs ++ more)).2,
        .batch (session.context.checkBatch (exprs ++ more)).1) := rfl
  have hc : (session.step (.batch exprs)).1.context = session.context := note_context _ _
  rw [hs, Context.checkBatch_append, step_batch, hc, step_batch, note_or]

/-! ## 3. The result -/

/-- **Batches are isolated.**  In any session, and for any list of expressions:

* the trees of the batch are those that the expressions have alone, of the ones that are accepted, and
  the errors are those of the others, both in order; together there are as many as expressions, and
  there are errors if some expression is refused alone;
* it does not matter that the expressions are checked one after the other: so checked, each gets the
  answer that it gets alone, and the session is the same in the end;
* scope and body stay, and a function is marked afterwards if it was before or if one of the
  expressions marks it alone;
* more expressions give the trees and errors that they give as a batch of their own, at the outset or
  afterwards, behind the others. -/
theorem batches_are_isolated (session : Session) (exprs more : List Expr) :
    let ctx := session.context
    let batch := (ctx.checkBatch exprs).1
    let rest := (ctx.checkBatch more).1
    let after := session.step (.batch exprs)
    after.2 = .batch batch ∧
    batch.typed = exprs.filterMap (fun e => (ctx.check e).verdict.toOption) ∧
    batch.errors = exprs.filterMap (fun e => (ctx.check e).verdict.error?) ∧
    batch.typed.length + batch.errors.length = exprs.length ∧
    (batch.hasErrors = true ↔ ∃ e ∈ exprs, ∃ x, (ctx.check e).verdict = .error x) ∧
    session.answers (exprs.map .check) = exprs.map (fun e => (session.step (.check e)).2) ∧
    session.run (exprs.map .check) = after.1 ∧
    after.1.scope = session.scope ∧ after.1.body = session.body ∧
    (∀ f : Function, after.1.isMarked f =
      (session.isMarked f || exprs.any fun e => (session.step (.check e)).1.isMarked f)) ∧
    (session.step (.batch more)).2 = .batch rest ∧
    (after.1.step (.batch more)).2 = .batch rest ∧
    session.step (.batch (exprs ++ more)) =
      ((after.1.step (.batch more)).1, .batch (batch.append rest)) := by
  intro ctx batch rest after
  have hb : batch = Batch.ofVerdicts (exprs.map fun e => (ctx.check e).verdict) :=
    ctx.checkBatch_eq exprs
  have hc : after.1.context = session.context := note_context _ _
  refine ⟨rfl, ?typed, ?errors, ?count, ?hasErrors, ?answers, session.run_checks exprs,
    note_scope _ _, note_body _ _, session.isMarked_step_batch exprs, rfl, ?rest,
    session.step_batch_append exprs more⟩
  case typed =>
    rw [hb, Batch.typed_ofVerdicts, List.filterMap_map]
    rfl
  case errors =>
    rw [hb, Batch.errors_ofVerdicts, List.filterMap_map]
    rfl
  case count => rw [hb, Batch.length_ofVerdicts, List.length_map]
  case hasErrors =>
    rw [hb, Batch.hasErrors_ofVerdicts_iff]
    constructor
    · rintro ⟨x, hx⟩
      obtain ⟨e, he, hv⟩ := List.mem_map.mp hx
      exact ⟨e, he, x, hv⟩
    · rintro ⟨e, he, x, hv⟩
      exact ⟨x, List.mem_map.mpr ⟨e, he, hv⟩⟩
  case answers =>
    have h := session.answers_checkAll (exprs.map .expr)
    rw [List.map_map, List.map_map] at h
    exact h
  case rest => exact congrArg (fun ctx : Context => Answer.batch (ctx.checkBatch more).1) hc

end Session

end MachineTyping
