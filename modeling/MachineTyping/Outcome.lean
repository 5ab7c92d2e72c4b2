/-
# Outcomes

Checking a phrase comes to a verdict and has one effect: a nondeterministic choice, `$` or `$$`,
may have been met on the way.  `Outcome` carries both.  Outcomes are sequenced like verdicts, the
first error ending the sequence, and **a choice that was met stays met**, also if an error comes
after it.
-/
import MachineTyping.Rule.Basic

namespace MachineTyping

/-- A verdict, and whether a choice was met before it was reached. -/
structure Outcome (α : Type) where
  verdict : Verdict α
  choice : Bool

namespace Outcome

variable {α β : Type}

/-- The outcome of a rule, which meets no choice. -/
def of (verdict : Verdict α) : Outcome α := ⟨verdict, false⟩

/-- The outcome of meeting a choice. -/
def met (a : α) : Outcome α := ⟨.ok a, true⟩

/-- Go on with what was found, unless it was an error. -/
def bind (x : Outcome α) (f : α → Outcome β) : Outcome β :=
  match x.verdict with
  | .error e => ⟨.error e, x.choice⟩
  | .ok a =>
    match f a with
    | ⟨verdict, choice⟩ => ⟨verdict, x.choice || choice⟩

instance : Monad Outcome where
  pure a := .of (.ok a)
  bind := Outcome.bind

@[simp] theorem of_verdict (v : Verdict α) : (Outcome.of v).verdict = v := rfl

@[simp] theorem of_choice (v : Verdict α) : (Outcome.of v).choice = false := rfl

@[simp] theorem pure_eq (a : α) : (pure a : Outcome α) = .of (.ok a) := rfl

/-- The verdicts of a sequence are sequenced. -/
@[simp] theorem bind_verdict (x : Outcome α) (f : α → Outcome β) :
    (x >>= f).verdict = x.verdict >>= fun a => (f a).verdict := by
  show (Outcome.bind x f).verdict = _
  unfold Outcome.bind
  cases x.verdict <;> rfl

/-- After an error nothing more is met... -/
theorem bind_choice_error {x : Outcome α} {e : TypeError} (h : x.verdict = .error e)
    (f : α → Outcome β) : (x >>= f).choice = x.choice := by
  show (Outcome.bind x f).choice = _
  simp [Outcome.bind, h]

/-- ...and otherwise whatever either part meets. -/
theorem bind_choice_ok {x : Outcome α} {a : α} (h : x.verdict = .ok a)
    (f : α → Outcome β) : (x >>= f).choice = (x.choice || (f a).choice) := by
  show (Outcome.bind x f).choice = _
  simp [Outcome.bind, h]

end Outcome

end MachineTyping
