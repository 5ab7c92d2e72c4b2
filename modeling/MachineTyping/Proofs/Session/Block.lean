/-
# Leaving a block

Between entering a block and leaving it a session may take any steps: names are declared, with or
without success, inner blocks come and go, phrases are checked, other bodies are turned to.  When
the block is left, **the scope is what it was before** (`Session.blocks_leave_no_trace`).  So a later
declaration succeeds or fails as it would have without the block, and a phrase that is checked in some
body is checked as it would have been.

All that is asked of the steps is that they leave no block but those that they enter
(`Step.Balanced`).  The invariant is that the frames from before are still there, **untouched and
at the bottom**, with as many frames on them as blocks are open (`Scope.StandsOn`).  A declaration keeps it
because it touches the current frame alone, which is not one of them.
-/
import MachineTyping.Proofs.Choice.Mark
import MachineTyping.Proofs.Scope.Reachable

namespace MachineTyping

/-! ## 1. Blocks that are open -/

/-- How many blocks are open after a step, of those that were entered since some point.  There is no
answer if the step leaves a block that was entered before. -/
def Step.opens? : Step → Nat → Option Nat
  | .push, count => some (count + 1)
  | .pop, 0 => none
  | .pop, count + 1 => some count
  | _, count => some count

/-- How many blocks are open after some steps. -/
def Step.openAfter? (count : Nat) (steps : List Step) : Option Nat :=
  steps.foldlM (fun count step => step.opens? count) count

/-- **The steps leave the blocks that they enter**, and no others. -/
def Step.Balanced (steps : List Step) : Prop := Step.openAfter? 0 steps = some 0

instance (steps : List Step) : Decidable (Step.Balanced steps) :=
  inferInstanceAs (Decidable (Step.openAfter? 0 steps = some 0))

/-- **The frames are at the bottom of the scope**, and on them there are the current one and `count`
more. -/
def Scope.StandsOn (scope : Scope) (below : List Frame) (count : Nat) : Prop :=
  ∃ inner, scope.outer = inner ++ below ∧ inner.length = count

theorem Scope.standsOn_push (scope : Scope) : scope.push.StandsOn scope.frames 0 :=
  ⟨[], rfl, rfl⟩

namespace Scope.StandsOn

variable {scope scope' : Scope} {below : List Frame} {count : Nat}

theorem of_outer_eq (h : scope.StandsOn below count) (ho : scope'.outer = scope.outer) :
    scope'.StandsOn below count := by
  obtain ⟨inner, hi, hl⟩ := h
  exact ⟨inner, ho.trans hi, hl⟩

theorem push (h : scope.StandsOn below count) : scope.push.StandsOn below (count + 1) := by
  obtain ⟨inner, hi, rfl⟩ := h
  exact ⟨scope.current :: inner, congrArg (scope.current :: ·) hi, rfl⟩

/-- While a frame is on those below the current one can be left. -/
theorem pop (h : scope.StandsOn below (count + 1)) :
    ∃ scope', scope.pop? = some scope' ∧ scope'.StandsOn below count := by
  obtain ⟨_ | ⟨frame, inner⟩, hi, hl⟩ := h
  · cases hl
  · refine ⟨⟨frame, inner ++ below⟩, ?_, inner, rfl, Nat.succ.inj hl⟩
    rw [Scope.pop?, hi]
    rfl

/-- And when there is none, what is below is the scope that is returned to. -/
theorem pop?_eq (h : scope.StandsOn scope'.frames 0) : scope.pop? = some scope' := by
  obtain ⟨inner, hi, hl⟩ := h
  obtain rfl := List.eq_nil_of_length_eq_zero hl
  rw [Scope.pop?, hi]
  rfl

end Scope.StandsOn

namespace Session

variable {session : Session}

/-! ## 2. One step -/

theorem declare_scope (session : Session) (declaration : Declaration) :
    (session.declare declaration).1.scope = (session.scope.declare declaration).1 := by
  unfold Session.declare
  rcases session.scope.declare declaration with ⟨scope, _ | _⟩ <;> rfl

/-- A declaration leaves all frames but the current one alone. -/
theorem declare_outer (session : Session) (declaration : Declaration) :
    (session.declare declaration).1.scope.outer = session.scope.outer := by
  obtain ⟨frame, hf, -⟩ := session.scope.declare_growsBy declaration
  rw [declare_scope, hf]

theorem step_pop_scope {scope : Scope} (h : session.scope.pop? = some scope) :
    (session.step .pop).1.scope = scope := by
  simp only [Session.step, h]

/-- **One step** leaves the frames below alone, unless it leaves the block on them. -/
theorem standsOn_step {below : List Frame} {count count' : Nat} {step : Step}
    (h : session.scope.StandsOn below count) (hs : step.opens? count = some count') :
    (session.step step).1.scope.StandsOn below count' := by
  cases step with
  | push =>
    cases hs
    exact h.push
  | pop =>
    cases count with
    | zero => cases hs
    | succ count =>
      cases hs
      obtain ⟨scope, hp, hscope⟩ := h.pop
      rw [step_pop_scope hp]
      exact hscope
  | declare declaration =>
    cases hs
    exact h.of_outer_eq (session.declare_outer declaration)
  | declareFunction signature =>
    cases hs
    exact h.of_outer_eq (declare_outer _ _)
  | lookup _ | resolve _ | enterNew _ | current =>
    cases hs
    exact h
  | enterBound name =>
    cases hs
    simp only [Session.step]
    split <;> exact h
  | mark =>
    cases hs
    exact h.of_outer_eq (congrArg Scope.outer (session.note_scope true))
  | check _ | checkLvalue _ | checkArguments _ | send _ _ _ | compare _ _ | batch _ =>
    cases hs
    exact h.of_outer_eq (congrArg Scope.outer (note_scope _ _))

/-! ## 3. Runs -/

theorem run_append (session : Session) (first second : List Step) :
    session.run (first ++ second) = (session.run first).run second :=
  List.foldl_append

/-- **A run** leaves the frames below alone, as long as it does not leave the block on them. -/
theorem standsOn_run {below : List Frame} {count count' : Nat} {steps : List Step}
    (h : session.scope.StandsOn below count) (hs : Step.openAfter? count steps = some count') :
    (session.run steps).scope.StandsOn below count' := by
  induction steps generalizing session count with
  | nil =>
    cases hs
    exact h
  | cons step steps ih =>
    rw [Step.openAfter?, List.foldlM_cons] at hs
    obtain ⟨between, hstep, hrest⟩ := Option.bind_eq_some_iff.mp hs
    exact ih (standsOn_step h hstep) hrest

/-- **A block gives back the scope.** -/
theorem scope_run_block (session : Session) {steps : List Step} (h : Step.Balanced steps) :
    (session.run (.push :: (steps ++ [.pop]))).scope = session.scope := by
  have hopen : ((session.step .push).1.run steps).scope.StandsOn session.scope.frames 0 :=
    standsOn_run session.scope.standsOn_push h
  rw [run_cons, run_append, run_cons, run_nil]
  exact step_pop_scope hopen.pop?_eq

/-! ## 4. The result -/

/-- What a declaration is answered depends on the scope alone. -/
theorem declare_answer (session : Session) (declaration : Declaration) :
    (session.declare declaration).2 =
      match (session.scope.declare declaration).2 with
      | .ok declared => .declared declared
      | .error clash => .clash clash := by
  unfold Session.declare
  rcases session.scope.declare declaration with ⟨scope, _ | _⟩ <;> rfl

/-- Whether a function can be declared does not depend on the identity that it gets. -/
theorem declareFunction_clash_iff {signature : Signature} {clash : Clash} :
    (session.step (.declareFunction signature)).2 = .clash clash ↔
      ∃ old, session.scope.current.value? signature.name = some old ∧
        clash = ⟨signature.name, old.kind⟩ := by
  have hs : (session.step (.declareFunction signature)).2 =
      match (session.scope.declare (.symbol (.function ⟨signature, session.fresh⟩))).2 with
      | .ok declared => .declared declared
      | .error clash => .clash clash := declare_answer _ _
  have hb : session.scope.current.bind (.function ⟨signature, session.fresh⟩) = .error clash ↔
      ∃ old, session.scope.current.value? signature.name = some old ∧
        clash = ⟨signature.name, old.kind⟩ := Frame.bind_eq_error_iff
  rw [hs, ← hb, Scope.declare]
  cases session.scope.current.bind (.function ⟨signature, session.fresh⟩) <;> simp

/-- **Blocks leave no trace in the scope.**  After a block in which any steps were taken that leave
the blocks they enter and no others:

* the scope is the one from before, every frame in both namespaces;
* a declaration gets the answer that it would have got, and leads to the same scope, at once or
  after whatever else is done to the scope; a function gets another identity, but clashes alike;
* in the body of any function a phrase gets the answer that it would have got. -/
theorem blocks_leave_no_trace (session : Session) (steps : List Step) (h : Step.Balanced steps) :
    let after := session.run (.push :: (steps ++ [.pop]))
    after.scope = session.scope ∧
    (∀ declaration, (after.step (.declare declaration)).2 =
        (session.step (.declare declaration)).2 ∧
      (after.step (.declare declaration)).1.scope =
        (session.step (.declare declaration)).1.scope) ∧
    (∀ signature clash, (after.step (.declareFunction signature)).2 = .clash clash ↔
      (session.step (.declareFunction signature)).2 = .clash clash) ∧
    (∀ (actions : List Scope.Action) (declaration : Declaration),
      (after.scope.run actions).declare declaration =
        (session.scope.run actions).declare declaration) ∧
    ∀ (body : Function) (phrase : Phrase),
      (({ after with body := body } : Session).step phrase.step).2 =
        (({ session with body := body } : Session).step phrase.step).2 := by
  intro after
  have hscope : after.scope = session.scope := session.scope_run_block h
  refine ⟨hscope, fun declaration => ⟨?_, ?_⟩, fun signature clash => ?_, ?_, ?_⟩
  · show (after.declare declaration).2 = (session.declare declaration).2
    rw [declare_answer, declare_answer, hscope]
  · show (after.declare declaration).1.scope = (session.declare declaration).1.scope
    rw [declare_scope, declare_scope, hscope]
  · rw [declareFunction_clash_iff, declareFunction_clash_iff, hscope]
  · intro actions declaration
    rw [hscope]
  · intro body phrase
    refine answer_phrase_congr ?_ phrase
    simp only [Session.context, hscope]

/-- A block in which `x` is hidden, an enum breaks off at the new `x`, an inner block declares another
`E`, a function is declared and its body marked.  Afterwards `E` can be declared, `x` cannot, and `x`
is what it was. -/
theorem blocks_leave_no_trace_nested :
    let x : Variable := ⟨"x", .int, none⟩
    let session := (Session.initial.step (.declare (.symbol (.var x)))).1
    let read : Phrase := .expr (.node ⟨0, 1⟩ (.name "x"))
    let steps : List Step := [.declare (.symbol (.var ⟨"x", .bool, none⟩)),
      .declare (.enum "E" [("on", 1), ("x", 2)]),
      .push, .declare (.alias "E" .float), .check (.node ⟨0, 1⟩ (.name "x")), .pop,
      .declareFunction ⟨"f", [], .int, none⟩, .enterBound "f", .check (.node ⟨0, 1⟩ .choice)]
    let after := session.run (.push :: (steps ++ [.pop]))
    Step.Balanced steps ∧ after.scope = session.scope ∧
    (after.step (.declare (.enum "E" [("on", 1)]))).2 =
      (session.step (.declare (.enum "E" [("on", 1)]))).2 ∧
    (after.step (.declareFunction ⟨"x", [], .int, none⟩)).2 = .clash ⟨"x", .var⟩ ∧
    (({ after with body := session.body } : Session).step read.step).2 =
      .checked (.ok (.node ⟨0, 1⟩ .int (.var x))) := by
  intro x session read steps after
  have hb : Step.Balanced steps := by decide
  have hclash : (session.step (.declareFunction ⟨"x", [], .int, none⟩)).2 = .clash ⟨"x", .var⟩ :=
    rfl
  obtain ⟨hscope, hdeclare, hfunction, -, hphrase⟩ := blocks_leave_no_trace session steps hb
  refine ⟨hb, hscope, (hdeclare _).1, (hfunction _ _).mpr hclash, ?_⟩
  exact (hphrase session.body read).trans rfl

end Session

end MachineTyping
