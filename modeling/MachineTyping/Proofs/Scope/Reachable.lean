/-
# Reachable scopes

A scope is never written down as a stack of frames.  It starts out as `Scope.initial` and is
changed by entering and leaving blocks and by declaring, whether the declaration succeeds or not
(`Scope.Reachable`, and as a list of actions `Scope.run`).  That keeps an invariant which the type of
scopes does not state:

**every symbol is bound under its own name** (`Scope.OwnNames`).

So a lookup that finds a symbol finds one of the name that was asked for (`Scope.lookup_name`),
and the names that a checked tree carries can be looked up again.

What a step can do is said once.  `Frame.bind_eq_ok_iff` and `Frame.bindType_eq_ok_iff` say it of one
binding, and `Scope.declare_growsBy` of a declaration: some of what is declared is bound in the
current frame, one after the other.  Invariants of frames are derived from them.
-/
import MachineTyping.Scope

namespace MachineTyping

/-! ## 1. What binding does -/

/-- A name can be bound if it is free in the frame, and becomes the latest binding. -/
theorem Frame.bind_eq_ok_iff {frame frame' : Frame} {symbol : Symbol} :
    frame.bind symbol = .ok frame' ↔
      frame.value? symbol.name = none ∧
        frame' = { frame with values := (symbol.name, symbol) :: frame.values } := by
  unfold Frame.bind
  cases frame.value? symbol.name with
  | some old => simp
  | none => simp [eq_comm]

theorem Frame.bindType_eq_ok_iff {frame frame' : Frame} {name : String} {ty : Ty} :
    frame.bindType name ty = .ok frame' ↔
      frame.type? name = none ∧ frame' = { frame with types := (name, ty) :: frame.types } := by
  unfold Frame.bindType
  cases frame.type? name with
  | some old => simp
  | none => simp [eq_comm]

/-- A name that is bound in the frame clashes, with what it is bound to. -/
theorem Frame.bind_eq_error_iff {frame : Frame} {symbol : Symbol} {clash : Clash} :
    frame.bind symbol = .error clash ↔
      ∃ old, frame.value? symbol.name = some old ∧ clash = ⟨symbol.name, old.kind⟩ := by
  unfold Frame.bind
  cases frame.value? symbol.name with
  | some old => simp [eq_comm]
  | none => simp

theorem Frame.bindType_eq_error_iff {frame : Frame} {name : String} {ty : Ty} {clash : Clash} :
    frame.bindType name ty = .error clash ↔
      (∃ old, frame.type? name = some old) ∧ clash = ⟨name, .type⟩ := by
  unfold Frame.bindType
  cases frame.type? name with
  | some old => simp [eq_comm]
  | none => simp

/-! ## 2. What declaring does -/

/-- The symbols that a declaration binds, if no name is taken. -/
def Declaration.symbols : Declaration → List Symbol
  | .symbol s => [s]
  | .enum name elems => elems.map fun elem => .element ⟨elem.1, name, elem.2⟩
  | .alias _ _ => []

/-- The types that a declaration binds, with their names, if no name is taken. -/
def Declaration.typeBindings : Declaration → List (String × Ty)
  | .symbol _ => []
  | .enum name _ => [(name, .enum name)]
  | .alias name target => [(name, .alias name target)]

/-- One frame becomes another by binding some of what is declared, one after the other. -/
inductive Frame.GrowsBy (declaration : Declaration) : Frame → Frame → Prop
  | refl (frame : Frame) : Frame.GrowsBy declaration frame frame
  | bind {frame frame' frame'' : Frame} {symbol : Symbol} :
      symbol ∈ declaration.symbols → frame.bind symbol = .ok frame' →
      Frame.GrowsBy declaration frame' frame'' → Frame.GrowsBy declaration frame frame''
  | bindType {frame frame' frame'' : Frame} {binding : String × Ty} :
      binding ∈ declaration.typeBindings → frame.bindType binding.1 binding.2 = .ok frame' →
      Frame.GrowsBy declaration frame' frame'' → Frame.GrowsBy declaration frame frame''

/-- The elements of an enum are bound one by one, so also those before a clash are in order. -/
theorem Frame.growsBy_bindElements {declaration : Declaration} (enum : String)
    (elems : List (String × Int)) {frame : Frame}
    (h : ∀ elem ∈ elems, .element ⟨elem.1, enum, elem.2⟩ ∈ declaration.symbols) :
    Frame.GrowsBy declaration frame (frame.bindElements enum elems).1 := by
  induction elems generalizing frame with
  | nil => exact .refl frame
  | cons elem elems ih =>
    obtain ⟨hfirst, hrest⟩ := List.forall_mem_cons.mp h
    simp only [Frame.bindElements]
    cases hb : frame.bind (.element ⟨elem.1, enum, elem.2⟩) with
    | ok frame' => exact .bind hfirst hb (ih hrest)
    | error clash => exact .refl frame

/-- **A declaration binds some of what is declared in the current frame**, and does nothing else,
whether it succeeds or not. -/
theorem Scope.declare_growsBy (scope : Scope) (declaration : Declaration) :
    ∃ frame, (scope.declare declaration).1 = { scope with current := frame } ∧
      Frame.GrowsBy declaration scope.current frame := by
  cases declaration with
  | symbol symbol =>
    simp only [Scope.declare]
    cases hb : scope.current.bind symbol with
    | ok frame => exact ⟨frame, rfl, .bind List.mem_cons_self hb (.refl frame)⟩
    | error clash => exact ⟨_, rfl, .refl _⟩
  | enum name elems =>
    simp only [Scope.declare]
    cases hb : scope.current.bindType name (.enum name) with
    | error clash => exact ⟨_, rfl, .refl _⟩
    | ok frame =>
      have he : Frame.GrowsBy (.enum name elems) frame (frame.bindElements name elems).1 :=
        Frame.growsBy_bindElements name elems fun _ => List.mem_map_of_mem
      rcases hbs : frame.bindElements name elems with ⟨frame', clash⟩
      rw [hbs] at he
      simp only [hbs]
      cases clash <;> exact ⟨frame', rfl, .bindType List.mem_cons_self hb he⟩
  | «alias» name target =>
    simp only [Scope.declare]
    cases hb : scope.current.bindType name (.alias name target) with
    | ok frame => exact ⟨frame, rfl, .bindType List.mem_cons_self hb (.refl frame)⟩
    | error clash => exact ⟨_, rfl, .refl _⟩

section Frames

variable {P : Frame → Prop} {scope : Scope}

/-- So what holds of every frame holds after a declaration if binding keeps it. -/
theorem Scope.forall_frames_declare {declaration : Declaration}
    (hg : ∀ {frame frame' : Frame}, Frame.GrowsBy declaration frame frame' → P frame → P frame')
    (h : ∀ frame ∈ scope.frames, P frame) :
    ∀ frame ∈ (scope.declare declaration).1.frames, P frame := by
  obtain ⟨hcurrent, houter⟩ := List.forall_mem_cons.mp h
  obtain ⟨frame, he, hf⟩ := scope.declare_growsBy declaration
  rw [he]
  exact List.forall_mem_cons.mpr ⟨hg hf hcurrent, houter⟩

/-- Entering a block adds a frame without bindings, and leaving it takes one away. -/
theorem Scope.forall_frames_push (he : P .empty) (h : ∀ frame ∈ scope.frames, P frame) :
    ∀ frame ∈ scope.push.frames, P frame :=
  List.forall_mem_cons.mpr ⟨he, h⟩

theorem Scope.forall_frames_pop {scope' : Scope} (hp : scope.pop? = some scope')
    (h : ∀ frame ∈ scope.frames, P frame) : ∀ frame ∈ scope'.frames, P frame := by
  have houter : ∀ frame ∈ scope.outer, P frame := (List.forall_mem_cons.mp h).2
  unfold Scope.pop? at hp
  split at hp
  · cases hp
  · rename_i frame rest ho
    cases hp
    rw [ho] at houter
    exact houter

end Frames

/-! ## 3. Reachable scopes -/

/-- **The scopes that come about.** -/
inductive Scope.Reachable : Scope → Prop
  | initial : Scope.Reachable .initial
  | push {scope : Scope} : scope.Reachable → scope.push.Reachable
  | pop {scope scope' : Scope} :
      scope.Reachable → scope.pop? = some scope' → scope'.Reachable
  /-- What a failed declaration leaves behind is reachable too. -/
  | declare {scope : Scope} (declaration : Declaration) :
      scope.Reachable → (scope.declare declaration).1.Reachable

/-! ## 4. Symbols are bound under their own names -/

/-- Every symbol of a frame is bound under its own name. -/
def Frame.OwnNames (frame : Frame) : Prop := ∀ b ∈ frame.values, b.2.name = b.1

/-- Every symbol of a scope is bound under its own name. -/
def Scope.OwnNames (scope : Scope) : Prop := ∀ frame ∈ scope.frames, frame.OwnNames

theorem Frame.OwnNames.bind {frame frame' : Frame} {symbol : Symbol} (h : frame.OwnNames)
    (hb : frame.bind symbol = .ok frame') : frame'.OwnNames := by
  obtain ⟨-, rfl⟩ := Frame.bind_eq_ok_iff.mp hb
  intro b hb
  rcases List.mem_cons.mp hb with rfl | hb
  · rfl
  · exact h b hb

theorem Frame.OwnNames.bindType {frame frame' : Frame} {name : String} {ty : Ty}
    (h : frame.OwnNames) (hb : frame.bindType name ty = .ok frame') : frame'.OwnNames := by
  obtain ⟨-, rfl⟩ := Frame.bindType_eq_ok_iff.mp hb
  exact h

theorem Frame.OwnNames.growsBy {declaration : Declaration} {frame frame' : Frame}
    (hg : Frame.GrowsBy declaration frame frame') (h : frame.OwnNames) : frame'.OwnNames := by
  induction hg with
  | refl => exact h
  | bind _ hb _ ih => exact ih (h.bind hb)
  | bindType _ hb _ ih => exact ih (h.bindType hb)

/-- **A declaration keeps the invariant**, on success and on failure. -/
theorem Scope.OwnNames.declare {scope : Scope} (h : scope.OwnNames) (declaration : Declaration) :
    (scope.declare declaration).1.OwnNames :=
  Scope.forall_frames_declare Frame.OwnNames.growsBy h

/-- **The invariant holds of every reachable scope.** -/
theorem Scope.Reachable.ownNames {scope : Scope} (h : scope.Reachable) : scope.OwnNames := by
  induction h with
  | initial =>
    intro frame hf b hb
    rw [List.mem_singleton.mp hf] at hb
    rw [List.mem_singleton.mp hb]
    rfl
  | push _ ih => exact Scope.forall_frames_push (List.forall_mem_nil _) ih
  | pop _ hp ih => exact Scope.forall_frames_pop hp ih
  | declare declaration _ ih => exact ih.declare declaration

/-! ## 5. Lookup -/

/-- What a name is looked up to is there, under that name. -/
theorem mem_of_lookup {β : Type} {name : String} {b : β} {bindings : List (String × β)}
    (h : bindings.lookup name = some b) : (name, b) ∈ bindings := by
  obtain ⟨before, after, rfl, -⟩ := List.lookup_eq_some_iff.mp h
  exact List.mem_append_right _ List.mem_cons_self

theorem Frame.OwnNames.value?_name {frame : Frame} (h : frame.OwnNames) {name : String}
    {symbol : Symbol} (hv : frame.value? name = some symbol) : symbol.name = name :=
  h (name, symbol) (mem_of_lookup hv)

/-- **What is found has the name that was looked up.** -/
theorem Scope.OwnNames.lookup_name {scope : Scope} (h : scope.OwnNames) {name : String}
    {symbol : Symbol} (hl : scope.lookup name = some symbol) : symbol.name = name := by
  obtain ⟨frame, hf, hv⟩ := List.exists_of_findSome?_eq_some hl
  exact (h frame hf).value?_name hv

/-- So a symbol that was found under any name is found under its own. -/
theorem Scope.OwnNames.lookup_own {scope : Scope} (h : scope.OwnNames) {name : String}
    {symbol : Symbol} (hl : scope.lookup name = some symbol) :
    scope.lookup symbol.name = some symbol := by
  rw [h.lookup_name hl]
  exact hl

namespace Scope

/-! ## 6. Runs -/

/-- What is done to a scope. -/
inductive Action where
  | push
  | pop
  | declare (declaration : Declaration)

/-- The scope after an action.  An attempt to leave the global frame changes nothing. -/
def act (scope : Scope) : Action → Scope
  | .push => scope.push
  | .pop => scope.pop?.getD scope
  | .declare declaration => (scope.declare declaration).1

/-- The scope after some actions. -/
def run (scope : Scope) (actions : List Action) : Scope := actions.foldl Scope.act scope

@[simp] theorem run_nil (scope : Scope) : scope.run [] = scope := rfl

@[simp] theorem run_cons (scope : Scope) (action : Action) (actions : List Action) :
    scope.run (action :: actions) = (scope.act action).run actions := rfl

theorem Reachable.act {scope : Scope} (h : scope.Reachable) (action : Action) :
    (scope.act action).Reachable := by
  cases action with
  | push => exact h.push
  | pop =>
    cases hp : scope.pop? with
    | none => simpa [Scope.act, hp] using h
    | some scope' => simpa [Scope.act, hp] using h.pop hp
  | declare declaration => exact h.declare declaration

/-- **Runs lead to the reachable scopes.** -/
theorem reachable_iff {scope : Scope} :
    scope.Reachable ↔ ∃ actions, Scope.initial.run actions = scope := by
  constructor
  · have hrun : ∀ (actions : List Action) (action : Action),
        Scope.initial.run (actions ++ [action]) = (Scope.initial.run actions).act action := by
      intro actions action
      simp [Scope.run]
    intro h
    induction h with
    | initial => exact ⟨[], rfl⟩
    | push _ ih =>
      obtain ⟨actions, rfl⟩ := ih
      exact ⟨actions ++ [.push], hrun actions .push⟩
    | pop _ hp ih =>
      obtain ⟨actions, rfl⟩ := ih
      refine ⟨actions ++ [.pop], ?_⟩
      rw [hrun, Scope.act, hp]
      rfl
    | declare declaration _ ih =>
      obtain ⟨actions, rfl⟩ := ih
      exact ⟨actions ++ [.declare declaration], hrun actions (.declare declaration)⟩
  · rintro ⟨actions, rfl⟩
    have hrun : ∀ {scope : Scope}, scope.Reachable → (scope.run actions).Reachable := by
      induction actions with
      | nil => exact id
      | cons action actions ih => exact fun h => ih (h.act action)
    exact hrun .initial

end Scope

end MachineTyping
