/-
# Lookup in terms of history

A scope is made by a run of actions: frames are entered and left, and names are declared.  What a name
is bound to can be said without the stack, by the history of the run (`lookups_follow_history`):

**lookup finds the latest binding of the name that was made in a frame which is still open**, whatever
its kind, and so does the lookup of types.

The history numbers frames as they are entered and never uses a number again.  It only ever grows:
leaving a frame takes nothing out, the frame's number is just no longer among those that are open.
A declaration takes effect unless its frame has the name already; the elements of an enum do so one
by one, and those before a clash stay.

The invariant that carries the proof (`History.Describes`): the entries of open frames, in order, are
the bindings of the stack, frame by frame (`Entries.Match`).  So the latest entry is the innermost
binding, and a name is taken in the history when it is taken in the current frame.  One action
keeps this, and a run does by induction.
-/
import MachineTyping.Proofs.Scope.Declaration
import MachineTyping.Proofs.Scope.Entry
import MachineTyping.Proofs.Tree.Rule

namespace MachineTyping

namespace Scope

/-! ## 1. Histories -/

/-- **What has happened so far**: which frames are open, how many there have been, and every binding
that was made, the latest first. -/
structure History where
  /-- The number of the current frame. -/
  current : Nat
  /-- The numbers of the frames around it. -/
  outer : List Nat
  /-- The number that the next frame gets. -/
  next : Nat
  values : List (Entry Symbol)
  types : List (Entry Ty)

namespace History

/-- The frames that are open, innermost first. -/
def frames (history : History) : List Nat := history.current :: history.outer

/-- At the outset `halt` has been declared in the global frame. -/
def initial : History := ⟨0, [], 1, [⟨0, Event.haltName, .event .halt⟩], []⟩

/-- What a symbol enters in the current frame. -/
def entry (history : History) (symbol : Symbol) : Entry Symbol :=
  ⟨history.current, symbol.name, symbol⟩

/-- What is declared has effect unless its name is taken. -/
def declare (history : History) : Declaration → History
  | .symbol symbol =>
    { history with values := Entries.enter history.values [history.entry symbol] }
  | .enum name elems =>
    if Entries.Taken history.types history.current name then history
    else { history with
      types := ⟨history.current, name, .enum name⟩ :: history.types
      values := Entries.enter history.values
        (elems.map fun elem => history.entry (.element ⟨elem.1, name, elem.2⟩)) }
  | .alias name target =>
    { history with
      types := Entries.enter history.types [⟨history.current, name, .alias name target⟩] }

/-- The history after an action. -/
def act (history : History) : Action → History
  | .push =>
    { history with
      current := history.next, outer := history.frames, next := history.next + 1 }
  | .pop =>
    match history.outer with
    | [] => history
    | frame :: rest => { history with current := frame, outer := rest }
  | .declare declaration => history.declare declaration

/-- The history of a run. -/
def run (history : History) (actions : List Action) : History :=
  actions.foldl History.act history

/-- The declaration can take effect: its names are free in the current frame. -/
def Admits (history : History) : Declaration → Prop
  | .symbol symbol => ¬ Entries.Taken history.values history.current symbol.name
  | .enum name elems =>
    ¬ Entries.Taken history.types history.current name ∧
      (∀ elem ∈ elems, ¬ Entries.Taken history.values history.current elem.1) ∧
      (elems.map Prod.fst).Nodup
  | .alias name _ => ¬ Entries.Taken history.types history.current name

/-- **The latest binding of a value name in a frame that is open.** -/
def value? (history : History) (name : String) : Option Symbol :=
  Entries.latest history.values history.frames name

/-- **The latest binding of a type name in a frame that is open.** -/
def type? (history : History) (name : String) : Option Ty :=
  Entries.latest history.types history.frames name

/-- **The history describes the scope**: entries of open frames are the bindings of the stack, in both
namespaces, and numbers of frames are used once. -/
structure Describes (history : History) (scope : Scope) : Prop where
  values : Entries.Match history.frames history.values (scope.frames.map Frame.values)
  types : Entries.Match history.frames history.types (scope.frames.map Frame.types)
  nodup : history.frames.Nodup
  open_lt : ∀ frame ∈ history.frames, frame < history.next
  values_lt : ∀ entry ∈ history.values, entry.frame < history.next
  types_lt : ∀ entry ∈ history.types, entry.frame < history.next

theorem describes_initial : History.initial.Describes .initial where
  values := ⟨rfl, rfl⟩
  types := ⟨rfl, rfl⟩
  nodup := by decide
  open_lt := by decide
  values_lt := by decide
  types_lt := by decide

/-! ## 2. One action -/

section Bind

variable {frame : Nat} {frames : List Nat} {current current' : Frame}

/-- **A symbol that is bound has an entry now**, and had none before... -/
theorem match_bind {log : List (Entry Symbol)} {stack : List (List (String × Symbol))}
    {symbol : Symbol} (h : Entries.Match (frame :: frames) log (current.values :: stack))
    (hf : frame ∉ frames) (hb : current.bind symbol = .ok current') :
    ¬ Entries.Taken log frame symbol.name ∧
      Entries.Match (frame :: frames) (⟨frame, symbol.name, symbol⟩ :: log)
        (current'.values :: stack) ∧
      current'.types = current.types := by
  obtain ⟨hfree, rfl⟩ := Frame.bind_eq_ok_iff.mp hb
  refine ⟨?_, h.add (symbol.name, symbol), rfl⟩
  rw [h.taken_iff hf]
  exact fun hn => hn hfree

/-- ...and one that clashes had one. -/
theorem taken_of_bind {log : List (Entry Symbol)} {stack : List (List (String × Symbol))}
    {symbol : Symbol} {clash : Clash}
    (h : Entries.Match (frame :: frames) log (current.values :: stack)) (hf : frame ∉ frames)
    (hb : current.bind symbol = .error clash) : Entries.Taken log frame symbol.name := by
  obtain ⟨old, ho, -⟩ := Frame.bind_eq_error_iff.mp hb
  exact (h.taken_iff hf).mpr (Option.ne_none_iff_exists'.mpr ⟨old, ho⟩)

/-- The same for types. -/
theorem match_bindType {log : List (Entry Ty)} {stack : List (List (String × Ty))}
    {name : String} {ty : Ty} (h : Entries.Match (frame :: frames) log (current.types :: stack))
    (hf : frame ∉ frames) (hb : current.bindType name ty = .ok current') :
    ¬ Entries.Taken log frame name ∧
      Entries.Match (frame :: frames) (⟨frame, name, ty⟩ :: log) (current'.types :: stack) ∧
      current'.values = current.values := by
  obtain ⟨hfree, rfl⟩ := Frame.bindType_eq_ok_iff.mp hb
  refine ⟨?_, h.add (name, ty), rfl⟩
  rw [h.taken_iff hf]
  exact fun hn => hn hfree

theorem taken_of_bindType {log : List (Entry Ty)} {stack : List (List (String × Ty))}
    {name : String} {ty : Ty} {clash : Clash}
    (h : Entries.Match (frame :: frames) log (current.types :: stack)) (hf : frame ∉ frames)
    (hb : current.bindType name ty = .error clash) : Entries.Taken log frame name := by
  obtain ⟨ho, -⟩ := Frame.bindType_eq_error_iff.mp hb
  exact (h.taken_iff hf).mpr (Option.ne_none_iff_exists'.mpr ho)

/-- **The elements of an enum** are entered as they are bound: up to the first clash. -/
theorem match_bindElements (enum : String) (elems : List (String × Int))
    {log : List (Entry Symbol)} {stack : List (List (String × Symbol))}
    (h : Entries.Match (frame :: frames) log (current.values :: stack)) (hf : frame ∉ frames) :
    Entries.Match (frame :: frames)
      (Entries.enter log (elems.map fun elem => ⟨frame, elem.1, .element ⟨elem.1, enum, elem.2⟩⟩))
      ((current.bindElements enum elems).1.values :: stack) ∧
    (current.bindElements enum elems).1.types = current.types := by
  induction elems generalizing log current with
  | nil => exact ⟨h, rfl⟩
  | cons elem elems ih =>
    obtain ⟨name, value⟩ := elem
    simp only [List.map_cons, Entries.enter, Frame.bindElements]
    cases hb : current.bind (.element ⟨name, enum, value⟩) with
    | ok current' =>
      obtain ⟨hfree, hm, ht⟩ := match_bind h hf hb
      have hn : ¬ Entries.Taken log frame name := hfree
      rw [if_neg hn]
      obtain ⟨hv, ht'⟩ := ih hm
      exact ⟨hv, ht'.trans ht⟩
    | error clash =>
      have hn : Entries.Taken log frame name := taken_of_bind h hf hb
      rw [if_pos hn]
      exact ⟨h, rfl⟩

end Bind

theorem forall_mem_enter {α : Type} {P : Entry α → Prop} {log entries : List (Entry α)}
    (hl : ∀ entry ∈ log, P entry) (he : ∀ entry ∈ entries, P entry) :
    ∀ entry ∈ Entries.enter log entries, P entry := by
  induction entries generalizing log with
  | nil => exact hl
  | cons entry entries ih =>
    obtain ⟨h, hs⟩ := List.forall_mem_cons.mp he
    rw [Entries.enter]
    split
    · exact hl
    · exact ih (List.forall_mem_cons.mpr ⟨h, hl⟩) hs

/-- One binding is entered if its name is free. -/
theorem enter_singleton {α : Type} {log : List (Entry α)} {entry : Entry α} :
    Entries.enter log [entry] =
      if Entries.Taken log entry.frame entry.name then log else entry :: log := rfl

namespace Describes

variable {history : History} {scope : Scope}

/-- Only the current frame is bound in, and what is entered is of the current frame. -/
theorem rebind (h : history.Describes scope) {current : Frame} {values : List (Entry Symbol)}
    {types : List (Entry Ty)}
    (hv : Entries.Match history.frames values (current.values :: scope.outer.map Frame.values))
    (ht : Entries.Match history.frames types (current.types :: scope.outer.map Frame.types))
    (values_lt : ∀ entry ∈ values, entry.frame < history.next)
    (types_lt : ∀ entry ∈ types, entry.frame < history.next) :
    Describes { history with values := values, types := types }
      { scope with current := current } :=
  { h with values := hv, types := ht, values_lt := values_lt, types_lt := types_lt }

/-- **A declaration** makes the same bindings in the scope and in the history. -/
theorem declare (h : history.Describes scope) (declaration : Declaration) :
    (history.declare declaration).Describes (scope.declare declaration).1 := by
  have hcurrent : history.current < history.next := h.open_lt _ List.mem_cons_self
  have hf : history.current ∉ history.outer := (List.nodup_cons.mp h.nodup).1
  cases declaration with
  | symbol symbol =>
    simp only [Scope.declare, History.declare, enter_singleton]
    cases hb : scope.current.bind symbol with
    | ok current =>
      obtain ⟨hfree, hm, ht⟩ := match_bind h.values hf hb
      have hn : ¬ Entries.Taken history.values (history.entry symbol).frame
        (history.entry symbol).name := hfree
      rw [if_neg hn]
      refine h.rebind hm ?_ (List.forall_mem_cons.mpr ⟨hcurrent, h.values_lt⟩) h.types_lt
      rw [ht]
      exact h.types
    | error clash =>
      have hn : Entries.Taken history.values (history.entry symbol).frame
        (history.entry symbol).name := taken_of_bind h.values hf hb
      rw [if_pos hn]
      exact h
  | enum name elems =>
    cases hb : scope.current.bindType name (.enum name) with
    | ok current =>
      -- the elements are bound in the frame that has the type already
      have hs : (scope.declare (.enum name elems)).1 =
          { scope with current := (current.bindElements name elems).1 } := by
        simp only [Scope.declare, hb]
        rcases current.bindElements name elems with ⟨current', - | clash⟩ <;> rfl
      obtain ⟨hfree, hm, hv⟩ := match_bindType h.types hf hb
      have hvalues : Entries.Match history.frames history.values
          (current.values :: scope.outer.map Frame.values) := by
        rw [hv]
        exact h.values
      obtain ⟨hmv, ht⟩ := match_bindElements name elems hvalues hf
      have hlt : ∀ entry ∈ elems.map fun elem => history.entry (.element ⟨elem.1, name, elem.2⟩),
          entry.frame < history.next := by
        intro entry he
        obtain ⟨elem, -, rfl⟩ := List.mem_map.mp he
        exact hcurrent
      rw [hs, History.declare, if_neg hfree]
      refine h.rebind hmv ?_ (forall_mem_enter h.values_lt hlt)
        (List.forall_mem_cons.mpr ⟨hcurrent, h.types_lt⟩)
      rw [ht]
      exact hm
    | error clash =>
      have hs : (scope.declare (.enum name elems)).1 = scope := by simp only [Scope.declare, hb]
      rw [hs, History.declare, if_pos (taken_of_bindType h.types hf hb)]
      exact h
  | «alias» name target =>
    simp only [Scope.declare, History.declare, enter_singleton]
    cases hb : scope.current.bindType name (.alias name target) with
    | ok current =>
      obtain ⟨hfree, hm, hv⟩ := match_bindType h.types hf hb
      rw [if_neg hfree]
      refine h.rebind ?_ hm h.values_lt (List.forall_mem_cons.mpr ⟨hcurrent, h.types_lt⟩)
      rw [hv]
      exact h.values
    | error clash =>
      rw [if_pos (taken_of_bindType h.types hf hb)]
      exact h

/-- **One action** keeps the history up to date. -/
theorem act (h : history.Describes scope) (action : Action) :
    (history.act action).Describes (scope.act action) := by
  cases action with
  | push =>
    exact {
      values := h.values.push fun entry he => Nat.ne_of_lt (h.values_lt entry he)
      types := h.types.push fun entry he => Nat.ne_of_lt (h.types_lt entry he)
      nodup := List.nodup_cons.mpr ⟨fun hm => Nat.lt_irrefl _ (h.open_lt _ hm), h.nodup⟩
      open_lt := List.forall_mem_cons.mpr
        ⟨Nat.lt_succ_self _, fun frame hm => Nat.lt_succ_of_lt (h.open_lt frame hm)⟩
      values_lt := fun entry he => Nat.lt_succ_of_lt (h.values_lt entry he)
      types_lt := fun entry he => Nat.lt_succ_of_lt (h.types_lt entry he) }
  | pop =>
    have hl := h.values.length
    simp only [History.act, Scope.act, Scope.pop?]
    obtain ⟨current, outer⟩ := scope
    obtain ⟨number, numbers, next, values, types⟩ := history
    cases outer with
    | nil =>
      obtain rfl : numbers = [] := by simpa [History.frames, Scope.frames] using hl
      exact h
    | cons frame outer =>
      cases numbers with
      | nil => simp [History.frames, Scope.frames] at hl
      | cons number' numbers =>
        obtain ⟨hf, hn⟩ := List.nodup_cons.mp h.nodup
        exact {
          values := h.values.pop hf
          types := h.types.pop hf
          nodup := hn
          open_lt := (List.forall_mem_cons.mp h.open_lt).2
          values_lt := h.values_lt
          types_lt := h.types_lt }
  | declare declaration => exact h.declare declaration

/-- **A run** keeps the history up to date. -/
theorem run (h : history.Describes scope) (actions : List Action) :
    (history.run actions).Describes (scope.run actions) := by
  induction actions generalizing history scope with
  | nil => exact h
  | cons action actions ih => exact ih (h.act action)

/-- Lookup is told by the history. -/
theorem lookup_eq (h : history.Describes scope) (name : String) :
    scope.lookup name = history.value? name := by
  rw [History.value?, ← h.values.findSome?_eq, List.findSome?_map]
  rfl

theorem lookupType_eq (h : history.Describes scope) (name : String) :
    scope.lookupType name = history.type? name := by
  rw [History.type?, ← h.types.findSome?_eq, List.findSome?_map]
  rfl

/-- **A declaration succeeds** exactly if the history admits it. -/
theorem declare_ok_iff (h : history.Describes scope) (declaration : Declaration) :
    (∃ declared, (scope.declare declaration).2 = .ok declared) ↔ history.Admits declaration := by
  have hf : history.current ∉ history.outer := (List.nodup_cons.mp h.nodup).1
  have hvalue : ∀ name, Entries.Taken history.values history.current name ↔
      ∃ old, scope.current.value? name = some old := by
    intro name
    rw [← Option.ne_none_iff_exists']
    exact h.values.taken_iff hf
  have htype : ∀ name, Entries.Taken history.types history.current name ↔
      ∃ old, scope.current.type? name = some old := by
    intro name
    rw [← Option.ne_none_iff_exists']
    exact h.types.taken_iff hf
  rw [succeeds_iff]
  cases declaration with
  | symbol symbol => rw [declare_symbol_fails_iff, History.Admits, hvalue]
  | enum name elems =>
    rw [declare_enum_fails_iff, Frame.not_fits_iff]
    simp only [History.Admits, hvalue, htype, not_or, not_not, not_exists, not_and]
  | «alias» name target => rw [declare_alias_fails_iff, History.Admits, htype]

end Describes

/-! ## 3. The namespace of types -/

/-- The history without what was declared of values. -/
def typesOnly (history : History) : History := { history with values := [] }

end History

/-- What an action does to types: it declares no symbol, and enums without elements. -/
def Action.onTypes : Action → Option Action
  | .push => some .push
  | .pop => some .pop
  | .declare (.symbol _) => none
  | .declare (.enum name _) => some (.declare (.enum name []))
  | .declare (.alias name target) => some (.declare (.alias name target))

namespace History

/-- Types are declared without regard to values. -/
theorem typesOnly_act {history history' : History} {action action' : Action}
    (h : history.typesOnly = history'.typesOnly) (ha : action.onTypes = some action') :
    (history.act action).typesOnly = (history'.act action').typesOnly := by
  obtain ⟨current, outer, next, values, types⟩ := history
  obtain ⟨current', outer', next', values', types'⟩ := history'
  simp only [typesOnly, History.mk.injEq] at h
  obtain ⟨rfl, rfl, rfl, -, rfl⟩ := h
  cases action with
  | push =>
    cases ha
    rfl
  | pop =>
    cases ha
    cases outer <;> rfl
  | declare declaration =>
    cases declaration with
    | symbol symbol => cases ha
    | enum name elems =>
      cases ha
      simp only [History.act, History.declare]
      split <;> rfl
    | «alias» name target =>
      cases ha
      rfl

/-- What declares no type leaves the types alone. -/
theorem typesOnly_act_of_none {history : History} {action : Action} (ha : action.onTypes = none) :
    (history.act action).typesOnly = history.typesOnly := by
  cases action with
  | push | pop => cases ha
  | declare declaration =>
    cases declaration with
    | symbol symbol => rfl
    | enum _ _ | «alias» _ _ => cases ha

/-- **Over a run the types are those of the actions on types.** -/
theorem typesOnly_run (actions : List Action) {history history' : History}
    (h : history.typesOnly = history'.typesOnly) :
    (history.run actions).typesOnly =
      (history'.run (actions.filterMap Action.onTypes)).typesOnly := by
  induction actions generalizing history history' with
  | nil => exact h
  | cons action actions ih =>
    cases ha : action.onTypes with
    | none =>
      rw [List.filterMap_cons_none ha]
      exact ih ((typesOnly_act_of_none ha).trans h)
    | some action' =>
      rw [List.filterMap_cons_some ha]
      exact ih (typesOnly_act h ha)

end History

/-! ## 4. The result -/

/-- **Lookups follow history.**  After any run, a name is bound to what it was declared as latest in a
frame that is still open, whatever is declared around it; what was declared is what a declaration
could bind, all of it on success and the elements before a clash of an enum.  Each kind of lookup
finds this binding if it is of its kind, and nothing otherwise.  Types have a history of their own,
in which values do not appear. -/
theorem lookups_follow_history (actions : List Action) (name : String) :
    let scope := Scope.initial.run actions
    let history := History.initial.run actions
    scope.lookup name = history.value? name ∧
    scope.lookupType name = history.type? name ∧
    (∀ v, scope.lookupVar name = some v ↔ history.value? name = some (.var v)) ∧
    (∀ f, scope.lookupFunction name = some f ↔ history.value? name = some (.function f)) ∧
    (∀ m, scope.lookupMachine name = some m ↔ history.value? name = some (.machine m)) ∧
    (∀ e, scope.lookupElement name = some e ↔ history.value? name = some (.element e)) ∧
    (∀ e, scope.lookupEvent name = some e ↔ history.value? name = some (.event e)) ∧
    (∀ declaration, (∃ declared, (scope.declare declaration).2 = .ok declared) ↔
      history.Admits declaration) ∧
    scope.lookupType name =
      (Scope.initial.run (actions.filterMap Action.onTypes)).lookupType name := by
  intro scope history
  have h : history.Describes scope := History.describes_initial.run actions
  have hl : scope.lookup name = history.value? name := h.lookup_eq name
  refine ⟨hl, h.lookupType_eq name, ?_, ?_, ?_, ?_, ?_, h.declare_ok_iff, ?_⟩
  · intro v
    rw [Scope.lookupVar_eq_some_iff, hl]
  · intro f
    rw [Scope.lookupFunction_eq_some_iff, hl]
  · intro m
    rw [Scope.lookupMachine_eq_some_iff, hl]
  · intro e
    rw [Scope.lookupElement_eq_some_iff, hl]
  · intro e
    rw [Scope.lookupEvent_eq_some_iff, hl]
  · have h' := History.describes_initial.run (actions.filterMap Action.onTypes)
    have hrun : (History.initial.run actions).typesOnly = _ := History.typesOnly_run actions rfl
    have ht := congrArg (fun history : History => history.type? name) hrun
    rw [h.lookupType_eq, h'.lookupType_eq]
    exact ht

end Scope

end MachineTyping
